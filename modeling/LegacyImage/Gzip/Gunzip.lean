import LegacyImage.Gzip.Stage
import LegacyImage.Reader

/-!
Reading what a gzip file holds from a source that gives the file piece by piece. Compressed data is
asked for in blocks, the parts of a header and a trailer by their size, and what was given and not
used is kept. Work is done in moves, each of which uses up input, gets further in the format, or
ends the read. No more can ever come out than `potential` says, and what is read lowers it.
-/

namespace LegacyImage.Gzip

inductive ReadFault (ε : Type)
  | source (fault : ε)
  | format (fault : Fault)

/-- A gzip file being read: the source, what it gave and was not used, the place in the format, and
how much of the member at hand was handed out. -/
structure Gunzip (σ : Type) where
  source : σ
  buffer : Bytes
  stage : Stage
  delivered : Nat

namespace Gunzip

def blockSize : Nat := 8192

def start {σ : Type} (source : σ) : Gunzip σ := ⟨source, [], .start, 0⟩

/-- Whether the output that was not handed out is as much as was asked for, so that no further byte
is looked at. A byte that is copied needs room; one that is not is looked at until its output has
none. -/
def isFull (limit : Option Nat) (delivered : Nat) (i : Deflate.Inflater) : Bool :=
  match limit with
  | none => false
  | some n =>
    if i.isCopying then n ≤ i.output.size - delivered else n < i.output.size - delivered

/-- Feeds a block, as far as there is use for it. -/
def inflate (limit : Option Nat) (delivered : Nat) (i : Deflate.Inflater) :
    Bytes → Deflate.Inflater × Bytes
  | [] => (i, [])
  | b :: rest =>
    if i.isOver || isFull limit delivered i then (i, b :: rest)
    else inflate limit delivered (i.feed b) rest

/-- Feeding uses up input, and each byte of it yields so much at most. -/
theorem inflate_le (limit : Option Nat) (delivered : Nat) (i : Deflate.Inflater) (bs : Bytes) :
    (inflate limit delivered i bs).2.length ≤ bs.length ∧
      (inflate limit delivered i bs).1.output.size +
          Deflate.Inflater.maxYield * (inflate limit delivered i bs).2.length ≤
        i.output.size + Deflate.Inflater.maxYield * bs.length := by
  induction bs generalizing i with
  | nil => simp [inflate]
  | cons b rest ih =>
    unfold inflate
    split
    · simp
    · have h₁ := ih (i.feed b)
      have h₂ := i.size_feed_le b
      rw [List.length_cons, Nat.mul_succ]
      omega

inductive Move (σ ε : Type)
  | goOn (next : Gunzip σ)
  | give (piece : Bytes) (next : Gunzip σ)
  | fail (fault : ReadFault ε) (next : Gunzip σ)

variable {σ ε : Type} (src : Reader σ ε)

/-- Whether a block came to more than is asked for. A copy, even one that reaches back too far,
needs room to begin. -/
def overflows (limit : Option Nat) (delivered : Nat) (i : Deflate.Inflater) : Bool :=
  let pending := i.output.size - delivered
  limit.any fun n => n < pending || n = pending && i.reachesTooFar

/-- Hands out what a block came to: no more than the limit, and the end of the data only when all
before it is handed out. A fault takes the place of what came out before it. -/
def handOut (limit : Option Nat) (source : σ) (delivered size : Nat)
    (inflated : Deflate.Inflater × Bytes) : Move σ ε :=
  let (i, rest) := inflated
  let pending := i.output.size - delivered
  if overflows limit delivered i then
    let n := limit.getD 0
    .give (i.output.extract delivered (delivered + n)).toList
      ⟨source, rest, .body i, delivered + n⟩
  else match i.phase with
    | .failed fault => .fail (.format (.data fault)) ⟨source, [], .body i, i.output.size⟩
    | .done =>
      let next : Gunzip σ := ⟨source, rest, .trailer i.output [], 0⟩
      if pending = 0 then .goOn next
      else .give (i.output.extract delivered i.output.size).toList next
    | _ =>
      let next : Gunzip σ := ⟨source, rest, .body i, i.output.size⟩
      if 0 < pending then .give (i.output.extract delivered i.output.size).toList next
      else if rest.length < size then .goOn next
      else .fail (.format .truncated) next

/-- Moves on in compressed data: what is kept is filled up to a block and fed. -/
def moveInBody (limit : Option Nat) (source : σ) (buffer : Bytes) (delivered : Nat)
    (i : Deflate.Inflater) : Move σ ε :=
  match src.read (blockSize - buffer.length : Nat) source with
  | (.error e, source) => .fail (.source e) ⟨source, [], .body i, delivered⟩
  | (.ok more, source) =>
    let block := buffer ++ more
    handOut limit source delivered block.length (inflate limit delivered i block)

def takeByte (source : σ) (stage : Stage) (b : UInt8) (rest : Bytes) : Move σ ε :=
  match stage.step b with
  | .ok next => .goOn ⟨source, rest, next, 0⟩
  | .error fault => .fail (.format fault) ⟨source, rest, stage.resume, 0⟩

/-- The end of the file outside compressed data. A name or comment that is not ended runs up to
here. -/
def atEnd (source : σ) : Stage → Move σ ε
  | .start | .padding => .give [] ⟨source, [], .start, 0⟩
  | .magic first => .fail (.format (.notGzip [first])) ⟨source, [], .start, 0⟩
  | .name flags => .goOn ⟨source, [], .afterName flags, 0⟩
  | .comment flags => .goOn ⟨source, [], .afterComment flags, 0⟩
  | stage => .fail (.format .truncated) ⟨source, [], stage.resume, 0⟩

/-- Moves on outside compressed data. The two bytes that begin a file must come together. -/
def moveOutside (g : Gunzip σ) : Move σ ε :=
  match g.buffer with
  | b :: rest => takeByte g.source g.stage b rest
  | [] =>
    match src.read g.stage.wanted g.source with
    | (.error e, source) => .fail (.source e) ⟨source, [], g.stage.resume, 0⟩
    | (.ok [], source) => atEnd source g.stage
    | (.ok (b :: rest), source) =>
      match g.stage, rest with
      | .start, [] => .fail (.format (.notGzip [b])) ⟨source, [], .start, 0⟩
      | stage, rest => takeByte source stage b rest

def move (limit : Option Nat) (g : Gunzip σ) : Move σ ε :=
  match g with
  | ⟨source, buffer, .body i, delivered⟩ => moveInBody src limit source buffer delivered i
  | g => moveOutside src g

/-! ## How far a read has come -/

def input (g : Gunzip σ) : Nat := src.remaining g.source + g.buffer.length

/-- The output that is there and was not handed out. -/
def pending (g : Gunzip σ) : Nat := g.stage.outputSize - g.delivered

/-- How many stages may follow without input. -/
def weight : Stage → Nat
  | .name _ => 5
  | .comment _ => 4
  | .headerCheck _ => 3
  | .body _ => 2
  | .trailer .. => 1
  | _ => 0

theorem weight_le (stage : Stage) : weight stage ≤ 5 := by
  cases stage <;> simp [weight]

/-- How far a read may still go: the input counts more than any stage. -/
def distance (g : Gunzip σ) : Nat := 6 * input src g + weight g.stage

/-- The most that may still come out. -/
def potential (g : Gunzip σ) : Nat := Deflate.Inflater.maxYield * input src g + g.pending

theorem weight_afterComment (flags : Flags) : weight (.afterComment flags) < 4 := by
  unfold Stage.afterComment
  split <;> simp [weight]

theorem weight_afterName (flags : Flags) : weight (.afterName flags) < 5 := by
  unfold Stage.afterName
  split
  · simp [weight]
  · have := weight_afterComment flags
    omega

/-- A move that goes on comes nearer to the end of the read, and adds nothing to what may come
out. -/
def Advances (g g' : Gunzip σ) : Prop :=
  potential src g' ≤ potential src g ∧ distance src g' < distance src g

/-- Using up input pays for any stage, and for what a byte can yield. -/
theorem advances_of_input_lt {g g' : Gunzip σ} (hi : input src g' < input src g)
    (hp : g'.pending ≤ g.pending + Deflate.Inflater.maxYield) : Advances src g g' := by
  have := weight_le g'.stage
  simp only [Advances, potential, distance, Deflate.Inflater.maxYield, Deflate.Inflater.maxCopy]
    at *
  omega

theorem advances_of_weight_lt {g g' : Gunzip σ} (hi : input src g' ≤ input src g)
    (hp : g'.pending ≤ g.pending) (hw : weight g'.stage < weight g.stage) :
    Advances src g g' := by
  simp only [Advances, potential, distance, Deflate.Inflater.maxYield, Deflate.Inflater.maxCopy]
  omega

/-- What a move owes: going on advances, and what is given takes as much from what may come out. -/
def Move.Sound (g : Gunzip σ) : Move σ ε → Prop
  | .goOn g' => Advances src g g'
  | .give piece g' => potential src g' + piece.length ≤ potential src g
  | .fail .. => True

theorem takeByte_sound (g : Gunzip σ) (source : σ) (stage : Stage) (b : UInt8) (rest : Bytes)
    (hs : stage.outputSize = 0) (hi : src.remaining source + rest.length < input src g) :
    (takeByte (ε := ε) source stage b rest).Sound src g := by
  unfold takeByte
  split
  · rename_i next hstep
    refine advances_of_input_lt src hi ?_
    have := Stage.outputSize_step_le hstep
    simp only [pending]
    omega
  · trivial

theorem atEnd_sound (g : Gunzip σ) (source : σ)
    (h : src.remaining source ≤ input src g) : (atEnd (ε := ε) source g.stage).Sound src g := by
  have given : ∀ stage : Stage, stage.outputSize = 0 →
      potential src ⟨source, [], stage, 0⟩ ≤ potential src g := by
    intro stage hs
    simp only [potential, pending, hs, input, List.length_nil, Deflate.Inflater.maxYield,
      Deflate.Inflater.maxCopy] at *
    omega
  unfold atEnd
  split
  · exact given .start rfl
  · exact given .start rfl
  · trivial
  · rename_i flags hs
    refine advances_of_weight_lt src h ?_ ?_
    · simp [pending, Stage.outputSize_afterName]
    · rw [hs]
      exact weight_afterName flags
  · rename_i flags hs
    refine advances_of_weight_lt src h ?_ ?_
    · simp [pending, Stage.outputSize_afterComment]
    · rw [hs]
      exact weight_afterComment flags
  · trivial

theorem moveOutside_sound (g : Gunzip σ) (hs : g.stage.outputSize = 0) :
    (moveOutside src g).Sound src g := by
  unfold moveOutside
  split
  · rename_i b rest hb
    exact takeByte_sound src g _ _ b rest hs (by simp [input, hb])
  · rename_i hb
    split
    · trivial
    · rename_i source hr
      have := src.remaining_read hr
      exact atEnd_sound src g source (by simp [input, hb] at this ⊢; omega)
    · rename_i b rest source hr
      have hle := src.remaining_read hr
      simp only [List.length_cons] at hle
      split
      · trivial
      · exact takeByte_sound src g source _ b _ hs (by simp [input, hb]; omega)

theorem handOut_sound (limit : Option Nat) (g : Gunzip σ) (i : Deflate.Inflater) (source : σ)
    (block : Bytes) (hs : g.stage = .body i)
    (hb : src.remaining source + block.length ≤ input src g) :
    (handOut (ε := ε) limit source g.delivered block.length
      (inflate limit g.delivered i block)).Sound src g := by
  have hle := inflate_le limit g.delivered i block
  generalize inflate limit g.delivered i block = inflated at hle
  obtain ⟨i', rest⟩ := inflated
  obtain ⟨hlen, hsize⟩ := hle
  simp only at hlen hsize
  have hpend : g.pending = i.output.size - g.delivered := by simp [pending, hs, Stage.outputSize]
  have given : ∀ (g' : Gunzip σ) (count : Nat), g'.source = source → g'.buffer = rest →
      g'.pending + count ≤ i'.output.size - g.delivered →
      potential src g' + count ≤ potential src g := by
    intro g' count h₁ h₂ h₃
    simp only [potential, input, h₁, h₂, Deflate.Inflater.maxYield, Deflate.Inflater.maxCopy] at *
    omega
  simp only [handOut]
  split
  · rename_i hl
    apply given <;> simp [pending, Stage.outputSize]
    cases limit with
    | none => simp [overflows] at hl
    | some n =>
      simp [overflows] at hl ⊢
      omega
  · split
    · trivial
    · split
      · refine advances_of_weight_lt src ?_ ?_ ?_
        · simp only [input] at *
          omega
        · simp [pending, Stage.outputSize]
        · simp [hs, weight]
      · apply given <;> simp [pending, Stage.outputSize]
    · split
      · apply given <;> simp [pending, Stage.outputSize]
      · split
        · apply advances_of_input_lt
          · simp only [input] at *
            omega
          · simp [pending, Stage.outputSize]
        · trivial

theorem move_sound (limit : Option Nat) (g : Gunzip σ) : (move src limit g).Sound src g := by
  unfold move
  split
  · rename_i source buffer i delivered
    unfold moveInBody
    split
    · trivial
    · rename_i more source' hr
      have hle := src.remaining_read hr
      exact handOut_sound src limit ⟨source, buffer, .body i, delivered⟩ i source' _ rfl
        (by simp [input]; omega)
  · rename_i hne
    refine moveOutside_sound src g ?_
    obtain ⟨source, buffer, stage, delivered⟩ := g
    cases stage with
    | body i => exact absurd rfl (hne source buffer i delivered)
    | _ => rfl

/-- Reads the next piece, which is empty only at the end of the file. A limit bounds its size. -/
def read (limit : Option Nat) (g : Gunzip σ) : Except (ReadFault ε) Bytes × Gunzip σ :=
  match _h : move src limit g with
  | .goOn g' => read limit g'
  | .give piece g' => (.ok piece, g')
  | .fail fault g' => (.error fault, g')
termination_by distance src g
decreasing_by
  have := move_sound src limit g
  rw [_h] at this
  exact this.2

/-- What is read lowers what may still come out. -/
theorem potential_read {limit : Option Nat} {g g' : Gunzip σ} {piece : Bytes}
    (h : read src limit g = (.ok piece, g')) :
    potential src g' + piece.length ≤ potential src g := by
  fun_induction read src limit g with
  | case1 g g₁ hm ih =>
    have hs := move_sound src limit g
    rw [hm] at hs
    have := ih h
    have := hs.1
    omega
  | case2 g p g₁ hm =>
    have hs := move_sound src limit g
    rw [hm] at hs
    cases h
    exact hs
  | case3 => cases h

end Gunzip

end LegacyImage.Gzip
