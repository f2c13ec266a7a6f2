import LegacyImage.Proofs.Reader.View
import LegacyImage.Store.OpenBlob

/-!
What is still to come from an open blob. A stream in memory gives all that is left of its content,
unless it is set to give nothing at a time, and fails if its failure lies before the end or at it. A
file gives what was read ahead and all that lies beyond. Both give it in pieces of any size.
-/

namespace LegacyImage

namespace PieceSize

/-- A size for which there is room is a word. -/
theorem lt_wordBound [Room] {size : Int} (h : size < Room.bound) : size < wordBound := by
  have hmax := Room.bound_le
  unfold maxLength wordBound at hmax
  unfold wordBound
  omega

theorem fault?_of_lt [Room] {size : Int} (hn : 0 ≤ size) (h : size < Room.bound) :
    fault? size = none := by
  have hw : isWord size = true := by
    unfold isWord
    rw [Bool.and_eq_true, decide_eq_true_eq, decide_eq_true_eq]
    exact ⟨Int.le_trans (Int.neg_nonpos_of_nonneg (Int.natCast_nonneg _)) hn, lt_wordBound h⟩
  rw [fault?, if_pos hw, if_neg (by omega)]

theorem roomFault?_of_lt [Room] {n : Nat} (h : n < Room.bound) : roomFault? n = none := by
  have hmax : ¬ maxLength < n := by
    have hbound := Room.bound_le
    omega
  rw [roomFault?, if_neg hmax, if_neg (Nat.not_le.mpr h)]

theorem exists_roomFault? [Room] {n : Nat} (h : Room.bound ≤ n) :
    ∃ fault, roomFault? n = some fault := by
  unfold roomFault?
  rw [if_pos h]
  split <;> exact ⟨_, rfl⟩

end PieceSize

/-! ## Streams in memory -/

namespace Stream

/-- What a stream gives until its end: all that is left, or nothing if it gives nothing at a
time. -/
def held (s : Stream) : Bytes := if s.maxRead = some 0 then [] else s.rest

/-- Whether an open stream gives all it holds and its end before it fails. -/
def IsSound (s : Stream) : Prop :=
  s.closed = false ∧ ∀ p, s.failAt = some p → s.position + s.held.length < p

/-- What a read that gives something has come past, and what it leaves as it was. -/
theorem read_eq_ok {size : Int} {s s' : Stream} {piece : Bytes}
    (h : s.read size = (.ok piece, s')) :
    s.closed = false ∧ (s'.closed = false ∧ s'.failAt = s.failAt ∧ s'.maxRead = s.maxRead) ∧
      (size ≠ 0 → (∀ p, s.failAt = some p → s.position < p) ∧ piece = s.piece size) := by
  unfold read at h
  split at h
  · cases h
  rename_i hc
  have hclosed : s.closed = false := by simpa using hc
  split at h
  · rename_i hz
    cases h
    refine ⟨hclosed, ⟨hclosed, rfl, rfl⟩, ?_⟩
    intro hn
    exact absurd hz hn
  split at h
  · cases h
  rename_i hf
  split at h
  · cases h
  · cases h
    refine ⟨hclosed, ⟨hclosed, rfl, rfl⟩, ?_⟩
    intro _
    refine ⟨?_, rfl⟩
    intro p hp
    simpa [hp] using hf

theorem toNat_mem_bounds {size : Int} (hn : 0 ≤ size) (s : Stream) :
    size.toNat ∈ s.bounds size := by
  simp only [bounds, if_neg (Int.not_lt.mpr hn), List.mem_append, List.mem_singleton, true_or]

/-- The next piece is as long as one of the bounds, or all that is left. -/
theorem piece_eq_take {size : Int} (hn : 0 ≤ size) (s : Stream) :
    ∃ m ∈ s.bounds size, s.piece size = s.rest.take m ∧ ∀ k ∈ s.bounds size, m ≤ k := by
  have hmem := toNat_mem_bounds hn s
  unfold piece
  cases hm : (s.bounds size).min? with
  | none => simp [List.min?_eq_none_iff.mp hm] at hmem
  | some m =>
    obtain ⟨hmin, hle⟩ := List.min?_eq_some_iff.mp hm
    exact ⟨m, hmin, rfl, hle⟩

theorem piece_eq_nil_of_maxRead {size : Int} (hn : 0 ≤ size) {s : Stream}
    (h : s.maxRead = some 0) : s.piece size = [] := by
  obtain ⟨m, -, hp, hle⟩ := s.piece_eq_take hn
  have h0 : m ≤ 0 := hle 0 (by simp [bounds, h])
  rw [hp, Nat.le_zero.mp h0, List.take_zero]

/-- A stream that could give a byte gives one. -/
theorem rest_eq_nil_of_piece {size : Int} {s : Stream} (hn : size ≠ 0)
    (hfail : ∀ p, s.failAt = some p → s.position < p) (hmax : s.maxRead ≠ some 0)
    (h : s.piece size = []) : s.rest = [] := by
  have hpos : ∀ m ∈ s.bounds size, 0 < m := by
    intro m hm
    simp only [bounds, List.mem_append, Option.mem_toList, Option.map_eq_some_iff] at hm
    rcases hm with (hm | hm) | ⟨p, hf, rfl⟩
    · split at hm
      · cases hm
      · rw [List.mem_singleton] at hm
        omega
    · refine Nat.pos_of_ne_zero fun h0 => hmax ?_
      rw [hm, h0]
    · have := hfail p hf
      omega
  unfold piece at h
  cases hmin : (s.bounds size).min? with
  | none =>
    rw [hmin] at h
    exact h
  | some m =>
    have hm := hpos m (List.min?_eq_some_iff.mp hmin).1
    rw [hmin] at h
    exact (List.take_eq_nil_iff.mp h).resolve_left (Nat.ne_of_gt hm)

theorem held_read {size : Int} (hn : 0 ≤ size) {s s' : Stream} {piece : Bytes}
    (h : s.read size = (.ok piece, s')) :
    s.held = piece ++ s'.held ∧ (s.IsSound ↔ s'.IsSound) := by
  obtain ⟨hc, ⟨hc', hf, hm⟩, hpiece⟩ := read_eq_ok h
  obtain ⟨hrest, hpos⟩ := rest_read h
  have hheld : s.held = piece ++ s'.held := by
    unfold held
    rw [hm]
    split
    · rename_i h0
      rcases Int.lt_or_eq_of_le hn with hpos | rfl
      · rw [(hpiece (Int.ne_of_gt hpos)).2, piece_eq_nil_of_maxRead hn h0, List.append_nil]
      · have e : piece = [] := by
          simp only [read, hc] at h
          exact (Except.ok.inj (Prod.mk.inj h).1).symm
        rw [e, List.append_nil]
    · exact hrest.symm
  have hlen : s'.position + s'.held.length = s.position + s.held.length := by
    rw [hheld, hpos, List.length_append, Nat.add_assoc]
  refine ⟨hheld, ?_⟩
  simp only [IsSound, hc, hc', hf, hlen]

theorem held_of_end {size : Int} {s s' : Stream} (hn : 0 < size)
    (h : s.read size = (.ok [], s')) : s.held = [] ∧ s.IsSound := by
  obtain ⟨hc, -, hpiece⟩ := read_eq_ok h
  obtain ⟨hfail, hp⟩ := hpiece (Int.ne_of_gt hn)
  have hheld : s.held = [] := by
    unfold held
    split
    · rfl
    · rename_i hmax
      exact rest_eq_nil_of_piece (Int.ne_of_gt hn) hfail hmax hp.symm
  refine ⟨hheld, hc, ?_⟩
  intro p hf
  simpa [hheld] using hfail p hf

theorem exceedsWords_of_lt {size : Int} (hn : 0 ≤ size) (hword : size < PieceSize.wordBound)
    (s : Stream) : s.exceedsWords size = false := by
  unfold exceedsWords
  cases hmin : (s.bounds size).min? with
  | none => rfl
  | some m =>
    have hle := (List.min?_eq_some_iff.mp hmin).2 _ (toNat_mem_bounds hn s)
    rw [Option.any_some, decide_eq_false_iff_not]
    omega

/-- An open stream that has not come to its failure gives a piece of every size that is a word. -/
theorem read_of_open {size : Int} {s : Stream} (hopen : s.closed = false)
    (hfail : ∀ p, s.failAt = some p → s.position < p) (hwords : s.exceedsWords size = false) :
    ∃ piece s', s.read size = (.ok piece, s') := by
  have hreset : s.failAt.any (· ≤ s.position) = false := by
    cases hf : s.failAt with
    | none => rfl
    | some p =>
      have := hfail p hf
      simp only [Option.any_some, decide_eq_false_iff_not]
      omega
  unfold read
  rw [if_neg (by simp [hopen])]
  split
  · exact ⟨_, _, rfl⟩
  · rw [if_neg (by simp [hreset]), if_neg (by simp [hwords])]
    exact ⟨_, _, rfl⟩

theorem read_of_isSound [Room] {size : Int} {s : Stream} (hn : 0 ≤ size)
    (hroom : size < Room.bound) (hs : s.IsSound) :
    ∃ piece s', s.read size = (.ok piece, s') := by
  refine read_of_open hs.1 ?_ (exceedsWords_of_lt hn (PieceSize.lt_wordBound hroom) s)
  intro p hp
  have := hs.2 p hp
  omega

end Stream

/-! ## Files -/

namespace OpenFile

/-- What a file with this content gives until its end. -/
def held (content : Bytes) (f : OpenFile) : Bytes := f.ahead ++ content.drop f.offset

end OpenFile

namespace OpenBlob

theorem le_wholeBlocks (n : Nat) : n ≤ wholeBlocks n := by
  unfold wholeBlocks blockSize
  omega

theorem held_readFile [Room] {content : Bytes} {size : Int} (hn : 0 ≤ size) {f f' : OpenFile}
    {piece : Bytes} (h : readFile content size f = (.ok piece, f')) :
    f.closed = false ∧ f'.closed = false ∧ f.held content = piece ++ f'.held content ∧
      (0 < size → piece = [] → f.held content = []) := by
  unfold readFile at h
  split at h
  · cases h
  split at h
  · cases h
  rename_i hc
  have hclosed : f.closed = false := by simpa using hc
  rw [if_neg (by omega)] at h
  dsimp only at h
  split at h
  · rename_i hlen
    cases h
    refine ⟨hclosed, hclosed, ?_, ?_⟩
    · unfold OpenFile.held
      rw [← List.append_assoc, List.take_append_drop]
    · intro hpos he
      rw [he, List.length_nil] at hlen
      omega
  rename_i hlen
  split at h
  · cases h
  · cases h
    generalize hmissing : size.toNat - f.ahead.length = missing
    have hpos : 0 < missing := by
      rw [List.length_take] at hlen
      omega
    have hbeyond : content.drop f.offset =
        (content.drop f.offset).take (wholeBlocks missing) ++
          content.drop (f.offset + ((content.drop f.offset).take (wholeBlocks missing)).length) := by
      rw [← List.drop_drop]
      exact List.prefix_iff_eq_append.mp (List.take_prefix _ _) |>.symm
    refine ⟨hclosed, hclosed, ?_, ?_⟩
    · unfold OpenFile.held
      dsimp only
      rw [List.append_assoc, ← List.append_assoc _ (List.drop missing _), List.take_append_drop,
        ← hbeyond]
    · intro _ he
      obtain ⟨hahead, hmore⟩ := List.append_eq_nil_iff.mp he
      rw [List.take_take, Nat.min_eq_left (le_wholeBlocks missing), List.take_eq_nil_iff] at hmore
      rw [OpenFile.held, hahead, hmore.resolve_left (by omega), List.append_nil]

theorem readFile_of_open [Room] (content : Bytes) {size : Int} (hn : 0 ≤ size)
    (hroom : size < Room.bound) {f : OpenFile} (hc : f.closed = false) :
    ∃ piece f', readFile content size f = (.ok piece, f') := by
  unfold readFile
  rw [PieceSize.fault?_of_lt hn hroom]
  dsimp only
  rw [if_neg (by simp [hc]), if_neg (by omega)]
  split
  · exact ⟨_, _, rfl⟩
  · rw [PieceSize.roomFault?_of_lt (by omega)]
    exact ⟨_, _, rfl⟩

/-- What an open blob gives until its end. -/
def held (tree : Tree) : OpenBlob → Bytes
  | .memory s => s.held
  | .file f => f.held (contentOf tree f)

/-- Whether an open blob gives all it holds and its end without a fault. -/
def IsSound : OpenBlob → Prop
  | .memory s => s.IsSound
  | .file f => f.closed = false

/-! ## The view -/

theorem held_read [Room] (tree : Tree) {size : Int} (hn : 0 ≤ size) {b b' : OpenBlob}
    {piece : Bytes} (h : b.read tree size = (.ok piece, b')) :
    b.held tree = piece ++ b'.held tree ∧ (b.IsSound ↔ b'.IsSound) := by
  cases b with
  | memory s =>
    unfold read at h
    dsimp only at h
    split at h
    · rename_i piece' s' hr
      cases h
      exact Stream.held_read hn hr
    · cases h
  | file f =>
    unfold read at h
    dsimp only at h
    split at h
    · rename_i piece' f' hr
      cases h
      obtain ⟨hc, hc', hheld, -⟩ := held_readFile hn hr
      have hcontent : contentOf tree f' = contentOf tree f := by
        unfold contentOf
        rw [(length_readFile hr).1]
      refine ⟨?_, by simp only [IsSound, hc, hc']⟩
      rw [held, held, hcontent]
      exact hheld
    · cases h

theorem held_of_end [Room] (tree : Tree) {size : Int} {b b' : OpenBlob} (hn : 0 < size)
    (h : b.read tree size = (.ok [], b')) : b.held tree = [] ∧ b.IsSound := by
  cases b with
  | memory s =>
    unfold read at h
    dsimp only at h
    split at h
    · rename_i piece' s' hr
      cases h
      exact Stream.held_of_end hn hr
    · cases h
  | file f =>
    unfold read at h
    dsimp only at h
    split at h
    · rename_i piece' f' hr
      cases h
      obtain ⟨hc, -, -, hend⟩ := held_readFile (Int.le_of_lt hn) hr
      exact ⟨hend hn rfl, hc⟩
    · cases h

theorem read_of_isSound [Room] (tree : Tree) {size : Int} {b : OpenBlob} (hn : 0 ≤ size)
    (hroom : size < Room.bound) (hb : b.IsSound) :
    ∃ piece b', b.read tree size = (.ok piece, b') := by
  cases b with
  | memory s =>
    obtain ⟨piece, s', hr⟩ := Stream.read_of_isSound hn hroom hb
    exact ⟨piece, .memory s', by simp only [read, hr]⟩
  | file f =>
    obtain ⟨piece, f', hr⟩ := readFile_of_open (contentOf tree f) hn hroom hb
    exact ⟨piece, .file f', by simp only [read, hr]⟩

/-- Nothing can be wrong with the bytes of a blob themselves. -/
def view [Room] (tree : Tree) : (reader tree).View Empty where
  ahead b := .ok (b.held tree)
  Valid _ := True
  Sound b := b.IsSound
  told := Empty.elim
  split hn _ h := by
    obtain ⟨hheld, hsound⟩ := held_read tree hn h
    exact ⟨trivial, by rw [hheld]; rfl, hsound⟩
  ended hn _ h := by
    obtain ⟨hheld, hsound⟩ := held_of_end tree hn h
    exact ⟨by rw [hheld], hsound⟩
  fault hn hroom _ hb h := by
    obtain ⟨piece, b', hr⟩ := read_of_isSound tree hn hroom hb
    cases hr.symm.trans h

theorem data_view [Room] (tree : Tree) (b : OpenBlob) : (view tree).data b = b.held tree := rfl

end OpenBlob

end LegacyImage
