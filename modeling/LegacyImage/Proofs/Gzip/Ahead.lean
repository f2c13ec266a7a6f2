import LegacyImage.Gzip.Gunzip
import LegacyImage.Proofs.Gzip.Remainder

/-!
What is still to come from a gzip file being read: what the file holds from its stage on, for what
is kept of the input and all the source will give, without what was handed out. Every move keeps
it, up to the piece that it gives (`move_keeps`), so a read of any size takes its piece from the
front, and fails only with what is wrong with the file. The one other way to fail is a source that
gives the first byte alone.
-/

namespace LegacyImage.Gzip.Gunzip

/-! ## Compressed data -/

section Inflating

variable (limit : Option Nat) (delivered : Nat) (i : Deflate.Inflater)

theorem prefix_inflate (block : Bytes) :
    i.output.toList <+: (inflate limit delivered i block).1.output.toList := by
  induction block generalizing i with
  | nil => exact List.prefix_rfl
  | cons b rest ih =>
    unfold inflate
    split
    · exact List.prefix_rfl
    · exact (i.prefix_feed b).trans (ih _)

/-- Feeding a part of a block changes nothing about what the whole holds. -/
theorem content_inflate (block more : Bytes) :
    (Stage.ofInflater (inflate limit delivered i block).1).bind
        (·.content ((inflate limit delivered i block).2 ++ more)) =
      (Stage.ofInflater i).bind (·.content (block ++ more)) := by
  induction block generalizing i with
  | nil => rfl
  | cons b rest ih =>
    unfold inflate
    split
    · rfl
    rename_i hgo
    have hover : i.isOver = false := by
      cases h : i.isOver
      · rfl
      · exact absurd (by rw [h, Bool.true_or]) hgo
    have hbody : Stage.ofInflater i = .ok (.body i) := by
      unfold Deflate.Inflater.isOver at hover
      unfold Stage.ofInflater
      split <;> simp_all
    rw [ih, hbody]
    change _ = Stage.content (.body i) (b :: (rest ++ more))
    cases hs : (Stage.body i).step b with
    | error f =>
      rw [Stage.content_cons_error hs]
      change Stage.ofInflater (i.feed b) = .error f at hs
      rw [hs]
      rfl
    | ok next =>
      rw [Stage.content_cons_ok hs]
      change Stage.ofInflater (i.feed b) = .ok next at hs
      rw [hs]
      exact (map_nil_append _).symm

/-- A block that is there is used, unless the data is over or enough has come out. -/
theorem inflate_cases (block : Bytes) :
    (inflate limit delivered i block).2.length < block.length ∨
      inflate limit delivered i block = (i, block) ∧
        (block = [] ∨ i.isOver = true ∨ isFull limit delivered i = true) := by
  cases block with
  | nil => exact Or.inr ⟨rfl, Or.inl rfl⟩
  | cons b rest =>
    unfold inflate
    split
    · rename_i hstop
      exact Or.inr ⟨rfl, Or.inr (Bool.or_eq_true _ _ ▸ hstop)⟩
    · exact Or.inl (Nat.lt_succ_of_le (inflate_le limit delivered (i.feed b) rest).1)

end Inflating

/-- What was found to come first is taken from the front. -/
theorem map_drop_eq {e : Except Fault Bytes} {out : Bytes} {a b : Nat} (hab : a ≤ b)
    (hb : b ≤ out.length) (hout : ∀ total, e = .ok total → out <+: total) :
    e.map (·.drop a) = (e.map (·.drop b)).map ((out.drop a).take (b - a) ++ ·) := by
  cases e with
  | error f => rfl
  | ok total =>
    obtain ⟨beyond, rfl⟩ := hout total rfl
    have hfront : ((out ++ beyond).drop a).take (b - a) = (out.drop a).take (b - a) := by
      rw [List.drop_append_of_le_length (by omega), List.take_append_of_le_length]
      rw [List.length_drop]
      omega
    have hback : ((out ++ beyond).drop a).drop (b - a) = (out ++ beyond).drop b := by
      rw [List.drop_drop, Nat.add_sub_cancel' hab]
    have hwhole := List.take_append_drop (b - a) ((out ++ beyond).drop a)
    rw [hfront, hback] at hwhole
    exact congrArg Except.ok hwhole.symm

/-! ## What is still to come -/

/-- The stage that is reached without further bytes: compressed data may be over. -/
def reached : Stage → Except Fault Stage
  | .body i => Stage.ofInflater i
  | stage => .ok stage

variable [Room] {σ ε : Type} {src : Reader σ ε} (v : src.View Empty)

/-- What is still to come from a file, or what is wrong with it. -/
def ahead (g : Gunzip σ) : Except Fault Bytes :=
  ((reached g.stage).bind (·.content (g.buffer ++ v.data g.source))).map
    (·.drop (g.delivered + g.stage.owed))

/-- Whether the two bytes that begin a file do not come together. -/
def StartsShort (src : Reader σ ε) (g : Gunzip σ) : Prop :=
  g.stage = .start ∧ g.buffer = [] ∧ ∃ b, (src.read 2 g.source).1 = .ok [b]

/-- Whether only the format can make a read fail. -/
def IsSound (g : Gunzip σ) : Prop := v.Sound g.source ∧ ¬ StartsShort src g

/-- What holds of every file being read. -/
structure Fits (g : Gunzip σ) : Prop where
  source : v.Valid g.source
  stage : g.stage.IsSized
  delivered : g.delivered ≤ g.stage.outputSize

/-- What a move owes: what is still to come is that of before, after the piece that is given, and a
fault is the one that was ahead. -/
def Move.Keeps (g : Gunzip σ) : Move σ ε → Prop
  | .goOn g' => Fits v g' ∧ ahead v g = ahead v g' ∧ (IsSound v g ↔ IsSound v g')
  | .give piece g' => Fits v g' ∧ ahead v g = (ahead v g').map (piece ++ ·) ∧
      (IsSound v g ↔ IsSound v g') ∧ (piece = [] → ahead v g = .ok [] ∧ IsSound v g)
  | .fail fault _ => IsSound v g → ∃ f, fault = .format f ∧ ahead v g = .error f

variable {v} {g : Gunzip σ}

theorem isSound_iff_of_ne_start {source : σ} {buffer : Bytes} {stage : Stage} {delivered : Nat}
    (h : stage ≠ .start) : IsSound v ⟨source, buffer, stage, delivered⟩ ↔ v.Sound source :=
  and_iff_left fun hshort => h hshort.1

/-! ## Moves in compressed data -/

/-- What a file holds from its compressed data on, with what is out of it already. -/
def bodyContent (v : src.View Empty) (source : σ) (i : Deflate.Inflater) (left : Bytes) :
    Except Fault Bytes :=
  (Stage.ofInflater i).bind (·.content (left ++ v.data source))

theorem ahead_body (source : σ) (buffer : Bytes) (i : Deflate.Inflater) (delivered : Nat) :
    ahead v ⟨source, buffer, .body i, delivered⟩ =
      (bodyContent v source i buffer).map (·.drop delivered) := rfl

/-- What feeding a block came to: nothing of what was ahead is lost. -/
structure Fed (v : src.View Empty) (g : Gunzip σ) (source : σ) (i : Deflate.Inflater)
    (left : Bytes) : Prop where
  valid : v.Valid source
  sound : IsSound v g ↔ v.Sound source
  below : g.delivered ≤ i.output.size
  ahead : ahead v g = (bodyContent v source i left).map (·.drop g.delivered)

/-- A file being read of whose compressed data the first `n` bytes are handed out. -/
structure Continues (v : src.View Empty) (source : σ) (i : Deflate.Inflater) (left : Bytes)
    (n : Nat) (next : Gunzip σ) : Prop where
  fits : Fits v next
  sound : IsSound v next ↔ v.Sound source
  ahead : ahead v next = (bodyContent v source i left).map (·.drop n)

section Feeding

variable {source : σ} {i : Deflate.Inflater} {left : Bytes}

theorem continues_body (left : Bytes) (hvalid : v.Valid source) {n : Nat}
    (hn : n ≤ i.output.size) :
    Continues v source i left n ⟨source, left, .body i, n⟩ :=
  ⟨⟨hvalid, Stage.isSized_of_wanted 1 rfl (by decide), hn⟩,
    isSound_iff_of_ne_start Stage.noConfusion, rfl⟩

theorem continues_trailer (left : Bytes) (hvalid : v.Valid source) (hdone : i.phase = .done) :
    Continues v source i left i.output.size ⟨source, left, .trailer i.output [], 0⟩ := by
  refine ⟨⟨hvalid, Stage.isSized_of_wanted 8 rfl (by decide), Nat.zero_le _⟩,
    isSound_iff_of_ne_start Stage.noConfusion, ?_⟩
  have hstage : Stage.ofInflater i = .ok (.trailer i.output []) := by
    rw [Stage.ofInflater, hdone]
  rw [ahead, bodyContent, hstage, Nat.zero_add]
  rfl

theorem Fed.keeps_goOn (h : Fed v g source i left) {next : Gunzip σ}
    (hnext : Continues v source i left g.delivered next) :
    (Move.goOn next : Move σ ε).Keeps v g := by
  refine ⟨hnext.fits, ?_, h.sound.trans hnext.sound.symm⟩
  rw [h.ahead, hnext.ahead]

theorem Fed.keeps_give (h : Fed v g source i left) {n : Nat} {next : Gunzip σ}
    (hnext : Continues v source i left n next) (hlt : g.delivered < n) (hn : n ≤ i.output.size) :
    (Move.give (i.output.extract g.delivered n).toList next : Move σ ε).Keeps v g := by
  refine ⟨hnext.fits, ?_, h.sound.trans hnext.sound.symm, ?_⟩
  · rw [h.ahead, hnext.ahead, Array.toList_extract]
    exact map_drop_eq (Nat.le_of_lt hlt) hn fun total htotal => Stage.prefix_content htotal
  · intro hempty
    have hlength := congrArg List.length hempty
    rw [Array.length_toList, Array.size_extract, List.length_nil] at hlength
    omega

theorem Fed.keeps_failed (h : Fed v g source i left) {fault : Deflate.Fault}
    (hphase : i.phase = .failed fault) (next : Gunzip σ) :
    (Move.fail (.format (.data fault)) next : Move σ ε).Keeps v g := by
  intro _
  refine ⟨.data fault, rfl, ?_⟩
  rw [h.ahead, bodyContent, Stage.ofInflater, hphase]
  rfl

/-- Data that is neither over nor at fault is cut off where the source ends. -/
theorem Fed.keeps_truncated (h : Fed v g source i []) (hend : v.data source = [])
    (hdone : i.phase ≠ .done) (hfailed : ∀ fault, i.phase ≠ .failed fault) (next : Gunzip σ) :
    (Move.fail (.format .truncated) next : Move σ ε).Keeps v g := by
  intro _
  have hstage : Stage.ofInflater i = .ok (.body i) := by
    unfold Stage.ofInflater
    split
    · rename_i hphase
      exact absurd hphase (hfailed _)
    · rename_i hphase
      exact absurd hphase hdone
    · rfl
  refine ⟨.truncated, rfl, ?_⟩
  rw [h.ahead, bodyContent, hstage, hend]
  rfl

end Feeding

theorem fed_inflate (limit : Option Nat) {source source' : σ} {buffer more : Bytes}
    {i : Deflate.Inflater} {delivered : Nat}
    (hg : Fits v ⟨source, buffer, .body i, delivered⟩)
    (hr : src.read (blockSize - buffer.length : Nat) source = (.ok more, source')) :
    Fed v ⟨source, buffer, .body i, delivered⟩ source'
      (inflate limit delivered i (buffer ++ more)).1
      (inflate limit delivered i (buffer ++ more)).2 := by
  obtain ⟨hvalid, hdata, hiff⟩ := v.data_split (Int.natCast_nonneg _) hg.source hr
  refine ⟨hvalid, (isSound_iff_of_ne_start Stage.noConfusion).trans hiff, ?_, ?_⟩
  · exact Nat.le_trans hg.delivered (prefix_inflate limit delivered i (buffer ++ more)).length_le
  · rw [ahead_body, bodyContent, bodyContent, hdata, ← List.append_assoc, content_inflate]

omit [Room] in
/-- Where feeding a block neither ends the data nor gives a byte nor uses one, there is no block. -/
theorem eq_nil_of_idle {limit : Option Nat} (hlimit : limit ≠ some 0) (delivered : Nat)
    (i : Deflate.Inflater) (block : Bytes)
    (hdone : (inflate limit delivered i block).1.phase ≠ .done)
    (hfailed : ∀ fault, (inflate limit delivered i block).1.phase ≠ .failed fault)
    (hpending : ¬ 0 < (inflate limit delivered i block).1.output.size - delivered)
    (hleft : ¬ (inflate limit delivered i block).2.length < block.length) :
    block = [] ∧ (inflate limit delivered i block).2 = [] := by
  obtain ⟨hsame, hstop⟩ := (inflate_cases limit delivered i block).resolve_left hleft
  rw [hsame] at hdone hfailed hpending ⊢
  rw [and_self]
  rcases hstop with hempty | hover | hfull
  · exact hempty
  · unfold Deflate.Inflater.isOver at hover
    split at hover
    · rename_i hphase
      exact absurd hphase hdone
    · rename_i hphase
      exact absurd hphase (hfailed _)
    · cases hover
  · cases limit with
    | none => cases hfull
    | some n =>
      have hn : n ≠ 0 := by
        intro h
        exact hlimit (congrArg some h)
      unfold isFull at hfull
      dsimp only at hfull hpending
      split at hfull <;> (rw [decide_eq_true_eq] at hfull; omega)

/-- What a block came to is handed out in order, up to the limit. -/
theorem handOut_keeps {limit : Option Nat} (hlimit : limit ≠ some 0) {source source' : σ}
    {buffer more : Bytes} {i : Deflate.Inflater} {delivered : Nat}
    (hg : Fits v ⟨source, buffer, .body i, delivered⟩)
    (hr : src.read (blockSize - buffer.length : Nat) source = (.ok more, source')) :
    (handOut limit source' delivered (buffer ++ more).length
      (inflate limit delivered i (buffer ++ more))).Keeps v
        ⟨source, buffer, .body i, delivered⟩ := by
  have hfed := fed_inflate limit hg hr
  have hidle := eq_nil_of_idle hlimit delivered i (buffer ++ more)
  generalize inflate limit delivered i (buffer ++ more) = inflated at *
  obtain ⟨i', left⟩ := inflated
  have hbelow : delivered ≤ i'.output.size := hfed.below
  dsimp only at hfed hidle
  unfold handOut
  dsimp only
  split
  · rename_i hover
    obtain ⟨n, rfl, hn⟩ : ∃ n, limit = some n ∧ n ≤ i'.output.size - delivered := by
      cases limit with
      | none => cases hover
      | some n =>
        refine ⟨n, rfl, ?_⟩
        simp only [overflows, Option.any_some, Bool.or_eq_true, Bool.and_eq_true,
          decide_eq_true_eq] at hover
        omega
    have hpos : n ≠ 0 := by
      intro h
      exact hlimit (congrArg some h)
    have hlt : delivered < delivered + n := Nat.lt_add_of_pos_right (Nat.pos_of_ne_zero hpos)
    have hle : delivered + n ≤ i'.output.size := by omega
    exact hfed.keeps_give (continues_body left hfed.valid hle) hlt hle
  rename_i hover
  split
  · rename_i fault hphase
    exact hfed.keeps_failed hphase _
  · rename_i hphase
    have hnext := continues_trailer left hfed.valid hphase
    split
    · rename_i hpending
      obtain rfl : delivered = i'.output.size := by omega
      exact hfed.keeps_goOn hnext
    · rename_i hpending
      exact hfed.keeps_give hnext (by dsimp only; omega) (Nat.le_refl _)
  · rename_i hfailed hdone
    have hnext := continues_body left hfed.valid (Nat.le_refl i'.output.size)
    split
    · rename_i hpending
      exact hfed.keeps_give hnext (by dsimp only; omega) (Nat.le_refl _)
    rename_i hpending
    obtain rfl : delivered = i'.output.size := by omega
    split
    · exact hfed.keeps_goOn hnext
    · rename_i hleft
      obtain ⟨hempty, rfl⟩ := hidle hdone hfailed hpending hleft
      obtain ⟨rfl, rfl⟩ := List.append_eq_nil_iff.mp hempty
      obtain ⟨-, hdata, -⟩ := v.data_split (Int.natCast_nonneg _) hg.source hr
      obtain ⟨hend, -⟩ := v.data_ended (by decide) hg.source hr
      exact hfed.keeps_truncated (hdata.symm.trans hend) hdone hfailed _

theorem moveInBody_keeps {limit : Option Nat} (hlimit : limit ≠ some 0) {source : σ}
    {buffer : Bytes} {i : Deflate.Inflater} {delivered : Nat}
    (hg : Fits v ⟨source, buffer, .body i, delivered⟩) :
    (moveInBody src limit source buffer delivered i).Keeps v
      ⟨source, buffer, .body i, delivered⟩ := by
  unfold moveInBody
  split
  · rename_i e source' hr
    intro hsound
    have hroom : ((blockSize - buffer.length : Nat) : Int) < Room.bound := by
      have hbound := Room.le_bound
      unfold blockSize
      omega
    exact absurd hsound.1 (v.not_sound_of_error (Int.natCast_nonneg _) hroom hg.source hr)
  · rename_i more source' hr
    exact handOut_keeps hlimit hg hr

/-! ## Moves outside compressed data -/

omit [Room] in
theorem reached_of_isFresh {stage : Stage} (h : stage.IsFresh) : reached stage = .ok stage := by
  cases stage with
  | body i =>
    obtain rfl : i = .start := h
    rfl
  | _ => rfl

omit [Room] in
theorem owed_of_isFresh {stage : Stage} (h : stage.IsFresh) : stage.owed = 0 := by
  cases stage with
  | trailer => exact h.elim
  | _ => rfl

omit [Room] in
theorem isSized_of_isFresh {stage : Stage} (h : stage.IsFresh) : stage.IsSized := by
  cases stage with
  | start => exact h.elim
  | trailer => exact h.elim
  | body i => exact Stage.isSized_of_wanted 1 rfl (by decide)
  | _ => exact h

omit [Room] in
theorem ne_start_of_isFresh {stage : Stage} (h : stage.IsFresh) : stage ≠ .start := by
  rintro rfl
  exact h

/-- What is still to come at a fresh stage is all that the file holds from there. -/
theorem ahead_of_isFresh {stage : Stage} (h : stage.IsFresh) (source : σ) (buffer : Bytes) :
    ahead v ⟨source, buffer, stage, 0⟩ = stage.content (buffer ++ v.data source) := by
  rw [ahead, reached_of_isFresh h, owed_of_isFresh h]
  change (stage.content (buffer ++ v.data source)).map (·.drop 0) = _
  cases stage.content (buffer ++ v.data source) <;> rfl

theorem fits_of_isFresh {stage : Stage} (h : stage.IsFresh) {source : σ} (hs : v.Valid source)
    (buffer : Bytes) : Fits v ⟨source, buffer, stage, 0⟩ :=
  ⟨hs, isSized_of_isFresh h, Nat.zero_le _⟩

/-- Outside compressed data, what is still to come is what the file holds from there without what
the trailer will release. -/
theorem ahead_of_ne_body (hbody : ∀ i, g.stage ≠ .body i) (hg : Fits v g) :
    ahead v g = (g.stage.content (g.buffer ++ v.data g.source)).map (·.drop g.stage.owed) := by
  obtain ⟨source, buffer, stage, delivered⟩ := g
  cases stage with
  | body i => exact absurd rfl (hbody i)
  | _ =>
    obtain rfl : delivered = 0 := Nat.le_zero.mp hg.delivered
    rw [ahead, Nat.zero_add]
    rfl

theorem takeByte_keeps (hbody : ∀ i, g.stage ≠ .body i) (hg : Fits v g) {source : σ}
    (hvalid : v.Valid source) {b : UInt8} {rest : Bytes}
    (hdata : g.buffer ++ v.data g.source = b :: (rest ++ v.data source))
    (hsound : IsSound v g ↔ v.Sound source) :
    (takeByte source g.stage b rest).Keeps v g := by
  unfold takeByte
  split
  · rename_i next hs
    have hahead := ahead_of_ne_body hbody hg
    rw [hdata, Stage.content_cons_ok hs] at hahead
    rcases Stage.step_cases hbody hg.stage hs with
      ⟨hfresh, howed⟩ | ⟨output, got, got', h, rfl, hsized⟩
    · refine ⟨fits_of_isFresh hfresh hvalid rest, ?_,
        hsound.trans (isSound_iff_of_ne_start (ne_start_of_isFresh hfresh)).symm⟩
      rw [hahead, ahead_of_isFresh hfresh, ← howed]
      cases next.content (rest ++ v.data source) with
      | error f => rfl
      | ok beyond => exact congrArg Except.ok List.drop_left
    · refine ⟨⟨hvalid, hsized, Nat.zero_le _⟩, ?_,
        hsound.trans (isSound_iff_of_ne_start Stage.noConfusion).symm⟩
      rw [hahead, h, ahead, Nat.zero_add]
      exact congrArg _ (map_nil_append _)
  · rename_i f hs
    intro _
    refine ⟨f, rfl, ?_⟩
    rw [ahead_of_ne_body hbody hg, hdata, Stage.content_cons_error hs]
    rfl

omit [Room] in
theorem content_afterComment_nil (flags : Flags) :
    (Stage.afterComment flags).content [] = .error .truncated := by
  unfold Stage.afterComment
  split <;> rfl

omit [Room] in
theorem content_afterName_nil (flags : Flags) :
    (Stage.afterName flags).content [] = .error .truncated := by
  unfold Stage.afterName
  split
  · rfl
  · exact content_afterComment_nil flags

/-- Where no byte is left, a file ends or is cut off. -/
theorem atEnd_keeps {source source' : σ} {stage : Stage} (hbody : ∀ i, stage ≠ .body i)
    (hg : Fits v ⟨source, [], stage, 0⟩) (hsound : IsSound v ⟨source, [], stage, 0⟩)
    (hvalid : v.Valid source') (hsource : v.Sound source') (hend : v.data source = [])
    (hend' : v.data source' = []) : (atEnd source' stage).Keeps v ⟨source, [], stage, 0⟩ := by
  have hahead : ahead v ⟨source, [], stage, 0⟩ = (stage.content []).map (·.drop stage.owed) := by
    rw [ahead_of_ne_body hbody hg, hend]
    rfl
  have hover : IsSound v ⟨source', [], .start, 0⟩ := by
    refine ⟨hsource, ?_⟩
    rintro ⟨-, -, b, hb⟩
    have hr : src.read 2 source' = (.ok [b], (src.read 2 source').2) := Prod.ext hb rfl
    obtain ⟨-, hdata, -⟩ := v.data_split (by decide) hvalid hr
    rw [hend'] at hdata
    cases hdata
  have hfinal : ahead v ⟨source', [], .start, 0⟩ = .ok [] := by
    rw [ahead, hend']
    rfl
  have hfits : Fits v ⟨source', [], .start, 0⟩ :=
    ⟨hvalid, Stage.isSized_of_wanted 2 rfl (by decide), Nat.le_refl _⟩
  have hunfinished : ∀ next : Stage, next.IsFresh → next.content [] = .error .truncated →
      stage.content [] = .error .truncated →
      (Move.goOn ⟨source', [], next, 0⟩ : Move σ ε).Keeps v ⟨source, [], stage, 0⟩ := by
    intro next hfresh hnext hstage
    refine ⟨fits_of_isFresh hfresh hvalid [], ?_,
      iff_of_true hsound ((isSound_iff_of_ne_start (ne_start_of_isFresh hfresh)).mpr hsource)⟩
    rw [hahead, hstage, ahead_of_isFresh hfresh, hend', List.append_nil, hnext]
    rfl
  cases stage with
  | start =>
    exact ⟨hfits, by rw [hahead, hfinal]; rfl, iff_of_true hsound hover,
      fun _ => ⟨hahead, hsound⟩⟩
  | padding =>
    exact ⟨hfits, by rw [hahead, hfinal]; rfl, iff_of_true hsound hover,
      fun _ => ⟨hahead, hsound⟩⟩
  | magic first => exact fun _ => ⟨.notGzip [first], rfl, hahead⟩
  | name flags =>
    exact hunfinished _ (Stage.isFresh_afterName flags) (content_afterName_nil flags) rfl
  | comment flags =>
    exact hunfinished _ (Stage.isFresh_afterComment flags) (content_afterComment_nil flags) rfl
  | body i => exact absurd rfl (hbody i)
  | fixed => exact fun _ => ⟨.truncated, rfl, hahead⟩
  | extraLength => exact fun _ => ⟨.truncated, rfl, hahead⟩
  | extra => exact fun _ => ⟨.truncated, rfl, hahead⟩
  | headerCheck => exact fun _ => ⟨.truncated, rfl, hahead⟩
  | trailer => exact fun _ => ⟨.truncated, rfl, hahead⟩

theorem moveOutside_keeps (hbody : ∀ i, g.stage ≠ .body i) (hg : Fits v g) :
    (moveOutside src g).Keeps v g := by
  obtain ⟨source, buffer, stage, delivered⟩ := g
  obtain rfl : delivered = 0 := by
    cases stage with
    | body i => exact absurd rfl (hbody i)
    | _ => exact Nat.le_zero.mp hg.delivered
  have hroom : ((stage.wanted : Nat) : Int) < Room.bound := by
    have hle := hg.stage.2
    dsimp only at hle
    have hbound := Room.le_bound
    omega
  unfold moveOutside
  dsimp only
  split
  · rename_i b rest
    have hshort : ¬ StartsShort src ⟨source, b :: rest, stage, 0⟩ := by
      rintro ⟨-, h, -⟩
      cases h
    exact takeByte_keeps hbody hg hg.source rfl (and_iff_left hshort)
  split
  · rename_i e source' hr
    intro hsound
    exact absurd hsound.1 (v.not_sound_of_error (Int.natCast_nonneg _) hroom hg.source hr)
  · rename_i source' hr
    have hpos : (0 : Int) < (stage.wanted : Nat) := by
      have := hg.stage.1
      dsimp only at this
      omega
    obtain ⟨hvalid, hdata, hiff⟩ := v.data_split (Int.natCast_nonneg _) hg.source hr
    obtain ⟨hend, hsource⟩ := v.data_ended hpos hg.source hr
    have hshort : ¬ StartsShort src ⟨source, [], stage, 0⟩ := by
      rintro ⟨rfl, -, b, hb⟩
      have h := (congrArg Prod.fst hr).symm.trans hb
      cases h
    exact atEnd_keeps hbody hg ⟨hsource, hshort⟩ hvalid (hiff.mp hsource) hend
      (hdata.symm.trans hend)
  · rename_i b rest source' hr
    obtain ⟨hvalid, hdata, hiff⟩ := v.data_split (Int.natCast_nonneg _) hg.source hr
    split
    · rintro ⟨-, hshort⟩
      exact absurd ⟨rfl, rfl, b, congrArg Prod.fst hr⟩ hshort
    · rename_i hstart
      have hshort : ¬ StartsShort src ⟨source, [], stage, 0⟩ := by
        rintro ⟨rfl, -, c, hc⟩
        have h := (congrArg Prod.fst hr).symm.trans hc
        cases h
        exact hstart rfl rfl
      exact takeByte_keeps hbody hg hvalid hdata ((and_iff_left hshort).trans hiff)

/-! ## Reads -/

theorem move_keeps {limit : Option Nat} (hlimit : limit ≠ some 0) (hg : Fits v g) :
    (move src limit g).Keeps v g := by
  unfold move
  split
  · exact moveInBody_keeps hlimit hg
  · rename_i hne
    exact moveOutside_keeps (fun i hi => hne g.source g.buffer i g.delivered (by rw [← hi])) hg

/-- A read takes its piece from what is still to come. -/
theorem read_eq_ok {limit : Option Nat} (hlimit : limit ≠ some 0) (hg : Fits v g)
    {piece : Bytes} {g' : Gunzip σ} (h : g.read src limit = (.ok piece, g')) :
    Fits v g' ∧ ahead v g = (ahead v g').map (piece ++ ·) ∧ (IsSound v g ↔ IsSound v g') ∧
      (piece = [] → ahead v g = .ok [] ∧ IsSound v g) := by
  fun_induction read src limit g with
  | case1 g g₁ hm ih =>
    have hkeeps := move_keeps hlimit hg
    rw [hm] at hkeeps
    obtain ⟨hg₁, hahead, hsound⟩ := hkeeps
    rw [hahead, hsound]
    exact ih hg₁ h
  | case2 g piece' g₁ hm =>
    have hkeeps := move_keeps hlimit hg
    rw [hm] at hkeeps
    cases h
    exact hkeeps
  | case3 => cases h

/-- A read fails with what is wrong with the file. -/
theorem read_eq_error {limit : Option Nat} (hlimit : limit ≠ some 0) (hg : Fits v g)
    (hsound : IsSound v g) {e : ReadFault ε} {g' : Gunzip σ}
    (h : g.read src limit = (.error e, g')) : ∃ f, e = .format f ∧ ahead v g = .error f := by
  fun_induction read src limit g with
  | case1 g g₁ hm ih =>
    have hkeeps := move_keeps hlimit hg
    rw [hm] at hkeeps
    obtain ⟨hg₁, hahead, hiff⟩ := hkeeps
    rw [hahead]
    exact ih hg₁ (hiff.mp hsound) h
  | case2 => cases h
  | case3 g fault g₁ hm =>
    have hkeeps := move_keeps hlimit hg
    rw [hm] at hkeeps
    cases h
    exact hkeeps hsound

omit [Room] in
/-- A file is given up whose source gives the first byte alone. -/
theorem read_of_startsShort {source source' : σ} {b : UInt8}
    (h : src.read 2 source = (.ok [b], source')) (limit : Option Nat) :
    (start source).read src limit = (.error (.format (.notGzip [b])), ⟨source', [], .start, 0⟩) := by
  have hmove : move src limit (start source) =
      .fail (.format (.notGzip [b])) ⟨source', [], .start, 0⟩ := by
    have hread : src.read (Stage.start.wanted : Nat) source = (.ok [b], source') := h
    change moveOutside src (start source) = _
    unfold moveOutside
    dsimp only [start]
    rw [hread]
  rw [read]
  split <;> simp_all

end LegacyImage.Gzip.Gunzip
