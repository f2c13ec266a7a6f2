import LegacyImage.Gzip.Content
import LegacyImage.Proofs.Deflate.Growth
import LegacyImage.Proofs.Reader.View

/-!
What a gzip file holds from some stage on. A byte releases what it completes and leaves the rest to
the stage after it (`content_cons_ok`), and what an inflater has put out so far comes first in what
the member is found to hold (`prefix_content`).
-/

namespace LegacyImage.Gzip

/-- Results that agree up to what was held before them. -/
theorem Progress.takeAll_held (held : Bytes) (p : Progress) (bs : Bytes) :
    ((⟨held ++ p.held, p.stage⟩ : Progress).takeAll bs).bind (·.finish) =
      ((p.takeAll bs).bind (·.finish)).map (held ++ ·) := by
  induction bs generalizing p with
  | nil =>
    obtain ⟨earlier, stage⟩ := p
    cases stage <;> rfl
  | cons b rest ih =>
    cases hs : p.stage.step b with
    | error f =>
      simp only [takeAll, List.foldlM_cons, take, hs]
      rfl
    | ok next =>
      have hstep := ih ⟨p.held ++ released p.stage next, next⟩
      rw [← List.append_assoc] at hstep
      simp only [takeAll, List.foldlM_cons, take, hs]
      exact hstep

namespace Stage

/-- What a file holds beyond what it has released, if these bytes follow. -/
def content (stage : Stage) (bs : Bytes) : Except Fault Bytes :=
  ((⟨[], stage⟩ : Progress).takeAll bs).bind (·.finish)

theorem content_start (file : Bytes) : Stage.start.content file = Gzip.content file := rfl

variable {stage next : Stage} {b : UInt8} {bs : Bytes}

theorem content_cons_error {f : Fault} (h : stage.step b = .error f) :
    stage.content (b :: bs) = .error f := by
  simp only [content, Progress.takeAll, List.foldlM_cons, Progress.take, h]
  rfl

theorem content_cons_ok (h : stage.step b = .ok next) :
    stage.content (b :: bs) = (next.content bs).map (Progress.released stage next ++ ·) := by
  have hheld := Progress.takeAll_held (Progress.released stage next) ⟨[], next⟩ bs
  rw [List.append_nil] at hheld
  rw [content, content, ← hheld]
  simp only [Progress.takeAll, List.foldlM_cons, Progress.take, h, List.nil_append]
  rfl

/-! ## Stages that are met -/

/-- Whether the part at hand has a size that can be asked for. -/
def IsSized (stage : Stage) : Prop := 0 < stage.wanted ∧ stage.wanted ≤ 0xFFFF

theorem isSized_of_wanted (n : Nat) (h : stage.wanted = n) (hn : 0 < n ∧ n ≤ 0xFFFF) :
    stage.IsSized := by
  rw [IsSized, h]
  exact hn

/-- How much of what the trailer releases is known before. -/
def owed : Stage → Nat
  | .trailer output _ => output.size
  | _ => 0

/-- A stage that nothing of the member at hand has come out of. -/
def IsFresh : Stage → Prop
  | .start | .trailer .. => False
  | .body i => i = .start
  | stage => stage.IsSized

theorem isFresh_afterComment (flags : Flags) : (afterComment flags).IsFresh := by
  unfold afterComment
  split
  · exact isSized_of_wanted 2 rfl (by decide)
  · rfl

theorem isFresh_afterName (flags : Flags) : (afterName flags).IsFresh := by
  unfold afterName
  split
  · exact isSized_of_wanted 1 rfl (by decide)
  · exact isFresh_afterComment flags

theorem isFresh_afterExtra (flags : Flags) : (afterExtra flags).IsFresh := by
  unfold afterExtra
  split
  · exact isSized_of_wanted 1 rfl (by decide)
  · exact isFresh_afterName flags

theorem isFresh_onFixed {got : Bytes} (h : onFixed got = .ok next) : next.IsFresh := by
  unfold onFixed at h
  split at h
  · rename_i hlen
    cases h
    exact ⟨by simp only [wanted]; omega, by simp only [wanted]; omega⟩
  split at h
  · cases h
  · cases h
    unfold afterFixed
    split
    · exact isSized_of_wanted 2 rfl (by decide)
    · exact isFresh_afterExtra _

theorem onTrailer_cases {output : Array UInt8} {got : Bytes} (h : onTrailer output got = .ok next) :
    (got.length < 8 ∧ next = .trailer output got) ∨ next = .padding := by
  unfold onTrailer at h
  split at h
  · rename_i hlen
    cases h
    exact Or.inl ⟨hlen, rfl⟩
  dsimp only at h
  split at h
  · cases h
  split at h
  · cases h
  · cases h
    exact Or.inr rfl

theorem toNatLE_lt_of_length_le {got : Bytes} (h : got.length ≤ 2) :
    Bytes.toNatLE got ≤ 0xFFFF := by
  match got with
  | [] => exact Nat.zero_le _
  | [a] =>
    have := a.toNat_lt
    simp only [Bytes.toNatLE_cons, Bytes.toNatLE_nil]
    omega
  | [a, c] =>
    have := a.toNat_lt
    have := c.toNat_lt
    simp only [Bytes.toNatLE_cons, Bytes.toNatLE_nil]
    omega
  | _ :: _ :: _ :: _ =>
    simp only [List.length_cons] at h
    omega

/-- Outside compressed data, a byte leads to a stage at which nothing is owed, unless it is one of
the trailer and not the last. -/
theorem step_cases (hbody : ∀ i, stage ≠ .body i) (hsized : stage.IsSized)
    (h : stage.step b = .ok next) :
    next.IsFresh ∧ (Progress.released stage next).length = stage.owed ∨
      ∃ output got got', stage = .trailer output got ∧ next = .trailer output got' ∧
        next.IsSized := by
  cases stage with
  | start =>
    cases h
    exact Or.inl ⟨isSized_of_wanted 1 rfl (by decide), rfl⟩
  | magic first =>
    rw [step] at h
    split at h
    · cases h
      exact Or.inl ⟨isSized_of_wanted 8 rfl (by decide), rfl⟩
    · cases h
  | fixed got => exact Or.inl ⟨isFresh_onFixed h, rfl⟩
  | extraLength flags got =>
    rw [step] at h
    split at h
    · rename_i hlen
      cases h
      refine Or.inl ⟨⟨?_, ?_⟩, rfl⟩ <;> (simp only [wanted]; omega)
    · split at h
      · cases h
        exact Or.inl ⟨isFresh_afterExtra flags, rfl⟩
      · rename_i hzero
        cases h
        have hlen : (got ++ [b]).length ≤ 2 := by
          have := hsized.1
          simp only [wanted] at this
          rw [List.length_append, List.length_singleton]
          omega
        exact Or.inl ⟨⟨Nat.pos_of_ne_zero hzero, toNatLE_lt_of_length_le hlen⟩, rfl⟩
  | extra flags left =>
    have hle : left ≤ 0xFFFF := hsized.2
    obtain rfl := Except.ok.inj h
    split
    · exact Or.inl ⟨isFresh_afterExtra flags, rfl⟩
    · refine Or.inl ⟨⟨?_, ?_⟩, rfl⟩ <;> (simp only [wanted]; omega)
  | name flags =>
    obtain rfl := Except.ok.inj h
    split
    · exact Or.inl ⟨isFresh_afterName flags, rfl⟩
    · exact Or.inl ⟨isSized_of_wanted 1 rfl (by decide), rfl⟩
  | comment flags =>
    obtain rfl := Except.ok.inj h
    split
    · exact Or.inl ⟨isFresh_afterComment flags, rfl⟩
    · exact Or.inl ⟨isSized_of_wanted 1 rfl (by decide), rfl⟩
  | headerCheck left =>
    have hle : left ≤ 0xFFFF := hsized.2
    obtain rfl := Except.ok.inj h
    split
    · exact Or.inl ⟨rfl, rfl⟩
    · refine Or.inl ⟨⟨?_, ?_⟩, rfl⟩ <;> (simp only [wanted]; omega)
  | body i => exact absurd rfl (hbody i)
  | trailer output got =>
    rcases onTrailer_cases h with ⟨hlen, rfl⟩ | rfl
    · refine Or.inr ⟨output, got, got ++ [b], rfl, rfl, ?_, ?_⟩ <;> (simp only [wanted]; omega)
    · exact Or.inl ⟨isSized_of_wanted 1 rfl (by decide), Array.length_toList⟩
  | padding =>
    obtain rfl := Except.ok.inj h
    split <;> exact Or.inl ⟨isSized_of_wanted 1 rfl (by decide), rfl⟩

/-! ## Output comes first -/

theorem prefix_content_trailer {output : Array UInt8} {got : Bytes} {total : Bytes}
    (h : content (.trailer output got) bs = .ok total) : output.toList <+: total := by
  induction bs generalizing got with
  | nil => cases h
  | cons b rest ih =>
    cases hs : (Stage.trailer output got).step b with
    | error f =>
      rw [content_cons_error hs] at h
      cases h
    | ok next =>
      rw [content_cons_ok hs] at h
      rcases onTrailer_cases hs with ⟨-, rfl⟩ | rfl
      · exact ih ((map_nil_append _).symm.trans h)
      · cases hbeyond : Stage.padding.content rest with
        | error f =>
          rw [hbeyond] at h
          cases h
        | ok beyond =>
          rw [hbeyond] at h
          obtain rfl := Except.ok.inj h
          exact List.prefix_append _ _

/-- What an inflater has put out comes first in what its member is found to hold. -/
theorem prefix_content {i : Deflate.Inflater} {total : Bytes}
    (h : (ofInflater i).bind (·.content bs) = .ok total) : i.output.toList <+: total := by
  induction bs generalizing i with
  | nil =>
    unfold ofInflater at h
    split at h <;> cases h
  | cons b rest ih =>
    unfold ofInflater at h
    split at h
    · cases h
    · exact prefix_content_trailer h
    · cases hs : (Stage.body i).step b with
      | error f =>
        have h' := (content_cons_error hs).symm.trans h
        cases h'
      | ok next =>
        have h' := (content_cons_ok hs).symm.trans h
        refine (i.prefix_feed b).trans (ih ?_)
        change ofInflater (i.feed b) = .ok next at hs
        rw [hs]
        exact (map_nil_append _).symm.trans h'

end Stage

end LegacyImage.Gzip
