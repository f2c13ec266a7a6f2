import LegacyImage.Proofs.Gzip.Remainder

/-!
Gzip files one after the other. A file that is not empty ends where its last member does, or in zero
bytes after it, and nothing of what came before plays a part from there on. So a file that follows
another, with any number of zero bytes in between, adds what it holds (`content_join`).
-/

namespace LegacyImage.Gzip

namespace Stage

variable {stage next : Stage} {b : UInt8} {bs rest : Bytes} {u w : Bytes}

theorem not_isFresh_start : ¬ Stage.start.IsFresh := id

/-- Once a byte was taken, the start is not met again. -/
theorem step_ne_start (h : stage.step b = .ok next) : next ≠ .start := by
  rintro rfl
  cases stage with
  | start => cases h
  | magic first =>
    rw [step] at h
    split at h <;> cases h
  | fixed got => exact not_isFresh_start (isFresh_onFixed h)
  | extraLength flags got =>
    rw [step] at h
    split at h
    · cases h
    split at h
    · exact not_isFresh_start (Except.ok.inj h ▸ isFresh_afterExtra flags)
    · cases h
  | extra flags left =>
    have h := Except.ok.inj h
    split at h
    · exact not_isFresh_start (h ▸ isFresh_afterExtra flags)
    · cases h
  | name flags =>
    have h := Except.ok.inj h
    split at h
    · exact not_isFresh_start (h ▸ isFresh_afterName flags)
    · cases h
  | comment flags =>
    have h := Except.ok.inj h
    split at h
    · exact not_isFresh_start (h ▸ isFresh_afterComment flags)
    · cases h
  | headerCheck left =>
    have h := Except.ok.inj h
    split at h <;> cases h
  | body i =>
    rw [step, ofInflater] at h
    split at h <;> cases h
  | trailer output got =>
    rcases onTrailer_cases h with ⟨-, h⟩ | h <;> cases h
  | padding =>
    have h := Except.ok.inj h
    split at h <;> cases h

/-- Where a file may end once it has begun, only padding or a further member can follow. -/
theorem eq_padding_of_content_nil (hne : stage ≠ .start) (h : stage.content [] = .ok u) :
    stage = .padding ∧ u = [] := by
  cases stage with
  | start => exact absurd rfl hne
  | padding =>
    cases h
    exact ⟨rfl, rfl⟩
  | _ => cases h

/-- What follows a whole file is read as what follows padding. -/
theorem content_append (hbegun : stage ≠ .start ∨ bs ≠ []) (h : stage.content bs = .ok u) :
    stage.content (bs ++ rest) = (Stage.padding.content rest).map (u ++ ·) := by
  -- on the bytes of the file; after the first of them the start is behind
  induction bs generalizing stage u with
  | nil =>
    obtain ⟨rfl, rfl⟩ := eq_padding_of_content_nil (hbegun.resolve_right (absurd rfl)) h
    exact (map_nil_append _).symm
  | cons b bs ih =>
    cases hs : stage.step b with
    | error f =>
      rw [content_cons_error hs] at h
      cases h
    | ok next =>
      rw [content_cons_ok hs] at h
      cases hbeyond : next.content bs with
      | error f =>
        rw [hbeyond] at h
        cases h
      | ok beyond =>
        rw [hbeyond] at h
        obtain rfl := Except.ok.inj h
        rw [List.cons_append, content_cons_ok hs, ih (.inl (step_ne_start hs)) hbeyond,
          map_append_append]

theorem content_zeros (count : Nat) (rest : Bytes) :
    Stage.padding.content (List.replicate count 0 ++ rest) = Stage.padding.content rest := by
  induction count with
  | zero => rfl
  | succ count ih =>
    have hs : Stage.padding.step 0 = .ok .padding := rfl
    rw [List.replicate_succ, List.cons_append, content_cons_ok hs, ih]
    exact map_nil_append _

/-- A file begins with a byte that is no padding. -/
theorem eq_of_content_magic {first : UInt8} (h : (Stage.magic first).content bs = .ok w) :
    first = 0x1F := by
  cases bs with
  | nil => cases h
  | cons second rest =>
    by_cases hmagic : first = 0x1F ∧ second = 0x8B
    · exact hmagic.1
    · have hs : (Stage.magic first).step second = .error (.notGzip [first, second]) := if_neg hmagic
      rw [content_cons_error hs] at h
      cases h

/-- A whole file holds the same after padding. -/
theorem content_padding (h : Gzip.content bs = .ok w) : Stage.padding.content bs = .ok w := by
  cases bs with
  | nil => exact h
  | cons first rest =>
    have hstart : Stage.start.step first = .ok (.magic first) := rfl
    rw [← content_start, content_cons_ok hstart] at h
    have hmagic : (Stage.magic first).content rest = .ok w := (map_nil_append _).symm.trans h
    obtain rfl := eq_of_content_magic hmagic
    have hpadding : Stage.padding.step 0x1F = .ok (.magic 0x1F) := rfl
    rw [content_cons_ok hpadding, hmagic]
    rfl

end Stage

/-- What a file holds and what a file after it holds, with zero bytes between them. -/
theorem content_join {a b u w : Bytes} (hne : a ≠ []) (ha : content a = .ok u)
    (hb : content b = .ok w) (count : Nat) :
    content (a ++ List.replicate count 0 ++ b) = .ok (u ++ w) := by
  rw [← Stage.content_start, List.append_assoc, Stage.content_append (.inr hne) ha,
    Stage.content_zeros, Stage.content_padding hb]
  rfl

end LegacyImage.Gzip
