import LegacyImage.Proofs.Digest.NormalForm
import LegacyImage.Store.Tampering

/-!
Where the blobs of a directory lie. Whatever a text holds, it either names no blob or one that lies
three names below the root of the directory, none of which leads out of it; the path in writing
tells the root and the digest apart from all others, and a root may be given as it is written
(`blobs_below_root`).
-/

namespace LegacyImage

/-! ## The digits of a digest -/

/-- A hexadecimal digit as digests are written with. -/
def CodePoint.IsLowerHexDigit (c : CodePoint) : Prop :=
  (0x30 ≤ c.val ∧ c.val ≤ 0x39) ∨ (0x61 ≤ c.val ∧ c.val ≤ 0x66)

theorem CodePoint.IsHexDigit.lowerHex {c : CodePoint} (h : c.IsHexDigit) :
    c.lowerHex.IsLowerHexDigit := by
  unfold IsHexDigit at h
  unfold IsLowerHexDigit CodePoint.lowerHex
  by_cases hc : 0x41 ≤ c.val ∧ c.val ≤ 0x46
  · rw [dif_pos hc]
    dsimp only
    omega
  · rw [dif_neg hc]
    omega

/-- A digest is written with as many lowercase digits as its function takes. -/
theorem Digest.hex_spec (d : Digest) :
    d.hex.length = d.algorithm.hexLength ∧ ∀ c ∈ d.hex, c.IsLowerHexDigit := by
  obtain ⟨digits, -, hlength, hdigits, hhex⟩ :=
    parse?_eq_some_iff_digits.mp (parse?_toText d)
  rw [hhex]
  refine ⟨by rw [Text.lowerHex, List.length_map, hlength], ?_⟩
  intro c hc
  obtain ⟨digit, hdigit, rfl⟩ := List.mem_map.mp hc
  exact (hdigits digit hdigit).lowerHex

theorem Algorithm.hexLength_pos (a : Algorithm) : 0 < a.hexLength := by
  cases a <;> decide

namespace BlobDirectory

def ofText (root : Text) : BlobDirectory := ⟨.ofText root⟩

/-- No name on the way from the root to a blob leads up, and none is more than one name. -/
theorem stays_of_mem_namesOf {d : Digest} {name : Text} (h : name ∈ namesOf d) :
    name ≠ Path.up ∧ ↑ '/' ∉ name := by
  simp only [namesOf, List.mem_cons, List.not_mem_nil, or_false] at h
  rcases h with rfl | rfl | rfl
  · decide
  · cases d.algorithm <;> decide
  · have hdigit : ∀ c : CodePoint, ¬ c.IsLowerHexDigit → c ∉ d.hex :=
      fun c hc hmem => hc (d.hex_spec.2 c hmem)
    refine ⟨?_, hdigit _ (by unfold CodePoint.IsLowerHexDigit; decide)⟩
    intro hup
    refine hdigit (↑ '.') (by unfold CodePoint.IsLowerHexDigit; decide) ?_
    rw [hup, Path.up]
    exact List.mem_cons_self

theorem isNormal_pathOf_ofText (root : Text) (d : Digest) : ((ofText root).pathOf d).IsNormal :=
  isNormal_pathOf (Path.isNormal_ofText root) d

/-- The path of a blob in writing says where the root is and what the digest. -/
theorem toText_pathOf_inj {root root' : Text} {d d' : Digest} :
    ((ofText root).pathOf d).toText = ((ofText root').pathOf d').toText ↔
      Path.ofText root = Path.ofText root' ∧ d = d' := by
  constructor
  · intro h
    obtain ⟨hdir, hd⟩ := pathOf_inj.mp
      (Path.toText_injective (isNormal_pathOf_ofText root d) (isNormal_pathOf_ofText root' d') h)
    exact ⟨congrArg BlobDirectory.root hdir, hd⟩
  · rintro ⟨hroot, rfl⟩
    rw [ofText, ofText, hroot]

theorem exists_of_pathOfText? {dir : BlobDirectory} {t : Text} {p : Path}
    (h : dir.pathOfText? t = some p) : ∃ d, Digest.parse? t = some d ∧ p = dir.pathOf d := by
  obtain ⟨d, hd, rfl⟩ := Option.map_eq_some_iff.mp h
  exact ⟨d, hd, rfl⟩

/-- A text that spells no digest names no blob, whatever the root. Any other names the one that lies
below the root by the name of the blobs, that of the function and the lowercase digits, none of which
leads up or is more than one name, and these are the names that are read back from the path in
writing. Two such paths are written alike exactly if the roots are the same once normalised, and
the texts spell the same digest. A root that is given as its normal form is written names the same
directory. -/
theorem blobs_below_root :
    (∀ root t : Text, (¬ Digest.IsSpelled t ∧ (ofText root).pathOfText? t = none) ∨
      ∃ (a : Algorithm) (digits : Text) (p : Path),
        t = a.name ++ ↑ ':' :: digits ∧ (ofText root).pathOfText? t = some p ∧
        p = ((Path.ofText root).descend [Text.ofString "blobs"]).descend
          [a.name, digits.lowerHex] ∧
        digits.lowerHex ≠ [] ∧ digits.lowerHex.length = a.hexLength ∧
        (∀ c ∈ digits.lowerHex, c.IsLowerHexDigit) ∧
        (∀ name ∈ [a.name, digits.lowerHex], name ≠ Path.up ∧ ↑ '/' ∉ name) ∧
        Path.ofText p.toText = p) ∧
    (∀ (root root' t t' : Text) (p p' : Path), (ofText root).pathOfText? t = some p →
      (ofText root').pathOfText? t' = some p' →
      (p.toText = p'.toText ↔
        Path.ofText root = Path.ofText root' ∧ Digest.parse? t = Digest.parse? t')) ∧
    (∀ root : Text, Path.ofText (Path.ofText root).toText = Path.ofText root ∧
      (ofText (Path.ofText root).toText).describe = (ofText root).describe ∧
      ∀ t, (ofText (Path.ofText root).toText).pathOfText? t = (ofText root).pathOfText? t) := by
  refine ⟨?_, ?_, ?_⟩
  · intro root t
    cases hparse : Digest.parse? t with
    | none =>
      refine Or.inl ⟨Digest.parse?_eq_none_iff.mp hparse, ?_⟩
      rw [pathOfText?, hparse]
      rfl
    | some d =>
      obtain ⟨digits, htext, -, -, hhex⟩ := Digest.parse?_eq_some_iff_digits.mp hparse
      obtain ⟨hlength, hdigits⟩ := d.hex_spec
      refine Or.inr ⟨d.algorithm, digits, (ofText root).pathOf d, htext, ?_, ?_⟩
      · rw [pathOfText?, hparse]
        rfl
      rw [← hhex]
      refine ⟨?_, ?_, hlength, hdigits, ?_, Path.ofText_toText (isNormal_pathOf_ofText root d)⟩
      · rw [Path.descend, Path.descend, List.append_assoc]
        rfl
      · intro hnil
        rw [hnil] at hlength
        exact absurd hlength (Nat.ne_of_lt d.algorithm.hexLength_pos)
      · intro name hname
        exact stays_of_mem_namesOf (List.mem_cons_of_mem _ hname)
  · intro root root' t t' p p' hp hp'
    obtain ⟨d, hd, rfl⟩ := exists_of_pathOfText? hp
    obtain ⟨d', hd', rfl⟩ := exists_of_pathOfText? hp'
    rw [toText_pathOf_inj, hd, hd', Option.some_inj]
  · intro root
    have hroot : ofText (Path.ofText root).toText = ofText root :=
      congrArg BlobDirectory.mk (Path.ofText_toText_ofText root)
    refine ⟨Path.ofText_toText_ofText root, ?_, ?_⟩
    · rw [hroot]
    · intro t
      rw [hroot]

/-- A root that goes up and comes down by dots, and the same one in its normal form. -/
theorem blobs_below_root_dotted :
    (ofText (Text.ofString ".././/blobs/./sha256/")).pathOfText? Digest.emptySum =
        some ((ofText (Text.ofString "../blobs/sha256")).pathOf (.ofBytes [])) ∧
      (ofText (Text.ofString "../blobs/sha256")).pathOfText? (Digest.ofBytes []).toText =
        some ((ofText (Text.ofString "../blobs/sha256")).pathOf (.ofBytes [])) ∧
      Path.ofText (Text.ofString ".././/blobs/./sha256/") =
        Path.ofText (Text.ofString "../blobs/sha256") := by
  have hroot : Path.ofText (Text.ofString ".././/blobs/./sha256/") =
      Path.ofText (Text.ofString "../blobs/sha256") := by decide
  have hread : Digest.parse? Digest.emptySum = some (.ofBytes []) := by decide +kernel
  have hdotted : (ofText (Text.ofString ".././/blobs/./sha256/")).pathOfText? Digest.emptySum =
      some ((ofText (Text.ofString "../blobs/sha256")).pathOf (.ofBytes [])) := by
    rw [pathOfText?, hread, ofText, ofText, hroot]
    rfl
  have hplain : (ofText (Text.ofString "../blobs/sha256")).pathOfText? (Digest.ofBytes []).toText =
      some ((ofText (Text.ofString "../blobs/sha256")).pathOf (.ofBytes [])) := by
    rw [pathOfText?, Digest.parse?_toText]
    rfl
  exact ⟨hdotted, hplain, ((blobs_below_root.2.1 _ _ _ _ _ _ hdotted hplain).mp rfl).1⟩

end BlobDirectory

end LegacyImage
