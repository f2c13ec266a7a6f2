import LegacyImage.Manifest
import LegacyImage.Proofs.Digest.Spelling
import Mathlib.Data.List.Forall2

/-!
The written form of a digest as the normal form of its spellings. Every spelling is read as the
digest whose text has the digits in lowercase, that text is read as the same digest again, and two
spellings are of one digest exactly if they differ in nothing but the case of their digits
(`normal_form`).
-/

namespace LegacyImage

/-! ## Hexadecimal letters in either case -/

/-- Whether two code points are the same up to the case of a letter from A to F. -/
def CodePoint.SameLetter (c c' : CodePoint) : Prop :=
  c = c' ∨ (0x41 ≤ c.val ∧ c.val ≤ 0x46 ∧ c'.val = c.val + 0x20) ∨
    (0x41 ≤ c'.val ∧ c'.val ≤ 0x46 ∧ c.val = c'.val + 0x20)

theorem CodePoint.lowerHex_eq_iff {c c' : CodePoint} :
    c.lowerHex = c'.lowerHex ↔ c.SameLetter c' := by
  unfold lowerHex SameLetter
  rw [Fin.ext_iff, Fin.ext_iff]
  by_cases hc : 0x41 ≤ c.val ∧ c.val ≤ 0x46
  · by_cases hc' : 0x41 ≤ c'.val ∧ c'.val ≤ 0x46
    · rw [dif_pos hc, dif_pos hc']
      dsimp only
      omega
    · rw [dif_pos hc, dif_neg hc']
      dsimp only
      omega
  · by_cases hc' : 0x41 ≤ c'.val ∧ c'.val ≤ 0x46
    · rw [dif_neg hc, dif_pos hc']
      dsimp only
      omega
    · rw [dif_neg hc, dif_neg hc']
      omega

/-- Whether two texts differ at most in the case of letters from A to F. -/
def Text.SameLetters (s t : Text) : Prop := List.Forall₂ CodePoint.SameLetter s t

theorem Text.lowerHex_eq_iff {s t : Text} : s.lowerHex = t.lowerHex ↔ s.SameLetters t := by
  rw [Text.lowerHex, Text.lowerHex, ← List.forall₂_eq_eq_eq, List.forall₂_map_left_iff,
    List.forall₂_map_right_iff, Text.SameLetters]
  simp only [CodePoint.lowerHex_eq_iff]

/-! ## Spellings and what they spell -/

theorem Algorithm.length_name (a : Algorithm) : a.name.length = 6 := by
  cases a <;> rfl

namespace Digest

/-- A text is split at its first colon in one way. -/
theorem name_append_inj {a b : Algorithm} {s t : Text} :
    a.name ++ ↑ ':' :: s = b.name ++ ↑ ':' :: t ↔ a = b ∧ s = t := by
  constructor
  · intro h
    obtain ⟨hname, hrest⟩ := List.append_inj h (a.length_name.trans b.length_name.symm)
    exact ⟨Algorithm.name_injective hname, (List.cons.inj hrest).2⟩
  · rintro ⟨rfl, rfl⟩
    rfl

theorem lowerHex_name_append (a : Algorithm) (digits : Text) :
    Text.lowerHex (a.name ++ ↑ ':' :: digits) = a.name ++ ↑ ':' :: digits.lowerHex := by
  rw [Text.lowerHex_append, a.lowerHex_name]
  rfl

/-- What a digest is spelled as, and by which digits it is then written. -/
theorem parse?_eq_some_iff_digits {t : Text} {d : Digest} :
    parse? t = some d ↔ ∃ digits : Text, t = d.algorithm.name ++ ↑ ':' :: digits ∧
      digits.length = d.algorithm.hexLength ∧ (∀ c ∈ digits, c.IsHexDigit) ∧
      d.hex = digits.lowerHex := by
  rw [parse?_eq_some_iff]
  constructor
  · rintro ⟨⟨a, digits, rfl, hlength, hdigits⟩, htext⟩
    rw [lowerHex_name_append] at htext
    obtain ⟨rfl, hhex⟩ := name_append_inj.mp htext
    exact ⟨digits, rfl, hlength, hdigits, hhex⟩
  · rintro ⟨digits, rfl, hlength, hdigits, hhex⟩
    refine ⟨⟨d.algorithm, digits, rfl, hlength, hdigits⟩, ?_⟩
    rw [lowerHex_name_append, toText, hhex]

/-- Two spellings are of one digest if they are the same in lowercase. -/
theorem eq_iff_of_parse? {s t : Text} {d e : Digest} (hs : parse? s = some d)
    (ht : parse? t = some e) : d = e ↔ s.SameLetters t := by
  rw [← Text.lowerHex_eq_iff, ← (parse?_eq_some_iff.mp hs).2, ← (parse?_eq_some_iff.mp ht).2]
  constructor
  · intro h
    rw [h]
  · exact toText_injective

/-- Of all values only texts spell digests. -/
theorem ofJson?_eq_some_iff {v : Json} {d : Digest} :
    ofJson? v = some d ↔ ∃ t, v = .str t ∧ parse? t = some d := by
  cases v <;> simp [ofJson?]

/-- Exactly the texts of the grammar are read: the name of a function, a colon and as many
hexadecimal digits as it takes. What is read is written with the same name and the digits in
lowercase, which is read as the same digest again; two texts are read as one digest exactly if they
differ at most in the case of hexadecimal letters. No value but a text is read. The digest of a byte
string is read from its written form, and its digits spell the hash value. -/
theorem normal_form :
    (∀ t : Text, (∃ d, parse? t = some d) ↔ IsSpelled t) ∧
    (∀ (t : Text) (d : Digest), parse? t = some d ↔
      ∃ digits : Text, t = d.algorithm.name ++ ↑ ':' :: digits ∧
        digits.length = d.algorithm.hexLength ∧ (∀ c ∈ digits, c.IsHexDigit) ∧
        d.hex = digits.lowerHex) ∧
    (∀ d : Digest, d.toText = d.algorithm.name ++ ↑ ':' :: d.hex ∧ parse? d.toText = some d) ∧
    (∀ (s t : Text) (d e : Digest), parse? s = some d → parse? t = some e →
      (d = e ↔ s.SameLetters t)) ∧
    (∀ (v : Json) (d : Digest), ofJson? v = some d ↔ ∃ t, v = .str t ∧ parse? t = some d) ∧
    (∀ (a : Algorithm) (data : Bytes), (calculate a data).algorithm = a ∧
      parse? (calculate a data).toText = some (calculate a data) ∧
      (calculate a data).hex.length = a.hexLength ∧
      Text.toHexBytes? (calculate a data).hex = some (a.hash data)) := by
  refine ⟨?_, fun _ _ => parse?_eq_some_iff_digits, fun d => ⟨rfl, parse?_toText d⟩,
    fun _ _ _ _ => eq_iff_of_parse?, fun _ _ => ofJson?_eq_some_iff, ?_⟩
  · intro t
    constructor
    · rintro ⟨d, hd⟩
      exact (isSpelled_of_parse? hd).1
    · exact exists_parse?_of_isSpelled
  · intro a data
    refine ⟨rfl, parse?_toText _, ?_, Text.toHexBytes?_ofHexBytes _⟩
    rw [hex, Text.length_ofHexBytes, a.hexLength_eq]
    exact congrArg (2 * ·) (a.length_hash data)

/-- The digest of nothing, in capitals. -/
def emptySum : Text := Text.ofString
  "sha256:E3B0C44298FC1C149AFBF4C8996FB92427AE41E4649B934CA495991B7852B855"

theorem normal_form_emptySum : parse? emptySum = some (ofBytes []) ∧
    parse? (ofBytes []).toText = some (ofBytes []) ∧
    emptySum.SameLetters (ofBytes []).toText := by
  obtain ⟨-, -, hwritten, hsame, -, -⟩ := normal_form
  have hcapitals : parse? emptySum = some (ofBytes []) := by decide +kernel
  have hlower := (hwritten (ofBytes [])).2
  exact ⟨hcapitals, hlower, (hsame _ _ _ _ hcapitals hlower).mp rfl⟩

end Digest

end LegacyImage
