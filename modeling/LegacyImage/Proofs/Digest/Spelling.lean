import LegacyImage.Digest

/-!
Which texts spell a digest, said on the text alone: the name of a known function, a colon and as
many ASCII hexadecimal digits as its values take, in either case. `parse?_eq_some_iff` ties this
grammar to the reader of digests, and says what the digest that was read is written as: the same
text with its digits in lowercase.
-/

namespace LegacyImage

/-! ## Hexadecimal digits in either case -/

namespace CodePoint

def IsHexDigit (c : CodePoint) : Prop :=
  (0x30 ≤ c.val ∧ c.val ≤ 0x39) ∨ (0x41 ≤ c.val ∧ c.val ≤ 0x46) ∨ (0x61 ≤ c.val ∧ c.val ≤ 0x66)

instance (c : CodePoint) : Decidable c.IsHexDigit := inferInstanceAs (Decidable (_ ∨ _ ∨ _))

/-- The letters from A to F in lowercase, and every other code point as it is. -/
def lowerHex (c : CodePoint) : CodePoint :=
  if h : 0x41 ≤ c.val ∧ c.val ≤ 0x46 then ⟨c.val + 0x20, by omega⟩ else c

theorem isSome_hexValue?_iff (c : CodePoint) : c.hexValue?.isSome ↔ c.IsHexDigit := by
  unfold hexValue? IsHexDigit
  split
  · rename_i h
    simp [h]
  · rename_i h₁
    split
    · rename_i h
      simp [h]
    · rename_i h₂
      split
      · rename_i h
        simp [h]
      · rename_i h₃
        simp [h₁, h₂, h₃]

/-- The lowercase digit of a value that was read is the code point it was read from, in
lowercase. -/
theorem hexDigit_of_hexValue? {c : CodePoint} {n : Nat} (h : c.hexValue? = some n) :
    n < 16 ∧ Text.hexDigit n = c.lowerHex := by
  unfold hexValue? at h
  split at h
  · rename_i hc
    obtain rfl := Option.some.inj h
    have hn : (c.val - 0x30) % 16 = c.val - 0x30 := Nat.mod_eq_of_lt (by omega)
    refine ⟨by omega, ?_⟩
    unfold Text.hexDigit lowerHex
    rw [dif_neg (by omega)]
    simp only [hn]
    rw [if_pos (by omega)]
    exact Fin.ext (by simp only; omega)
  split at h
  · rename_i hc
    obtain rfl := Option.some.inj h
    have hn : (c.val - 0x37) % 16 = c.val - 0x37 := Nat.mod_eq_of_lt (by omega)
    refine ⟨by omega, ?_⟩
    unfold Text.hexDigit lowerHex
    rw [dif_pos hc]
    simp only [hn]
    rw [if_neg (by omega)]
    exact Fin.ext (by simp only; omega)
  split at h
  · rename_i hc
    obtain rfl := Option.some.inj h
    have hn : (c.val - 0x57) % 16 = c.val - 0x57 := Nat.mod_eq_of_lt (by omega)
    refine ⟨by omega, ?_⟩
    unfold Text.hexDigit lowerHex
    rw [dif_neg (by omega)]
    simp only [hn]
    rw [if_neg (by omega)]
    exact Fin.ext (by simp only; omega)
  · cases h

end CodePoint

namespace Text

/-- A text with its letters from A to F in lowercase. -/
def lowerHex (t : Text) : Text := t.map CodePoint.lowerHex

@[simp] theorem lowerHex_nil : lowerHex [] = [] := rfl

@[simp] theorem lowerHex_cons (c : CodePoint) (t : Text) :
    lowerHex (c :: t) = c.lowerHex :: lowerHex t := rfl

theorem lowerHex_append (s t : Text) : lowerHex (s ++ t) = lowerHex s ++ lowerHex t :=
  List.map_append

/-- Two digits a byte, and their lowercase forms are what the bytes are written as. -/
theorem ofHexBytes_of_toHexBytes? : ∀ {t : Text} {bs : Bytes}, toHexBytes? t = some bs →
    ofHexBytes bs = t.lowerHex ∧ t.length = 2 * bs.length ∧ ∀ c ∈ t, c.IsHexDigit
  | [], bs, h => by
    obtain rfl := Option.some.inj h
    refine ⟨rfl, rfl, ?_⟩
    intro c hc
    cases hc
  | [_], _, h => by cases h
  | high :: low :: rest, bs, h => by
    simp only [toHexBytes?, Option.bind_eq_bind, Option.bind_eq_some_iff, Option.pure_def,
      Option.some.injEq] at h
    obtain ⟨x, hx, y, hy, tail, ht, rfl⟩ := h
    obtain ⟨he, hl, hd⟩ := ofHexBytes_of_toHexBytes? ht
    obtain ⟨hx16, hxd⟩ := CodePoint.hexDigit_of_hexValue? hx
    obtain ⟨hy16, hyd⟩ := CodePoint.hexDigit_of_hexValue? hy
    have hn : (UInt8.ofNat (16 * x + y)).toNat = 16 * x + y := by
      rw [UInt8.toNat_ofNat']
      exact Nat.mod_eq_of_lt (by omega)
    have hmod : hexDigit (16 * x + y) = hexDigit y := by
      unfold hexDigit
      simp only [Nat.mul_add_mod]
    refine ⟨?_, ?_, ?_⟩
    · change hexDigit (_ / 16) :: hexDigit _ :: ofHexBytes tail = _
      rw [hn, hmod, he, lowerHex_cons, lowerHex_cons, ← hxd, ← hyd,
        show (16 * x + y) / 16 = x by omega]
    · simp only [List.length_cons, hl]
      omega
    · intro c hc
      rcases List.mem_cons.mp hc with rfl | hc
      · exact (CodePoint.isSome_hexValue?_iff _).mp (hx ▸ rfl)
      rcases List.mem_cons.mp hc with rfl | hc
      · exact (CodePoint.isSome_hexValue?_iff _).mp (hy ▸ rfl)
      · exact hd c hc

/-- Digits in pairs always spell bytes. -/
theorem exists_toHexBytes? : ∀ {n : Nat} {t : Text}, t.length = 2 * n → (∀ c ∈ t, c.IsHexDigit) →
    ∃ bs, toHexBytes? t = some bs ∧ bs.length = n
  | 0, t, hl, _ => ⟨[], by rw [List.length_eq_zero_iff.mp hl]; rfl, rfl⟩
  | n + 1, [], hl, _ => by simp at hl
  | n + 1, [_], hl, _ => by simp at hl; omega
  | n + 1, high :: low :: rest, hl, hd => by
    have hrest : rest.length = 2 * n := by simp at hl; omega
    obtain ⟨bs, hbs, hlen⟩ := exists_toHexBytes? hrest fun c hc =>
      hd c (List.mem_cons_of_mem _ (List.mem_cons_of_mem _ hc))
    obtain ⟨x, hx⟩ := Option.isSome_iff_exists.mp
      ((CodePoint.isSome_hexValue?_iff high).mpr (hd high (by simp)))
    obtain ⟨y, hy⟩ := Option.isSome_iff_exists.mp
      ((CodePoint.isSome_hexValue?_iff low).mpr (hd low (by simp)))
    refine ⟨UInt8.ofNat (16 * x + y) :: bs, ?_, by simp [hlen]⟩
    simp [toHexBytes?, hx, hy, hbs]

end Text

/-! ## Digests in writing -/

namespace Algorithm

def hexLength : Algorithm → Nat
  | .sha256 => 64
  | .sha384 => 96
  | .sha512 => 128

theorem hexLength_eq (a : Algorithm) : a.hexLength = 2 * a.size := by
  cases a <;> rfl

theorem lowerHex_name (a : Algorithm) : a.name.lowerHex = a.name := by
  cases a <;> decide

theorem name_of_ofName? {t : Text} {a : Algorithm} (h : ofName? t = some a) : a.name = t := by
  simpa using List.find?_some h

theorem name_injective {a b : Algorithm} (h : a.name = b.name) : a = b := by
  have hname := congrArg ofName? h
  rw [ofName?_name, ofName?_name] at hname
  exact Option.some.inj hname

end Algorithm

namespace Digest

/-- Whether a text is the name of a known function, a colon and the digits of a hash value. -/
def IsSpelled (t : Text) : Prop :=
  ∃ (a : Algorithm) (digits : Text), t = a.name ++ ↑ ':' :: digits ∧
    digits.length = a.hexLength ∧ ∀ c ∈ digits, c.IsHexDigit

/-- A text that begins with a name and a colon is split there. -/
theorem parse?_name_append (a : Algorithm) (digits : Text) :
    parse? (a.name ++ ↑ ':' :: digits) = (Text.toHexBytes? digits).bind fun value =>
      if h : value.length = a.size then some ⟨a, value, h⟩ else none := by
  have hn : ∀ c ∈ a.name, (decide (c ≠ (↑ ':' : CodePoint))) = true := by
    intro c hc
    exact decide_eq_true fun e => a.colon_not_mem_name (e ▸ hc)
  have hd : (a.name ++ ↑ ':' :: digits).dropWhile (· ≠ ↑ ':') = ↑ ':' :: digits := by
    rw [List.dropWhile_append_of_pos hn]
    rfl
  have ht : (a.name ++ ↑ ':' :: digits).takeWhile (· ≠ ↑ ':') = a.name := by
    rw [List.takeWhile_append_of_pos hn]
    simp
  unfold parse?
  rw [hd, ht, Algorithm.ofName?_name]
  rfl

/-- What is read begins with the name of its function. -/
theorem exists_name_append_of_parse? {t : Text} {d : Digest} (h : parse? t = some d) :
    ∃ (a : Algorithm) (digits : Text), t = a.name ++ ↑ ':' :: digits := by
  unfold parse? at h
  split at h
  · cases h
  · rename_i c digits hd
    simp only [Option.bind_eq_bind, Option.bind_eq_some_iff] at h
    obtain ⟨a, ha, _⟩ := h
    have hc : c = (↑ ':' : CodePoint) := by
      have := List.head?_dropWhile_not (fun c => decide (c ≠ (↑ ':' : CodePoint))) t
      rw [hd] at this
      simpa using this
    have := List.takeWhile_append_dropWhile (p := fun c => decide (c ≠ (↑ ':' : CodePoint))) (l := t)
    rw [hd, hc] at this
    exact ⟨a, digits, by rw [Algorithm.name_of_ofName? ha, this]⟩

/-- What is read is spelled, and is written as the text in lowercase. -/
theorem isSpelled_of_parse? {t : Text} {d : Digest} (h : parse? t = some d) :
    IsSpelled t ∧ d.toText = t.lowerHex := by
  obtain ⟨a, digits, rfl⟩ := exists_name_append_of_parse? h
  rw [parse?_name_append] at h
  obtain ⟨value, hv, h⟩ := Option.bind_eq_some_iff.mp h
  obtain ⟨he, hl, hd⟩ := Text.ofHexBytes_of_toHexBytes? hv
  split at h
  · rename_i hsize
    obtain rfl := Option.some.inj h
    refine ⟨⟨a, digits, rfl, ?_, hd⟩, ?_⟩
    · rw [hl, hsize, a.hexLength_eq]
    · rw [toText, hex, he, Text.lowerHex_append, a.lowerHex_name]
      rfl
  · cases h

theorem exists_parse?_of_isSpelled {t : Text} (h : IsSpelled t) : ∃ d, parse? t = some d := by
  obtain ⟨a, digits, rfl, hl, hd⟩ := h
  obtain ⟨value, hv, hsize⟩ := Text.exists_toHexBytes? (hl.trans a.hexLength_eq) hd
  exact ⟨⟨a, value, hsize⟩, by rw [parse?_name_append, hv, Option.bind_some, dif_pos hsize]⟩

/-- Exactly the texts of the grammar are read, each as the digest that is written as the text in
lowercase. -/
theorem parse?_eq_some_iff {t : Text} {d : Digest} :
    parse? t = some d ↔ IsSpelled t ∧ d.toText = t.lowerHex := by
  refine ⟨isSpelled_of_parse?, ?_⟩
  rintro ⟨hs, htext⟩
  obtain ⟨e, he⟩ := exists_parse?_of_isSpelled hs
  rw [he, toText_injective ((isSpelled_of_parse? he).2.trans htext.symm)]

theorem parse?_eq_none_iff {t : Text} : parse? t = none ↔ ¬ IsSpelled t := by
  constructor
  · intro h hs
    obtain ⟨d, hd⟩ := exists_parse?_of_isSpelled hs
    rw [hd] at h
    cases h
  · intro h
    cases hp : parse? t with
    | none => rfl
    | some d => exact absurd (isSpelled_of_parse? hp).1 h

end Digest

end LegacyImage
