import LegacyImage.Double.Notation
import LegacyImage.Proofs.Double.Rounding
import LegacyImage.Proofs.Json.Numerals

/-!
Doubles in writing are numbers of documents. Whichever notation a finite double is laid out in, the
text is that of a number with a point or an exponent, and the number is read as the double
(`exists_numeral_of_isFinite`).
-/

namespace LegacyImage

open Json

namespace Double

/-! ## Significant digits -/

/-- How the coefficient of a decimal number is written: digits of which the first is no zero, and
zeros after them. -/
structure HasDigits (d : Decimal) (one : Char) (more : List Char) (zeros : Nat) : Prop where
  digits_eq : significantDigits d = one :: more
  ne_zero : one ≠ '0'
  isDigit_of_mem : ∀ c ∈ one :: more, c.isDigit = true
  coefficient_eq : d.coefficient = Nat.ofDigitChars 10 (one :: more) 0 * 10 ^ zeros
  scale_eq : scale d = d.exponent + (more.length + zeros : Nat)

theorem head_toDigits {n : Nat} (hn : 0 < n) {c : Char} {rest : List Char}
    (h : Nat.toDigits 10 n = c :: rest) : c ≠ '0' := by
  rintro rfl
  rcases Text.ofNat_cases n with ⟨hzero, -⟩ | ⟨d, more, hd, -, hne⟩
  · omega
  · rw [Text.ofNat, h] at hd
    exact hne (List.head_eq_of_cons_eq hd).symm

theorem exists_hasDigits {d : Decimal} (hd : 0 < d.coefficient) :
    ∃ one more zeros, HasDigits d one more zeros := by
  have hsplit : significantDigits d ++
      ((Nat.toDigits 10 d.coefficient).reverse.takeWhile (· = '0')).reverse =
        Nat.toDigits 10 d.coefficient := by
    rw [significantDigits, ← List.reverse_append, List.takeWhile_append_dropWhile,
      List.reverse_reverse]
  obtain ⟨zeros, hzeros⟩ : ∃ zeros,
      ((Nat.toDigits 10 d.coefficient).reverse.takeWhile (· = '0')).reverse =
        List.replicate zeros '0' := by
    refine ⟨_, List.eq_replicate_of_mem ?_⟩
    intro c hc
    have hall := List.all_takeWhile (p := (· = '0')) (l := (Nat.toDigits 10 d.coefficient).reverse)
    simpa using List.all_eq_true.mp hall c (List.mem_reverse.mp hc)
  rw [hzeros] at hsplit
  have hcoefficient : d.coefficient = Nat.ofDigitChars 10 (significantDigits d) 0 * 10 ^ zeros := by
    rw [← Nat.mul_comm, ← Nat.ofDigitChars_replicate_zero, ← Nat.ofDigitChars_append, hsplit,
      Nat.ofDigitChars_ten_toDigits]
  cases hdigits : significantDigits d with
  | nil =>
    rw [hdigits] at hcoefficient
    rw [Nat.ofDigitChars_nil, Nat.zero_mul] at hcoefficient
    omega
  | cons one more =>
    rw [hdigits] at hsplit hcoefficient
    refine ⟨one, more, zeros, hdigits, head_toDigits hd hsplit.symm, ?_, hcoefficient, ?_⟩
    · intro c hc
      refine Nat.isDigit_of_mem_toDigits (b := 10) (n := d.coefficient) (by decide) (by decide) ?_
      rw [← hsplit]
      exact List.mem_append_left _ hc
    · rw [scale, ← hsplit]
      simp

/-! ## The parts of a double in writing -/

/-- Whether characters, after a sign, are a number of documents that is read as a double. -/
def IsNumeral (negative : Bool) (cs : List Char) (x : Double) : Prop :=
  ∃ n : Numeral, n.text = minusText negative ++ Text.ofChars cs ∧ n.value = .float x

theorem isDigit_of_mem_ofChars {cs : List Char} (h : ∀ c ∈ cs, c.isDigit = true) :
    ∀ c ∈ Text.ofChars cs, isDigit c = true := by
  intro c hc
  obtain ⟨d, hd, rfl⟩ := List.mem_map.mp hc
  exact isDigit_ofChar (h d hd)

theorem natOfDigits_ofChars (cs : List Char) :
    natOfDigits (Text.ofChars cs) = Nat.ofDigitChars 10 cs 0 := by
  rw [natOfDigits_eq, foldl_addDigit_ofChars]

/-- Digits before the point and after it, and an exponent. There is one of the latter two. -/
theorem isNumeral_of_parts (negative : Bool) (exponent : Option Exponent) {w : Nat}
    {whole fraction : List Char} (hwhole : Text.ofNat w = Text.ofChars whole)
    (hfraction : ∀ c ∈ fraction, c.isDigit = true)
    (hdouble : fraction ≠ [] ∨ exponent.isSome = true) :
    ∃ n : Numeral, n.text = minusText negative ++ (Text.ofChars whole ++
        (fractionText (Text.ofChars fraction) ++ exponentText exponent)) ∧
      n.value = .float (ofDecimal negative (Nat.ofDigitChars 10 (whole ++ fraction) 0)
        ((exponent.map Exponent.value).getD 0 - fraction.length)) := by
  have hdigits := isDigit_of_mem_ofChars hfraction
  refine ⟨⟨negative, w, Text.ofChars fraction, exponent, hdigits⟩, ?_, ?_⟩
  · rw [Numeral.text, hwhole]
  · have hnot : ¬ ((Text.ofChars fraction).isEmpty && exponent.isNone) = true := by
      rcases hdouble with h | h
      · simp [Text.ofChars, h]
      · simp [Option.isSome_iff_ne_none.mp h]
    rw [Numeral.value, if_neg hnot]
    dsimp only
    rw [hwhole, ← natOfDigits_ofChars, Text.ofChars, Text.ofChars, Text.ofChars, List.map_append,
      List.length_map]

/-- An exponent is written with a sign and with the digits of its size, a zero before a single
one. -/
theorem exponentPart_eq (e : Int) : ∃ digits : List Char,
    exponentPart e = 'e' :: (if e < 0 then '-' else '+') :: digits ∧ digits ≠ [] ∧
      (∀ c ∈ digits, c.isDigit = true) ∧ Nat.ofDigitChars 10 digits 0 = e.natAbs := by
  have hall : ∀ c ∈ Nat.toDigits 10 e.natAbs, c.isDigit = true := fun c hc =>
    Nat.isDigit_of_mem_toDigits (by decide) (by decide) hc
  by_cases hlength : (Nat.toDigits 10 e.natAbs).length < 2
  · refine ⟨'0' :: Nat.toDigits 10 e.natAbs, ?_, List.cons_ne_nil _ _, ?_, ?_⟩
    · simp [exponentPart, hlength]
    · exact List.forall_mem_cons.mpr ⟨rfl, hall⟩
    · exact Nat.ofDigitChars_ten_toDigits
  · refine ⟨Nat.toDigits 10 e.natAbs, ?_, Nat.toDigits_ne_nil, hall, Nat.ofDigitChars_ten_toDigits⟩
    simp [exponentPart, hlength]

theorem exists_exponent (e : Int) :
    ∃ part : Exponent, part.text = Text.ofChars (exponentPart e) ∧ part.value = e := by
  obtain ⟨digits, hdigits, hne, hall, hvalue⟩ := exponentPart_eq e
  refine ⟨⟨false, if e < 0 then .minus else .plus, Text.ofChars digits, ?_,
    isDigit_of_mem_ofChars hall⟩, ?_, ?_⟩
  · simpa [Text.ofChars] using hne
  · rw [hdigits]
    by_cases he : e < 0 <;> simp [Exponent.text, Exponent.letter, Sign.text, Text.ofChars, he]
  · rw [Exponent.value]
    dsimp only
    rw [natOfDigits_ofChars, hvalue]
    by_cases he : e < 0
    · have hsign : (if e < 0 then Sign.minus else .plus) = .minus := if_pos he
      rw [if_pos hsign]
      omega
    · have hsign : (if e < 0 then Sign.minus else .plus) ≠ .minus := by simp [he]
      rw [if_neg hsign]
      omega

theorem isDigit_replicate (count : Nat) : ∀ c ∈ List.replicate count '0', c.isDigit = true := by
  intro c hc
  rw [List.eq_of_mem_replicate hc]
  rfl

/-! ## Layouts -/

section

variable {d : Decimal} {one : Char} {more : List Char} {zeros : Nat}

/-- The first digit may stand before the point, with any digits after it. -/
theorem HasDigits.ofNat_whole (h : HasDigits d one more zeros) {rest : List Char}
    (hrest : ∀ c ∈ rest, c.isDigit = true) :
    Text.ofNat (natOfDigits (Text.ofChars (one :: rest))) = Text.ofChars (one :: rest) := by
  refine Text.ofNat_natOfDigits ?_ ?_
  · exact isDigit_of_mem_ofChars
      (List.forall_mem_cons.mpr ⟨h.isDigit_of_mem one List.mem_cons_self, hrest⟩)
  · intro hone
    have hval : (CodePoint.ofChar one).val = (CodePoint.ofChar '0').val := congrArg Fin.val hone
    exact h.ne_zero (Char.toNat_inj.mp hval)

/-- The significant digits with the exponent of the last one of them make the decimal number. -/
theorem HasDigits.ofDecimal_eq (h : HasDigits d one more zeros) (negative : Bool) :
    ofDecimal negative d.coefficient d.exponent =
      ofDecimal negative (Nat.ofDigitChars 10 (one :: more) 0) (scale d - more.length) := by
  have hexponent : scale d - more.length = d.exponent + zeros := by
    rw [h.scale_eq]
    omega
  rw [h.coefficient_eq, ofDecimal_scale, hexponent]

/-- One digit, the others after a point unless there are none, and the exponent of the first one. -/
theorem HasDigits.isNumeral_exponent (h : HasDigits d one more zeros) (negative : Bool) :
    IsNumeral negative (one :: (if more = [] then [] else '.' :: more) ++ exponentPart (scale d))
      (ofDecimal negative d.coefficient d.exponent) := by
  obtain ⟨part, hpart, hvalue⟩ := exists_exponent (scale d)
  have hmore := (List.forall_mem_cons.mp h.isDigit_of_mem).2
  have hone : Text.ofNat _ = Text.ofChars [one] := h.ofNat_whole nofun
  obtain ⟨n, htext, hn⟩ := isNumeral_of_parts negative (some part) hone hmore (.inr rfl)
  refine ⟨n, ?_, ?_⟩
  · rw [htext, exponentText, hpart, fractionText]
    cases more <;> simp [Text.ofChars]
  · rw [hn, h.ofDecimal_eq, Option.map_some, Option.getD_some, hvalue]
    rfl

/-- Zeros after the point before the first digit. -/
theorem HasDigits.isNumeral_zeros (h : HasDigits d one more zeros) (hscale : scale d < 0)
    (negative : Bool) :
    IsNumeral negative ('0' :: '.' :: List.replicate (-scale d - 1).toNat '0' ++ one :: more)
      (ofDecimal negative d.coefficient d.exponent) := by
  obtain ⟨count, hcount⟩ : ∃ count, (-scale d - 1).toNat = count := ⟨_, rfl⟩
  have hall : ∀ c ∈ List.replicate count '0' ++ one :: more, c.isDigit = true :=
    List.forall_mem_append.mpr ⟨isDigit_replicate count, h.isDigit_of_mem⟩
  have hzero : Text.ofNat 0 = Text.ofChars ['0'] := rfl
  obtain ⟨n, htext, hn⟩ := isNumeral_of_parts negative none hzero hall (.inl (by simp))
  refine ⟨n, ?_, ?_⟩
  · rw [htext, hcount]
    simp [fractionText, exponentText, Text.ofChars]
  · have hdigits : Nat.ofDigitChars 10 (['0'] ++ (List.replicate count '0' ++ one :: more)) 0 =
        Nat.ofDigitChars 10 (one :: more) 0 := by
      rw [Nat.ofDigitChars_append, Nat.ofDigitChars_append, Nat.ofDigitChars_replicate_zero]
      rfl
    have hexponent : (0 : Int) - ((List.replicate count '0' ++ one :: more).length : Nat) =
        scale d - more.length := by
      rw [List.length_append, List.length_replicate, List.length_cons]
      omega
    rw [hn, h.ofDecimal_eq, Option.map_none, Option.getD_none, hdigits, hexponent]

/-- Zeros up to the point, and one after it. -/
theorem HasDigits.isNumeral_padded (h : HasDigits d one more zeros) {count : Nat}
    (hcount : scale d = more.length + count) (negative : Bool) :
    IsNumeral negative (one :: (more ++ List.replicate count '0') ++ ['.', '0'])
      (ofDecimal negative d.coefficient d.exponent) := by
  have hmore := (List.forall_mem_cons.mp h.isDigit_of_mem).2
  have hwhole := h.ofNat_whole (List.forall_mem_append.mpr ⟨hmore, isDigit_replicate count⟩)
  have hzero : ∀ c ∈ ['0'], c.isDigit = true := isDigit_replicate 1
  obtain ⟨n, htext, hn⟩ := isNumeral_of_parts negative none hwhole hzero (.inl (by decide))
  refine ⟨n, ?_, ?_⟩
  · rw [htext]
    simp [fractionText, exponentText, Text.ofChars]
  · have hdigits : one :: (more ++ List.replicate count '0') ++ ['0'] =
        one :: more ++ List.replicate (count + 1) '0' := by
      simp [List.replicate_succ']
    have hexponent : (0 : Int) - (['0'].length : Nat) + (count + 1 : Nat) =
        scale d - more.length := by
      rw [List.length_singleton]
      omega
    rw [hn, h.ofDecimal_eq, Option.map_none, Option.getD_none, hdigits, Nat.ofDigitChars_append,
      Nat.ofDigitChars_replicate_zero, Nat.mul_comm, ofDecimal_scale, hexponent]

/-- The point among the digits, with one of them after it. -/
theorem HasDigits.isNumeral_among (h : HasDigits d one more zeros) {count : Nat}
    (hcount : scale d = count) (hmore : count < more.length) (negative : Bool) :
    IsNumeral negative (one :: more.take count ++ '.' :: more.drop count)
      (ofDecimal negative d.coefficient d.exponent) := by
  have hall := (List.forall_mem_cons.mp h.isDigit_of_mem).2
  have hbefore : ∀ c ∈ more.take count, c.isDigit = true := fun c hc =>
    hall c (List.mem_of_mem_take hc)
  have hwhole := h.ofNat_whole hbefore
  have hfraction : ∀ c ∈ more.drop count, c.isDigit = true := fun c hc =>
    hall c (List.mem_of_mem_drop hc)
  have hne : more.drop count ≠ [] := by
    simpa using hmore
  obtain ⟨n, htext, hn⟩ := isNumeral_of_parts negative none hwhole hfraction (.inl hne)
  refine ⟨n, ?_, ?_⟩
  · rw [htext]
    simp [fractionText, exponentText, Text.ofChars, hmore]
  · have hdigits : one :: more.take count ++ more.drop count = one :: more := by
      rw [List.cons_append, List.take_append_drop]
    have hexponent : (0 : Int) - ((more.drop count).length : Nat) = scale d - more.length := by
      rw [List.length_drop]
      omega
    rw [hn, h.ofDecimal_eq, Option.map_none, Option.getD_none, hdigits, hexponent]

/-- The point among the digits, or zeros up to the point. -/
theorem HasDigits.isNumeral_point (h : HasDigits d one more zeros) (hscale : 0 ≤ scale d)
    (negative : Bool) :
    IsNumeral negative (withPoint (one :: more) ((scale d).toNat + 1))
      (ofDecimal negative d.coefficient d.exponent) := by
  obtain ⟨count, hcount⟩ : ∃ count : Nat, scale d = count := ⟨(scale d).toNat, by omega⟩
  rw [withPoint, hcount, Int.toNat_natCast, List.take_succ_cons, List.drop_succ_cons,
    List.length_cons]
  by_cases hmore : count < more.length
  · have hne : (more.drop count).isEmpty = false := by
      simpa using hmore
    have hpad : count + 1 - (more.length + 1) = 0 := by omega
    rw [hpad, hne]
    simpa using h.isNumeral_among hcount hmore negative
  · have hle : more.length ≤ count := by omega
    have hpad : scale d = more.length + (count + 1 - (more.length + 1) : Nat) := by omega
    rw [List.take_of_length_le hle, List.drop_eq_nil_of_le hle]
    exact h.isNumeral_padded hpad negative

end

/-! ## Doubles -/

theorem isNumeral_layout {d : Decimal} (hd : 0 < d.coefficient) (negative : Bool) :
    IsNumeral negative (layout d) (ofDecimal negative d.coefficient d.exponent) := by
  obtain ⟨one, more, zeros, h⟩ := exists_hasDigits hd
  unfold layout
  rw [h.digits_eq]
  dsimp only
  split
  · have hexponent := h.isNumeral_exponent negative
    cases more <;> exact hexponent
  split
  · exact h.isNumeral_zeros ‹_› negative
  · exact h.isNumeral_point (by omega) negative

theorem isNumeral_zero (negative : Bool) (rank : Fin (2047 * 2 ^ 52)) (h : rank.val = 0) :
    IsNumeral negative ['0', '.', '0'] (finite negative rank) := by
  have hzero : Text.ofNat 0 = Text.ofChars ['0'] := rfl
  obtain ⟨n, htext, hn⟩ := isNumeral_of_parts negative none hzero (isDigit_replicate 1) (.inl nofun)
  refine ⟨n, htext, ?_⟩
  have hdigits : Nat.ofDigitChars 10 (['0'] ++ List.replicate 1 '0') 0 = 0 := rfl
  have hrank : rank = ⟨0, by decide⟩ := Fin.ext h
  rw [hn, hdigits, ofDecimal, rankOfDecimal_zero, hrank]
  rfl

theorem coefficient_shortest_pos {rank : Nat} (h : 0 < rank) : 0 < (shortest rank).coefficient := by
  have hreads := of_decide_eq_true (readsAs_shortest h)
  refine Nat.pos_of_ne_zero ?_
  intro hzero
  rw [hzero, rankOfDecimal_zero] at hreads
  omega

/-- The text of a finite double is that of a number which is read as the double. -/
theorem exists_numeral_of_isFinite {x : Double} (hx : x.isFinite = true) :
    ∃ n : Numeral, n.text = x.toText ∧ n.value = .float x := by
  cases x with
  | nan => cases hx
  | infinite negative => cases hx
  | finite negative rank =>
    have hchars : IsNumeral negative (magnitudeChars rank.val) (finite negative rank) := by
      rw [magnitudeChars]
      split
      · exact isNumeral_zero negative rank ‹_›
      · rename_i hrank
        have hpos : 0 < rank.val := Nat.pos_of_ne_zero hrank
        rw [← ofDecimal_shortest negative hpos]
        exact isNumeral_layout (coefficient_shortest_pos hpos) negative
    obtain ⟨n, htext, hn⟩ := hchars
    refine ⟨n, ?_, hn⟩
    rw [htext]
    cases negative <;> rfl

end Double

end LegacyImage
