import LegacyImage.Json.Reader
import LegacyImage.Proofs.Text.Utf8

/-!
Numbers in writing: a sign, the decimal form of a whole number, digits after a point and an
exponent. The reader of numbers takes what is written so if nothing after it could belong to it
(`number_text`), and takes nothing else (`exists_numeral_of_number`).
-/

namespace LegacyImage

/-! ## Decimal digits -/

namespace Json

theorem isDigit_ofChar {c : Char} (h : c.isDigit = true) : isDigit (CodePoint.ofChar c) = true := by
  simp only [Char.isDigit, Bool.and_eq_true, decide_eq_true_eq, UInt32.le_iff_toNat_le] at h
  simp only [isDigit, Bool.and_eq_true, decide_eq_true_eq]
  exact h

theorem foldl_addDigit_ofChars (cs : List Char) (n : Nat) :
    (Text.ofChars cs).foldl addDigit n = Nat.ofDigitChars 10 cs n := by
  rw [Nat.ofDigitChars_eq_foldl, Text.ofChars, List.foldl_map]
  rfl

theorem ofNat_digit : ∀ d : Fin 10, Text.ofNat d.val = [⟨0x30 + d.val, by omega⟩] := by decide

/-- A digit is the decimal form of its value. -/
theorem ofNat_of_isDigit {c : CodePoint} (h : isDigit c = true) : Text.ofNat (c.val - 0x30) = [c] := by
  simp only [isDigit, Bool.and_eq_true, decide_eq_true_eq] at h
  rw [ofNat_digit ⟨c.val - 0x30, by omega⟩]
  congr 1
  exact Fin.ext (by simp only; omega)

end Json

namespace Text

open Json

theorem isDigit_of_mem_ofNat {n : Nat} {c : CodePoint} (h : c ∈ ofNat n) : isDigit c = true := by
  obtain ⟨d, hd, rfl⟩ := List.mem_map.mp h
  exact isDigit_ofChar (Nat.isDigit_of_mem_toDigits (by decide) (by decide) hd)

theorem ofNat_ne_nil (n : Nat) : ofNat n ≠ [] := by
  intro h
  exact Nat.toDigits_ne_nil (List.map_eq_nil_iff.mp h)

theorem natOfDigits_ofNat (n : Nat) : natOfDigits (ofNat n) = n := by
  rw [natOfDigits_eq, ofNat, foldl_addDigit_ofChars, Nat.ofDigitChars_ten_toDigits]

/-- A digit more, to the right. -/
theorem ofNat_addDigit {n : Nat} (hn : 0 < n) {c : CodePoint} (hc : isDigit c = true) :
    ofNat (addDigit n c) = ofNat n ++ [c] := by
  have hlt : c.val - 0x30 < 10 := by
    simp only [isDigit, Bool.and_eq_true, decide_eq_true_eq] at hc
    omega
  rw [← ofNat_of_isDigit hc, addDigit, ofNat, ofNat, ofNat, ofChars, ofChars, ofChars,
    ← List.map_append, Nat.toDigits_append_toDigits (by decide) hn hlt]

theorem ofNat_foldl_addDigit {n : Nat} (hn : 0 < n) {digits : Text}
    (h : ∀ c ∈ digits, isDigit c = true) : ofNat (digits.foldl addDigit n) = ofNat n ++ digits := by
  induction digits generalizing n with
  | nil => rw [List.foldl_nil, List.append_nil]
  | cons c rest ih =>
    obtain ⟨hc, hrest⟩ := List.forall_mem_cons.mp h
    have hpos : 0 < addDigit n c := by
      rw [addDigit]
      omega
    rw [List.foldl_cons, ih hpos hrest, ofNat_addDigit hn hc, List.append_assoc,
      List.singleton_append]

/-- Digits that do not begin with a zero are the decimal form of their number. -/
theorem ofNat_natOfDigits {c : CodePoint} {rest : Text} (h : ∀ d ∈ c :: rest, isDigit d = true)
    (hzero : c ≠ ↑ '0') : ofNat (natOfDigits (c :: rest)) = c :: rest := by
  obtain ⟨hc, hrest⟩ := List.forall_mem_cons.mp h
  have hpos : 0 < c.val - 0x30 := by
    have hne : c.val ≠ 0x30 := fun e => hzero (Fin.ext e)
    simp only [isDigit, Bool.and_eq_true, decide_eq_true_eq] at hc
    omega
  have hfirst : addDigit 0 c = c.val - 0x30 := by
    rw [addDigit, Nat.mul_zero, Nat.zero_add]
  rw [natOfDigits_eq, List.foldl_cons, hfirst, ofNat_foldl_addDigit hpos hrest,
    ofNat_of_isDigit hc, List.singleton_append]

/-- The decimal form of a number is a zero only for zero, and begins with another digit else. -/
theorem ofNat_cases (n : Nat) : n = 0 ∧ ofNat n = [↑ '0'] ∨
    ∃ c rest, ofNat n = c :: rest ∧ isDigit c = true ∧ c ≠ ↑ '0' := by
  induction n using Nat.strongRecOn with
  | _ n ih =>
    by_cases hlt : n < 10
    · by_cases hzero : n = 0
      · exact .inl ⟨hzero, by rw [hzero]; rfl⟩
      refine .inr ⟨_, [], ofNat_digit ⟨n, hlt⟩, ?_, ?_⟩
      · simp only [isDigit, Bool.and_eq_true, decide_eq_true_eq]
        omega
      · intro e
        have hval : 0x30 + n = 0x30 := congrArg Fin.val e
        omega
    · have hsplit : ofNat n = ofNat (n / 10) ++ ofChars [(n % 10).digitChar] := by
        rw [ofNat, Nat.toDigits_of_base_le (by decide) (by omega), ofChars, List.map_append]
        rfl
      rcases ih (n / 10) (by omega) with ⟨hzero, -⟩ | ⟨c, rest, hrest, hc, hne⟩
      · omega
      · exact .inr ⟨c, rest ++ ofChars [(n % 10).digitChar], by rw [hsplit, hrest]; rfl, hc, hne⟩

end Text

namespace Json

/-! ## The parts of a number -/

inductive Sign
  | absent
  | plus
  | minus
deriving DecidableEq

def Sign.text : Sign → Text
  | .absent => []
  | .plus => [↑ '+']
  | .minus => [↑ '-']

/-- An exponent: a letter in either case, a sign or none, and digits. -/
structure Exponent where
  capital : Bool
  sign : Sign
  digits : Text
  digits_ne_nil : digits ≠ []
  isDigit_of_mem : ∀ c ∈ digits, isDigit c = true

namespace Exponent

def letter (e : Exponent) : CodePoint := if e.capital then ↑ 'E' else ↑ 'e'

def text (e : Exponent) : Text := e.letter :: (e.sign.text ++ e.digits)

def value (e : Exponent) : Int :=
  if e.sign = .minus then -(natOfDigits e.digits : Int) else natOfDigits e.digits

end Exponent

def minusText (negative : Bool) : Text := if negative then [↑ '-'] else []

/-- A point and the digits after it, or nothing if there is no digit. -/
def fractionText (digits : Text) : Text := if digits = [] then [] else ↑ '.' :: digits

def exponentText : Option Exponent → Text
  | none => []
  | some e => e.text

/-- A number: a minus or no sign, the digits of a whole number, the digits after the point, which
are none if there is no point, and the exponent if there is one. -/
structure Numeral where
  negative : Bool
  whole : Nat
  fraction : Text
  exponent : Option Exponent
  isDigit_of_mem : ∀ c ∈ fraction, isDigit c = true

namespace Numeral

def text (n : Numeral) : Text :=
  minusText n.negative ++
    (Text.ofNat n.whole ++ (fractionText n.fraction ++ exponentText n.exponent))

/-- A number is whole if it has neither a point nor an exponent, and a double else. -/
def value (n : Numeral) : Json :=
  if n.fraction.isEmpty && n.exponent.isNone then
    .int (if n.negative then -(n.whole : Int) else n.whole)
  else
    .float (Double.ofDecimal n.negative (natOfDigits (Text.ofNat n.whole ++ n.fraction))
      ((n.exponent.map Exponent.value).getD 0 - n.fraction.length))

theorem isAscii_text (n : Numeral) : ∀ c ∈ n.text, c.IsAscii := by
  have hdigit : ∀ c : CodePoint, isDigit c = true → c.IsAscii := by
    intro c hc
    simp only [isDigit, Bool.and_eq_true, decide_eq_true_eq] at hc
    exact ⟨by omega, by omega⟩
  have hminus : ∀ c ∈ minusText n.negative, c.IsAscii := by
    cases n.negative with
    | false => exact nofun
    | true => exact List.forall_mem_singleton.mpr (by decide)
  have hfraction : ∀ c ∈ fractionText n.fraction, c.IsAscii := by
    rw [fractionText]
    split
    · exact nofun
    · exact List.forall_mem_cons.mpr ⟨by decide, fun c hc => hdigit c (n.isDigit_of_mem c hc)⟩
  have hexponent : ∀ c ∈ exponentText n.exponent, c.IsAscii := by
    cases n.exponent with
    | none => exact nofun
    | some e =>
      have hletter : e.letter.IsAscii := by
        rw [Exponent.letter]
        split <;> decide
      have hsign : ∀ c ∈ e.sign.text, c.IsAscii := by
        cases e.sign with
        | absent => exact nofun
        | _ => exact List.forall_mem_singleton.mpr (by decide)
      exact List.forall_mem_cons.mpr ⟨hletter, List.forall_mem_append.mpr
        ⟨hsign, fun c hc => hdigit c (e.isDigit_of_mem c hc)⟩⟩
  rw [text]
  simp only [List.forall_mem_append]
  exact ⟨hminus, fun c hc => hdigit c (Text.isDigit_of_mem_ofNat hc), hfraction, hexponent⟩

end Numeral

/-- A whole number that has no more digits than may be read. -/
def IsShort : Json → Prop
  | int n => (Text.ofNat n.natAbs).length ≤ maxIntDigits
  | _ => True

/-- Whether a code point could belong to the number that stands before it. -/
def continuesNumber (c : CodePoint) : Bool := isDigit c || c = ↑ '.' || c = ↑ 'e' || c = ↑ 'E'

/-- A text that could not belong to a number before it. -/
def EndsNumber (t : Text) : Prop := ∀ c ∈ t.head?, continuesNumber c = false

theorem endsNumber_nil : EndsNumber [] := nofun

theorem endsNumber_cons {c : CodePoint} {t : Text} :
    EndsNumber (c :: t) ↔ continuesNumber c = false := by
  simp [EndsNumber]

/-! ## What is written is read -/

section

variable {digits rest : Text}

theorem span_isDigit (h : ∀ c ∈ digits, isDigit c = true)
    (hrest : ∀ c ∈ rest.head?, isDigit c = false) :
    (digits ++ rest).takeWhile isDigit = digits ∧ (digits ++ rest).dropWhile isDigit = rest := by
  rw [List.takeWhile_append_of_pos h, List.dropWhile_append_of_pos h]
  cases rest with
  | nil => exact ⟨List.append_nil digits, rfl⟩
  | cons c more =>
    have hc : ¬ isDigit c = true := by simp [hrest c rfl]
    rw [List.takeWhile_cons_of_neg hc, List.dropWhile_cons_of_neg hc]
    exact ⟨List.append_nil digits, rfl⟩

theorem wholeDigits_ofNat (n : Nat) (hrest : ∀ c ∈ rest.head?, isDigit c = false) :
    wholeDigits (Text.ofNat n ++ rest) = (Text.ofNat n, rest) := by
  rcases Text.ofNat_cases n with ⟨-, hzero⟩ | ⟨c, more, hmore, -, hne⟩
  · rw [hzero]
    rfl
  · have hspan := span_isDigit (fun c => Text.isDigit_of_mem_ofNat (n := n)) hrest
    rw [hmore] at hspan ⊢
    rw [List.cons_append] at hspan ⊢
    rw [wholeDigits, if_neg hne, hspan.1, hspan.2]

theorem fractionDigits_absent (h : ∀ c ∈ rest.head?, c ≠ ↑ '.') :
    fractionDigits rest = ([], rest) := by
  cases rest with
  | nil => rfl
  | cons c more => rw [fractionDigits, if_neg fun hc => h c rfl hc.1]

theorem fractionDigits_present (hne : digits ≠ []) (h : ∀ c ∈ digits, isDigit c = true)
    (hrest : ∀ c ∈ rest.head?, isDigit c = false) :
    fractionDigits (↑ '.' :: (digits ++ rest)) = (digits, rest) := by
  obtain ⟨htake, hdrop⟩ := span_isDigit h hrest
  rw [fractionDigits, htake, hdrop, if_pos ⟨rfl, hne⟩]

theorem signOf_sign (s : Sign) (hne : digits ≠ []) (h : ∀ c ∈ digits, isDigit c = true) :
    signOf (s.text ++ digits ++ rest) = (decide (s = .minus), digits ++ rest) := by
  cases s with
  | plus => rfl
  | minus => rfl
  | absent =>
    obtain ⟨c, more, rfl⟩ := List.exists_cons_of_ne_nil hne
    have hc := h c List.mem_cons_self
    have hminus : c ≠ ↑ '-' := by
      rintro rfl
      cases hc
    have hplus : c ≠ ↑ '+' := by
      rintro rfl
      cases hc
    rw [Sign.text, List.nil_append, List.cons_append, signOf, if_neg hminus, if_neg hplus]
    rfl

theorem exponentOf_absent (h : ∀ c ∈ rest.head?, c ≠ ↑ 'e' ∧ c ≠ ↑ 'E') :
    exponentOf rest = (none, rest) := by
  cases rest with
  | nil => rfl
  | cons c more =>
    obtain ⟨hsmall, hcapital⟩ := h c rfl
    have hletter : ¬ ((c = ↑ 'e' ∨ c = ↑ 'E') ∧ (signOf more).2.takeWhile isDigit ≠ []) :=
      fun hc => hc.1.elim hsmall hcapital
    rw [exponentOf]
    exact if_neg hletter

theorem exponentOf_text (e : Exponent) (hrest : ∀ c ∈ rest.head?, isDigit c = false) :
    exponentOf (e.text ++ rest) = (some e.value, rest) := by
  have hletter : e.letter = ↑ 'e' ∨ e.letter = ↑ 'E' := by
    rw [Exponent.letter]
    split
    · exact .inr rfl
    · exact .inl rfl
  obtain ⟨htake, hdrop⟩ := span_isDigit e.isDigit_of_mem hrest
  rw [Exponent.text, List.cons_append, exponentOf,
    signOf_sign e.sign e.digits_ne_nil e.isDigit_of_mem]
  dsimp only
  rw [htake, hdrop, if_pos ⟨hletter, e.digits_ne_nil⟩, Exponent.value]
  simp only [decide_eq_true_eq]

end

section

variable {fraction rest : Text} {exponent : Option Exponent}

theorem head_exponentText (h : EndsNumber rest) :
    ∀ c ∈ (exponentText exponent ++ rest).head?, isDigit c = false ∧ c ≠ ↑ '.' := by
  intro c hc
  cases exponent with
  | none =>
    have hends := h c hc
    simp only [continuesNumber, Bool.or_eq_false_iff, decide_eq_false_iff_not] at hends
    exact ⟨hends.1.1.1, hends.1.1.2⟩
  | some e =>
    obtain rfl : e.letter = c := Option.some.inj hc
    rw [Exponent.letter]
    split <;> decide

theorem head_fractionText (h : EndsNumber rest) :
    ∀ c ∈ (fractionText fraction ++ (exponentText exponent ++ rest)).head?, isDigit c = false := by
  intro c hc
  rw [fractionText] at hc
  split at hc
  · exact (head_exponentText h c hc).1
  · obtain rfl : ↑ '.' = c := Option.some.inj hc
    rfl

theorem fractionDigits_fractionText (h : EndsNumber rest)
    (hdigits : ∀ c ∈ fraction, isDigit c = true) :
    fractionDigits (fractionText fraction ++ (exponentText exponent ++ rest)) =
      (fraction, exponentText exponent ++ rest) := by
  rw [fractionText]
  split
  · rename_i hnone
    rw [hnone]
    exact fractionDigits_absent fun c hc => (head_exponentText h c hc).2
  · rename_i hsome
    rw [List.cons_append]
    exact fractionDigits_present hsome hdigits fun c hc => (head_exponentText h c hc).1

theorem exponentOf_exponentText (h : EndsNumber rest) :
    exponentOf (exponentText exponent ++ rest) = (exponent.map Exponent.value, rest) := by
  have hends : ∀ c ∈ rest.head?, isDigit c = false ∧ c ≠ ↑ 'e' ∧ c ≠ ↑ 'E' := by
    intro c hc
    have := h c hc
    simp only [continuesNumber, Bool.or_eq_false_iff, decide_eq_false_iff_not] at this
    exact ⟨this.1.1.1, this.1.2, this.2⟩
  cases exponent with
  | none => exact exponentOf_absent fun c hc => (hends c hc).2
  | some e => exact exponentOf_text e fun c hc => (hends c hc).1

end

/-- A minus is taken first. -/
theorem unsigned_of_minusText (negative : Bool) (whole : Nat) (rest : Text) :
    (match minusText negative ++ (Text.ofNat whole ++ rest) with
      | c :: unsigned =>
        if c = (↑ '-' : CodePoint) then (true, unsigned)
        else (false, minusText negative ++ (Text.ofNat whole ++ rest))
      | [] => (false, [])) = (negative, Text.ofNat whole ++ rest) := by
  cases negative with
  | true => rfl
  | false =>
    have hfirst : ∃ c more, Text.ofNat whole = c :: more ∧ c ≠ ↑ '-' := by
      rcases Text.ofNat_cases whole with ⟨-, hzero⟩ | ⟨c, more, hmore, hc, -⟩
      · exact ⟨_, _, hzero, by decide⟩
      · refine ⟨c, more, hmore, ?_⟩
        rintro rfl
        cases hc
    obtain ⟨c, more, hmore, hminus⟩ := hfirst
    simp [minusText, hmore, hminus]

/-- The reader takes a number that nothing goes on, unless it is whole and has too many digits. -/
theorem number_text {n : Numeral} {rest : Text} (hshort : n.value.IsShort) (hrest : EndsNumber rest) :
    number (n.text ++ rest) = .ok (n.value, rest) := by
  rw [Numeral.text, List.append_assoc, List.append_assoc, List.append_assoc]
  unfold number
  split
  rename_i negative unsigned hsign
  obtain ⟨rfl, rfl⟩ := Prod.mk.inj (hsign.symm.trans (unsigned_of_minusText _ _ _))
  rw [wholeDigits_ofNat n.whole (head_fractionText hrest)]
  dsimp only
  rw [if_neg (by simpa using Text.ofNat_ne_nil n.whole),
    fractionDigits_fractionText hrest n.isDigit_of_mem]
  dsimp only
  rw [exponentOf_exponentText hrest]
  dsimp only
  rw [Option.isNone_map]
  unfold Numeral.value at hshort ⊢
  split
  · rename_i hint
    rw [if_pos hint] at hshort
    have hlength : ¬ maxIntDigits < (Text.ofNat n.whole).length := by
      have habs : (if n.negative then -(n.whole : Int) else n.whole).natAbs = n.whole := by
        split <;> simp
      rw [IsShort, habs] at hshort
      omega
    rw [if_neg hlength, Text.natOfDigits_ofNat]
  · rfl

/-! ## What is read was written -/

theorem forall_mem_takeWhile {p : CodePoint → Bool} {t : Text} : ∀ c ∈ t.takeWhile p, p c = true :=
  fun c hc => List.all_eq_true.mp List.all_takeWhile c hc

theorem ofNat_wholeDigits {t : Text} (h : (wholeDigits t).1 ≠ []) :
    (wholeDigits t).1 = Text.ofNat (natOfDigits (wholeDigits t).1) ∧
      t = (wholeDigits t).1 ++ (wholeDigits t).2 := by
  cases t with
  | nil => exact absurd rfl h
  | cons c rest =>
    unfold wholeDigits at h ⊢
    dsimp only at h ⊢
    split
    · rename_i hzero
      have hdecimal : Text.ofNat (natOfDigits [↑ '0']) = [↑ '0'] := by decide
      rw [hzero]
      exact ⟨hdecimal.symm, rfl⟩
    · rename_i hzero
      rw [if_neg hzero] at h
      refine ⟨?_, List.takeWhile_append_dropWhile.symm⟩
      by_cases hc : isDigit c = true
      · have hall := forall_mem_takeWhile (p := isDigit) (t := c :: rest)
        dsimp only
        rw [List.takeWhile_cons_of_pos hc] at hall ⊢
        exact (Text.ofNat_natOfDigits hall hzero).symm
      · rw [List.takeWhile_cons_of_neg hc] at h
        exact absurd rfl h

/-- A fraction is there with a digit at least, or not at all. -/
theorem fractionDigits_split (t : Text) :
    (∀ c ∈ (fractionDigits t).1, isDigit c = true) ∧
      t = fractionText (fractionDigits t).1 ++ (fractionDigits t).2 := by
  unfold fractionDigits
  split
  · split
    · rename_i c rest hpoint
      refine ⟨forall_mem_takeWhile, ?_⟩
      rw [fractionText, if_neg hpoint.2, hpoint.1, List.cons_append,
        List.takeWhile_append_dropWhile]
    · exact ⟨nofun, rfl⟩
  · exact ⟨nofun, rfl⟩

theorem signOf_split (t : Text) :
    ∃ s : Sign, t = s.text ++ (signOf t).2 ∧ (signOf t).1 = decide (s = .minus) := by
  unfold signOf
  split
  · split
    · rename_i hminus
      rw [hminus]
      exact ⟨.minus, rfl, rfl⟩
    split
    · rename_i hplus
      rw [hplus]
      exact ⟨.plus, rfl, rfl⟩
    · exact ⟨.absent, rfl, rfl⟩
  · exact ⟨.absent, rfl, rfl⟩

/-- An exponent is there as a whole, or not at all. -/
theorem exponentOf_split (t : Text) :
    ∃ e : Option Exponent, e.map Exponent.value = (exponentOf t).1 ∧
      t = exponentText e ++ (exponentOf t).2 := by
  unfold exponentOf
  split
  · rename_i c rest
    obtain ⟨s, hs, hnegative⟩ := signOf_split rest
    dsimp only
    split
    · rename_i h
      obtain ⟨capital, hletter⟩ : ∃ capital : Bool, (if capital then ↑ 'E' else ↑ 'e') = c := by
        rcases h.1 with rfl | rfl
        · exact ⟨false, rfl⟩
        · exact ⟨true, rfl⟩
      refine ⟨some ⟨capital, s, _, h.2, forall_mem_takeWhile⟩, ?_, ?_⟩
      · rw [Option.map_some, Exponent.value, hnegative]
        simp only [decide_eq_true_eq]
      · simp only [exponentText, Exponent.text, Exponent.letter]
        rw [hletter, List.cons_append, List.append_assoc, List.takeWhile_append_dropWhile, ← hs]
    · exact ⟨none, rfl, rfl⟩
  · exact ⟨none, rfl, rfl⟩

/-- A minus is taken off, or nothing. -/
theorem minus_split {t unsigned : Text} {negative : Bool}
    (h : (match t with
      | c :: rest => if c = (↑ '-' : CodePoint) then (true, rest) else (false, t)
      | [] => (false, [])) = (negative, unsigned)) : t = minusText negative ++ unsigned := by
  cases t with
  | nil =>
    cases h
    rfl
  | cons c rest =>
    dsimp only at h
    split at h
    · rename_i hminus
      cases h
      rw [hminus]
      rfl
    · cases h
      rfl

/-- Whatever the reader takes is a number. -/
theorem exists_numeral_of_number {t rest : Text} {v : Json} (h : number t = .ok (v, rest)) :
    ∃ n : Numeral, t = n.text ++ rest ∧ n.value = v ∧ v.IsShort := by
  unfold number at h
  split at h
  rename_i negative unsigned hsign
  split at h
  rename_i whole afterWhole hwhole
  split at h
  · cases h
  rename_i hne
  split at h
  rename_i fraction afterFraction hfraction
  split at h
  rename_i exponent after hexponent
  obtain ⟨hdecimal, hunsigned⟩ := ofNat_wholeDigits (t := unsigned) (by simpa [hwhole] using hne)
  obtain ⟨hdigits, hafterWhole⟩ := fractionDigits_split afterWhole
  obtain ⟨e, he, hafterFraction⟩ := exponentOf_split afterFraction
  rw [hwhole] at hdecimal hunsigned
  rw [hfraction] at hdigits hafterWhole
  rw [hexponent] at he hafterFraction
  dsimp only at hdecimal hunsigned hdigits hafterWhole he hafterFraction
  refine ⟨⟨negative, natOfDigits whole, fraction, e, hdigits⟩, ?_⟩
  have htext : t = (⟨negative, natOfDigits whole, fraction, e, hdigits⟩ : Numeral).text ++ after := by
    rw [minus_split hsign, hunsigned, hafterWhole, hafterFraction, Numeral.text, ← hdecimal]
    simp only [List.append_assoc]
  have hnone : e.isNone = exponent.isNone := by rw [← he, Option.isNone_map]
  simp only [Numeral.value, hnone]
  split at h
  · rename_i hint
    rw [if_pos hint]
    split at h
    · cases h
    · rename_i hshort
      cases h
      refine ⟨htext, rfl, ?_⟩
      have habs : (if negative then -(natOfDigits whole : Int) else natOfDigits whole).natAbs =
          natOfDigits whole := by
        split <;> simp
      rw [IsShort, habs, ← hdecimal]
      exact Nat.le_of_not_lt hshort
  · rename_i hfloat
    cases h
    rw [if_neg hfloat, ← hdecimal, he]
    exact ⟨htext, rfl, trivial⟩

end Json

end LegacyImage
