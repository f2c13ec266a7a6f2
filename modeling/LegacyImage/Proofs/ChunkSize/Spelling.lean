import LegacyImage.ChunkSize
import LegacyImage.Proofs.Json.Numerals
import Mathlib.Data.List.TakeWhile
import Mathlib.Data.Nat.Digits.Defs

/-!
Settings in writing: blanks on both sides, a sign, and decimal digits of any scripts with single
underscores between them. The reader takes what is written so if it has no more than the most digits
that a setting may have, and takes nothing else (`parse_eq_ok_iff`).
-/

namespace LegacyImage

/-! ## Digits and blanks -/

namespace CodePoint

/-- A decimal digit of some script, and its value: digits count from the zero of their row. -/
def IsDecimalDigit (c : CodePoint) (d : Nat) : Prop :=
  ∃ first ∈ digitZeros, d < 10 ∧ c.val = first + d

/-- The rows of digits do not overlap. -/
theorem eq_of_digitZeros : ∀ a ∈ digitZeros, ∀ b ∈ digitZeros, a < b + 10 → b < a + 10 → a = b := by
  decide +kernel

/-- No blank is within a row of digits. -/
theorem digitZeros_apart : ∀ first ∈ digitZeros, ∀ range ∈ blankRanges,
    first + 10 ≤ range.1 ∨ range.2 < first := by
  decide +kernel

variable {c : CodePoint} {d : Nat}

theorem decimalValue?_eq_some_iff : c.decimalValue? = some d ↔ c.IsDecimalDigit d := by
  unfold decimalValue? IsDecimalDigit
  rw [Option.map_eq_some_iff]
  constructor
  · rintro ⟨first, hfind, rfl⟩
    have hrow := List.find?_some hfind
    simp only [Bool.and_eq_true, decide_eq_true_eq] at hrow
    exact ⟨first, List.mem_of_find?_eq_some hfind, by omega, by omega⟩
  · rintro ⟨first, hfirst, hd, hc⟩
    cases hfind : digitZeros.find? fun first => first ≤ c.val && c.val < first + 10 with
    | none =>
      have hnone := List.find?_eq_none.mp hfind first hfirst
      simp only [Bool.and_eq_true, decide_eq_true_eq] at hnone
      omega
    | some found =>
      have hrow := List.find?_some hfind
      simp only [Bool.and_eq_true, decide_eq_true_eq] at hrow
      obtain rfl := eq_of_digitZeros found (List.mem_of_find?_eq_some hfind) first hfirst
        (by omega) (by omega)
      exact ⟨found, rfl, by omega⟩

theorem IsDecimalDigit.isBlank (h : c.IsDecimalDigit d) : c.isBlank = false := by
  obtain ⟨first, hfirst, hd, hc⟩ := h
  unfold CodePoint.isBlank
  rw [List.any_eq_false]
  intro range hrange
  have hapart := digitZeros_apart first hfirst range hrange
  simp only [Bool.and_eq_true, decide_eq_true_eq]
  omega

theorem decimalValue?_of_isBlank (h : c.isBlank = true) : c.decimalValue? = none := by
  cases hc : c.decimalValue? with
  | none => rfl
  | some d =>
    rw [(decimalValue?_eq_some_iff.mp hc).isBlank] at h
    cases h

theorem decimalValue?_underscore : decimalValue? (↑ '_') = none := by decide

theorem decimalValue?_plus : decimalValue? (↑ '+') = none := by decide

theorem decimalValue?_minus : decimalValue? (↑ '-') = none := by decide

theorem IsDecimalDigit.ne (h : c.IsDecimalDigit d) {other : CodePoint}
    (hother : other.decimalValue? = none) : c ≠ other := by
  rintro rfl
  rw [decimalValue?_eq_some_iff.mpr h] at hother
  cases hother

end CodePoint

namespace ChunkSize

/-! ## The grammar of settings -/

/-- Decimal digits and their values, from the first one on, with at most one underscore between any
two neighbours. -/
inductive WrittenDigits : Text → List Nat → Prop
  | last {c : CodePoint} {d : Nat} : c.IsDecimalDigit d → WrittenDigits [c] [d]
  | next {c : CodePoint} {d : Nat} {t : Text} {ds : List Nat} :
    c.IsDecimalDigit d → WrittenDigits t ds → WrittenDigits (c :: t) (d :: ds)
  | spaced {c : CodePoint} {d : Nat} {t : Text} {ds : List Nat} :
    c.IsDecimalDigit d → WrittenDigits t ds → WrittenDigits (c :: ↑ '_' :: t) (d :: ds)

/-- A whole number in writing: digits, the most significant one first, with at most one sign right
before them. -/
inductive WrittenNumber : Text → Int → Prop
  | unsigned {t : Text} {ds : List Nat} :
    WrittenDigits t ds → WrittenNumber t (Nat.ofDigits 10 ds.reverse : Nat)
  | plus {t : Text} {ds : List Nat} :
    WrittenDigits t ds → WrittenNumber (↑ '+' :: t) (Nat.ofDigits 10 ds.reverse : Nat)
  | minus {t : Text} {ds : List Nat} :
    WrittenDigits t ds → WrittenNumber (↑ '-' :: t) (-(Nat.ofDigits 10 ds.reverse : Nat))

/-- Whether a setting spells a size: a whole number in writing, nothing but blanks around it. -/
def Spells (setting : Text) (size : Int) : Prop :=
  ∃ before number after, setting = before ++ number ++ after ∧ WrittenNumber number size ∧
    (∀ c ∈ before, c.isBlank = true) ∧ ∀ c ∈ after, c.isBlank = true

/-! ## Digits -/

open CodePoint

variable {setting t : Text} {ds : List Nat} {size : Int}

theorem natOfDigits_eq (ds : List Nat) : natOfDigits ds = Nat.ofDigits 10 ds.reverse := by
  rw [natOfDigits, Nat.ofDigits_eq_foldr, List.foldr_reverse]
  congr 1
  funext n d
  exact Nat.add_comm _ _

theorem isDigitOrUnderscore_of_isDecimalDigit {c : CodePoint} {d : Nat}
    (h : c.IsDecimalDigit d) : isDigitOrUnderscore c = true := by
  rw [isDigitOrUnderscore, decimalValue?_eq_some_iff.mpr h]
  exact Bool.or_true _

theorem digitValues_cons {c : CodePoint} {d : Nat} (h : c.IsDecimalDigit d) (t : Text) :
    digitValues (c :: t) = d :: digitValues t :=
  List.filterMap_cons_some (decimalValue?_eq_some_iff.mpr h)

theorem digitValues_cons_none {c : CodePoint} (h : c.decimalValue? = none) (t : Text) :
    digitValues (c :: t) = digitValues t :=
  List.filterMap_cons_none h

/-- Digits that are written so are taken as a whole, with their values. -/
theorem WrittenDigits.isRead (h : WrittenDigits t ds) :
    (∀ after, wellSpaced after t = true) ∧ digitValues t = ds ∧
      ∀ c ∈ t, isDigitOrUnderscore c = true := by
  induction h with
  | last hc =>
    have hne := hc.ne decimalValue?_underscore
    refine ⟨?_, digitValues_cons hc [], ?_⟩
    · intro after
      rw [wellSpaced, if_neg hne]
      rfl
    · rw [List.forall_mem_singleton]
      exact isDigitOrUnderscore_of_isDecimalDigit hc
  | next hc _ ih =>
    have hne := hc.ne decimalValue?_underscore
    obtain ⟨hspaced, hvalues, hall⟩ := ih
    refine ⟨?_, ?_, List.forall_mem_cons.mpr ⟨isDigitOrUnderscore_of_isDecimalDigit hc, hall⟩⟩
    · intro after
      rw [wellSpaced, if_neg hne]
      exact hspaced true
    · rw [digitValues_cons hc, hvalues]
  | spaced hc _ ih =>
    have hne := hc.ne decimalValue?_underscore
    obtain ⟨hspaced, hvalues, hall⟩ := ih
    refine ⟨?_, ?_, ?_⟩
    · intro after
      rw [wellSpaced, if_neg hne, wellSpaced, if_pos rfl]
      exact hspaced false
    · rw [digitValues_cons hc, digitValues_cons_none decimalValue?_underscore, hvalues]
    · exact List.forall_mem_cons.mpr ⟨isDigitOrUnderscore_of_isDecimalDigit hc,
        List.forall_mem_cons.mpr ⟨rfl, hall⟩⟩

/-- What is taken as digits is written so. After a digit there may be nothing more, or an underscore
first. -/
theorem writtenDigits_of_wellSpaced (hall : ∀ c ∈ t, isDigitOrUnderscore c = true) :
    (wellSpaced false t = true → WrittenDigits t (digitValues t)) ∧
    (wellSpaced true t = true → t = [] ∨ WrittenDigits t (digitValues t) ∨
      ∃ rest, t = ↑ '_' :: rest ∧ WrittenDigits rest (digitValues rest)) := by
  -- both parts at once: an underscore leads from the second to the first, a digit back again
  induction t with
  | nil => exact ⟨nofun, fun _ => Or.inl rfl⟩
  | cons c rest ih =>
    obtain ⟨hc, hrest⟩ := List.forall_mem_cons.mp hall
    obtain ⟨hfirst, hnext⟩ := ih hrest
    by_cases hunderscore : c = ↑ '_'
    · subst hunderscore
      rw [wellSpaced, if_pos rfl, wellSpaced, if_pos rfl]
      exact ⟨nofun, fun h => Or.inr (Or.inr ⟨rest, rfl, hfirst h⟩)⟩
    · obtain ⟨d, hd⟩ : ∃ d, c.IsDecimalDigit d := by
        simp only [isDigitOrUnderscore, hunderscore, decide_false, Bool.false_or,
          Option.isSome_iff_exists] at hc
        exact hc.imp fun d => decimalValue?_eq_some_iff.mp
      have hwritten : wellSpaced true rest = true →
          WrittenDigits (c :: rest) (digitValues (c :: rest)) := by
        intro h
        rw [digitValues_cons hd]
        rcases hnext h with rfl | hdigits | ⟨more, rfl, hdigits⟩
        · exact .last hd
        · exact .next hd hdigits
        · rw [digitValues_cons_none decimalValue?_underscore]
          exact .spaced hd hdigits
      rw [wellSpaced, if_neg hunderscore, wellSpaced, if_neg hunderscore]
      exact ⟨hwritten, fun h => Or.inr (Or.inl (hwritten h))⟩

theorem WrittenDigits.exists_cons (h : WrittenDigits t ds) :
    ∃ c d rest, t = c :: rest ∧ c.IsDecimalDigit d := by
  cases h with
  | last hc | next hc _ | spaced hc _ => exact ⟨_, _, _, rfl, hc⟩

theorem WrittenDigits.exists_concat (h : WrittenDigits t ds) :
    ∃ c d rest, t = rest ++ [c] ∧ c.IsDecimalDigit d := by
  induction h with
  | last hc => exact ⟨_, _, [], rfl, hc⟩
  | next hc _ ih =>
    obtain ⟨c, d, rest, rfl, hd⟩ := ih
    exact ⟨c, d, _ :: rest, rfl, hd⟩
  | spaced hc _ ih =>
    obtain ⟨c, d, rest, rfl, hd⟩ := ih
    exact ⟨c, d, _ :: _ :: rest, rfl, hd⟩

/-! ## Signs -/

theorem signOf_cases (t : Text) :
    (∃ rest, t = ↑ '-' :: rest ∧ signOf t = (true, rest)) ∨
      (∃ rest, t = ↑ '+' :: rest ∧ signOf t = (false, rest)) ∨ signOf t = (false, t) := by
  cases t with
  | nil => exact Or.inr (Or.inr rfl)
  | cons c rest =>
    unfold signOf
    dsimp only
    by_cases hminus : c = ↑ '-'
    · exact Or.inl ⟨rest, by rw [hminus], if_pos hminus⟩
    · rw [if_neg hminus]
      by_cases hplus : c = ↑ '+'
      · exact Or.inr (Or.inl ⟨rest, by rw [hplus], if_pos hplus⟩)
      · exact Or.inr (Or.inr (if_neg hplus))

/-- After the sign there are the digits, and the sign says whether their value is negated. -/
theorem writtenNumber_iff : WrittenNumber t size ↔ ∃ ds, WrittenDigits (signOf t).2 ds ∧
    size = if (signOf t).1 then -(natOfDigits ds : Int) else natOfDigits ds := by
  simp only [natOfDigits_eq]
  constructor
  · intro h
    cases h with
    | @unsigned _ ds hdigits =>
      obtain ⟨c, d, rest, rfl, hc⟩ := hdigits.exists_cons
      have hsign : signOf (c :: rest) = (false, c :: rest) := by
        rw [signOf, if_neg (hc.ne decimalValue?_minus), if_neg (hc.ne decimalValue?_plus)]
      rw [hsign]
      exact ⟨ds, hdigits, rfl⟩
    | @plus rest ds hdigits => exact ⟨ds, hdigits, rfl⟩
    | @minus rest ds hdigits => exact ⟨ds, hdigits, rfl⟩
  · rintro ⟨ds, hdigits, rfl⟩
    rcases signOf_cases t with ⟨rest, rfl, hsign⟩ | ⟨rest, rfl, hsign⟩ | hsign
    · exact .minus hdigits
    · exact .plus hdigits
    · rw [hsign] at hdigits ⊢
      exact .unsigned hdigits

theorem digitValues_signOf (t : Text) : digitValues (signOf t).2 = digitValues t := by
  rcases signOf_cases t with ⟨rest, rfl, hsign⟩ | ⟨rest, rfl, hsign⟩ | hsign
  · rw [hsign, digitValues_cons_none decimalValue?_minus]
  · rw [hsign, digitValues_cons_none decimalValue?_plus]
  · rw [hsign]

/-! ## Blanks -/

/-- A number in writing begins and ends with something else than a blank. -/
theorem WrittenNumber.exists_ends (h : WrittenNumber t size) :
    (∃ c rest, t = c :: rest ∧ c.isBlank = false) ∧
      ∃ c rest, t = rest ++ [c] ∧ c.isBlank = false := by
  cases h with
  | unsigned hdigits =>
    obtain ⟨c, d, rest, hhead, hc⟩ := hdigits.exists_cons
    obtain ⟨c', d', rest', hlast, hc'⟩ := hdigits.exists_concat
    exact ⟨⟨c, rest, hhead, hc.isBlank⟩, c', rest', hlast, hc'.isBlank⟩
  | plus hdigits =>
    obtain ⟨c, d, rest, rfl, hc⟩ := hdigits.exists_concat
    exact ⟨⟨_, _, rfl, by decide⟩, c, _ :: rest, rfl, hc.isBlank⟩
  | minus hdigits =>
    obtain ⟨c, d, rest, rfl, hc⟩ := hdigits.exists_concat
    exact ⟨⟨_, _, rfl, by decide⟩, c, _ :: rest, rfl, hc.isBlank⟩

/-- Trimming leaves out nothing but blanks. -/
theorem exists_trim (setting : Text) : ∃ before after : Text,
    setting = before ++ trim setting ++ after ∧ (∀ c ∈ before, c.isBlank = true) ∧
      ∀ c ∈ after, c.isBlank = true := by
  have hfront := List.takeWhile_append_dropWhile (p := (·.isBlank)) (l := setting)
  have hback := List.takeWhile_append_dropWhile (p := (·.isBlank))
    (l := (setting.dropWhile (·.isBlank)).reverse)
  refine ⟨setting.takeWhile (·.isBlank),
    ((setting.dropWhile (·.isBlank)).reverse.takeWhile (·.isBlank)).reverse, ?_, ?_, ?_⟩
  · rw [trim, List.append_assoc, ← List.reverse_append, hback, List.reverse_reverse, hfront]
  · intro c hc
    exact List.mem_takeWhile_imp hc
  · intro c hc
    exact List.mem_takeWhile_imp (List.mem_reverse.mp hc)

/-- Trimming leaves out all blanks around a number. -/
theorem trim_append (h : WrittenNumber t size) {before after : Text}
    (hbefore : ∀ c ∈ before, c.isBlank = true) (hafter : ∀ c ∈ after, c.isBlank = true) :
    trim (before ++ t ++ after) = t := by
  obtain ⟨⟨first, rest, hfirst, hhead⟩, last, init, hlast, hend⟩ := h.exists_ends
  have hfront : (before ++ t ++ after).dropWhile (·.isBlank) = t ++ after := by
    rw [List.append_assoc, List.dropWhile_append_of_pos hbefore, hfirst, List.cons_append,
      List.dropWhile_cons_of_neg (by simp [hhead])]
  have hback : (t ++ after).reverse.dropWhile (·.isBlank) = t.reverse := by
    rw [List.reverse_append,
      List.dropWhile_append_of_pos fun c hc => hafter c (List.mem_reverse.mp hc), hlast,
      List.reverse_append, List.reverse_singleton, List.singleton_append,
      List.dropWhile_cons_of_neg (by simp [hend])]
  rw [trim, hfront, hback, List.reverse_reverse]

/-- What a setting spells is what it is after trimming. -/
theorem spells_iff : Spells setting size ↔ WrittenNumber (trim setting) size := by
  constructor
  · rintro ⟨before, number, after, rfl, hnumber, hbefore, hafter⟩
    rw [trim_append hnumber hbefore hafter]
    exact hnumber
  · intro h
    obtain ⟨before, after, hsetting, hbefore, hafter⟩ := exists_trim setting
    exact ⟨before, trim setting, after, hsetting, h, hbefore, hafter⟩

theorem digitValues_of_isBlank (h : ∀ c ∈ t, c.isBlank = true) : digitValues t = [] :=
  List.filterMap_eq_nil_iff.mpr fun c hc => decimalValue?_of_isBlank (h c hc)

/-- No digit is lost with the blanks and the sign. -/
theorem digitValues_trim (setting : Text) : digitValues (trim setting) = digitValues setting := by
  obtain ⟨before, after, hsetting, hbefore, hafter⟩ := exists_trim setting
  have hsplit : digitValues setting =
      digitValues before ++ digitValues (trim setting) ++ digitValues after := by
    conv_lhs => rw [hsetting]
    unfold digitValues
    rw [List.filterMap_append, List.filterMap_append]
  rw [hsplit, digitValues_of_isBlank hbefore, digitValues_of_isBlank hafter, List.append_nil,
    List.nil_append]

/-! ## Reading settings -/

/-- A setting is read as the size that it spells, if it has no more than the most digits. -/
theorem parse_eq_ok_iff : parse setting = .ok size ↔
    Spells setting size ∧ (digitValues setting).length ≤ maxDigits := by
  rw [spells_iff, writtenNumber_iff, ← digitValues_trim setting, ← digitValues_signOf]
  unfold parse
  dsimp only
  generalize (signOf (trim setting)).1 = negative
  generalize (signOf (trim setting)).2 = unsigned
  constructor
  · intro h
    split at h
    · cases h
    rename_i hspaced
    split at h
    · cases h
    rename_i hfew
    split at h
    · cases h
    rename_i hwhole
    have htaken : unsigned.takeWhile isDigitOrUnderscore = unsigned :=
      (List.takeWhile_prefix _).eq_of_length_le (Nat.not_lt.mp hwhole)
    have hall := List.takeWhile_eq_self_iff.mp htaken
    rw [htaken] at hspaced hfew h
    have hwritten := (writtenDigits_of_wellSpaced hall).1 (by simpa using hspaced)
    exact ⟨⟨_, hwritten, (Except.ok.inj h).symm⟩, Nat.not_lt.mp hfew⟩
  · rintro ⟨⟨ds, hdigits, rfl⟩, hfew⟩
    obtain ⟨hspaced, hvalues, hall⟩ := hdigits.isRead
    have htaken : unsigned.takeWhile isDigitOrUnderscore = unsigned :=
      List.takeWhile_eq_self_iff.mpr hall
    rw [htaken, hspaced false, if_neg (by simp), if_neg (Nat.not_lt.mpr hfew),
      if_neg (Nat.lt_irrefl _), hvalues]

/-- Whatever else is wrong with it, a setting is refused for its many digits only if it has them. -/
theorem fault_of_parse {fault : Fault} (h : parse setting = .error fault) :
    fault = .notANumber setting ∨ maxDigits < (digitValues setting).length := by
  unfold parse at h
  dsimp only at h
  split at h
  · exact Or.inl (Except.error.inj h).symm
  split at h
  · rename_i hmany
    have hpart := ((signOf (trim setting)).2.takeWhile_sublist isDigitOrUnderscore).filterMap
      (·.decimalValue?)
    rw [← digitValues_trim setting, ← digitValues_signOf]
    exact Or.inr (Nat.lt_of_lt_of_le hmany hpart.length_le)
  split at h
  · exact Or.inl (Except.error.inj h).symm
  · cases h

/-! ## Whole numbers in decimal -/

theorem isDecimalDigit_of_isDigit {c : CodePoint} (h : Json.isDigit c = true) :
    c.IsDecimalDigit (c.val - 0x30) := by
  simp only [Json.isDigit, Bool.and_eq_true, decide_eq_true_eq] at h
  exact ⟨0x30, List.mem_cons_self, by omega, by omega⟩

theorem writtenDigits_of_isDigit (hall : ∀ c ∈ t, Json.isDigit c = true) (hne : t ≠ []) :
    WrittenDigits t (t.map fun c => c.val - 0x30) := by
  induction t with
  | nil => exact absurd rfl hne
  | cons c rest ih =>
    obtain ⟨hc, hrest⟩ := List.forall_mem_cons.mp hall
    cases rest with
    | nil => exact .last (isDecimalDigit_of_isDigit hc)
    | cons c' more => exact .next (isDecimalDigit_of_isDigit hc) (ih hrest (List.cons_ne_nil _ _))

/-- The decimal form of a number is one way to write it. -/
theorem exists_writtenDigits_ofNat (n : Nat) :
    ∃ ds, WrittenDigits (Text.ofNat n) ds ∧ Nat.ofDigits 10 ds.reverse = n := by
  have hall : ∀ c ∈ Text.ofNat n, Json.isDigit c = true := fun c => Text.isDigit_of_mem_ofNat
  refine ⟨_, writtenDigits_of_isDigit hall (Text.ofNat_ne_nil n), ?_⟩
  rw [← natOfDigits_eq, natOfDigits, List.foldl_map]
  exact (Json.natOfDigits_eq _).symm.trans (Text.natOfDigits_ofNat n)

theorem writtenNumber_ofInt (size : Int) : WrittenNumber (Text.ofInt size) size := by
  obtain ⟨ds, hdigits, hvalue⟩ := exists_writtenDigits_ofNat size.natAbs
  unfold Text.ofInt
  split
  · have hminus := WrittenNumber.minus hdigits
    rw [hvalue] at hminus
    convert hminus using 1
    omega
  · have hunsigned := WrittenNumber.unsigned hdigits
    rw [hvalue] at hunsigned
    convert hunsigned using 1
    omega

/-- A setting with no more than the most digits gives a size if and only if it spells one, and gives
that size; it is refused as no number if it spells none. A size in decimal, with blanks around it or
without, is given back. -/
theorem size_of_setting (hfew : (digitValues setting).length ≤ maxDigits) :
    (∀ size, ofSetting (some setting) = .ok size ↔ Spells setting size) ∧
    ((∀ size, ¬ Spells setting size) → ofSetting (some setting) = .error (.notANumber setting)) ∧
    ∀ (size : Int) (before after : Text), (∀ c ∈ before, c.isBlank = true) →
      (∀ c ∈ after, c.isBlank = true) → setting = before ++ Text.ofInt size ++ after →
      ofSetting (some setting) = .ok size := by
  have hiff : ∀ size, parse setting = .ok size ↔ Spells setting size := by
    intro size
    rw [parse_eq_ok_iff, and_iff_left hfew]
  refine ⟨hiff, ?_, ?_⟩
  · intro hnone
    change parse setting = _
    cases h : parse setting with
    | ok size => exact absurd ((hiff size).mp h) (hnone size)
    | error fault =>
      rcases fault_of_parse h with rfl | hmany
      · rfl
      · exact absurd hfew (Nat.not_le.mpr hmany)
  · intro size before after hbefore hafter hsetting
    exact (hiff size).mpr ⟨before, _, after, hsetting, writtenNumber_ofInt size, hbefore, hafter⟩

/-- Minus forty-two in the digits of two scripts, with a zero and an underscore in front of them,
and blanks around. -/
def mixedDigits : Text := Text.ofChars ['\u3000', '-', '0', '_', '٤', '2', '\n']

theorem size_of_setting_mixedDigits :
    (digitValues mixedDigits).length ≤ maxDigits ∧ ofSetting (some mixedDigits) = .ok (-42) := by
  have hfew : (digitValues mixedDigits).length ≤ maxDigits := by decide
  have hzero : IsDecimalDigit (↑ '0') 0 := decimalValue?_eq_some_iff.mp (by decide)
  have hfour : IsDecimalDigit (↑ '٤') 4 := decimalValue?_eq_some_iff.mp (by decide)
  have htwo : IsDecimalDigit (↑ '2') 2 := decimalValue?_eq_some_iff.mp (by decide)
  have hspells : Spells mixedDigits (-42) :=
    ⟨[↑ '\u3000'], _, [↑ '\n'], rfl, .minus (.spaced hzero (.next hfour (.last htwo))),
      List.forall_mem_singleton.mpr (by decide), List.forall_mem_singleton.mpr (by decide)⟩
  exact ⟨hfew, ((size_of_setting hfew).1 (-42)).mpr hspells⟩

end ChunkSize

end LegacyImage
