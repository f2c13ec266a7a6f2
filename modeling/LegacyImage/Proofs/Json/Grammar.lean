import LegacyImage.Proofs.Json.Numerals
import LegacyImage.Proofs.Json.Parts
import LegacyImage.Proofs.Json.Strings

/-!
The grammar of documents. A text is the writing of a value, with white space wherever two tokens
meet; an object is written with its members in their order, the same name any number of times.
-/

namespace LegacyImage.Json

/-- White space and nothing else. -/
def IsBlank (t : Text) : Prop := ∀ c ∈ t, isSpace c = true

def enclosed (opening : CodePoint) (t : Text) (closing : CodePoint) : Text :=
  opening :: (t ++ [closing])

/-- What a piece of a document is the writing of: a value, the items of a list, a member, or the
members of an object. -/
inductive Form
  | value (v : Json)
  | items (vs : List Json)
  | member (name : Text) (v : Json)
  | members (ms : List (Text × Json))

/-- How a piece of a document is written. -/
inductive Written : Form → Text → Prop
  | keyword {word : List Char} {v : Json} (h : (word, v) ∈ keywords) :
      Written (.value v) (Text.ofChars word)
  | number (n : Numeral) : Written (.value n.value) n.text
  | string {ps : List Piece} {t : Text} (h : WrittenPieces ps t) :
      Written (.value (.str (Piece.joined ps))) (enclosed ↑ '"' t ↑ '"')
  | noItems {t : Text} (h : IsBlank t) : Written (.value (.array [])) (enclosed ↑ '[' t ↑ ']')
  | array {vs : List Json} {t : Text} (h : Written (.items vs) t) :
      Written (.value (.array vs)) (enclosed ↑ '[' t ↑ ']')
  | noMembers {t : Text} (h : IsBlank t) :
      Written (.value (.object [])) (enclosed ↑ '{' t ↑ '}')
  | object {ms : List (Text × Json)} {t : Text} (h : Written (.members ms) t) :
      Written (.value (.object ms)) (enclosed ↑ '{' t ↑ '}')
  | lastItem {v : Json} {before t after : Text} (hbefore : IsBlank before)
      (hv : Written (.value v) t) (hafter : IsBlank after) :
      Written (.items [v]) (before ++ (t ++ after))
  | nextItem {v : Json} {vs : List Json} {before t after u : Text} (hbefore : IsBlank before)
      (hv : Written (.value v) t) (hafter : IsBlank after) (hvs : Written (.items vs) u) :
      Written (.items (v :: vs)) (before ++ (t ++ (after ++ ↑ ',' :: u)))
  | member {ps : List Piece} {v : Json} {t before after u : Text} (hname : WrittenPieces ps t)
      (hbefore : IsBlank before) (hafter : IsBlank after) (hv : Written (.value v) u) :
      Written (.member (Piece.joined ps) v)
        (↑ '"' :: (t ++ ↑ '"' :: (before ++ ↑ ':' :: (after ++ u))))
  | lastMember {name : Text} {v : Json} {before t after : Text} (hbefore : IsBlank before)
      (hm : Written (.member name v) t) (hafter : IsBlank after) :
      Written (.members [(name, v)]) (before ++ (t ++ after))
  | nextMember {name : Text} {v : Json} {ms : List (Text × Json)} {before t after u : Text}
      (hbefore : IsBlank before) (hm : Written (.member name v) t) (hafter : IsBlank after)
      (hms : Written (.members ms) u) :
      Written (.members ((name, v) :: ms)) (before ++ (t ++ (after ++ ↑ ',' :: u)))

theorem enclosed_append (opening closing : CodePoint) (t rest : Text) :
    enclosed opening t closing ++ rest = opening :: (t ++ closing :: rest) := by
  simp [enclosed]

theorem written_str {s t : Text} {ps : List Piece} (h : WrittenPieces ps t)
    (hs : Piece.joined ps = s) : Written (.value (.str s)) (enclosed ↑ '"' t ↑ '"') :=
  hs ▸ .string h

theorem written_member {name t before after u : Text} {ps : List Piece} {v : Json}
    (h : WrittenPieces ps t) (hname : Piece.joined ps = name) (hbefore : IsBlank before)
    (hafter : IsBlank after) (hv : Written (.value v) u) :
    Written (.member name v) (↑ '"' :: (t ++ ↑ '"' :: (before ++ ↑ ':' :: (after ++ u)))) :=
  hname ▸ .member h hbefore hafter hv

/-- A value that does not nest too deep and has no whole number with too many digits. -/
structure Fits (depth : Nat) (v : Json) : Prop where
  depth_le : v.depth ≤ depth
  each_isShort : v.Each IsShort

/-- The value that comes of setting the members of every object in their order. -/
def merged (v : Json) : Json := v.rebuild Table.ofEntries

def mergedMembers (ms : List (Text × Json)) : List (Text × Json) :=
  ms.map fun m => (m.1, m.2.merged)

theorem merged_array (vs : List Json) : (array vs).merged = array (vs.map merged) :=
  rebuild_array _ vs

theorem merged_object (ms : List (Text × Json)) :
    (object ms).merged = object (Table.ofEntries (mergedMembers ms)) := rebuild_object _ ms

theorem fits_array {vs : List Json} {n : Nat} :
    (array vs).Fits (n + 1) ↔ ∀ v ∈ vs, v.Fits n := by
  constructor
  · rintro ⟨hdepth, hshort⟩ v hv
    exact ⟨depth_array_le_iff.mp hdepth v hv, (each_array.mp hshort).2 v hv⟩
  · intro h
    exact ⟨depth_array_le_iff.mpr fun v hv => (h v hv).depth_le,
      each_array.mpr ⟨trivial, fun v hv => (h v hv).each_isShort⟩⟩

theorem fits_object {ms : List (Text × Json)} {n : Nat} :
    (object ms).Fits (n + 1) ↔ ∀ m ∈ ms, m.2.Fits n := by
  constructor
  · rintro ⟨hdepth, hshort⟩ m hm
    exact ⟨depth_object_le_iff.mp hdepth m hm, (each_object.mp hshort).2 m hm⟩
  · intro h
    exact ⟨depth_object_le_iff.mpr fun m hm => (h m hm).depth_le,
      each_object.mpr ⟨trivial, fun m hm => (h m hm).each_isShort⟩⟩

/-- Rebuilding a value leaves it within the limits. -/
theorem Fits.rebuild {f : List (Text × Json) → List (Text × Json)} (hf : ∀ ms, f ms ⊆ ms) {v : Json}
    {n : Nat} (h : v.Fits n) : (v.rebuild f).Fits n := by
  refine ⟨depth_rebuild_le hf h.depth_le, ?_⟩
  refine each_rebuild hf ?_ ?_ ?_ h.each_isShort
  · exact fun _ _ hshort => hshort
  · exact fun _ => trivial
  · exact fun _ _ _ _ => trivial

theorem IsScalar.fits {v : Json} (h : v.IsScalar) (hshort : v.IsShort) (depth : Nat) :
    v.Fits depth := by
  refine ⟨?_, h.each hshort⟩
  rw [h.depth_eq]
  exact Nat.zero_le depth

theorem isScalar_numeral (n : Numeral) : n.value.IsScalar := by
  unfold Numeral.value
  split <;> trivial

theorem isScalar_of_mem_keywords {word : List Char} {v : Json} (h : (word, v) ∈ keywords) :
    v.IsScalar ∧ v.IsShort := by
  simp only [keywords, List.mem_cons, Prod.mk.injEq, List.not_mem_nil, or_false] at h
  rcases h with ⟨-, rfl⟩ | ⟨-, rfl⟩ | ⟨-, rfl⟩ | ⟨-, rfl⟩ | ⟨-, rfl⟩ | ⟨-, rfl⟩ <;>
    exact ⟨trivial, trivial⟩

/-! ## White space -/

theorem isBlank_nil : IsBlank [] := nofun

theorem skip_cons {c : CodePoint} (h : isSpace c = false) (t : Text) : skip (c :: t) = c :: t :=
  List.dropWhile_cons_of_neg (by simp [h])

theorem skip_append {blank : Text} (h : IsBlank blank) (t : Text) : skip (blank ++ t) = skip t :=
  List.dropWhile_append_of_pos h

theorem skip_of_isBlank {t : Text} (h : IsBlank t) : skip t = [] := by
  rw [← List.append_nil t, skip_append h]
  rfl

theorem skip_split (t : Text) : ∃ blank, IsBlank blank ∧ t = blank ++ skip t :=
  ⟨t.takeWhile isSpace, forall_mem_takeWhile, List.takeWhile_append_dropWhile.symm⟩

theorem isBlank_of_skip {t : Text} (h : skip t = []) : IsBlank t := by
  obtain ⟨blank, hblank, ht⟩ := skip_split t
  rw [h, List.append_nil] at ht
  exact ht ▸ hblank

/-- White space is ASCII, and does not go on a number. -/
theorem isSpace_cases {c : CodePoint} (h : isSpace c = true) :
    c.IsAscii ∧ continuesNumber c = false := by
  simp only [isSpace, Bool.or_eq_true, decide_eq_true_eq] at h
  rcases h with ((rfl | rfl) | rfl) | rfl <;> exact ⟨by decide, rfl⟩

/-- Neither does white space before what goes on no number. -/
theorem endsNumber_append {blank t : Text} (h : IsBlank blank) (ht : EndsNumber t) :
    EndsNumber (blank ++ t) := by
  cases blank with
  | nil => exact ht
  | cons c rest =>
    rw [List.cons_append, endsNumber_cons]
    exact (isSpace_cases (h c List.mem_cons_self)).2

/-! ## Where values begin -/

/-- What the text of a value may begin with: it is ASCII, and is not taken for white space nor for
the end of a list. -/
def Begins (c : CodePoint) : Prop := c.val < 0x80 ∧ isSpace c = false ∧ c ≠ ↑ ']'

theorem begins_of_isDigit {c : CodePoint} (h : isDigit c = true) : Begins c := by
  refine ⟨?_, ?_, ?_⟩
  · simp only [isDigit, Bool.and_eq_true, decide_eq_true_eq] at h
    omega
  · rw [Bool.eq_false_iff]
    intro hspace
    have hends := (isSpace_cases hspace).2
    simp [continuesNumber, h] at hends
  · rintro rfl
    cases h

theorem exists_digit_ofNat (n : Nat) : ∃ c rest, Text.ofNat n = c :: rest ∧ isDigit c = true := by
  rcases Text.ofNat_cases n with ⟨-, h⟩ | ⟨c, rest, h, hc, -⟩
  · exact ⟨_, _, h, rfl⟩
  · exact ⟨c, rest, h, hc⟩

/-- A number begins with a digit, or with a minus and a digit. -/
theorem exists_digit_text (n : Numeral) : ∃ c rest, isDigit c = true ∧
    (n.text = c :: rest ∨ n.text = ↑ '-' :: c :: rest) := by
  obtain ⟨c, rest, h, hc⟩ := exists_digit_ofNat n.whole
  rw [Numeral.text, h]
  cases n.negative with
  | false => exact ⟨c, _, hc, .inl rfl⟩
  | true => exact ⟨c, _, hc, .inr rfl⟩

theorem isAscii_of_mem_keywords {word : List Char} {v : Json} (h : (word, v) ∈ keywords) :
    ∀ c ∈ Text.ofChars word, c.IsAscii := by
  have hall : keywords.all (fun k => (Text.ofChars k.1).all fun c => decide c.IsAscii) = true := rfl
  intro c hc
  exact of_decide_eq_true (List.all_eq_true.mp (List.all_eq_true.mp hall _ h) c hc)

theorem exists_begins_of_written {v : Json} {t : Text} (h : Written (.value v) t) :
    ∃ c rest, t = c :: rest ∧ Begins c := by
  cases h with
  | keyword h =>
    simp only [keywords, List.mem_cons, Prod.mk.injEq, List.not_mem_nil, or_false] at h
    rcases h with ⟨rfl, -⟩ | ⟨rfl, -⟩ | ⟨rfl, -⟩ | ⟨rfl, -⟩ | ⟨rfl, -⟩ | ⟨rfl, -⟩ <;>
      exact ⟨_, _, rfl, by decide, rfl, by decide⟩
  | number n =>
    obtain ⟨c, rest, hc, h | h⟩ := exists_digit_text n
    · exact ⟨c, rest, h, begins_of_isDigit hc⟩
    · exact ⟨_, _, h, by decide, rfl, by decide⟩
  | _ => exact ⟨_, _, rfl, by decide, rfl, by decide⟩

/-! ## Scalars -/

theorem scalar_keyword {word : List Char} {v : Json} (h : (word, v) ∈ keywords) (after : Text) :
    scalar (Text.ofChars word ++ after) = .ok (v, after) := by
  simp only [keywords, List.mem_cons, Prod.mk.injEq, List.not_mem_nil, or_false] at h
  rcases h with ⟨rfl, rfl⟩ | ⟨rfl, rfl⟩ | ⟨rfl, rfl⟩ | ⟨rfl, rfl⟩ | ⟨rfl, rfl⟩ | ⟨rfl, rfl⟩ <;> rfl

theorem scalar_string {ps : List Piece} {t : Text} (h : WrittenPieces ps t) (after : Text) :
    scalar (↑ '"' :: (t ++ ↑ '"' :: after)) = .ok (.str (Piece.joined ps), after) := by
  rw [scalar, if_pos rfl, string_eq_ok_iff.mpr ⟨ps, t, h, rfl, rfl⟩]
  rfl

theorem exists_letters_of_keyword {k : List Char × Json} (h : k ∈ keywords) :
    ∃ l m more, Text.ofChars k.1 = l :: m :: more ∧ isDigit l = false ∧ isDigit m = false := by
  simp only [keywords, List.mem_cons, List.not_mem_nil, or_false] at h
  rcases h with rfl | rfl | rfl | rfl | rfl | rfl <;> exact ⟨_, _, _, rfl, rfl, rfl⟩

/-- No keyword has a digit among its first two letters. -/
theorem find?_keywords_digit {c : CodePoint} (h : isDigit c = true) (t : Text) :
    keywords.find? (fun k => (Text.ofChars k.1).isPrefixOf (c :: t)) = none ∧
      keywords.find? (fun k => (Text.ofChars k.1).isPrefixOf (↑ '-' :: c :: t)) = none := by
  have hne : ∀ d : CodePoint, isDigit d = false → (d == c) = false := by
    intro d hd
    rw [beq_eq_false_iff_ne]
    rintro rfl
    rw [h] at hd
    cases hd
  constructor <;> rw [List.find?_eq_none] <;> intro k hk <;>
    obtain ⟨l, m, more, hword, hl, hm⟩ := exists_letters_of_keyword hk
  · simp [hword, List.isPrefixOf, hne l hl]
  · simp [hword, List.isPrefixOf, hne m hm]

theorem scalar_number {n : Numeral} {after : Text} (hshort : n.value.IsShort)
    (hafter : EndsNumber after) : scalar (n.text ++ after) = .ok (n.value, after) := by
  rw [← number_text hshort hafter]
  obtain ⟨c, rest, hc, h | h⟩ := exists_digit_text n
  · have hquote : c ≠ ↑ '"' := by
      rintro rfl
      cases hc
    rw [h, List.cons_append, scalar, if_neg hquote, (find?_keywords_digit hc _).1]
  · have hquote : (↑ '-' : CodePoint) ≠ ↑ '"' := by decide
    rw [h, List.cons_append, List.cons_append, scalar, if_neg hquote, (find?_keywords_digit hc _).2]

end LegacyImage.Json
