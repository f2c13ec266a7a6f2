import LegacyImage.Json.Reader

/-!
How deeply a text nests brackets, found by a scan that knows strings and nothing else of values. The
reader follows the scan: what it reads opens no more brackets at once than it may and closes them
all, and it gives up for the depth only of a text that nests deeper (`nesting_le_of_ofText`,
`lt_nesting_of_ofText`).
-/

namespace LegacyImage.Json

def isOpening (c : CodePoint) : Bool := c = ↑ '[' || c = ↑ '{'

def isClosing (c : CodePoint) : Bool := c = ↑ ']' || c = ↑ '}'

/-- Whether a code point means nothing to the scan outside strings. -/
def isPlain (c : CodePoint) : Bool := !(c = ↑ '"' || isOpening c || isClosing c)

/-- What holds of no mark holds of plain code points only. -/
theorem isPlain_of_marks {p : CodePoint → Bool}
    (h : (Text.ofChars ['"', '[', '{', ']', '}']).any p = false) (c : CodePoint) (hc : p c = true) :
    isPlain c = true := by
  cases hplain : isPlain c with
  | true => rfl
  | false =>
    have hmark : c ∈ Text.ofChars ['"', '[', '{', ']', '}'] := by
      simp only [isPlain, isOpening, isClosing, Bool.not_eq_eq_eq_not, Bool.not_false,
        Bool.or_eq_true, decide_eq_true_eq] at hplain
      simpa only [Text.ofChars, List.map_cons, List.map_nil, List.mem_cons, List.not_mem_nil,
        or_false, or_assoc] using hplain
    rw [List.any_eq_true.mpr ⟨c, hmark, hc⟩] at h
    cases h

/-- Where the scan stands: outside strings, in one, or right after a backslash in one. -/
inductive Place
  | outside
  | inside
  | escaped
deriving DecidableEq, Repr

/-- The most brackets that are open at once from here on, with so many open already. A bracket that
closes none counts for nothing, and which of the two kinds a bracket is makes no difference. -/
def nestingFrom : Place → Nat → Text → Nat
  | _, level, [] => level
  | .outside, level, c :: rest =>
    if c = ↑ '"' then nestingFrom .inside level rest
    else if isOpening c then nestingFrom .outside (level + 1) rest
    else if isClosing c then max level (nestingFrom .outside (level - 1) rest)
    else nestingFrom .outside level rest
  | .inside, level, c :: rest =>
    if c = ↑ '"' then nestingFrom .outside level rest
    else if c = ↑ '\\' then nestingFrom .escaped level rest
    else nestingFrom .inside level rest
  | .escaped, level, _ :: rest => nestingFrom .inside level rest

/-- The most brackets that are open at once in a text. -/
def nesting (t : Text) : Nat := nestingFrom .outside 0 t

theorem le_nestingFrom (place : Place) (level : Nat) (t : Text) :
    level ≤ nestingFrom place level t := by
  fun_induction nestingFrom place level t with
  | case4 => exact Nat.le_max_left _ _
  | _ => omega

theorem nestingFrom_opening {c : CodePoint} (h : isOpening c = true) (level : Nat) (t : Text) :
    nestingFrom .outside level (c :: t) = nestingFrom .outside (level + 1) t := by
  have hquote : c ≠ ↑ '"' := by
    intro hc
    subst hc
    cases h
  rw [nestingFrom, if_neg hquote, if_pos h]

theorem nestingFrom_closing {c : CodePoint} (h : isClosing c = true) (level : Nat) (t : Text) :
    nestingFrom .outside level (c :: t) = max level (nestingFrom .outside (level - 1) t) := by
  have hquote : c ≠ ↑ '"' := by
    intro hc
    subst hc
    cases h
  have hopening : ¬ isOpening c = true := by
    simp only [isClosing, Bool.or_eq_true, decide_eq_true_eq] at h
    rcases h with rfl | rfl <;> decide
  rw [nestingFrom, if_neg hquote, if_neg hopening, if_pos h]

theorem nestingFrom_plain {c : CodePoint} (h : isPlain c = true) (level : Nat) (t : Text) :
    nestingFrom .outside level (c :: t) = nestingFrom .outside level t := by
  simp only [isPlain, Bool.not_eq_true', Bool.or_eq_false_iff, decide_eq_false_iff_not] at h
  obtain ⟨⟨hquote, hopening⟩, hclosing⟩ := h
  simp only [nestingFrom, if_neg hquote, hopening, hclosing, Bool.false_eq_true, if_false]

/-! ## Parts of a text -/

/-- What a text has before the text `after` opens so many brackets at once, and closes them all. -/
def Spans (n : Nat) (t after : Text) : Prop :=
  ∀ level, nestingFrom .outside level t = max (level + n) (nestingFrom .outside level after)

namespace Spans

variable {m n : Nat} {c d : CodePoint} {t u after : Text}

theorem refl (t : Text) : Spans 0 t t := by
  intro level
  exact (Nat.max_eq_right (le_nestingFrom ..)).symm

theorem trans (h : Spans m t u) (h' : Spans n u after) : Spans (max m n) t after := by
  intro level
  rw [h level, h' level, ← Nat.max_assoc, ← Nat.add_max_add_left]

theorem of_plain (h : isPlain c = true) (t : Text) : Spans 0 (c :: t) t := by
  intro level
  rw [nestingFrom_plain h, ← refl t level]

/-- Brackets around a part open one more. -/
theorem enclose (hc : isOpening c = true) (hd : isClosing d = true) (h : Spans n t (d :: after)) :
    Spans (n + 1) (c :: t) after := by
  intro level
  rw [nestingFrom_opening hc, h, nestingFrom_closing hd, Nat.add_sub_cancel]
  omega

theorem le (h : Spans n t after) (level : Nat) :
    nestingFrom .outside level after ≤ nestingFrom .outside level t := by
  rw [h level]
  exact Nat.le_max_right _ _

theorem append {used : Text} (h : ∀ c ∈ used, isPlain c = true) (t : Text) :
    Spans 0 (used ++ t) t := by
  induction used with
  | nil => exact refl t
  | cons c used ih =>
    exact (of_plain (h c List.mem_cons_self) _).trans
      (ih fun x hx => h x (List.mem_cons_of_mem _ hx))

theorem dropWhile {p : CodePoint → Bool} (h : ∀ c, p c = true → isPlain c = true) (t : Text) :
    Spans 0 t (t.dropWhile p) := by
  have hused : ∀ c ∈ t.takeWhile p, isPlain c = true := by
    intro c hc
    exact h c (List.all_eq_true.mp List.all_takeWhile c hc)
  simpa only [List.takeWhile_append_dropWhile] using append hused (t.dropWhile p)

/-- White space up to what stands after it. -/
theorem skip (h : skip t = after) : Spans 0 t after := h ▸ dropWhile (isPlain_of_marks rfl) t

/-- A separator with white space around it. -/
theorem separator (h : Json.skip t = c :: u) (hc : isPlain c = true) : Spans 0 t (Json.skip u) :=
  (skip h).trans ((of_plain hc u).trans (skip rfl))

end Spans

/-! ## Strings and numbers -/

/-- The place of the scan where a reader of a string stands. -/
def StringState.place : StringState → Place
  | .between => .inside
  | .escape _ => .escaped
  | .digits _ _ _ => .inside

theorem nestingFrom_inside {c : CodePoint} (hquote : c ≠ ↑ '"') (hslash : c ≠ ↑ '\\') (level : Nat)
    (t : Text) : nestingFrom .inside level (c :: t) = nestingFrom .inside level t := by
  rw [nestingFrom, if_neg hquote, if_neg hslash]

theorem nestingFrom_hexDigit {c : CodePoint} {d : Nat} (h : c.hexValue? = some d) (level : Nat)
    (t : Text) : nestingFrom .inside level (c :: t) = nestingFrom .inside level t := by
  refine nestingFrom_inside ?_ ?_ level t
  · intro hc
    subst hc
    cases h
  · intro hc
    subst hc
    cases h

/-- The scan leaves a string where its reader does. -/
theorem nestingFrom_of_stringFrom {opening : Text} {state : StringState} {done : List Piece}
    {t s after : Text} (h : stringFrom opening state done t = .ok (s, after)) (level : Nat) :
    nestingFrom state.place level t = nestingFrom .outside level after := by
  fun_induction stringFrom opening state done t with
  | case2 done rest =>
    cases h
    rfl
  | case3 done rest hquote ih =>
    rw [← ih h]
    rfl
  | case5 done c rest hquote hslash hcontrol ih =>
    rw [← ih h]
    exact nestingFrom_inside hquote hslash level rest
  | case7 backslash done rest ih => exact ih h
  | case8 backslash done c rest hletter e he ih => exact ih h
  | case12 letter count value done c rest d hd hcount ih =>
    rw [← ih h]
    exact nestingFrom_hexDigit hd level rest
  | case14 letter count value done c rest d hd hcount hrest ih =>
    rw [← ih h]
    exact nestingFrom_hexDigit hd level rest
  | _ => cases h

theorem stringFrom_ne_tooDeep {opening : Text} {state : StringState} {done : List Piece}
    {t rest : Text} : stringFrom opening state done t ≠ .error ⟨.tooDeep, rest⟩ := by
  fun_induction stringFrom opening state done t <;> simp_all

theorem spans_string {rest s after : Text} (h : string rest = .ok (s, after)) :
    Spans 0 (↑ '"' :: rest) after := by
  intro level
  rw [← Spans.refl after level]
  exact nestingFrom_of_stringFrom h level

theorem isPlain_of_isDigit (c : CodePoint) (h : isDigit c = true) : isPlain c = true :=
  isPlain_of_marks rfl c h

theorem spans_wholeDigits (t : Text) : Spans 0 t (wholeDigits t).2 := by
  unfold wholeDigits
  split
  · split
    · rename_i hzero
      subst hzero
      exact .of_plain rfl _
    · exact .dropWhile isPlain_of_isDigit _
  · exact .refl _

theorem spans_fractionDigits (t : Text) : Spans 0 t (fractionDigits t).2 := by
  unfold fractionDigits
  split
  · split
    · rename_i h
      rw [h.1]
      exact (Spans.of_plain rfl _).trans (.dropWhile isPlain_of_isDigit _)
    · exact .refl _
  · exact .refl _

theorem spans_signOf (t : Text) : Spans 0 t (signOf t).2 := by
  unfold signOf
  split
  · split
    · rename_i hminus
      rw [hminus]
      exact .of_plain rfl _
    split
    · rename_i hplus
      rw [hplus]
      exact .of_plain rfl _
    · exact .refl _
  · exact .refl _

theorem spans_exponentOf (t : Text) : Spans 0 t (exponentOf t).2 := by
  unfold exponentOf
  split
  · rename_i c rest
    dsimp only
    split
    · rename_i h
      have hletter : isPlain c = true := by
        rcases h.1 with rfl | rfl <;> decide
      exact (Spans.of_plain hletter _).trans
        ((spans_signOf rest).trans (.dropWhile isPlain_of_isDigit _))
    · exact .refl _
  · exact .refl _

/-- A number itself has a minus or no sign. -/
theorem spans_minus {t unsigned : Text} {negative : Bool}
    (h : (match t with
      | c :: rest => if c = (↑ '-' : CodePoint) then (true, rest) else (false, t)
      | [] => (false, [])) = (negative, unsigned)) : Spans 0 t unsigned := by
  split at h
  · split at h
    · rename_i hminus
      cases h
      rw [hminus]
      exact .of_plain rfl _
    · cases h
      exact .refl _
  · cases h
    exact .refl _

/-! ## The reader -/

/-- What a reader that may open so many brackets has to do with the nesting of a text: what it reads,
up to a closing bracket if it looks for one, opens no more at once, and it gives up for the depth
only if the text opens more. -/
def Follows {α : Type} (closing : Text) (depth : Nat) (t : Text) : Reading α → Prop
  | .ok (_, after) => ∃ n ≤ depth, Spans n t (closing ++ after)
  | .error e => e.fault = .tooDeep → ∀ level, level + depth < nestingFrom .outside level t

namespace Follows

variable {α β : Type} {closing t u after : Text} {depth n : Nat} {r : Reading α} {x : α}

theorem ok (h : Spans 0 t after) : Follows [] depth t (.ok (x, after)) := ⟨0, Nat.zero_le _, h⟩

/-- Any other fault has nothing to do with nesting. -/
theorem fault {e : Failure} (h : e.fault ≠ .tooDeep) :
    Follows closing depth t (.error e : Reading α) := by
  intro he
  exact absurd he h

/-- A reader may go on where another one stopped. -/
theorem of_spans (h : Spans n t u) (hn : n ≤ depth) (hu : Follows closing depth u r) :
    Follows closing depth t r := by
  cases r with
  | ok found =>
    obtain ⟨m, hm, hspans⟩ := hu
    exact ⟨max n m, Nat.max_le.mpr ⟨hn, hm⟩, h.trans hspans⟩
  | error e =>
    intro he level
    exact Nat.lt_of_lt_of_le (hu he level) (h.le level)

/-- One bracket less is left to whoever reads between two of them. -/
theorem enclose {c d : CodePoint} (hc : isOpening c = true) (hd : isClosing d = true)
    (h : Follows [d] depth t r) : Follows [] (depth + 1) (c :: t) r := by
  cases r with
  | ok found =>
    obtain ⟨n, hn, hspans⟩ := h
    exact ⟨n + 1, Nat.succ_le_succ hn, hspans.enclose hc hd⟩
  | error e =>
    intro he level
    have hdeeper := h he (level + 1)
    rw [nestingFrom_opening hc]
    omega

theorem map {f : α × Text → β × Text} (hf : ∀ found, (f found).2 = found.2)
    (h : Follows closing depth t r) : Follows closing depth t (r.map f) := by
  cases r with
  | ok found =>
    show ∃ n ≤ depth, Spans n t (closing ++ (f found).2)
    rw [hf]
    exact h
  | error e => exact h

/-- Going on after what was read. -/
theorem andThen {r' : Reading β} (h : Follows [] depth t r)
    (herror : ∀ e, r = .error e → r' = .error e)
    (hok : ∀ x after, r = .ok (x, after) → Follows closing depth after r') :
    Follows closing depth t r' := by
  cases r with
  | error e =>
    rw [herror e rfl]
    exact h
  | ok found =>
    obtain ⟨n, hn, hspans⟩ := h
    exact (hok found.1 found.2 rfl).of_spans hspans hn

/-- One round of a list or an object: after an item stands the closing bracket or a comma. -/
theorem next {close : CodePoint} {more : Text → Reading α}
    (hmore : ∀ t, Follows [close] depth t (more t)) (after : Text) :
    Follows [close] depth after (match Json.skip after with
      | [] => .error ⟨.expectedComma, []⟩
      | c :: rest =>
        if c = close then .ok (x, rest)
        else if c = ↑ ',' then more (Json.skip rest)
        else .error ⟨.expectedComma, c :: rest⟩) := by
  split
  · exact .fault nofun
  rename_i c rest hskip
  split
  · rename_i hclose
    rw [hclose] at hskip
    exact ⟨0, Nat.zero_le _, Spans.skip hskip⟩
  split
  · rename_i hcomma
    rw [hcomma] at hskip
    exact (hmore _).of_spans (Spans.separator hskip rfl) (Nat.zero_le _)
  · exact .fault nofun

/-- A list or an object: nothing or more between the brackets. -/
theorem bracketed {opening close : CodePoint} {empty : Fault} {body : Text → Reading α}
    (ho : isOpening opening = true) (hc : isClosing close = true) (he : empty ≠ .tooDeep)
    (hbody : ∀ t, Follows [close] depth t (body t)) (rest : Text) :
    Follows [] (depth + 1) (opening :: rest) (match Json.skip rest with
      | [] => .error ⟨empty, []⟩
      | d :: more => if d = close then .ok (x, more) else body (d :: more)) := by
  refine enclose ho hc ?_
  split
  · exact .fault he
  rename_i d more hskip
  split
  · rename_i hclose
    rw [hclose] at hskip
    exact ⟨0, Nat.zero_le _, Spans.skip hskip⟩
  · exact (hbody _).of_spans (Spans.skip hskip) (Nat.zero_le _)

end Follows

theorem follows_number (depth : Nat) (t : Text) : Follows [] depth t (number t) := by
  unfold number
  split
  rename_i negative unsigned hsign
  split
  rename_i whole afterWhole hwhole
  split
  · exact .fault nofun
  split
  rename_i fraction afterFraction hfraction
  split
  rename_i exponent rest hexponent
  have hrest : Spans 0 t rest := by
    have h₁ := spans_wholeDigits unsigned
    have h₂ := spans_fractionDigits afterWhole
    have h₃ := spans_exponentOf afterFraction
    rw [hwhole] at h₁
    rw [hfraction] at h₂
    rw [hexponent] at h₃
    exact (spans_minus hsign).trans (h₁.trans (h₂.trans h₃))
  split
  · split
    · exact .fault nofun
    · exact .ok hrest
  · exact .ok hrest

theorem follows_string (depth : Nat) (rest : Text) :
    Follows [] depth (↑ '"' :: rest) (string rest) := by
  cases h : string rest with
  | ok found => exact .ok (spans_string h)
  | error e =>
    refine .fault ?_
    intro he
    obtain ⟨fault, place⟩ := e
    obtain rfl : fault = .tooDeep := he
    exact stringFrom_ne_tooDeep h

theorem isPlain_of_mem_keyword {k : List Char × Json} (h : k ∈ keywords) :
    ∀ c ∈ Text.ofChars k.1, isPlain c = true := by
  have hall : keywords.all (fun k => (Text.ofChars k.1).all isPlain) = true := rfl
  exact List.all_eq_true.mp (List.all_eq_true.mp hall k h)

theorem spans_keyword {t : Text} {k : List Char × Json}
    (h : keywords.find? (fun k => (Text.ofChars k.1).isPrefixOf t) = some k) :
    Spans 0 t (t.drop k.1.length) := by
  have hprefix : (Text.ofChars k.1).isPrefixOf t = true := by simpa using List.find?_some h
  obtain ⟨after, rfl⟩ := List.isPrefixOf_iff_prefix.mp hprefix
  have hlength : k.1.length = (Text.ofChars k.1).length := (List.length_map _).symm
  rw [hlength, List.drop_left]
  exact .append (isPlain_of_mem_keyword (List.mem_of_find?_eq_some h)) _

theorem follows_scalar (depth : Nat) (t : Text) : Follows [] depth t (scalar t) := by
  unfold scalar
  split
  · rename_i c rest
    split
    · rename_i hquote
      rw [hquote]
      exact (follows_string depth rest).map (fun _ => rfl)
    · split
      · rename_i word v hfind
        exact .ok (spans_keyword hfind)
      · exact follows_number depth _
  · exact .fault nofun

section

variable {item : Text → Reading Json} {depth : Nat}

theorem follows_pair (hitem : ∀ t, Follows [] depth t (item t)) (t : Text) :
    Follows [] depth t (pair item t) := by
  unfold pair
  split
  · exact .fault nofun
  rename_i c rest
  split
  · rename_i hquote
    rw [hquote]
    refine (follows_string depth rest).andThen ?_ ?_
    · intro e hname
      rw [hname]
    · intro name after hname
      rw [hname]
      dsimp only
      split
      · exact .fault nofun
      rename_i d more hskip
      split
      · rename_i hcolon
        rw [hcolon] at hskip
        refine Follows.of_spans (Spans.separator hskip rfl) (Nat.zero_le _) ?_
        exact (hitem _).map (fun _ => rfl)
      · exact .fault nofun
  · exact .fault nofun

theorem follows_items (hitem : ∀ t, Follows [] depth t (item t)) (fuel : Nat) (done : List Json)
    (t : Text) : Follows [↑ ']'] depth t (items item fuel done t) := by
  induction fuel generalizing done t with
  | zero => exact .fault nofun
  | succ fuel ih =>
    refine (hitem t).andThen ?_ ?_
    · intro e hfirst
      rw [items, hfirst]
    · intro v after hfirst
      rw [items, hfirst]
      exact Follows.next (ih (v :: done)) after

theorem follows_members (hitem : ∀ t, Follows [] depth t (item t)) (fuel : Nat)
    (done : List (Text × Json)) (t : Text) :
    Follows [↑ '}'] depth t (members item fuel done t) := by
  induction fuel generalizing done t with
  | zero => exact .fault nofun
  | succ fuel ih =>
    refine (follows_pair hitem t).andThen ?_ ?_
    · intro e hfirst
      rw [members, hfirst]
    · intro m after hfirst
      rw [members, hfirst]
      exact Follows.next (ih (m :: done)) after

end

/-- A value is read within the depth that is left. -/
theorem follows_value (fuel depth : Nat) (t : Text) : Follows [] depth t (value fuel depth t) := by
  induction depth generalizing t with
  | zero =>
    cases t with
    | nil => exact .fault nofun
    | cons c rest =>
      unfold value
      split
      · rename_i hbracket
        intro _ level
        have hopening : isOpening c = true := by simpa [isOpening] using hbracket
        rw [nestingFrom_opening hopening]
        exact le_nestingFrom ..
      · exact follows_scalar 0 _
  | succ depth ih =>
    cases t with
    | nil => exact .fault nofun
    | cons c rest =>
      unfold value
      split
      · rename_i hlist
        rw [hlist]
        refine Follows.bracketed ?_ rfl ?_ (follows_items ih fuel []) rest
        · rfl
        · nofun
      split
      · rename_i hobject
        rw [hobject]
        refine Follows.bracketed ?_ rfl ?_ (follows_members ih fuel []) rest
        · rfl
        · nofun
      · exact follows_scalar _ _

theorem nesting_skip (t : Text) : nesting (skip t) = nesting t := by
  have h : nesting t = max 0 (nesting (skip t)) := Spans.skip rfl 0
  rw [h, Nat.zero_max]

/-- A text that is read nests within the limit. -/
theorem nesting_le_of_ofText {t : Text} {v : Json} (h : ofText t = .ok v) :
    nesting t ≤ maxDepth := by
  have hvalue := follows_value t.length maxDepth (skip t)
  unfold ofText at h
  split at h
  · cases h
  rename_i w after hread
  rw [hread] at hvalue
  obtain ⟨n, hn, hspans⟩ := hvalue
  split at h
  · rename_i hend
    have hall := hspans.trans (Spans.skip hend) 0
    rw [← nesting_skip, nesting, hall]
    simpa [nestingFrom] using hn
  · cases h

/-- A text that is refused for its depth nests deeper than the limit. -/
theorem lt_nesting_of_ofText {t rest : Text} (h : ofText t = .error ⟨.tooDeep, rest⟩) :
    maxDepth < nesting t := by
  have hvalue := follows_value t.length maxDepth (skip t)
  unfold ofText at h
  split at h
  · rename_i e hread
    cases h
    rw [hread] at hvalue
    have hdeeper := hvalue rfl 0
    rwa [Nat.zero_add, ← nesting, nesting_skip] at hdeeper
  · split at h <;> cases h

/-! ## Brackets that open and open -/

/-- So many brackets, each of which opens a list. -/
def openings (n : Nat) : Text := List.replicate n ↑ '['

theorem openings_succ (n : Nat) : openings (n + 1) = ↑ '[' :: openings n := rfl

theorem value_openings (fuel depth : Nat) (rest : Text) :
    value (fuel + 1) depth (openings (depth + 1) ++ rest) = .error ⟨.tooDeep, ↑ '[' :: rest⟩ := by
  induction depth with
  | zero => rfl
  | succ depth ih =>
    have hskip : skip (openings (depth + 1) ++ rest) = openings (depth + 1) ++ rest := rfl
    rw [openings_succ, List.cons_append, value, if_pos rfl, hskip]
    show items (value (fuel + 1) depth) (fuel + 1) [] (openings (depth + 1) ++ rest) = _
    rw [items, ih]

/-- One bracket more than may be open is the fault, whatever comes after it. -/
theorem ofText_openings (rest : Text) :
    ofText (openings (maxDepth + 1) ++ rest) = .error ⟨.tooDeep, ↑ '[' :: rest⟩ := by
  have hskip : skip (openings (maxDepth + 1) ++ rest) = openings (maxDepth + 1) ++ rest := rfl
  obtain ⟨fuel, hfuel⟩ : ∃ fuel, (openings (maxDepth + 1) ++ rest).length = fuel + 1 := by
    rw [openings_succ]
    exact ⟨_, rfl⟩
  rw [ofText, hskip, hfuel, value_openings]

end LegacyImage.Json
