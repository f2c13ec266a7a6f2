import LegacyImage.Proofs.Json.Grammar

/-!
The reader of values against the grammar of documents: what is written is read, whatever comes after
it (`isRead_of_written`), and what was read is written (`spells_of_value`). So the reader takes
exactly the writings of values that do not nest too deep and whose whole numbers do not have too many
digits, and of members with the same name it keeps the last value (`ofText_eq_ok_iff`).
-/

namespace LegacyImage.Json

theorem scalar_bracket {c : CodePoint} (h : c = ↑ '[' ∨ c = ↑ '{') (rest : Text) :
    scalar (c :: rest) = .error ⟨.expectedValue, c :: rest⟩ := by
  rcases h with rfl | rfl <;> rfl

theorem value_scalar {c : CodePoint} (h : ¬ (c = ↑ '[' ∨ c = ↑ '{')) (fuel depth : Nat)
    (rest : Text) : value fuel depth (c :: rest) = scalar (c :: rest) := by
  obtain ⟨hlist, hobject⟩ := not_or.mp h
  cases depth with
  | zero => rw [value, if_neg h]
  | succ depth => rw [value, if_neg hlist, if_neg hobject]

theorem value_of_scalar {t after : Text} {v : Json} (h : scalar t = .ok (v, after))
    (fuel depth : Nat) : value fuel depth t = .ok (v, after) := by
  cases t with
  | nil => cases h
  | cons c rest =>
    have hc : ¬ (c = ↑ '[' ∨ c = ↑ '{') := by
      intro hc
      rw [scalar_bracket hc] at h
      cases h
    rw [value_scalar hc, h]

theorem begins_of_items {vs : List Json} {t : Text} (h : Written (.items vs) t) :
    ∃ before c rest, t = before ++ c :: rest ∧ IsBlank before ∧ Begins c := by
  cases h with
  | lastItem hbefore hv hafter =>
    obtain ⟨c, rest, rfl, hc⟩ := exists_begins_of_written hv
    exact ⟨_, c, _, rfl, hbefore, hc⟩
  | nextItem hbefore hv hafter hvs =>
    obtain ⟨c, rest, rfl, hc⟩ := exists_begins_of_written hv
    exact ⟨_, c, _, rfl, hbefore, hc⟩

theorem begins_of_member {name : Text} {v : Json} {t : Text} (h : Written (.member name v) t) :
    ∃ rest, t = ↑ '"' :: rest := by
  cases h
  exact ⟨_, rfl⟩

theorem begins_of_members {ms : List (Text × Json)} {t : Text} (h : Written (.members ms) t) :
    ∃ before rest, t = before ++ (↑ '"' : CodePoint) :: rest ∧ IsBlank before := by
  cases h with
  | lastMember hbefore hm hafter =>
    obtain ⟨rest, rfl⟩ := begins_of_member hm
    exact ⟨_, _, rfl, hbefore⟩
  | nextMember hbefore hm hafter hms =>
    obtain ⟨rest, rfl⟩ := begins_of_member hm
    exact ⟨_, _, rfl, hbefore⟩

/-! ## One item, one member -/

section

variable {item : Text → Reading Json} {count : Nat} {t rest after more : Text} {v : Json}

theorem items_last {done : List Json} (hv : item t = .ok (v, rest))
    (hrest : skip rest = ↑ ']' :: after) :
    items item (count + 1) done t = .ok (array (done.reverse ++ [v]), after) := by
  rw [items, hv]
  dsimp only
  rw [hrest]
  dsimp only
  rw [if_pos rfl, List.reverse_cons]

theorem items_next {done : List Json} (hv : item t = .ok (v, rest))
    (hrest : skip rest = ↑ ',' :: more) :
    items item (count + 1) done t = items item count (v :: done) (skip more) := by
  have hcomma : (↑ ',' : CodePoint) ≠ ↑ ']' := by decide
  rw [items, hv]
  dsimp only
  rw [hrest]
  dsimp only
  rw [if_neg hcomma, if_pos rfl]

theorem members_last {done : List (Text × Json)} {m : Text × Json} (hm : pair item t = .ok (m, rest))
    (hrest : skip rest = ↑ '}' :: after) :
    members item (count + 1) done t =
      .ok (object (Table.ofEntries (done.reverse ++ [m])), after) := by
  rw [members, hm]
  dsimp only
  rw [hrest]
  dsimp only
  rw [if_pos rfl, List.reverse_cons]

theorem members_next {done : List (Text × Json)} {m : Text × Json} (hm : pair item t = .ok (m, rest))
    (hrest : skip rest = ↑ ',' :: more) :
    members item (count + 1) done t = members item count (m :: done) (skip more) := by
  have hcomma : (↑ ',' : CodePoint) ≠ ↑ '}' := by decide
  rw [members, hm]
  dsimp only
  rw [hrest]
  dsimp only
  rw [if_neg hcomma, if_pos rfl]

end

/-! ## What is written is read -/

/-- Whether the text of a value could be gone on. -/
def isNumber : Json → Bool
  | int _ => true
  | float _ => true
  | _ => false

/-- What reading a piece of a document comes to, whatever comes after it. -/
def IsRead (fuel : Nat) (t : Text) : Form → Prop
  | .value v => ∀ depth after, v.Fits depth → (v.isNumber = true → EndsNumber after) →
      value fuel depth (t ++ after) = .ok (v.merged, after)
  | .items vs => ∀ depth count done after, (∀ v ∈ vs, v.Fits depth) → t.length ≤ count →
      items (value fuel depth) count done (skip (t ++ ↑ ']' :: after)) =
        .ok (array (done.reverse ++ vs.map merged), after)
  | .member name v => ∀ depth after, v.Fits depth → EndsNumber after →
      pair (value fuel depth) (t ++ after) = .ok ((name, v.merged), after)
  | .members ms => ∀ depth count done after, (∀ m ∈ ms, m.2.Fits depth) → t.length ≤ count →
      members (value fuel depth) count done (skip (t ++ ↑ '}' :: after)) =
        .ok (object (Table.ofEntries (done.reverse ++ mergedMembers ms)), after)

/-- What stands after an item or a member goes on no number. -/
theorem endsNumber_separator {blank : Text} (h : IsBlank blank) {c : CodePoint}
    (hc : continuesNumber c = false) (rest : Text) : EndsNumber (blank ++ c :: rest) :=
  endsNumber_append h (endsNumber_cons.mpr hc)

theorem skip_separator {blank : Text} (h : IsBlank blank) {c : CodePoint} (hc : isSpace c = false)
    (rest : Text) : skip (blank ++ c :: rest) = c :: rest := by
  rw [skip_append h, skip_cons hc]

theorem exists_succ_of_fits {v : Json} {depth n : Nat} (h : v.Fits depth) (hv : v.depth = n + 1) :
    ∃ k, depth = k + 1 := by
  have hdepth := h.depth_le
  exact ⟨depth - 1, by omega⟩

theorem isRead_noItems {fuel : Nat} {t : Text} (h : IsBlank t) :
    IsRead fuel (enclosed ↑ '[' t ↑ ']') (.value (.array [])) := by
  intro depth after hfits _
  obtain ⟨depth, rfl⟩ := exists_succ_of_fits hfits rfl
  rw [enclosed_append, value, if_pos rfl, skip_separator h rfl]
  dsimp only
  rw [if_pos rfl]
  rfl

theorem isRead_noMembers {fuel : Nat} {t : Text} (h : IsBlank t) :
    IsRead fuel (enclosed ↑ '{' t ↑ '}') (.value (.object [])) := by
  intro depth after hfits _
  obtain ⟨depth, rfl⟩ := exists_succ_of_fits hfits rfl
  have hbrace : (↑ '{' : CodePoint) ≠ ↑ '[' := by decide
  rw [enclosed_append, value, if_neg hbrace, if_pos rfl, skip_separator h rfl]
  dsimp only
  rw [if_pos rfl]
  rfl

theorem isRead_array {fuel : Nat} {vs : List Json} {t : Text} (hwritten : Written (.items vs) t)
    (hfuel : t.length ≤ fuel) (h : IsRead fuel t (.items vs)) :
    IsRead fuel (enclosed ↑ '[' t ↑ ']') (.value (.array vs)) := by
  intro depth after hfits _
  obtain ⟨depth, rfl⟩ := exists_succ_of_fits hfits rfl
  obtain ⟨before, c, rest, rfl, hbefore, hc⟩ := begins_of_items hwritten
  have hitems := h depth fuel [] after (fits_array.mp hfits) hfuel
  rw [List.append_assoc, List.cons_append, skip_separator hbefore hc.2.1] at hitems
  rw [enclosed_append, List.append_assoc, List.cons_append, value, if_pos rfl,
    skip_separator hbefore hc.2.1]
  dsimp only
  rw [if_neg hc.2.2, hitems, merged_array, List.reverse_nil, List.nil_append]

theorem isRead_object {fuel : Nat} {ms : List (Text × Json)} {t : Text}
    (hwritten : Written (.members ms) t) (hfuel : t.length ≤ fuel)
    (h : IsRead fuel t (.members ms)) :
    IsRead fuel (enclosed ↑ '{' t ↑ '}') (.value (.object ms)) := by
  intro depth after hfits _
  obtain ⟨depth, rfl⟩ := exists_succ_of_fits hfits rfl
  obtain ⟨before, rest, rfl, hbefore⟩ := begins_of_members hwritten
  have hquote : (↑ '"' : CodePoint) ≠ ↑ '}' := by decide
  have hbrace : (↑ '{' : CodePoint) ≠ ↑ '[' := by decide
  have hmembers := h depth fuel [] after (fits_object.mp hfits) hfuel
  rw [List.append_assoc, List.cons_append, skip_separator hbefore rfl] at hmembers
  rw [enclosed_append, List.append_assoc, List.cons_append, value, if_neg hbrace, if_pos rfl,
    skip_separator hbefore rfl]
  dsimp only
  rw [if_neg hquote, hmembers, merged_object, List.reverse_nil, List.nil_append]

theorem isRead_lastItem {fuel : Nat} {v : Json} {before t after : Text} (hbefore : IsBlank before)
    (hv : Written (.value v) t) (hafter : IsBlank after) (h : IsRead fuel t (.value v)) :
    IsRead fuel (before ++ (t ++ after)) (.items [v]) := by
  intro depth count done rest hfits hcount
  obtain ⟨c, more, rfl, hc⟩ := exists_begins_of_written hv
  obtain ⟨count, rfl⟩ : ∃ n, count = n + 1 := by
    simp only [List.length_append, List.length_cons] at hcount
    exact ⟨count - 1, by omega⟩
  have hfirst := h depth (after ++ ↑ ']' :: rest) (hfits v List.mem_cons_self)
    fun _ => endsNumber_separator hafter rfl rest
  simp only [List.append_assoc, List.cons_append] at hfirst ⊢
  rw [skip_separator hbefore hc.2.1, items_last hfirst (skip_separator hafter rfl rest)]
  rfl

theorem isRead_nextItem {fuel : Nat} {v : Json} {vs : List Json} {before t after u : Text}
    (hbefore : IsBlank before) (hv : Written (.value v) t) (hafter : IsBlank after)
    (h : IsRead fuel t (.value v)) (hvs : IsRead fuel u (.items vs)) :
    IsRead fuel (before ++ (t ++ (after ++ ↑ ',' :: u))) (.items (v :: vs)) := by
  intro depth count done rest hfits hcount
  obtain ⟨c, more, rfl, hc⟩ := exists_begins_of_written hv
  simp only [List.length_append, List.length_cons] at hcount
  obtain ⟨count, rfl⟩ : ∃ n, count = n + 1 := ⟨count - 1, by omega⟩
  obtain ⟨hfirst, hothers⟩ := List.forall_mem_cons.mp hfits
  have hfirst := h depth (after ++ ↑ ',' :: (u ++ ↑ ']' :: rest)) hfirst
    fun _ => endsNumber_separator hafter rfl _
  simp only [List.append_assoc, List.cons_append] at hfirst ⊢
  rw [skip_separator hbefore hc.2.1, items_next hfirst (skip_separator hafter rfl _),
    hvs depth count (v.merged :: done) rest hothers (by omega)]
  simp

theorem isRead_lastMember {fuel : Nat} {name : Text} {v : Json} {before t after : Text}
    (hbefore : IsBlank before) (hm : Written (.member name v) t) (hafter : IsBlank after)
    (h : IsRead fuel t (.member name v)) :
    IsRead fuel (before ++ (t ++ after)) (.members [(name, v)]) := by
  intro depth count done rest hfits hcount
  obtain ⟨more, rfl⟩ := begins_of_member hm
  obtain ⟨count, rfl⟩ : ∃ n, count = n + 1 := by
    simp only [List.length_append, List.length_cons] at hcount
    exact ⟨count - 1, by omega⟩
  have hfirst := h depth (after ++ ↑ '}' :: rest) (hfits (name, v) List.mem_cons_self)
    (endsNumber_separator hafter rfl rest)
  simp only [List.append_assoc, List.cons_append] at hfirst ⊢
  rw [skip_separator hbefore rfl, members_last hfirst (skip_separator hafter rfl rest)]
  rfl

theorem isRead_nextMember {fuel : Nat} {name : Text} {v : Json} {ms : List (Text × Json)}
    {before t after u : Text} (hbefore : IsBlank before) (hm : Written (.member name v) t)
    (hafter : IsBlank after) (h : IsRead fuel t (.member name v))
    (hms : IsRead fuel u (.members ms)) :
    IsRead fuel (before ++ (t ++ (after ++ ↑ ',' :: u))) (.members ((name, v) :: ms)) := by
  intro depth count done rest hfits hcount
  obtain ⟨more, rfl⟩ := begins_of_member hm
  simp only [List.length_append, List.length_cons] at hcount
  obtain ⟨count, rfl⟩ : ∃ n, count = n + 1 := ⟨count - 1, by omega⟩
  obtain ⟨hfirst, hothers⟩ := List.forall_mem_cons.mp hfits
  have hfirst := h depth (after ++ ↑ ',' :: (u ++ ↑ '}' :: rest)) hfirst
    (endsNumber_separator hafter rfl _)
  simp only [List.append_assoc, List.cons_append] at hfirst ⊢
  rw [skip_separator hbefore rfl, members_next hfirst (skip_separator hafter rfl _),
    hms depth count ((name, v.merged) :: done) rest hothers (by omega)]
  simp [mergedMembers]

theorem isRead_member {fuel : Nat} {ps : List Piece} {v : Json} {t before after u : Text}
    (hname : WrittenPieces ps t) (hbefore : IsBlank before) (hafter : IsBlank after)
    (hwritten : Written (.value v) u) (h : IsRead fuel u (.value v)) :
    IsRead fuel (↑ '"' :: (t ++ ↑ '"' :: (before ++ ↑ ':' :: (after ++ u))))
      (.member (Piece.joined ps) v) := by
  intro depth rest hfits hrest
  obtain ⟨c, more, hu, hc⟩ := exists_begins_of_written hwritten
  have hstring : string (t ++ ↑ '"' :: (before ++ ↑ ':' :: (after ++ u)) ++ rest) =
      .ok (Piece.joined ps, before ++ ↑ ':' :: (after ++ (u ++ rest))) :=
    string_eq_ok_iff.mpr ⟨ps, t, hname, by simp, rfl⟩
  have hvalue : skip (after ++ (u ++ rest)) = u ++ rest := by
    rw [hu, List.cons_append, skip_separator hafter hc.2.1]
  rw [List.cons_append, pair, if_pos rfl, hstring]
  dsimp only
  rw [skip_separator hbefore rfl]
  dsimp only
  rw [if_pos rfl, hvalue, h depth rest hfits fun _ => hrest]
  rfl

theorem IsScalar.merged_eq {v : Json} (h : v.IsScalar) : v.merged = v := h.rebuild_eq _

theorem isNumber_numeral (n : Numeral) : n.value.isNumber = true := by
  unfold Numeral.value
  split <;> rfl

/-- What is written is read, whatever comes after it. -/
theorem isRead_of_written {form : Form} {t : Text} (h : Written form t) {fuel : Nat}
    (hfuel : t.length ≤ fuel) : IsRead fuel t form := by
  -- by the rules of the grammar: the fuel that is enough for a text is enough for its parts
  induction h with
  | keyword h =>
    intro depth after _ _
    rw [(isScalar_of_mem_keywords h).1.merged_eq]
    exact value_of_scalar (scalar_keyword h after) _ _
  | number n =>
    intro depth after hfits hafter
    rw [(isScalar_numeral n).merged_eq]
    exact value_of_scalar (scalar_number hfits.each_isShort.self (hafter (isNumber_numeral n))) _ _
  | string h =>
    intro depth after _ _
    rw [enclosed_append]
    exact value_of_scalar (scalar_string h after) _ _
  | noItems h => exact isRead_noItems h
  | array h ih =>
    rw [enclosed, List.length_cons, List.length_append] at hfuel
    exact isRead_array h (by omega) (ih (by omega))
  | noMembers h => exact isRead_noMembers h
  | object h ih =>
    rw [enclosed, List.length_cons, List.length_append] at hfuel
    exact isRead_object h (by omega) (ih (by omega))
  | lastItem hbefore hv hafter ih =>
    simp only [List.length_append] at hfuel
    exact isRead_lastItem hbefore hv hafter (ih (by omega))
  | nextItem hbefore hv hafter hvs ihv ihvs =>
    simp only [List.length_cons, List.length_append] at hfuel
    exact isRead_nextItem hbefore hv hafter (ihv (by omega)) (ihvs (by omega))
  | member hname hbefore hafter hv ih =>
    simp only [List.length_cons, List.length_append] at hfuel
    exact isRead_member hname hbefore hafter hv (ih (by omega))
  | lastMember hbefore hm hafter ih =>
    simp only [List.length_append] at hfuel
    exact isRead_lastMember hbefore hm hafter (ih (by omega))
  | nextMember hbefore hm hafter hms ihm ihms =>
    simp only [List.length_cons, List.length_append] at hfuel
    exact isRead_nextMember hbefore hm hafter (ihm (by omega)) (ihms (by omega))

/-! ## What is read was written -/

/-- Whether a text is the writing of a value within the limits that comes to `v`. -/
def Spells (depth : Nat) (v : Json) (t : Text) : Prop :=
  ∃ raw, Written (.value raw) t ∧ raw.Fits depth ∧ raw.merged = v

theorem spells_of_scalar {t after : Text} {v : Json} (h : scalar t = .ok (v, after)) (depth : Nat) :
    ∃ u, t = u ++ after ∧ Spells depth v u := by
  unfold scalar at h
  split at h
  · rename_i c rest
    split at h
    · rename_i hquote
      cases hs : string rest with
      | error e =>
        rw [hs] at h
        cases h
      | ok found =>
        rw [hs] at h
        cases h
        obtain ⟨ps, u, hps, hrest, hjoined⟩ := string_eq_ok_iff.mp hs
        have hscalar : (str (Piece.joined ps)).IsScalar := trivial
        refine ⟨enclosed ↑ '"' u ↑ '"', ?_, _, .string hps, hscalar.fits trivial depth, ?_⟩
        · rw [enclosed_append, hquote, hrest]
        · rw [hjoined, hscalar.merged_eq]
    split at h
    · rename_i word value hfind
      cases h
      have hmem := List.mem_of_find?_eq_some hfind
      have hprefix : (Text.ofChars word).isPrefixOf (c :: rest) = true := by
        simpa using List.find?_some hfind
      obtain ⟨more, hmore⟩ := List.isPrefixOf_iff_prefix.mp hprefix
      have hlength : word.length = (Text.ofChars word).length := (List.length_map _).symm
      rw [← hmore, hlength, List.drop_left]
      obtain ⟨hscalar, hshort⟩ := isScalar_of_mem_keywords hmem
      exact ⟨_, rfl, v, .keyword hmem, hscalar.fits hshort depth, hscalar.merged_eq⟩
    · obtain ⟨n, hn, rfl, hshort⟩ := exists_numeral_of_number h
      have hscalar := isScalar_numeral n
      exact ⟨n.text, hn, n.value, .number n, hscalar.fits hshort depth, hscalar.merged_eq⟩
  · cases h

/-- White space before the first item, or the first member, belongs to it. -/
theorem written_items_append {vs : List Json} {blank t : Text} (hblank : IsBlank blank)
    (h : Written (.items vs) t) : Written (.items vs) (blank ++ t) := by
  have hboth : ∀ before, IsBlank before → IsBlank (blank ++ before) := fun before hbefore =>
    List.forall_mem_append.mpr ⟨hblank, hbefore⟩
  cases h with
  | lastItem hbefore hv hafter =>
    rw [← List.append_assoc]
    exact .lastItem (hboth _ hbefore) hv hafter
  | nextItem hbefore hv hafter hvs =>
    rw [← List.append_assoc]
    exact .nextItem (hboth _ hbefore) hv hafter hvs

theorem written_members_append {ms : List (Text × Json)} {blank t : Text} (hblank : IsBlank blank)
    (h : Written (.members ms) t) : Written (.members ms) (blank ++ t) := by
  have hboth : ∀ before, IsBlank before → IsBlank (blank ++ before) := fun before hbefore =>
    List.forall_mem_append.mpr ⟨hblank, hbefore⟩
  cases h with
  | lastMember hbefore hm hafter =>
    rw [← List.append_assoc]
    exact .lastMember (hboth _ hbefore) hm hafter
  | nextMember hbefore hm hafter hms =>
    rw [← List.append_assoc]
    exact .nextMember (hboth _ hbefore) hm hafter hms

theorem append_of_skip {t rest : Text} {c : CodePoint} (h : skip t = c :: rest) :
    ∃ blank, IsBlank blank ∧ t = blank ++ c :: rest := by
  obtain ⟨blank, hblank, ht⟩ := skip_split t
  exact ⟨blank, hblank, h ▸ ht⟩

section

variable {item : Text → Reading Json} {depth : Nat}

theorem spells_of_items
    (hitem : ∀ t v after, item t = .ok (v, after) → ∃ u, t = u ++ after ∧ Spells depth v u)
    {count : Nat} {done : List Json} {t after : Text} {v : Json}
    (h : items item count done t = .ok (v, after)) :
    ∃ vs u, t = u ++ ↑ ']' :: after ∧ Written (.items vs) u ∧ (∀ v ∈ vs, v.Fits depth) ∧
      v = array (done.reverse ++ vs.map merged) := by
  induction count generalizing done t with
  | zero => cases h
  | succ count ih =>
    unfold items at h
    split at h
    · cases h
    rename_i w rest hfirst
    obtain ⟨u, rfl, raw, hraw, hfits, rfl⟩ := hitem _ _ _ hfirst
    split at h
    · cases h
    rename_i c more hskip
    obtain ⟨blank, hblank, rfl⟩ := append_of_skip hskip
    split at h
    · rename_i hclose
      cases h
      refine ⟨[raw], u ++ blank, by simp [hclose], .lastItem isBlank_nil hraw hblank, ?_, by simp⟩
      simpa using hfits
    split at h
    · rename_i hcomma
      obtain ⟨vs, u', hu', hvs, hall, rfl⟩ := ih h
      obtain ⟨between, hbetween, hmore⟩ := skip_split more
      refine ⟨raw :: vs, u ++ (blank ++ ↑ ',' :: (between ++ u')), ?_,
        .nextItem isBlank_nil hraw hblank (written_items_append hbetween hvs),
        List.forall_mem_cons.mpr ⟨hfits, hall⟩, by simp⟩
      rw [hcomma, hmore, hu']
      simp
    · cases h

theorem spells_of_pair
    (hitem : ∀ t v after, item t = .ok (v, after) → ∃ u, t = u ++ after ∧ Spells depth v u)
    {t name after : Text} {v : Json} (h : pair item t = .ok ((name, v), after)) :
    ∃ raw u, t = u ++ after ∧ Written (.member name raw) u ∧ raw.Fits depth ∧ raw.merged = v := by
  unfold pair at h
  split at h
  · cases h
  rename_i c rest
  split at h
  · rename_i hquote
    split at h
    · cases h
    rename_i found afterName hname
    obtain ⟨ps, u, hps, rfl, rfl⟩ := string_eq_ok_iff.mp hname
    split at h
    · cases h
    rename_i d more hskip
    obtain ⟨before, hbefore, rfl⟩ := append_of_skip hskip
    split at h
    · rename_i hcolon
      obtain ⟨between, hbetween, hmore⟩ := skip_split more
      cases hv : item (Json.skip more) with
      | error e =>
        rw [hv] at h
        cases h
      | ok found =>
        rw [hv] at h
        cases h
        obtain ⟨w, hw, raw, hraw, hfits, hmerged⟩ := hitem _ _ _ hv
        refine ⟨raw, _, ?_, .member hps hbefore hbetween hraw, hfits, hmerged⟩
        rw [hquote, hcolon, hmore, hw]
        simp
    · cases h
  · cases h

theorem spells_of_members
    (hitem : ∀ t v after, item t = .ok (v, after) → ∃ u, t = u ++ after ∧ Spells depth v u)
    {count : Nat} {done : List (Text × Json)} {t after : Text} {v : Json}
    (h : members item count done t = .ok (v, after)) :
    ∃ ms u, t = u ++ ↑ '}' :: after ∧ Written (.members ms) u ∧ (∀ m ∈ ms, m.2.Fits depth) ∧
      v = object (Table.ofEntries (done.reverse ++ mergedMembers ms)) := by
  induction count generalizing done t with
  | zero => cases h
  | succ count ih =>
    unfold members at h
    split at h
    · cases h
    rename_i m rest hfirst
    obtain ⟨raw, u, rfl, hraw, hfits, hmerged⟩ := spells_of_pair hitem hfirst
    split at h
    · cases h
    rename_i c more hskip
    obtain ⟨blank, hblank, rfl⟩ := append_of_skip hskip
    split at h
    · rename_i hclose
      cases h
      refine ⟨[(m.1, raw)], u ++ blank, by simp [hclose],
        .lastMember isBlank_nil hraw hblank, by simpa using hfits, ?_⟩
      simp [mergedMembers, hmerged]
    split at h
    · rename_i hcomma
      obtain ⟨ms, u', hu', hms, hall, rfl⟩ := ih h
      obtain ⟨between, hbetween, hmore⟩ := skip_split more
      refine ⟨(m.1, raw) :: ms, u ++ (blank ++ ↑ ',' :: (between ++ u')), ?_,
        .nextMember isBlank_nil hraw hblank (written_members_append hbetween hms),
        List.forall_mem_cons.mpr ⟨hfits, hall⟩, ?_⟩
      · rw [hcomma, hmore, hu']
        simp
      · simp [mergedMembers, hmerged]
    · cases h

end

/-- What is read is the writing of a value within the limits. -/
theorem spells_of_value {fuel depth : Nat} {t after : Text} {v : Json}
    (h : value fuel depth t = .ok (v, after)) : ∃ u, t = u ++ after ∧ Spells depth v u := by
  -- on the depth that is left: items and values of members are read with one level less
  induction depth generalizing t v after with
  | zero =>
    cases t with
    | nil => cases h
    | cons c rest =>
      unfold value at h
      split at h
      · cases h
      · exact spells_of_scalar h 0
  | succ depth ih =>
    have hitem : ∀ t v after, value fuel depth t = .ok (v, after) →
        ∃ u, t = u ++ after ∧ Spells depth v u := fun t v after h => ih h
    cases t with
    | nil => cases h
    | cons c rest =>
      unfold value at h
      split at h
      · rename_i hlist
        rw [hlist]
        split at h
        · cases h
        rename_i d more hskip
        obtain ⟨blank, hblank, rfl⟩ := append_of_skip hskip
        split at h
        · rename_i hclose
          cases h
          refine ⟨enclosed ↑ '[' blank ↑ ']', by rw [enclosed_append, hclose], array [],
            .noItems hblank, fits_array.mpr nofun, rfl⟩
        · obtain ⟨vs, u, hu, hvs, hall, rfl⟩ := spells_of_items hitem h
          refine ⟨enclosed ↑ '[' (blank ++ u) ↑ ']', ?_, array vs,
            .array (written_items_append hblank hvs), fits_array.mpr hall, merged_array vs⟩
          rw [enclosed_append, hu, List.append_assoc]
      split at h
      · rename_i hobject
        rw [hobject]
        split at h
        · cases h
        rename_i d more hskip
        obtain ⟨blank, hblank, rfl⟩ := append_of_skip hskip
        split at h
        · rename_i hclose
          cases h
          refine ⟨enclosed ↑ '{' blank ↑ '}', by rw [enclosed_append, hclose], object [],
            .noMembers hblank, fits_object.mpr nofun, rfl⟩
        · obtain ⟨ms, u, hu, hms, hall, rfl⟩ := spells_of_members hitem h
          refine ⟨enclosed ↑ '{' (blank ++ u) ↑ '}', ?_, object ms,
            .object (written_members_append hblank hms), fits_object.mpr hall, merged_object ms⟩
          rw [enclosed_append, hu, List.append_assoc]
      · exact spells_of_scalar h _

/-! ## Documents -/

/-- The first value of a document, with anything after it that cannot go on a number. -/
theorem value_of_document {raw : Json} {before t after : Text} (hbefore : IsBlank before)
    (h : Written (.value raw) t) (hfits : raw.Fits maxDepth)
    (hafter : raw.isNumber = true → EndsNumber after) :
    value (before ++ (t ++ after)).length maxDepth (skip (before ++ (t ++ after))) =
      .ok (raw.merged, after) := by
  obtain ⟨c, rest, ht, hc⟩ := exists_begins_of_written h
  have hskip : skip (before ++ (t ++ after)) = t ++ after := by
    rw [ht, List.cons_append, skip_separator hbefore hc.2.1]
  have hfuel : t.length ≤ (before ++ (t ++ after)).length := by
    simp only [List.length_append]
    omega
  rw [hskip]
  exact isRead_of_written h hfuel maxDepth after hfits hafter

/-- A text is read exactly if it is, between white space, the writing of a value within the limits,
and then as the value that this comes to. -/
theorem ofText_eq_ok_iff {t : Text} {v : Json} :
    ofText t = .ok v ↔ ∃ before u after, t = before ++ (u ++ after) ∧ IsBlank before ∧
      IsBlank after ∧ Spells maxDepth v u := by
  constructor
  · intro h
    unfold ofText at h
    split at h
    · cases h
    rename_i w rest hvalue
    obtain ⟨before, hbefore, ht⟩ := skip_split t
    obtain ⟨u, hu, hspells⟩ := spells_of_value hvalue
    split at h
    · rename_i hend
      cases h
      exact ⟨before, u, rest, hu ▸ ht, hbefore, isBlank_of_skip hend, hspells⟩
    · cases h
  · rintro ⟨before, u, after, rfl, hbefore, hafter, raw, hraw, hfits, rfl⟩
    have hends : EndsNumber after := by
      rw [← List.append_nil after]
      exact endsNumber_append hafter endsNumber_nil
    unfold ofText
    rw [value_of_document hbefore hraw hfits fun _ => hends]
    dsimp only
    rw [skip_of_isBlank hafter]

end LegacyImage.Json
