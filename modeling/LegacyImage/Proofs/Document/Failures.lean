import LegacyImage.Proofs.Document.Roundtrip

/-!
Values that have no canonical form: those with a double that is no number, or with a surrogate in a
string or a name, at any depth. The first is found before anything is written. The second is found in
the text that was written, and is told by its place there (`Document.ofJson_fails`).
-/

namespace LegacyImage

namespace Json

/-! ## What a canonical form cannot carry -/

/-- A double that is no number. -/
def IsNotFinite : Json → Prop
  | float x => x.isFinite = false
  | _ => False

/-- A string with a surrogate, or an object with one in a name. -/
def HasSurrogate : Json → Prop
  | str s => ∃ c ∈ s, c.isSurrogate = true
  | object ms => ∃ m ∈ ms, ∃ c ∈ m.1, c.isSurrogate = true
  | _ => False

/-- Whether something holds of the value or of a value in it. -/
def Contains (p : Json → Prop) (v : Json) : Prop := ∃ part ∈ v.parts, p part

variable {v : Json}

theorem each_not_iff {p : Json → Prop} : (v.Each fun part => ¬ p part) ↔ ¬ v.Contains p := by
  simp only [Each, Contains, not_exists, not_and]

theorem isFinite_iff : v.isFinite = true ↔ ¬ v.Contains IsNotFinite := by
  rw [← each_not_iff]
  induction v using inductionOn with
  | float x =>
    constructor
    · intro h
      refine IsScalar.each trivial ?_
      intro hnot
      have hx : x.isFinite = false := hnot
      rw [isFinite, hx] at h
      cases h
    · exact fun h => (Bool.not_eq_false _).mp h.self
  | array vs ih =>
    have hself : ¬ (array vs).IsNotFinite := id
    rw [isFinite, isFiniteItems_iff, each_array, and_iff_right hself]
    exact forall₂_congr ih
  | object ms ih =>
    have hself : ¬ (object ms).IsNotFinite := id
    rw [isFinite, isFiniteMembers_iff, each_object, and_iff_right hself]
    exact forall₂_congr ih
  | _ => exact iff_of_true rfl (IsScalar.each trivial id)

theorem hasEncodableTexts_iff : v.HasEncodableTexts ↔ ¬ v.HasSurrogate := by
  cases v <;> simp [HasEncodableTexts, HasSurrogate, Text.IsEncodable]

/-! ## Surrogates in a canonical text -/

theorem escapeOne_of_isSurrogate {c : CodePoint} (h : c.isSurrogate = true) : escapeOne c = [c] := by
  have hvalue : 0xD800 ≤ c.val := by
    simp only [CodePoint.isSurrogate, Bool.and_eq_true, decide_eq_true_eq] at h
    exact h.1
  rcases escapeOne_cases c with ⟨l, hl, -⟩ | ⟨hcontrol, -⟩ | ⟨-, -, -, htext⟩
  · have hall : (shortEscapes.all fun e => decide (e.2.val < 0x80)) = true := by decide
    have hsmall : c.val < 0x80 := of_decide_eq_true (List.all_eq_true.mp hall _ hl)
    omega
  · omega
  · exact htext

theorem isEncodable_of_escaped {s : Text} (h : (escaped s).IsEncodable) : s.IsEncodable := by
  intro c hc
  refine (Bool.not_eq_true _).mp fun hsurrogate => ?_
  have hmem : c ∈ s.flatMap escapeOne := by
    refine List.mem_flatMap.mpr ⟨c, hc, ?_⟩
    rw [escapeOne_of_isSurrogate hsurrogate]
    exact List.mem_singleton.mpr rfl
  have hnot := h c (List.mem_cons_of_mem _ (List.mem_append_left _ hmem))
  rw [hsurrogate] at hnot
  cases hnot

theorem subset_commaSeparated {t : Text} {ts : List Text} (h : t ∈ ts) : t ⊆ commaSeparated ts := by
  induction ts with
  | nil => cases h
  | cons u rest ih =>
    by_cases hlast : rest = []
    · rw [hlast] at h ⊢
      rw [List.mem_singleton.mp h]
      exact List.Subset.refl u
    · rw [commaSeparated_cons u hlast]
      rcases List.mem_cons.mp h with rfl | h
      · exact List.subset_append_left _ _
      · exact fun c hc => List.mem_append_right _ (List.mem_cons_of_mem _ (ih h hc))

/-- A surrogate anywhere in a value comes into its canonical text. -/
theorem each_hasEncodableTexts_of_canonicalText (h : v.canonicalText.IsEncodable) :
    v.Each HasEncodableTexts := by
  induction v using inductionOn with
  | str s => exact IsScalar.each trivial (isEncodable_of_escaped h)
  | array vs ih =>
    refine each_array.mpr ⟨trivial, ?_⟩
    intro v hv
    refine ih v hv ?_
    intro c hc
    rw [canonicalText, canonicalItems_eq] at h
    exact h c (List.mem_cons_of_mem _
      (List.mem_append_left _ (subset_commaSeparated (List.mem_map_of_mem hv) hc)))
  | object ms ih =>
    rw [canonicalText, canonicalMembers_eq, sortByName_map, List.map_map] at h
    -- every member is in the text, though not at its own place
    have hmember : ∀ m ∈ ms, Text.IsEncodable (escaped m.1 ++ ↑ ':' :: m.2.canonicalText) := by
      intro m hm c hc
      have hsorted : m ∈ sortByName ms := (perm_sortByName ms).mem_iff.mpr hm
      exact h c (List.mem_cons_of_mem _
        (List.mem_append_left _ (subset_commaSeparated (List.mem_map_of_mem hsorted) hc)))
    refine each_object.mpr ⟨?_, ?_⟩
    · intro m hm
      exact isEncodable_of_escaped fun c hc => hmember m hm c (List.mem_append_left _ hc)
    · intro m hm
      exact ih m hm fun c hc =>
        hmember m hm c (List.mem_append_right _ (List.mem_cons_of_mem _ hc))
  | _ => exact IsScalar.each trivial trivial

theorem isEncodable_canonicalText_iff (hfinite : v.isFinite = true) :
    v.canonicalText.IsEncodable ↔ ¬ v.Contains HasSurrogate := by
  have heach : v.Each HasEncodableTexts ↔ ¬ v.Contains HasSurrogate := by
    rw [← each_not_iff]
    exact forall₂_congr fun part _ => hasEncodableTexts_iff
  rw [← heach]
  exact ⟨each_hasEncodableTexts_of_canonicalText, isEncodable_canonicalText hfinite⟩

end Json

/-! ## Documents of values -/

namespace Document

/-- A value has a document unless a double in it is no number or a text in it has a surrogate. The
first is told whatever else there is; the second is told as the first surrogates of the canonical
text. -/
theorem ofJson_fails (v : Json) :
    ((∃ e, ofJson v = .error e) ↔ v.Contains Json.IsNotFinite ∨ v.Contains Json.HasSurrogate) ∧
    (v.Contains Json.IsNotFinite → ofJson v = .error .notFinite) ∧
    (¬ v.Contains Json.IsNotFinite → v.Contains Json.HasSurrogate →
      ∃ position run, v.canonicalText.IsFirstRun position run ∧
        ofJson v = .error (.surrogates ⟨position, run⟩)) := by
  have hnotFinite : v.Contains Json.IsNotFinite → ofJson v = .error .notFinite := by
    intro h
    have hnot : ¬ v.isFinite = true := fun hfinite => Json.isFinite_iff.mp hfinite h
    unfold ofJson Json.canonicalBytes
    rw [if_neg hnot]
    rfl
  have hsurrogates : ¬ v.Contains Json.IsNotFinite → v.Contains Json.HasSurrogate →
      ∃ position run, v.canonicalText.IsFirstRun position run ∧
        ofJson v = .error (.surrogates ⟨position, run⟩) := by
    intro hfinite h
    have hfinite := Json.isFinite_iff.mpr hfinite
    have hnot : ¬ v.canonicalText.IsEncodable :=
      fun hencodable => (Json.isEncodable_canonicalText_iff hfinite).mp hencodable h
    obtain ⟨position, run, hrun, hencode⟩ := Utf8.exists_of_not_isEncodable hnot
    refine ⟨position, run, hrun, ?_⟩
    unfold ofJson Json.canonicalBytes
    rw [if_pos hfinite, hencode]
    rfl
  refine ⟨⟨?_, ?_⟩, hnotFinite, hsurrogates⟩
  · rintro ⟨e, he⟩
    by_contra hneither
    rw [not_or] at hneither
    have hfinite := Json.isFinite_iff.mpr hneither.1
    have hencodable := (Json.isEncodable_canonicalText_iff hfinite).mpr hneither.2
    rw [ofJson_eq_ok_iff.mpr ⟨hfinite, hencodable, rfl⟩] at he
    cases he
  · intro h
    by_cases hfinite : v.Contains Json.IsNotFinite
    · exact ⟨_, hnotFinite hfinite⟩
    · obtain ⟨position, run, -, he⟩ := hsurrogates hfinite (h.resolve_left hfinite)
      exact ⟨_, he⟩

end Document

end LegacyImage
