import LegacyImage.Proofs.Json.Parts
import Mathlib.Data.List.Nodup

/-!
Values up to the order of members. Swapping neighbouring members, in any object inside a value, makes
the values that differ from it in nothing else. The value with all members in the order of their
names is one of these (`reordered_sorted`, `each_hasOrderedNames_sorted`), and all of them have the
same canonical text (`Reordered.canonicalText_eq`).
-/

namespace LegacyImage

namespace Text

theorem le_eq_true_iff {s t : Text} : s.le t = true ↔ ¬ t < s := by
  simp [le]

theorem le_trans {s t u : Text} (h : s.le t = true) (h' : t.le u = true) : s.le u = true := by
  rw [le_eq_true_iff, List.not_lt] at *
  exact List.le_trans h h'

theorem le_total (s t : Text) : (s.le t || t.le s) = true := by
  rw [Bool.or_eq_true, le_eq_true_iff, le_eq_true_iff, List.not_lt, List.not_lt]
  exact List.le_total s t

theorem le_antisymm {s t : Text} (h : s.le t = true) (h' : t.le s = true) : s = t := by
  rw [le_eq_true_iff, List.not_lt] at *
  exact List.le_antisymm h h'

theorem lt_of_le_of_ne {s t : Text} (h : s.le t = true) (hne : s ≠ t) : s < t := by
  by_cases hlt : s < t
  · exact hlt
  · exact absurd (le_antisymm h (le_eq_true_iff.mpr hlt)) hne

end Text

namespace Json

/-! ## Sorting by name -/

section

variable {α β : Type}

theorem perm_sortByName (ms : List (Text × α)) : (sortByName ms).Perm ms := List.mergeSort_perm ..

theorem sortByName_subset (ms : List (Text × α)) : sortByName ms ⊆ ms := (perm_sortByName ms).subset

theorem pairwise_sortByName (ms : List (Text × α)) :
    (sortByName ms).Pairwise fun a b => a.1.le b.1 = true := by
  refine List.pairwise_mergeSort ?_ ?_ ms
  · intro a b c hab hbc
    exact Text.le_trans hab hbc
  · intro a b
    exact Text.le_total a.1 b.1

/-- Only the names are looked at. -/
theorem sortByName_map (f : α → β) (ms : List (Text × α)) :
    sortByName (ms.map fun m => (m.1, f m.2)) = (sortByName ms).map fun m => (m.1, f m.2) := by
  unfold sortByName
  rw [List.map_mergeSort]
  intro a _ b _
  rfl

/-- Names in their order, none of them twice. -/
theorem pairwise_lt_sortByName {ms : List (Text × α)} (h : (ms.map (·.1)).Nodup) :
    ((sortByName ms).map (·.1)).Pairwise (· < ·) := by
  have hnodup : ((sortByName ms).map (·.1)).Nodup := ((perm_sortByName ms).map _).nodup_iff.mpr h
  have hle : ((sortByName ms).map (·.1)).Pairwise fun s t => s.le t = true :=
    List.pairwise_map.mpr (pairwise_sortByName ms)
  refine (hle.and hnodup).imp ?_
  rintro s t ⟨hst, hne⟩
  exact Text.lt_of_le_of_ne hst hne

/-- Distinct names have one order. -/
theorem sortByName_congr {ms ns : List (Text × α)} (h : ms.Perm ns) (hnodup : (ms.map (·.1)).Nodup) :
    sortByName ms = sortByName ns := by
  refine List.Perm.eq_of_pairwise ?_ (pairwise_sortByName ms) (pairwise_sortByName ns)
    ((perm_sortByName ms).trans (h.trans (perm_sortByName ns).symm))
  intro a b ha hb hab hba
  have hname : a.1 = b.1 := Text.le_antisymm hab hba
  have ha := (perm_sortByName ms).mem_iff.mp ha
  have hb := h.mem_iff.mpr ((perm_sortByName ns).mem_iff.mp hb)
  exact List.inj_on_of_nodup_map hnodup ha hb hname

end

/-! ## Reordering -/

/-- Whether a value comes of another one by swapping members that are next to each other, in objects
at any depth. -/
inductive Reordered : Json → Json → Prop
  | refl (v : Json) : Reordered v v
  | trans {u v w : Json} (h : Reordered u v) (h' : Reordered v w) : Reordered u w
  | swap (before : List (Text × Json)) (m n : Text × Json) (after : List (Text × Json)) :
      Reordered (object (before ++ m :: n :: after)) (object (before ++ n :: m :: after))
  | item (before after : List Json) {v w : Json} (h : Reordered v w) :
      Reordered (array (before ++ v :: after)) (array (before ++ w :: after))
  | member (before after : List (Text × Json)) (name : Text) {v w : Json} (h : Reordered v w) :
      Reordered (object (before ++ (name, v) :: after)) (object (before ++ (name, w) :: after))

namespace Reordered

theorem symm {v w : Json} (h : Reordered v w) : Reordered w v := by
  induction h with
  | refl v => exact .refl v
  | trans _ _ ih ih' => exact ih'.trans ih
  | swap before m n after => exact .swap before n m after
  | item before after _ ih => exact .item before after ih
  | member before after name _ ih => exact .member before after name ih

theorem items {vs : List Json} {f : Json → Json} (h : ∀ v ∈ vs, Reordered v (f v)) :
    Reordered (array vs) (array (vs.map f)) := by
  -- the items before those that are left are reordered already
  have hbefore : ∀ before, Reordered (array (before ++ vs)) (array (before ++ vs.map f)) := by
    induction vs with
    | nil => exact fun before => .refl _
    | cons v vs ih =>
      intro before
      obtain ⟨hv, hvs⟩ := List.forall_mem_cons.mp h
      have hrest := ih hvs (before ++ [f v])
      rw [List.append_assoc, List.append_assoc] at hrest
      exact (Reordered.item before vs hv).trans hrest
  exact hbefore []

theorem members {ms : List (Text × Json)} {f : Json → Json} (h : ∀ m ∈ ms, Reordered m.2 (f m.2)) :
    Reordered (object ms) (object (ms.map fun m => (m.1, f m.2))) := by
  have hbefore : ∀ before, Reordered (object (before ++ ms))
      (object (before ++ ms.map fun m => (m.1, f m.2))) := by
    induction ms with
    | nil => exact fun before => .refl _
    | cons m ms ih =>
      intro before
      obtain ⟨hm, hms⟩ := List.forall_mem_cons.mp h
      have hrest := ih hms (before ++ [(m.1, f m.2)])
      rw [List.append_assoc, List.append_assoc] at hrest
      exact (Reordered.member before ms m.1 hm).trans hrest
  exact hbefore []

theorem of_perm {ms ns : List (Text × Json)} (h : ms.Perm ns) : Reordered (object ms) (object ns) := by
  have hbefore : ∀ before, Reordered (object (before ++ ms)) (object (before ++ ns)) := by
    induction h with
    | nil => exact fun before => .refl _
    | cons m _ ih =>
      intro before
      have hrest := ih (before ++ [m])
      rw [List.append_assoc, List.append_assoc] at hrest
      exact hrest
    | swap m n ms => exact fun before => .swap before n m ms
    | trans _ _ ih ih' => exact fun before => (ih before).trans (ih' before)
  exact hbefore []

/-- What holds of all parts goes on doing so if it depends on no items, and on names only in any
order. -/
theorem each {p : Json → Prop} (hitems : ∀ vs ws, p (array vs) → p (array ws))
    (hmembers : ∀ ms ns, (ms.map (·.1)).Perm (ns.map (·.1)) → p (object ms) → p (object ns))
    {v w : Json} (h : Reordered v w) (hv : v.Each p) : w.Each p := by
  induction h with
  | refl v => exact hv
  | trans _ _ ih ih' => exact ih' (ih hv)
  | swap before m n after =>
    have hperm : (before ++ m :: n :: after).Perm (before ++ n :: m :: after) :=
      (List.Perm.swap n m after).append_left before
    rw [each_object] at hv ⊢
    exact ⟨hmembers _ _ (hperm.map _) hv.1, fun x hx => hv.2 x (hperm.mem_iff.mpr hx)⟩
  | item before after _ ih =>
    rw [each_array, List.forall_mem_append, List.forall_mem_cons] at hv ⊢
    exact ⟨hitems _ _ hv.1, hv.2.1, ih hv.2.2.1, hv.2.2.2⟩
  | member before after name _ ih =>
    rw [each_object, List.forall_mem_append, List.forall_mem_cons] at hv ⊢
    refine ⟨hmembers _ _ ?_ hv.1, hv.2.1, ih hv.2.2.1, hv.2.2.2⟩
    simp

end Reordered

/-! ## Members in the order of their names -/

/-- The value with the members of every object in the order of their names. -/
def sorted (v : Json) : Json := v.rebuild sortByName

theorem sorted_array (vs : List Json) : (array vs).sorted = array (vs.map sorted) :=
  rebuild_array _ vs

theorem sorted_object (ms : List (Text × Json)) :
    (object ms).sorted = object (sortByName (ms.map fun m => (m.1, m.2.sorted))) :=
  rebuild_object _ ms

def HasDistinctNames : Json → Prop
  | object ms => (ms.map (·.1)).Nodup
  | _ => True

/-- An object with its members in the order of their names, and without a name that comes twice. -/
def HasOrderedNames : Json → Prop
  | object ms => (ms.map (·.1)).Pairwise (· < ·)
  | _ => True

theorem reordered_sorted (v : Json) : v.Reordered v.sorted := by
  induction v using inductionOn with
  | array vs ih =>
    rw [sorted_array]
    exact .items ih
  | object ms ih =>
    rw [sorted_object]
    exact (Reordered.members ih).trans (.of_perm (perm_sortByName _).symm)
  | _ => exact .refl _

/-- Sorting the members of all objects puts all names in order. -/
theorem each_hasOrderedNames_sorted {v : Json} (h : v.Each HasDistinctNames) :
    v.sorted.Each HasOrderedNames := by
  refine each_rebuild sortByName_subset ?_ ?_ ?_ h
  · intro v hv _
    cases v with
    | array vs => cases hv
    | object ms => cases hv
    | _ => trivial
  · exact fun _ => trivial
  · intro ms ns hnames hdistinct
    rw [HasDistinctNames, ← hnames] at hdistinct
    exact pairwise_lt_sortByName hdistinct

theorem each_hasDistinctNames_of_reordered {v w : Json} (h : v.Reordered w)
    (hv : v.Each HasDistinctNames) : w.Each HasDistinctNames :=
  h.each (fun _ _ _ => trivial) (fun _ _ hperm hnodup => hperm.nodup_iff.mp hnodup) hv

/-- Values that differ in the order of members only have the same canonical text. -/
theorem Reordered.canonicalText_eq {v w : Json} (h : v.Reordered w)
    (hv : v.Each HasDistinctNames) : v.canonicalText = w.canonicalText := by
  induction h with
  | refl v => rfl
  | trans h _ ih ih' => exact (ih hv).trans (ih' (each_hasDistinctNames_of_reordered h hv))
  | swap before m n after =>
    have hperm : (before ++ m :: n :: after).Perm (before ++ n :: m :: after) :=
      (List.Perm.swap n m after).append_left before
    have hnames : ((before ++ m :: n :: after).map (·.1)).Nodup := (each_object.mp hv).1
    rw [canonicalText, canonicalText, canonicalMembers_eq, canonicalMembers_eq, sortByName_map,
      sortByName_map, sortByName_congr hperm hnames]
  | item before after _ ih =>
    have hv := (each_array.mp hv).2 _ (List.mem_append_right before List.mem_cons_self)
    rw [canonicalText, canonicalText, canonicalItems_eq, canonicalItems_eq, List.map_append,
      List.map_append, List.map_cons, List.map_cons, ih hv]
  | member before after name _ ih =>
    have hv := (each_object.mp hv).2 _ (List.mem_append_right before List.mem_cons_self)
    rw [canonicalText, canonicalText, canonicalMembers_eq, canonicalMembers_eq, List.map_append,
      List.map_append, List.map_cons, List.map_cons, ih hv]

end Json

end LegacyImage
