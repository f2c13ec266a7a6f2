import LegacyImage.Json.Canonical

/-!
Values as trees. A statement about values is proved from their items and members (`inductionOn`), a
property of every value inside another is said of its parts, and a value is changed by changing the
members of its objects. The functions on values that walk their items and members are put here in
terms of lists.
-/

namespace LegacyImage.Json

/-- What holds of lists and objects as soon as it holds of what is in them holds of all values. -/
@[elab_as_elim]
theorem inductionOn {motive : Json → Prop} (v : Json) (null : motive null)
    (bool : ∀ b, motive (bool b)) (int : ∀ n, motive (int n)) (float : ∀ x, motive (float x))
    (str : ∀ s, motive (str s))
    (array : ∀ items, (∀ v ∈ items, motive v) → motive (array items))
    (object : ∀ members, (∀ m ∈ members, motive m.2) → motive (object members)) : motive v := by
  refine @Json.rec motive (fun items => ∀ v ∈ items, motive v)
    (fun members => ∀ m ∈ members, motive m.2) (fun m => motive m.2)
    null bool int float str array object ?_ ?_ ?_ ?_ ?_ v
  · exact nofun
  · intro head tail hhead htail
    exact List.forall_mem_cons.mpr ⟨hhead, htail⟩
  · exact nofun
  · intro head tail hhead htail
    exact List.forall_mem_cons.mpr ⟨hhead, htail⟩
  · intro name v hv
    exact hv

/-! ## Parts -/

mutual

/-- The value and all values in it, at any depth. -/
def parts : Json → List Json
  | array items => array items :: partsOfItems items
  | object members => object members :: partsOfMembers members
  | v => [v]

def partsOfItems : List Json → List Json
  | [] => []
  | v :: rest => v.parts ++ partsOfItems rest

def partsOfMembers : List (Text × Json) → List Json
  | [] => []
  | (_, v) :: rest => v.parts ++ partsOfMembers rest

end

theorem partsOfItems_eq (items : List Json) : partsOfItems items = items.flatMap parts := by
  induction items with
  | nil => rfl
  | cons v rest ih => rw [partsOfItems, ih, List.flatMap_cons]

theorem partsOfMembers_eq (members : List (Text × Json)) :
    partsOfMembers members = members.flatMap fun m => m.2.parts := by
  induction members with
  | nil => rfl
  | cons m rest ih => rw [partsOfMembers, ih, List.flatMap_cons]

/-- Whether something holds of the value and of all values in it. -/
def Each (p : Json → Prop) (v : Json) : Prop := ∀ part ∈ v.parts, p part

theorem each_array {p : Json → Prop} {items : List Json} :
    (array items).Each p ↔ p (array items) ∧ ∀ v ∈ items, v.Each p := by
  simp only [Each, parts, partsOfItems_eq, List.forall_mem_cons, List.mem_flatMap,
    forall_exists_index, and_imp]
  exact and_congr_right fun _ => ⟨fun h v hv part hp => h part v hv hp, fun h part v hv => h v hv part⟩

theorem each_object {p : Json → Prop} {members : List (Text × Json)} :
    (object members).Each p ↔ p (object members) ∧ ∀ m ∈ members, m.2.Each p := by
  simp only [Each, parts, partsOfMembers_eq, List.forall_mem_cons, List.mem_flatMap,
    forall_exists_index, and_imp]
  exact and_congr_right fun _ => ⟨fun h v hv part hp => h part v hv hp, fun h part v hv => h v hv part⟩

theorem Each.self {p : Json → Prop} {v : Json} (h : v.Each p) : p v := by
  refine h v ?_
  cases v <;> simp [parts]

/-! ## Changing the members of objects -/

mutual

/-- The value with the members of all its objects put through `f`, inner objects first. -/
def rebuild (f : List (Text × Json) → List (Text × Json)) : Json → Json
  | array items => array (rebuildItems f items)
  | object members => object (f (rebuildMembers f members))
  | v => v

def rebuildItems (f : List (Text × Json) → List (Text × Json)) : List Json → List Json
  | [] => []
  | v :: rest => v.rebuild f :: rebuildItems f rest

def rebuildMembers (f : List (Text × Json) → List (Text × Json)) :
    List (Text × Json) → List (Text × Json)
  | [] => []
  | (name, v) :: rest => (name, v.rebuild f) :: rebuildMembers f rest

end

section

variable (f : List (Text × Json) → List (Text × Json))

theorem rebuildItems_eq (items : List Json) : rebuildItems f items = items.map (rebuild f) := by
  induction items with
  | nil => rfl
  | cons v rest ih => rw [rebuildItems, ih, List.map_cons]

theorem rebuildMembers_eq (members : List (Text × Json)) :
    rebuildMembers f members = members.map fun m => (m.1, m.2.rebuild f) := by
  induction members with
  | nil => rfl
  | cons m rest ih => rw [rebuildMembers, ih, List.map_cons]

theorem rebuild_array (items : List Json) :
    (array items).rebuild f = array (items.map (rebuild f)) := by
  rw [rebuild, rebuildItems_eq]

theorem rebuild_object (members : List (Text × Json)) :
    (object members).rebuild f = object (f (members.map fun m => (m.1, m.2.rebuild f))) := by
  rw [rebuild, rebuildMembers_eq]

end

/-- A value that is no list and no object. -/
def IsScalar : Json → Prop
  | array _ => False
  | object _ => False
  | _ => True

theorem IsScalar.rebuild_eq {v : Json} (h : v.IsScalar)
    (f : List (Text × Json) → List (Text × Json)) : v.rebuild f = v := by
  cases v with
  | array vs => cases h
  | object ms => cases h
  | _ => rfl

theorem IsScalar.each {p : Json → Prop} {v : Json} (h : v.IsScalar) (hv : p v) : v.Each p := by
  cases v with
  | array vs => cases h
  | object ms => cases h
  | _ => simpa [Each, parts] using hv

theorem IsScalar.depth_eq {v : Json} (h : v.IsScalar) : v.depth = 0 := by
  cases v with
  | array vs => cases h
  | object ms => cases h
  | _ => rfl

/-- What holds of the parts of a value gives what holds of those of the rebuilt value, if it does so
for scalars and for an object with the same names. -/
theorem each_rebuild {f : List (Text × Json) → List (Text × Json)} {p q : Json → Prop}
    (hf : ∀ ms, f ms ⊆ ms) (hscalar : ∀ v : Json, v.IsScalar → p v → q v)
    (hitems : ∀ vs, q (array vs))
    (hmembers : ∀ ms ns, ns.map (·.1) = ms.map (·.1) → p (object ms) → q (object (f ns)))
    {v : Json} (h : v.Each p) : (v.rebuild f).Each q := by
  induction v using inductionOn with
  | array vs ih =>
    rw [rebuild_array, each_array, List.forall_mem_map]
    exact ⟨hitems _, fun v hv => ih v hv ((each_array.mp h).2 v hv)⟩
  | object ms ih =>
    obtain ⟨hobject, hvalues⟩ := each_object.mp h
    rw [rebuild_object, each_object]
    refine ⟨hmembers ms _ (by simp) hobject, ?_⟩
    intro n hn
    obtain ⟨m, hm, rfl⟩ := List.mem_map.mp (hf _ hn)
    exact ih m hm (hvalues m hm)
  | _ => exact IsScalar.each trivial (hscalar _ trivial h.self)

/-! ## Functions of the library on values -/

theorem depthOfItems_le_iff {items : List Json} {n : Nat} :
    depthOfItems items ≤ n ↔ ∀ v ∈ items, v.depth ≤ n := by
  induction items with
  | nil => simp [depthOfItems]
  | cons v rest ih => rw [depthOfItems, Nat.max_le, ih, List.forall_mem_cons]

theorem depthOfMembers_le_iff {members : List (Text × Json)} {n : Nat} :
    depthOfMembers members ≤ n ↔ ∀ m ∈ members, m.2.depth ≤ n := by
  induction members with
  | nil => simp [depthOfMembers]
  | cons m rest ih => rw [depthOfMembers, Nat.max_le, ih, List.forall_mem_cons]

theorem depth_array_le_iff {items : List Json} {n : Nat} :
    (array items).depth ≤ n + 1 ↔ ∀ v ∈ items, v.depth ≤ n := by
  rw [depth, Nat.add_le_add_iff_right, depthOfItems_le_iff]

theorem depth_object_le_iff {members : List (Text × Json)} {n : Nat} :
    (object members).depth ≤ n + 1 ↔ ∀ m ∈ members, m.2.depth ≤ n := by
  rw [depth, Nat.add_le_add_iff_right, depthOfMembers_le_iff]

/-- Rebuilding a value makes it nest no deeper. -/
theorem depth_rebuild_le {f : List (Text × Json) → List (Text × Json)} (hf : ∀ ms, f ms ⊆ ms)
    {v : Json} {n : Nat} (h : v.depth ≤ n) : (v.rebuild f).depth ≤ n := by
  induction v using inductionOn generalizing n with
  | array vs ih =>
    cases n with
    | zero => cases h
    | succ n =>
      rw [rebuild_array, depth_array_le_iff, List.forall_mem_map]
      exact fun v hv => ih v hv (depth_array_le_iff.mp h v hv)
  | object ms ih =>
    cases n with
    | zero => cases h
    | succ n =>
      rw [rebuild_object, depth_object_le_iff]
      intro entry hentry
      obtain ⟨m, hm, rfl⟩ := List.mem_map.mp (hf _ hentry)
      exact ih m hm (depth_object_le_iff.mp h m hm)
  | _ => exact h

theorem canonicalItems_eq (items : List Json) :
    canonicalItems items = items.map canonicalText := by
  induction items with
  | nil => rfl
  | cons v rest ih => rw [canonicalItems, ih, List.map_cons]

theorem canonicalMembers_eq (members : List (Text × Json)) :
    canonicalMembers members = members.map fun m => (m.1, m.2.canonicalText) := by
  induction members with
  | nil => rfl
  | cons m rest ih => rw [canonicalMembers, ih, List.map_cons]

theorem isFiniteItems_iff {items : List Json} :
    isFiniteItems items = true ↔ ∀ v ∈ items, v.isFinite = true := by
  induction items with
  | nil => simp [isFiniteItems]
  | cons v rest ih => rw [isFiniteItems, Bool.and_eq_true, ih, List.forall_mem_cons]

theorem isFiniteMembers_iff {members : List (Text × Json)} :
    isFiniteMembers members = true ↔ ∀ m ∈ members, m.2.isFinite = true := by
  induction members with
  | nil => simp [isFiniteMembers]
  | cons m rest ih => rw [isFiniteMembers, Bool.and_eq_true, ih, List.forall_mem_cons]

/-- Rebuilding a value puts no double in it. -/
theorem isFinite_rebuild {f : List (Text × Json) → List (Text × Json)} (hf : ∀ ms, f ms ⊆ ms)
    {v : Json} (h : v.isFinite = true) : (v.rebuild f).isFinite = true := by
  induction v using inductionOn with
  | array vs ih =>
    rw [isFinite, isFiniteItems_iff] at h
    rw [rebuild_array, isFinite, isFiniteItems_iff, List.forall_mem_map]
    exact fun v hv => ih v hv (h v hv)
  | object ms ih =>
    rw [isFinite, isFiniteMembers_iff] at h
    rw [rebuild_object, isFinite, isFiniteMembers_iff]
    intro entry hentry
    obtain ⟨m, hm, rfl⟩ := List.mem_map.mp (hf _ hentry)
    exact ih m hm (h m hm)
  | _ => exact h

end LegacyImage.Json
