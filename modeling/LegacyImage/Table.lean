/-!
Tables: keys and their values, in the order in which the keys first came. Setting the value of a key
that is there leaves the key in its place (`keys_set`), and changes what is found under no other key
(`get?_set`); no key comes twice.
-/

namespace LegacyImage.Table

variable {κ α : Type} [DecidableEq κ]

/-- Sets the value of a key: in its place if the key is there, else at the end. -/
def set (key : κ) (value : α) : List (κ × α) → List (κ × α)
  | [] => [(key, value)]
  | (k, v) :: rest => if k = key then (key, value) :: rest else (k, v) :: set key value rest

def get? (table : List (κ × α)) (key : κ) : Option α :=
  (table.find? fun entry => entry.1 = key).map (·.2)

@[simp] theorem get?_nil (key : κ) : get? ([] : List (κ × α)) key = none := rfl

theorem get?_cons (k key : κ) (v : α) (rest : List (κ × α)) :
    get? ((k, v) :: rest) key = if k = key then some v else get? rest key := by
  by_cases h : k = key <;> simp [get?, h]

theorem get?_append (s t : List (κ × α)) (key : κ) :
    get? (s ++ t) key = (get? s key).or (get? t key) := by
  simp [get?, List.find?_append, Option.map_or]

theorem get?_set (key other : κ) (value : α) (table : List (κ × α)) :
    get? (set key value table) other = if key = other then some value else get? table other := by
  induction table with
  | nil => rw [set, get?_cons]
  | cons entry rest ih =>
    obtain ⟨k, v⟩ := entry
    unfold set
    split
    · rename_i e
      subst e
      rw [get?_cons, get?_cons]
      split <;> rfl
    · rename_i hk
      rw [get?_cons, get?_cons, ih]
      by_cases h : k = other
      · rw [if_pos h, if_neg (fun e => hk (h.trans e.symm)), if_pos h]
      · rw [if_neg h, if_neg h]

theorem keys_set (key : κ) (value : α) (table : List (κ × α)) :
    (set key value table).map (·.1) =
      if key ∈ table.map (·.1) then table.map (·.1) else table.map (·.1) ++ [key] := by
  induction table with
  | nil => simp [set]
  | cons entry rest ih =>
    obtain ⟨k, v⟩ := entry
    unfold set
    split
    · rename_i e
      simp [e]
    · rename_i hk
      rw [List.map_cons, List.map_cons, ih]
      by_cases h : key ∈ rest.map (·.1)
      · rw [if_pos h, if_pos (List.mem_cons_of_mem _ h)]
      · have hn : key ∉ k :: rest.map (·.1) := by
          rw [List.mem_cons, not_or]
          exact ⟨fun e => hk e.symm, h⟩
        rw [if_neg h, if_neg hn, List.cons_append]

theorem nodup_keys_set (key : κ) (value : α) {table : List (κ × α)}
    (h : (table.map (·.1)).Nodup) : ((set key value table).map (·.1)).Nodup := by
  rw [keys_set]
  split
  · exact h
  · rename_i hk
    rw [List.nodup_append]
    refine ⟨h, by simp, ?_⟩
    intro a ha b hb e
    rw [List.mem_singleton] at hb
    exact hk (hb ▸ e ▸ ha)

/-! ## Entries set one after the other -/

/-- The table that comes of setting some entries in their order. -/
def ofEntries (entries : List (κ × α)) : List (κ × α) :=
  entries.foldl (fun table entry => set entry.1 entry.2 table) []

theorem get?_foldl_set (entries table : List (κ × α)) (key : κ) :
    get? (entries.foldl (fun table entry => set entry.1 entry.2 table) table) key =
      (get? entries.reverse key).or (get? table key) := by
  induction entries generalizing table with
  | nil => rfl
  | cons entry rest ih =>
    rw [List.foldl_cons, ih, List.reverse_cons, get?_append, Option.or_assoc, get?_set, get?_cons]
    split <;> simp

/-- Of several values of a key the last one stays. -/
theorem get?_ofEntries (entries : List (κ × α)) (key : κ) :
    get? (ofEntries entries) key = get? entries.reverse key := by
  rw [ofEntries, get?_foldl_set, get?_nil, Option.or_none]

theorem set_of_not_mem {key : κ} (value : α) {table : List (κ × α)}
    (h : key ∉ table.map (·.1)) : set key value table = table ++ [(key, value)] := by
  induction table with
  | nil => rfl
  | cons entry rest ih =>
    obtain ⟨k, v⟩ := entry
    rw [List.map_cons, List.mem_cons, not_or] at h
    rw [set, if_neg (fun e => h.1 e.symm), ih h.2, List.cons_append]

theorem mem_of_mem_set {key : κ} {value : α} {table : List (κ × α)} {entry : κ × α}
    (h : entry ∈ set key value table) : entry = (key, value) ∨ entry ∈ table := by
  induction table with
  | nil => exact .inl (List.mem_singleton.mp h)
  | cons first rest ih =>
    obtain ⟨k, v⟩ := first
    unfold set at h
    split at h
    · exact (List.mem_cons.mp h).imp_right (List.mem_cons_of_mem _)
    · rcases List.mem_cons.mp h with hfirst | hrest
      · exact .inr (List.mem_cons.mpr (.inl hfirst))
      · exact (ih hrest).imp_right (List.mem_cons_of_mem _)

theorem ofEntries_subset (entries : List (κ × α)) : ofEntries entries ⊆ entries := by
  have hset : ∀ table : List (κ × α),
      entries.foldl (fun table entry => set entry.1 entry.2 table) table ⊆ entries ++ table := by
    induction entries with
    | nil => exact fun table => List.Subset.refl table
    | cons entry rest ih =>
      intro table e he
      rcases List.mem_append.mp (ih _ he) with hrest | hset
      · simp [hrest]
      · rcases mem_of_mem_set hset with rfl | htable
        · simp
        · simp [htable]
  have hall := hset []
  rwa [List.append_nil] at hall

theorem ofEntries_of_nodup {entries : List (κ × α)} (h : (entries.map (·.1)).Nodup) :
    ofEntries entries = entries := by
  -- the entries set so far, and after them those that are left
  have hset : ∀ table : List (κ × α), ((table ++ entries).map (·.1)).Nodup →
      entries.foldl (fun table entry => set entry.1 entry.2 table) table = table ++ entries := by
    clear h
    induction entries with
    | nil => exact fun table _ => (List.append_nil table).symm
    | cons entry rest ih =>
      intro table h
      have hnext : table ++ entry :: rest = table ++ [entry] ++ rest := by simp
      have hnew : entry.1 ∉ table.map (·.1) := by
        intro hmem
        rw [List.map_append, List.nodup_append] at h
        exact h.2.2 _ hmem _ List.mem_cons_self rfl
      rw [hnext] at h ⊢
      rw [List.foldl_cons, set_of_not_mem _ hnew, ih _ h]
  exact hset [] h

theorem nodup_keys_ofEntries (entries : List (κ × α)) :
    ((ofEntries entries).map (·.1)).Nodup := by
  have h : ∀ table : List (κ × α), (table.map (·.1)).Nodup →
      ((entries.foldl (fun table entry => set entry.1 entry.2 table) table).map (·.1)).Nodup := by
    induction entries with
    | nil => exact fun _ h => h
    | cons entry rest ih => exact fun _ h => ih _ (nodup_keys_set _ _ h)
  exact h [] List.nodup_nil

end LegacyImage.Table
