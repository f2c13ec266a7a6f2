import LegacyImage.Store.Calls

/-!
Directories that are made all at once, and files that are written into them. To make the directories
on a way is to make them one below the other (`makeDirectories_append`), and what is done below a place
does not depend on what is around it (`makeDirectories_below`, `writeFile_below`).
-/

namespace LegacyImage

namespace Table

variable {κ α β : Type} [DecidableEq κ]

theorem set_of_get? {table : List (κ × α)} {key : κ} {value : α}
    (h : get? table key = some value) : set key value table = table := by
  induction table with
  | nil => cases h
  | cons entry rest ih =>
    obtain ⟨k, v⟩ := entry
    rw [get?_cons] at h
    unfold set
    split
    · rename_i hk
      rw [if_pos hk] at h
      rw [Option.some.inj h, hk]
    · rename_i hk
      rw [if_neg hk] at h
      rw [ih h]

theorem set_map (f : α → β) (key : κ) (value : α) (table : List (κ × α)) :
    set key (f value) (table.map fun e => (e.1, f e.2)) =
      (set key value table).map fun e => (e.1, f e.2) := by
  induction table with
  | nil => rfl
  | cons entry rest ih =>
    rw [List.map_cons, set, set]
    split
    · rfl
    · rw [ih]
      rfl

theorem get?_map (f : α → β) (key : κ) (table : List (κ × α)) :
    get? (table.map fun e => (e.1, f e.2)) key = (get? table key).map f := by
  induction table with
  | nil => rfl
  | cons entry rest ih =>
    rw [List.map_cons, get?_cons, get?_cons, ih]
    split <;> rfl

theorem set_set (key : κ) (first value : α)
    (table : List (κ × α)) : set key value (set key first table) = set key value table := by
  induction table with
  | nil => exact if_pos rfl
  | cons entry rest ih =>
    obtain ⟨k, v⟩ := entry
    by_cases hk : k = key
    · rw [set, set, if_pos hk, if_pos hk, set, if_pos rfl]
    · rw [set, set, if_neg hk, if_neg hk, set, if_neg hk, ih]

end Table

namespace Tree

/-! ## Making directories -/

/-- A directory in a directory and so on. -/
def chain : List Text → Tree
  | [] => empty
  | name :: rest => .directory [(name, chain rest)]

/-- Makes the directory at a path and those above it, as far as they are missing. -/
def makeDirectories : List Text → Tree → Except Obstacle Tree
  | [], .directory entries => .ok (.directory entries)
  | [], .file _ => .error .exists
  | _ :: _, .file _ => .error .notADirectory
  | name :: rest, .directory entries =>
    match Table.get? entries name with
    | none => .ok (.directory (Table.set name (chain rest) entries))
    | some t =>
      match makeDirectories rest t with
      | .error o => .error o
      | .ok t => .ok (.directory (Table.set name t entries))

theorem find_append (first rest : List Text) (t : Tree) :
    find (first ++ rest) t = (find first t).bind (find rest) := by
  induction first generalizing t with
  | nil => rfl
  | cons name first ih =>
    cases t with
    | file content => rfl
    | directory entries =>
      rw [List.cons_append, find, find]
      cases Table.get? entries name with
      | none => rfl
      | some t => exact ih t

theorem find_chain (way : List Text) : find way (chain way) = .ok empty := by
  induction way with
  | nil => rfl
  | cons name rest ih =>
    rw [chain, find, Table.get?_cons, if_pos rfl]
    exact ih

theorem makeDirectories_of_find {way : List Text} {t : Tree} {entries : List (Text × Tree)}
    (h : find way t = .ok (.directory entries)) : makeDirectories way t = .ok t := by
  induction way generalizing t with
  | nil =>
    obtain rfl := Except.ok.inj h
    rfl
  | cons name rest ih =>
    cases t with
    | file content => cases h
    | directory above =>
      rw [find] at h
      rw [makeDirectories]
      cases hget : Table.get? above name with
      | none =>
        rw [hget] at h
        cases h
      | some below =>
        rw [hget] at h
        dsimp only
        rw [ih h]
        dsimp only
        rw [Table.set_of_get? hget]

/-- Making directories in a directory sets the entry of the first, which is made whole or goes on to
the others. -/
theorem exists_of_makeDirectories_cons {first : Text} {way : List Text}
    {entries : List (Text × Tree)} {made : Tree}
    (h : makeDirectories (first :: way) (.directory entries) = .ok made) :
    ∃ below', made = .directory (Table.set first below' entries) ∧
      (Table.get? entries first = none ∧ below' = chain way ∨
        ∃ below, Table.get? entries first = some below ∧
          makeDirectories way below = .ok below') := by
  rw [makeDirectories] at h
  split at h
  · rename_i hget
    exact ⟨chain way, (Except.ok.inj h).symm, Or.inl ⟨hget, rfl⟩⟩
  · rename_i below hget
    split at h
    · cases h
    · rename_i below' hmake
      exact ⟨below', (Except.ok.inj h).symm, Or.inr ⟨below, hget, hmake⟩⟩

theorem makeDirectories_append_chain (way rest : List Text) :
    makeDirectories (way ++ rest) (chain way) = .ok (chain (way ++ rest)) := by
  induction way with
  | nil => cases rest <;> rfl
  | cons name way ih =>
    rw [List.cons_append, chain, makeDirectories, Table.get?_cons, if_pos rfl]
    dsimp only
    rw [ih]
    dsimp only
    rw [Table.set, if_pos rfl, chain]

/-- Directories are made in one go or in two. -/
theorem makeDirectories_append {way : List Text} {t made : Tree}
    (h : makeDirectories way t = .ok made) (rest : List Text) :
    makeDirectories (way ++ rest) t = makeDirectories (way ++ rest) made := by
  induction way generalizing t made with
  | nil =>
    cases t with
    | file content => cases h
    | directory entries =>
      obtain rfl := Except.ok.inj h
      rfl
  | cons name way ih =>
    cases t with
    | file content => cases h
    | directory entries =>
      obtain ⟨below', rfl, hbelow⟩ := exists_of_makeDirectories_cons h
      rw [List.cons_append, makeDirectories, makeDirectories, Table.get?_set, if_pos rfl]
      rcases hbelow with ⟨hget, rfl⟩ | ⟨below, hget, hnext⟩
      · rw [hget]
        dsimp only
        rw [makeDirectories_append_chain]
        dsimp only
        rw [Table.set_set]
      · rw [hget]
        dsimp only
        rw [ih hnext]
        cases makeDirectories (way ++ rest) below' with
        | error o => rfl
        | ok below => exact congrArg (Except.ok ∘ directory) (Table.set_set ..).symm

/-- Directories are made below a place as if there were nothing around. -/
theorem makeDirectories_below {above way : List Text} {t below below' : Tree}
    (h : find above t = .ok below) (hmake : makeDirectories way below = .ok below') :
    ∃ t', makeDirectories (above ++ way) t = .ok t' ∧ find above t' = .ok below' := by
  induction above generalizing t with
  | nil =>
    obtain rfl := Except.ok.inj h
    exact ⟨below', hmake, rfl⟩
  | cons name rest ih =>
    cases t with
    | file content => cases h
    | directory entries =>
      rw [find] at h
      cases hget : Table.get? entries name with
      | none =>
        rw [hget] at h
        cases h
      | some next =>
        rw [hget] at h
        obtain ⟨next', hnext, hfind⟩ := ih h
        refine ⟨.directory (Table.set name next' entries), ?_, ?_⟩
        · rw [List.cons_append, makeDirectories, hget]
          dsimp only
          rw [hnext]
        · rw [find, Table.get?_set, if_pos rfl]
          exact hfind

/-! ## Places where nothing is -/

/-- Whether there is nothing at a place: an empty directory is there, or can be made. -/
def IsVacant (way : List Text) (t : Tree) : Prop :=
  ∃ made, makeDirectories way t = .ok made ∧ find way made = .ok empty

theorem isVacant_empty (way : List Text) : IsVacant way empty :=
  ⟨chain way, makeDirectories_append_chain [] way, find_chain way⟩

theorem find_of_isVacant {way : List Text} {t : Tree} (h : IsVacant way t) :
    find way t = .ok empty ∨ find way t = .error .missing := by
  induction way generalizing t with
  | nil =>
    obtain ⟨made, hmake, hfind⟩ := h
    cases t with
    | file content => cases hmake
    | directory entries =>
      obtain rfl := Except.ok.inj hmake
      exact Or.inl hfind
  | cons name rest ih =>
    obtain ⟨made, hmake, hfind⟩ := h
    cases t with
    | file content => cases hmake
    | directory entries =>
      obtain ⟨below', rfl, hbelow⟩ := exists_of_makeDirectories_cons hmake
      rw [find, Table.get?_set, if_pos rfl] at hfind
      rw [find]
      rcases hbelow with ⟨hget, -⟩ | ⟨below, hget, hnext⟩
      · rw [hget]
        exact Or.inr rfl
      · rw [hget]
        exact ih ⟨below', hnext, hfind⟩

/-- Nothing is at a place that is missed. -/
theorem isVacant_of_find {way : List Text} {t : Tree} (h : find way t = .error .missing) :
    IsVacant way t := by
  fun_induction find way t with
  | case1 t => cases h
  | case2 name rest content => cases h
  | case3 name rest entries hget =>
    refine ⟨.directory (Table.set name (chain rest) entries), ?_, ?_⟩
    · rw [makeDirectories, hget]
    · rw [find, Table.get?_set, if_pos rfl]
      exact find_chain rest
  | case4 name rest entries below hget ih =>
    obtain ⟨made, hmake, hfind⟩ := ih h
    refine ⟨.directory (Table.set name made entries), ?_, ?_⟩
    · rw [makeDirectories, hget]
      dsimp only
      rw [hmake]
    · rw [find, Table.get?_set, if_pos rfl]
      exact hfind

/-! ## Writing files -/

theorem writeFile_cons {name : Text} {rest : List Text} (hrest : rest ≠ []) (content : Bytes)
    (entries : List (Text × Tree)) :
    writeFile content (name :: rest) (.directory entries) =
      match Table.get? entries name with
      | none => .error .missing
      | some t =>
        match writeFile content rest t with
        | .error o => .error o
        | .ok t => .ok (.directory (Table.set name t entries)) := by
  obtain ⟨next, after, rfl⟩ := List.exists_cons_of_ne_nil hrest
  rfl

/-- A file is written below a place as if there were nothing around. -/
theorem writeFile_below {content : Bytes} {above way : List Text} (hway : way ≠ [])
    {t below below' : Tree} (h : find above t = .ok below)
    (hwrite : writeFile content way below = .ok below') :
    ∃ t', writeFile content (above ++ way) t = .ok t' ∧ find above t' = .ok below' := by
  induction above generalizing t with
  | nil =>
    obtain rfl := Except.ok.inj h
    exact ⟨below', hwrite, rfl⟩
  | cons name rest ih =>
    cases t with
    | file content => cases h
    | directory entries =>
      rw [find] at h
      cases hget : Table.get? entries name with
      | none =>
        rw [hget] at h
        cases h
      | some next =>
        rw [hget] at h
        obtain ⟨next', hnext, hfind⟩ := ih h
        refine ⟨.directory (Table.set name next' entries), ?_, ?_⟩
        · rw [List.cons_append, writeFile_cons (List.append_ne_nil_of_right_ne_nil _ hway), hget]
          dsimp only
          rw [hnext]
        · rw [find, Table.get?_set, if_pos rfl]
          exact hfind

theorem find_writeFile {content : Bytes} {way : List Text} {name : Text} {t : Tree}
    {entries : List (Text × Tree)} (h : find way t = .ok (.directory entries))
    (hname : ∀ below, Table.get? entries name ≠ some (.directory below)) :
    ∃ t', writeFile content (way ++ [name]) t = .ok t' ∧
      find way t' = .ok (.directory (Table.set name (.file content) entries)) := by
  refine writeFile_below (List.cons_ne_nil name []) h ?_
  rw [writeFile]
  split
  · rename_i below hget
    exact absurd hget (hname below)
  · rfl

end Tree

end LegacyImage
