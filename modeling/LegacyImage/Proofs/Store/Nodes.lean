import LegacyImage.Proofs.Store.Directories

/-!
A tree of files and directories by what lies at each path. Making directories adds directories where
nothing was, on the way and nowhere else (`node?_makeDirectories`), and writing a file changes what
lies at its path alone (`node?_writeFile`). What stands in the way of a file that is put somewhere is
a file where a directory is wanted, or a directory where the file is (`Blocks`); if there is nothing
of the kind, the file is put (`exists_putFile`).
-/

namespace LegacyImage

namespace Tree

/-- What lies at a path. -/
inductive Node
  | file (content : Bytes)
  | directory
deriving DecidableEq

/-- A tree without what is below its top. -/
def node : Tree → Node
  | .file content => .file content
  | .directory _ => .directory

/-- What lies at a path, if anything does. -/
def node? (t : Tree) (names : List Text) : Option Node := (find names t).toOption.map node

theorem node?_nil (t : Tree) : t.node? [] = some t.node := rfl

theorem node?_file_cons (content : Bytes) (name : Text) (rest : List Text) :
    (Tree.file content).node? (name :: rest) = none := rfl

theorem node?_directory_cons (entries : List (Text × Tree)) (name : Text) (rest : List Text) :
    (directory entries).node? (name :: rest) = (Table.get? entries name).bind (·.node? rest) := by
  rw [node?, find]
  cases Table.get? entries name <;> rfl

theorem node?_set (entries : List (Text × Tree)) (name other : Text) (t : Tree)
    (rest : List Text) :
    (directory (Table.set name t entries)).node? (other :: rest) =
      if name = other then t.node? rest else (directory entries).node? (other :: rest) := by
  rw [node?_directory_cons, Table.get?_set, node?_directory_cons]
  split <;> rfl

theorem node?_eq_file_iff {t : Tree} {names : List Text} {held : Bytes} :
    t.node? names = some (.file held) ↔ find names t = .ok (.file held) := by
  rw [node?]
  cases find names t with
  | error o => simp [Except.toOption]
  | ok below => cases below <;> simp [Except.toOption, node]

theorem node?_eq_directory_iff {t : Tree} {names : List Text} :
    t.node? names = some .directory ↔ ∃ entries, find names t = .ok (.directory entries) := by
  rw [node?]
  cases find names t with
  | error o => simp [Except.toOption]
  | ok below => cases below <;> simp [Except.toOption, node]

theorem content_eq_ok_iff {t : Tree} {names : List Text} {held : Bytes} :
    content names t = .ok held ↔ t.node? names = some (.file held) := by
  rw [node?_eq_file_iff, content]
  cases find names t with
  | error o => simp
  | ok below => cases below <;> simp

/-! ## What the operations do to it -/

theorem node?_chain (way names : List Text) :
    (chain way).node? names = if names <+: way then some .directory else none := by
  induction way generalizing names with
  | nil =>
    cases names with
    | nil => rfl
    | cons name rest => rfl
  | cons first way ih =>
    cases names with
    | nil => rfl
    | cons name rest =>
      rw [chain, node?_directory_cons, Table.get?_cons]
      by_cases hname : first = name
      · subst hname
        rw [if_pos rfl, Option.bind_some, ih]
        simp only [List.cons_prefix_cons, true_and]
      · rw [if_neg hname, if_neg (fun h => hname (List.cons_prefix_cons.mp h).1.symm)]
        rfl

/-- Making directories adds those that are missing on the way. -/
theorem node?_makeDirectories {way : List Text} {t made : Tree}
    (h : makeDirectories way t = .ok made) (names : List Text) :
    made.node? names = (t.node? names).or (if names <+: way then some .directory else none) := by
  induction way generalizing t made names with
  | nil =>
    cases t with
    | file content => cases h
    | directory entries =>
      obtain rfl := Except.ok.inj h
      cases names with
      | nil => rfl
      | cons name rest => rw [if_neg (by simp), Option.or_none]
  | cons first way ih =>
    cases t with
    | file content => cases h
    | directory entries =>
      obtain ⟨below', rfl, hbelow⟩ := exists_of_makeDirectories_cons h
      cases names with
      | nil => rfl
      | cons name rest =>
        rw [node?_set]
        by_cases hname : first = name
        · subst hname
          simp only [if_pos, List.cons_prefix_cons, true_and, node?_directory_cons]
          rcases hbelow with ⟨hget, rfl⟩ | ⟨below, hget, hmake⟩
          · rw [hget, node?_chain, Option.bind_none, Option.none_or]
          · rw [hget, ih hmake, Option.bind_some]
        · rw [if_neg hname, if_neg (fun h => hname (List.cons_prefix_cons.mp h).1.symm),
            Option.or_none]

/-- Writing a file changes what lies at its path and nothing else. -/
theorem node?_writeFile {content : Bytes} {way : List Text} {t t' : Tree}
    (h : writeFile content way t = .ok t') (names : List Text) :
    t'.node? names = if names = way then some (.file content) else t.node? names := by
  fun_induction writeFile content way t generalizing t' names with
  | case1 entries => cases h
  | case2 held =>
    obtain rfl := Except.ok.inj h
    cases names <;> rfl
  | case3 first rest held => cases h
  | case4 name entries below hget => cases h
  | case5 name entries hnone =>
    obtain rfl := Except.ok.inj h
    cases names with
    | nil => rfl
    | cons other rest =>
      rw [node?_set]
      by_cases hname : name = other
      · subst hname
        rw [if_pos rfl]
        cases rest with
        | nil => rw [if_pos rfl, node?_nil, node]
        | cons next rest =>
          rw [if_neg (by simp), node?_file_cons, node?_directory_cons]
          cases hget : Table.get? entries name with
          | none => rfl
          | some held =>
            cases held with
            | file content => rfl
            | directory below => exact absurd hget (hnone below)
      · rw [if_neg hname, if_neg (fun h => hname (List.cons.inj h).1.symm)]
  | case6 name next rest entries hget => cases h
  | case7 name next rest entries below hget o hwrite ih => cases h
  | case8 name next rest entries below hget below' hwrite ih =>
    obtain rfl := Except.ok.inj h
    cases names with
    | nil => rfl
    | cons other after =>
      rw [node?_set]
      by_cases hname : name = other
      · subst hname
        rw [if_pos rfl, ih hwrite, node?_directory_cons, hget]
        simp only [List.cons.injEq, true_and, Option.bind_some]
      · rw [if_neg hname, if_neg (fun h => hname (List.cons.inj h).1.symm)]

/-! ## What stands in the way -/

theorem find_error {names : List Text} {t : Tree} {o : Obstacle} (h : find names t = .error o) :
    o = .missing ∨ o = .notADirectory := by
  fun_induction find names t with
  | case1 t => cases h
  | case2 name rest content => exact Or.inr (Except.error.inj h).symm
  | case3 name rest entries hget => exact Or.inl (Except.error.inj h).symm
  | case4 name rest entries below hget ih => exact ih h

/-- The way to a path is no way if there is a file on it. -/
theorem find_eq_notADirectory_iff {names : List Text} {t : Tree} :
    find names t = .error .notADirectory ↔
      ∃ way held, way <+: names ∧ way ≠ names ∧ t.node? way = some (.file held) := by
  fun_induction find names t with
  | case1 t =>
    simp only [reduceCtorEq, false_iff]
    rintro ⟨way, held, hway, hne, -⟩
    exact hne (List.prefix_nil.mp hway)
  | case2 name rest content =>
    simp only [true_iff]
    exact ⟨[], content, List.nil_prefix, (List.cons_ne_nil name rest).symm, rfl⟩
  | case3 name rest entries hget =>
    simp only [Except.error.injEq, reduceCtorEq, false_iff]
    rintro ⟨way, held, hway, -, hnode⟩
    cases way with
    | nil => cases hnode
    | cons first way =>
      obtain rfl := (List.cons_prefix_cons.mp hway).1
      rw [node?_directory_cons, hget] at hnode
      cases hnode
  | case4 name rest entries below hget ih =>
    rw [ih]
    constructor
    · rintro ⟨way, held, hway, hne, hnode⟩
      refine ⟨name :: way, held, List.cons_prefix_cons.mpr ⟨rfl, hway⟩, by simpa using hne, ?_⟩
      rw [node?_directory_cons, hget]
      exact hnode
    · rintro ⟨way, held, hway, hne, hnode⟩
      cases way with
      | nil => cases hnode
      | cons first way =>
        obtain ⟨rfl, hrest⟩ := List.cons_prefix_cons.mp hway
        rw [node?_directory_cons, hget] at hnode
        exact ⟨way, held, hrest, by simpa using hne, hnode⟩

/-- A directory cannot be made where a file is, or below one. -/
theorem makeDirectories_eq_error_iff {way : List Text} {t : Tree} {o : Obstacle} :
    makeDirectories way t = .error o ↔
      (o = .exists ∧ ∃ held, t.node? way = some (.file held)) ∨
        (o = .notADirectory ∧ find way t = .error .notADirectory) := by
  fun_induction makeDirectories way t with
  | case1 entries => simp [node?_nil, node, find]
  | case2 content => simp [node?_nil, node, find, eq_comm]
  | case3 name rest content => simp [node?_file_cons, find, eq_comm]
  | case4 name rest entries hget => simp [node?_directory_cons, find, hget]
  | case5 name rest entries below hget o' hmake ih =>
    rw [node?_directory_cons, find, hget]
    rw [hmake] at ih
    exact ih
  | case6 name rest entries below hget below' hmake ih =>
    rw [node?_directory_cons, find, hget]
    rw [hmake] at ih
    simpa using ih

theorem writeFile_of_directory {content : Bytes} {way : List Text} {t : Tree}
    (h : t.node? way = some .directory) : writeFile content way t = .error .isADirectory := by
  fun_induction writeFile content way t with
  | case1 entries => rfl
  | case2 held => cases h
  | case3 name rest held => cases h
  | case4 name entries below hget => rfl
  | case5 name entries hnone =>
    rw [node?_directory_cons] at h
    obtain ⟨below, hget, hnode⟩ := Option.bind_eq_some_iff.mp h
    cases below with
    | file content => cases hnode
    | directory below => exact absurd hget (hnone below)
  | case6 name next rest entries hget =>
    rw [node?_directory_cons, hget] at h
    cases h
  | case7 name next rest entries below hget o hwrite ih =>
    rw [node?_directory_cons, hget] at h
    exact hwrite.symm.trans (ih h)
  | case8 name next rest entries below hget below' hwrite ih =>
    rw [node?_directory_cons, hget] at h
    exact absurd (hwrite.symm.trans (ih h)) (by simp)

variable {t : Tree} {place : List Text} {path : Path} {content : Bytes}

/-- What is above anything that is there is a directory. -/
theorem find_dropLast (hplace : place ≠ []) {below : Node} (h : t.node? place = some below) :
    ∃ entries, find place.dropLast t = .ok (.directory entries) := by
  rw [node?, ← List.dropLast_concat_getLast hplace, find_append] at h
  cases hfind : find place.dropLast t with
  | error o =>
    rw [hfind] at h
    cases h
  | ok around =>
    cases around with
    | file held =>
      rw [hfind] at h
      cases h
    | directory entries => exact ⟨entries, rfl⟩

/-- The place of a file is none of those above it. -/
theorem not_prefix_dropLast (hplace : place ≠ []) : ¬ place <+: place.dropLast := by
  intro h
  have hle := h.length_le
  have hpos := List.length_pos_iff.mpr hplace
  rw [List.length_dropLast] at hle
  omega

/-- A file is written into a directory that is there, in place of anything but a directory. -/
theorem exists_writeFile (content : Bytes) (hplace : place ≠ [])
    (haround : t.node? place.dropLast = some .directory)
    (hthere : t.node? place ≠ some .directory) :
    ∃ t', writeFile content place t = .ok t' := by
  have hlast := List.dropLast_concat_getLast hplace
  obtain ⟨entries, hfind⟩ := node?_eq_directory_iff.mp haround
  have hfree : ∀ below, Table.get? entries (place.getLast hplace) ≠
      some (.directory below) := by
    intro below hget
    refine hthere (node?_eq_directory_iff.mpr ⟨below, ?_⟩)
    rw [← hlast, find_append, hfind]
    change find [_] (.directory entries) = _
    rw [find, hget]
    rfl
  rw [← hlast]
  obtain ⟨t', hwrite, -⟩ := find_writeFile hfind hfree
  exact ⟨t', hwrite⟩

theorem node?_of_makeDirectories {way : List Text} {made : Tree}
    (hmake : makeDirectories way t = .ok made) : made.node? way = some .directory := by
  rw [node?_makeDirectories hmake, if_pos List.prefix_rfl]
  cases hnode : t.node? way with
  | none => rfl
  | some below =>
    cases below with
    | file held =>
      have hfile := makeDirectories_eq_error_iff.mpr (Or.inl ⟨rfl, held, hnode⟩)
      cases hmake.symm.trans hfile
    | directory => rfl

/-- Making the directories above a place changes nothing at it. -/
theorem node?_place_makeDirectories (hplace : place ≠ []) {made : Tree}
    (hmake : makeDirectories place.dropLast t = .ok made) :
    made.node? place = t.node? place := by
  rw [node?_makeDirectories hmake, if_neg (not_prefix_dropLast hplace), Option.or_none]

/-! ## Putting files -/

/-- Puts a file at a place, in a directory that is made if it is missing, all at once. What stands in
the way is told of the path, or of that of the directory. -/
def putFile (place : List Text) (path : Path) (content : Bytes) (t : Tree) : Except Error Tree :=
  match makeDirectories place.dropLast t with
  | .error o => .error (.obstacle o path.parent)
  | .ok t =>
    match writeFile content place t with
    | .error o => .error (.obstacle o path)
    | .ok t => .ok t

/-- What stands in the way of a file that is put at a place, and the path of which it is told: a
directory there, a file in place of the directory that it would lie in, or a file further up. -/
inductive Blocks (t : Tree) (place : List Text) (path : Path) : Obstacle → Path → Prop
  | here (h : t.node? place = some .directory) : Blocks t place path .isADirectory path
  | around {held : Bytes} (h : t.node? place.dropLast = some (.file held)) :
    Blocks t place path .exists path.parent
  | above {way : List Text} {held : Bytes} (hway : way <+: place.dropLast)
    (hne : way ≠ place.dropLast) (h : t.node? way = some (.file held)) :
    Blocks t place path .notADirectory path.parent

theorem putFile_of_blocks (hplace : place ≠ []) {o : Obstacle} {told : Path}
    (h : t.Blocks place path o told) : putFile place path content t = .error (.obstacle o told) := by
  have hmake : ∀ {o}, makeDirectories place.dropLast t = .error o →
      putFile place path content t = .error (.obstacle o path.parent) := by
    intro o ho
    rw [putFile, ho]
  cases h with
  | here h =>
    obtain ⟨entries, hfind⟩ := find_dropLast hplace h
    rw [putFile, makeDirectories_of_find hfind]
    dsimp only
    rw [writeFile_of_directory h]
  | around h => exact hmake (makeDirectories_eq_error_iff.mpr (Or.inl ⟨rfl, _, h⟩))
  | above hway hne h =>
    have hfind := find_eq_notADirectory_iff.mpr ⟨_, _, hway, hne, h⟩
    exact hmake (makeDirectories_eq_error_iff.mpr (Or.inr ⟨rfl, hfind⟩))

/-- Putting a file changes what lies at its place, adds the directories that were missing above it,
and leaves all else as it was. -/
theorem node?_putFile {t' : Tree} (h : putFile place path content t = .ok t') (names : List Text) :
    t'.node? names = if names = place then some (.file content)
      else (t.node? names).or (if names <+: place.dropLast then some .directory else none) := by
  unfold putFile at h
  split at h
  · cases h
  · rename_i made hmake
    split at h
    · cases h
    · rename_i t'' hwrite
      obtain rfl := Except.ok.inj h
      rw [node?_writeFile hwrite, node?_makeDirectories hmake]

end Tree

end LegacyImage
