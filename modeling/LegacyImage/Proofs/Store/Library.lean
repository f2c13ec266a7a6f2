import LegacyImage.Proofs.Store.InTurn

/-!
Everything below the root of a store of blobs. Blobs that are put under their own digests into an
empty root make up a library, in which nothing but their files is found (`content_of_isLibrary`):
each under the digest of its content, and of several contents with one digest the last
(`Digest.lastOf`).
-/

namespace LegacyImage

namespace Tree

/-! ## The content of files -/

theorem content_cons (name : Text) (rest : List Text) (entries : List (Text × Tree)) :
    content (name :: rest) (.directory entries) =
      match Table.get? entries name with
      | none => .error .missing
      | some t => content rest t := by
  rw [content, find]
  cases Table.get? entries name with
  | none => rfl
  | some t => rfl

theorem content_append {way : List Text} {t below : Tree} (h : find way t = .ok below)
    (rest : List Text) : content (way ++ rest) t = content rest below := by
  rw [content, find_append, h]
  rfl

theorem content_of_isVacant {way : List Text} {t : Tree} (h : IsVacant way t)
    (rest : List Text) :
    content (way ++ rest) t = .error .missing ∨
      rest = [] ∧ content (way ++ rest) t = .error .isADirectory := by
  rcases find_of_isVacant h with hfind | hfind
  · rw [content_append hfind]
    cases rest with
    | nil => exact Or.inr ⟨rfl, rfl⟩
    | cons name rest => exact Or.inl rfl
  · refine Or.inl ?_
    rw [content, find_append, hfind]
    rfl

/-! ## Libraries -/

/-- Files and their names, as the entries of a directory. -/
def filed (files : List (Text × Bytes)) : Tree := .directory (files.map fun e => (e.1, .file e.2))

/-- Files and their names where the blobs of a directory are that are known by their own digests. -/
def library (files : List (Text × Bytes)) : Tree :=
  .directory [(Text.ofString "blobs", .directory [(Text.ofString "sha256", filed files)])]

/-- Whether a tree holds just these files below a root, where nothing is as long as there are
none. -/
def IsLibrary (root : List Text) (files : List (Text × Bytes)) (t : Tree) : Prop :=
  files = [] ∧ IsVacant root t ∨ find root t = .ok (library files)

theorem content_filed_cons (files : List (Text × Bytes)) (name : Text) (rest : List Text) :
    content (name :: rest) (filed files) =
      match Table.get? files name with
      | none => .error .missing
      | some held => content rest (.file held) := by
  rw [filed, content_cons, Table.get?_map]
  cases Table.get? files name with
  | none => rfl
  | some held => rfl

/-- Files in one directory are found by their names. -/
theorem content_filed_eq_ok_iff {files : List (Text × Bytes)} {names : List Text} {held : Bytes} :
    content names (filed files) = .ok held ↔
      ∃ name, names = [name] ∧ Table.get? files name = some held := by
  constructor
  · intro h
    cases names with
    | nil => cases h
    | cons name rest =>
      rw [content_filed_cons] at h
      cases hget : Table.get? files name with
      | none =>
        rw [hget] at h
        cases h
      | some found =>
        rw [hget] at h
        cases rest with
        | nil => exact ⟨name, rfl, by rw [hget, Except.ok.inj h]⟩
        | cons next rest => cases h
  · rintro ⟨name, rfl, hget⟩
    rw [content_filed_cons, hget]
    rfl

/-- What is found in a directory with one entry is found in the entry. -/
theorem content_single_eq_ok_iff {first : Text} {t : Tree} {names : List Text} {held : Bytes} :
    content names (.directory [(first, t)]) = .ok held ↔
      ∃ rest, names = first :: rest ∧ content rest t = .ok held := by
  constructor
  · intro h
    cases names with
    | nil => cases h
    | cons name rest =>
      rw [content_cons, Table.get?_cons] at h
      by_cases hname : first = name
      · rw [if_pos hname] at h
        exact ⟨rest, by rw [hname], h⟩
      · rw [if_neg hname] at h
        cases h
  · rintro ⟨rest, rfl, h⟩
    rw [content_cons, Table.get?_cons, if_pos rfl]
    exact h

theorem content_library_eq_ok_iff {files : List (Text × Bytes)} {names : List Text}
    {held : Bytes} :
    content names (library files) = .ok held ↔
      ∃ name, names = [Text.ofString "blobs", Text.ofString "sha256", name] ∧
        Table.get? files name = some held := by
  constructor
  · intro h
    obtain ⟨below, rfl, hbelow⟩ := content_single_eq_ok_iff.mp h
    obtain ⟨last, rfl, hlast⟩ := content_single_eq_ok_iff.mp hbelow
    obtain ⟨name, rfl, hget⟩ := content_filed_eq_ok_iff.mp hlast
    exact ⟨name, rfl, hget⟩
  · rintro ⟨name, rfl, hget⟩
    exact content_single_eq_ok_iff.mpr ⟨_, rfl, content_single_eq_ok_iff.mpr
      ⟨_, rfl, content_filed_eq_ok_iff.mpr ⟨name, rfl, hget⟩⟩⟩

/-- What is found below two libraries is the same if their files have the same names and contents. -/
theorem content_library_congr {files files' : List (Text × Bytes)}
    (h : ∀ name, Table.get? files name = Table.get? files' name) (names : List Text) :
    content names (library files) = content names (library files') := by
  have hfiled : ∀ rest, content rest (filed files) = content rest (filed files') := by
    intro rest
    cases rest with
    | nil => rfl
    | cons name rest => rw [content_filed_cons, content_filed_cons, h name]
  have hsingle : ∀ (first : Text) {t t' : Tree}, (∀ rest, content rest t = content rest t') →
      ∀ rest, content rest (.directory [(first, t)]) = content rest (.directory [(first, t')]) := by
    intro first t t' ht rest
    cases rest with
    | nil => rfl
    | cons name rest =>
      rw [content_cons, content_cons, Table.get?_cons, Table.get?_cons]
      by_cases hname : first = name
      · rw [if_pos hname, if_pos hname]
        exact ht rest
      · rw [if_neg hname, if_neg hname]
  exact hsingle _ (hsingle _ hfiled) names

theorem content_of_isLibrary {root : List Text} {files : List (Text × Bytes)} {t : Tree}
    (h : IsLibrary root files t) {names : List Text} {held : Bytes} :
    content (root ++ names) t = .ok held ↔
      ∃ name, names = [Text.ofString "blobs", Text.ofString "sha256", name] ∧
        Table.get? files name = some held := by
  rcases h with ⟨rfl, hvacant⟩ | hfind
  · constructor
    · intro h
      rcases content_of_isVacant hvacant names with hnone | ⟨-, hnone⟩ <;>
        (rw [hnone] at h; cases h)
    · rintro ⟨name, -, hget⟩
      cases hget
  · rw [content_append hfind, content_library_eq_ok_iff]

/-- A file is missing whose name is not in the library, or that is looked for elsewhere. -/
theorem content_of_isLibrary_of_none {root : List Text} {files : List (Text × Bytes)} {t : Tree}
    (h : IsLibrary root files t) {shelf name : Text}
    (hnone : shelf = Text.ofString "sha256" → Table.get? files name = none) :
    content (root ++ [Text.ofString "blobs", shelf, name]) t = .error .missing := by
  rcases h with ⟨rfl, hvacant⟩ | hfind
  · rcases content_of_isVacant hvacant [Text.ofString "blobs", shelf, name] with h | ⟨h, -⟩
    · exact h
    · cases h
  · rw [content_append hfind, library, content_cons, Table.get?_cons, if_pos rfl]
    dsimp only
    rw [content_cons, Table.get?_cons]
    by_cases hshelf : Text.ofString "sha256" = shelf
    · rw [if_pos hshelf]
      dsimp only
      rw [content_filed_cons, hnone hshelf.symm]
    · rw [if_neg hshelf]
      rfl

theorem writeFile_library (files : List (Text × Bytes)) (name : Text) (held : Bytes) :
    writeFile held [Text.ofString "blobs", Text.ofString "sha256", name] (library files) =
      .ok (library (Table.set name held files)) := by
  have hfiled : writeFile held [name] (filed files) = .ok (filed (Table.set name held files)) := by
    rw [filed, writeFile, Table.get?_map, Table.set_map Tree.file]
    cases Table.get? files name <;> rfl
  rw [library, writeFile_cons (List.cons_ne_nil _ _), Table.get?_cons, if_pos rfl]
  dsimp only
  rw [writeFile_cons (List.cons_ne_nil _ _), Table.get?_cons, if_pos rfl]
  dsimp only
  rw [hfiled]
  rfl

theorem makeDirectories_library {root : List Text} {files : List (Text × Bytes)} {t : Tree}
    (h : IsLibrary root files t) :
    ∃ t', makeDirectories (root ++ [Text.ofString "blobs", Text.ofString "sha256"]) t = .ok t' ∧
      find root t' = .ok (library files) := by
  rcases h with ⟨rfl, made, hmake, hfind⟩ | hfind
  · rw [makeDirectories_append hmake]
    exact makeDirectories_below hfind rfl
  · exact makeDirectories_below hfind rfl

theorem putFile_library {root : List Text} {files : List (Text × Bytes)} {t : Tree}
    (h : IsLibrary root files t) (name : Text) (path : Path) (held : Bytes) :
    ∃ t', putFile (root ++ [Text.ofString "blobs", Text.ofString "sha256", name]) path held t =
        .ok t' ∧ IsLibrary root (Table.set name held files) t' := by
  obtain ⟨made, hmake, hfind⟩ := makeDirectories_library h
  obtain ⟨t', hwrite, hfound⟩ :=
    writeFile_below (List.cons_ne_nil _ _) hfind (writeFile_library files name held)
  refine ⟨t', ?_, Or.inr hfound⟩
  have hway : (root ++ [Text.ofString "blobs", Text.ofString "sha256", name]).dropLast =
      root ++ [Text.ofString "blobs", Text.ofString "sha256"] := by
    rw [List.dropLast_append_cons]
    rfl
  rw [putFile, hway, hmake]
  dsimp only
  rw [hwrite]

end Tree

/-! ## Contents and their digests -/

theorem Digest.ofBytes_inj_of_hex {a b : Bytes}
    (h : (Digest.ofBytes a).hex = (Digest.ofBytes b).hex) : Digest.ofBytes a = Digest.ofBytes b :=
  Digest.toText_injective (congrArg (Algorithm.sha256.name ++ ↑ ':' :: ·) h)

/-- The files of a shelf after some contents were put there, one after the other. -/
def shelved (files : List (Text × Bytes)) (contents : List Bytes) : List (Text × Bytes) :=
  contents.foldl (fun files x => Table.set (Digest.ofBytes x).hex x files) files

/-- A content that was put there is found, unless another took its place. -/
theorem get?_shelved {x : Bytes} {contents : List Bytes} {files : List (Text × Bytes)}
    (hx : x ∈ contents ∨ Table.get? files (Digest.ofBytes x).hex = some x)
    (hdiffer : ∀ y ∈ contents, Digest.ofBytes y = Digest.ofBytes x → y = x) :
    Table.get? (shelved files contents) (Digest.ofBytes x).hex = some x := by
  induction contents generalizing files with
  | nil => exact hx.resolve_left List.not_mem_nil
  | cons y rest ih =>
    refine ih ?_ ?_
    · rw [Table.get?_set]
      by_cases hhex : (Digest.ofBytes y).hex = (Digest.ofBytes x).hex
      · have hyx := hdiffer y List.mem_cons_self (Digest.ofBytes_inj_of_hex hhex)
        exact Or.inr (by rw [if_pos hhex, hyx])
      · rw [if_neg hhex]
        refine hx.imp_left ?_
        intro hm
        rcases List.mem_cons.mp hm with rfl | hm
        · exact absurd rfl hhex
        · exact hm
    · intro z hz
      exact hdiffer z (List.mem_cons_of_mem y hz)

def Digest.lastOf (d : Digest) (contents : List Bytes) : Option Bytes :=
  contents.reverse.find? fun x => Digest.ofBytes x = d

theorem Digest.ofBytes_eq_iff_hex {d : Digest} (hd : d.algorithm = .sha256) (x : Bytes) :
    Digest.ofBytes x = d ↔ (Digest.ofBytes x).hex = d.hex := by
  refine ⟨fun h => h ▸ rfl, fun h => Digest.toText_injective ?_⟩
  rw [Digest.toText, Digest.toText, h, hd]
  rfl

theorem Digest.lastOf_eq_some {d : Digest} {contents : List Bytes} {x : Bytes}
    (h : d.lastOf contents = some x) : x ∈ contents ∧ Digest.ofBytes x = d :=
  ⟨List.mem_reverse.mp (List.mem_of_find?_eq_some h), by simpa using List.find?_some h⟩

theorem Digest.lastOf_eq_none_iff {d : Digest} {contents : List Bytes} :
    d.lastOf contents = none ↔ ∀ x ∈ contents, Digest.ofBytes x ≠ d := by
  simp [Digest.lastOf, List.find?_eq_none]

theorem get?_shelved_nil (contents : List Bytes) (name : Text) :
    Table.get? (shelved [] contents) name =
      contents.reverse.find? fun x => (Digest.ofBytes x).hex = name := by
  have hshelved : shelved [] contents =
      (contents.map fun x => ((Digest.ofBytes x).hex, x)).foldl
        (fun files entry => Table.set entry.1 entry.2 files) [] := by
    rw [List.foldl_map]
    rfl
  rw [hshelved, Table.get?_foldl_set, Table.get?_nil, Option.or_none, ← List.map_reverse,
    Table.get?, List.find?_map, Option.map_map]
  exact Option.map_id'

theorem get?_shelved_hex {d : Digest} (hd : d.algorithm = .sha256) (contents : List Bytes) :
    Table.get? (shelved [] contents) d.hex = d.lastOf contents := by
  rw [get?_shelved_nil, Digest.lastOf]
  congr 1
  funext x
  exact decide_eq_decide.mpr (Digest.ofBytes_eq_iff_hex hd x).symm

/-- If no two of the contents have the same digest, each is found under its own. -/
theorem get?_shelved_eq_some_iff {contents : List Bytes}
    (hdiffer : ∀ x ∈ contents, ∀ y ∈ contents, Digest.ofBytes x = Digest.ofBytes y → x = y)
    {name : Text} {x : Bytes} :
    Table.get? (shelved [] contents) name = some x ↔
      x ∈ contents ∧ (Digest.ofBytes x).hex = name := by
  constructor
  · intro h
    rw [get?_shelved_nil] at h
    exact ⟨List.mem_reverse.mp (List.mem_of_find?_eq_some h), by simpa using List.find?_some h⟩
  · rintro ⟨hx, rfl⟩
    exact get?_shelved (Or.inl hx) fun y hy => hdiffer y hy x hx

end LegacyImage
