import LegacyImage.Proofs.Store.Places
import Mathlib.Data.List.Induction

/-!
Putting a file by single calls to a file system. Each call makes one directory or writes the file,
and what it did stays when a later call fails. So a call that fails may leave directories behind, but
nothing else (`gains_writeAt`). Where the names of the path lead to a place it leaves nothing behind: as
soon as a directory was made there is nothing below it that could stand in the way (`writeAt_eq`).
-/

namespace LegacyImage

namespace Tree

variable {t t' : Tree}

/-! ## One directory and the one around it -/

theorem makeDirectory_cons {name : Text} {rest : List Text} (hrest : rest ≠ [])
    (entries : List (Text × Tree)) :
    makeDirectory (name :: rest) (.directory entries) =
      match Table.get? entries name with
      | none => .error .missing
      | some t =>
        match makeDirectory rest t with
        | .error o => .error o
        | .ok t => .ok (.directory (Table.set name t entries)) := by
  obtain ⟨next, after, rfl⟩ := List.exists_cons_of_ne_nil hrest
  rfl

/-- A directory is made by one call if the one around it is there and nothing is in its place. -/
theorem makeDirectory_concat (way : List Text) (name : Text) (t : Tree) :
    makeDirectory (way ++ [name]) t =
      match find way t with
      | .error o => .error o
      | .ok (.file _) => .error .notADirectory
      | .ok (.directory entries) =>
        match Table.get? entries name with
        | some _ => .error .exists
        | none => makeDirectories (way ++ [name]) t := by
  fun_induction find way t with
  | case1 t =>
    cases t with
    | file content => rfl
    | directory entries =>
      rw [List.nil_append, makeDirectory, makeDirectories]
      dsimp only
      cases hget : Table.get? entries name with
      | none => rfl
      | some below => rfl
  | case2 first rest content => rfl
  | case3 first rest entries hget =>
    rw [List.cons_append, makeDirectory_cons (List.append_ne_nil_of_right_ne_nil _ (by simp)), hget]
  | case4 first rest entries below hget ih =>
    rw [List.cons_append, makeDirectory_cons (List.append_ne_nil_of_right_ne_nil _ (by simp)), hget,
      makeDirectories, hget]
    dsimp only
    rw [ih]
    cases find rest below with
    | error o => rfl
    | ok around =>
      cases around with
      | file content => rfl
      | directory around =>
        dsimp only
        cases Table.get? around name <;> rfl

/-- A call misses something only above the directory that it makes. -/
theorem makeDirectory_eq_missing_iff {way : List Text} {name : Text} :
    makeDirectory (way ++ [name]) t = .error .missing ↔ find way t = .error .missing := by
  rw [makeDirectory_concat]
  cases find way t with
  | error o => simp
  | ok around =>
    cases around with
    | file held => simp
    | directory entries =>
      dsimp only
      cases Table.get? entries name with
      | none => simp [makeDirectories_eq_error_iff]
      | some below => simp

theorem makeDirectory_of_find {place : List Text} {below : Tree} (h : find place t = .ok below) :
    makeDirectory place t = .error .exists := by
  cases place using List.reverseRecOn with
  | nil => cases t <;> rfl
  | append_singleton way name =>
    rw [find_append] at h
    rw [makeDirectory_concat]
    cases hway : find way t with
    | error o =>
      rw [hway] at h
      cases h
    | ok around =>
      rw [hway] at h
      cases around with
      | file held => cases h
      | directory entries =>
        change find [name] (.directory entries) = .ok below at h
        rw [find] at h
        dsimp only
        cases hget : Table.get? entries name with
        | none =>
          rw [hget] at h
          cases h
        | some found => rfl

/-! ## What calls leave behind -/

/-- Whether a tree is another one with further directories. -/
def Gains (t t' : Tree) : Prop :=
  ∀ names, t'.node? names = t.node? names ∨
    t.node? names = none ∧ t'.node? names = some .directory

theorem Gains.refl (t : Tree) : t.Gains t := fun _ => Or.inl rfl

theorem Gains.trans {t₁ t₂ t₃ : Tree} (h : t₁.Gains t₂) (h' : t₂.Gains t₃) : t₁.Gains t₃ := by
  intro names
  rcases h names with hsame | ⟨hnone, hnew⟩
  · rw [← hsame]
    exact h' names
  · refine Or.inr ⟨hnone, ?_⟩
    rcases h' names with hsame | ⟨hnone', -⟩
    · rw [hsame, hnew]
    · rw [hnew] at hnone'
      cases hnone'

theorem Gains.keepsDirectories (h : t.Gains t') : t.KeepsDirectories t' := by
  intro names hthere
  rcases h names with hsame | ⟨hnone, -⟩
  · rw [hsame, hthere]
  · rw [hthere] at hnone
    cases hnone

theorem gains_makeDirectories {way : List Text} (h : makeDirectories way t = .ok t') :
    t.Gains t' := by
  intro names
  rw [node?_makeDirectories h]
  cases t.node? names with
  | some below => exact Or.inl rfl
  | none =>
    by_cases hway : names <+: way
    · rw [if_pos hway]
      exact Or.inr ⟨rfl, rfl⟩
    · rw [if_neg hway]
      exact Or.inl rfl

/-- What came of all calls, from what came of the whole: one that fails changes nothing. -/
def orNothing (path : Path) (t : Tree) : Except Obstacle Tree → Except Error Unit × Tree
  | .ok t => (.ok (), t)
  | .error o => (.error (.obstacle o path), t)

variable {start : PathStart} {way place : List Text} {name : Text}

theorem call_concat {α : Type} (htop : t.node? [] = some .directory)
    (hfault : (⟨start, way ++ [name]⟩ : Path).fault? = none) (hplace : t.place? [] way = some place)
    (hname : Path.IsPlain name) (act : List Text → Tree → Except Obstacle α) :
    call ⟨start, way ++ [name]⟩ act t =
      match find place t with
      | .error o => .error (.obstacle o ⟨start, way ++ [name]⟩)
      | .ok (.file _) => .error (.obstacle .notADirectory ⟨start, way ++ [name]⟩)
      | .ok (.directory _) =>
        match act (place ++ [name]) t with
        | .error o => .error (.obstacle o ⟨start, way ++ [name]⟩)
        | .ok result => .ok result := by
  unfold call
  rw [hfault]
  dsimp only
  rw [locate_concat htop hplace hname]
  cases find place t with
  | error o => rfl
  | ok around => cases around <;> rfl

theorem isDirectoryAt_concat (htop : t.node? [] = some .directory)
    (hfault : (⟨start, way ++ [name]⟩ : Path).fault? = none) (hplace : t.place? [] way = some place)
    (hname : Path.IsPlain name) :
    isDirectoryAt ⟨start, way ++ [name]⟩ t = true ↔
      t.node? (place ++ [name]) = some .directory := by
  unfold isDirectoryAt
  rw [call_concat htop hfault hplace hname, node?]
  cases haround : find place t with
  | error o =>
    rw [find_append, haround]
    simp [Except.bind, Except.toOption]
  | ok around =>
    cases around with
    | file held =>
      rw [find_append, haround]
      simp [Except.bind, Except.toOption, find]
    | directory entries =>
      dsimp only
      cases find (place ++ [name]) t with
      | error o => simp [Except.toOption]
      | ok below => cases below <;> simp [Except.toOption, node]

/-- Where the directory around it is there, a directory is made by one call as by all of them, and it
is no fault that it is there already. -/
theorem unlessThere_concat (htop : t.node? [] = some .directory)
    (hfault : (⟨start, way ++ [name]⟩ : Path).fault? = none) (hplace : t.place? [] way = some place)
    (hname : Path.IsPlain name) (hmissing : find place t ≠ .error .missing) :
    unlessThere ⟨start, way ++ [name]⟩ t (call ⟨start, way ++ [name]⟩ makeDirectory t) =
      orNothing ⟨start, way ++ [name]⟩ t (makeDirectories (place ++ [name]) t) := by
  have hisDirectory := isDirectoryAt_concat htop hfault hplace hname
  -- what cannot be made at all is not there, and what cannot be made because it is there is no fault
  have hof_error : ∀ {o}, makeDirectories (place ++ [name]) t = .error o →
      unlessThere ⟨start, way ++ [name]⟩ t (.error (.obstacle o ⟨start, way ++ [name]⟩)) =
        orNothing ⟨start, way ++ [name]⟩ t (makeDirectories (place ++ [name]) t) := by
    intro o ho
    have hthere : ¬ isDirectoryAt ⟨start, way ++ [name]⟩ t = true := by
      rw [hisDirectory]
      intro hnode
      obtain ⟨entries, hfind⟩ := node?_eq_directory_iff.mp hnode
      cases ho.symm.trans (makeDirectories_of_find hfind)
    rw [unlessThere, if_neg hthere, ho, orNothing]
  have hof_there : ∀ {entries}, find (place ++ [name]) t = .ok (.directory entries) → ∀ e,
      unlessThere ⟨start, way ++ [name]⟩ t (.error e) =
        orNothing ⟨start, way ++ [name]⟩ t (makeDirectories (place ++ [name]) t) := by
    intro entries hfind e
    have hthere := hisDirectory.mpr (node?_eq_directory_iff.mpr ⟨entries, hfind⟩)
    rw [unlessThere, if_pos hthere, makeDirectories_of_find hfind, orNothing]
  have hfind := find_append place [name] t
  rw [call_concat htop hfault hplace hname]
  cases haround : find place t with
  | error o =>
    rw [haround] at hfind
    obtain rfl := (find_error haround).resolve_left fun h => hmissing (haround.trans (by rw [h]))
    exact hof_error (makeDirectories_eq_error_iff.mpr (Or.inr ⟨rfl, hfind⟩))
  | ok around =>
    rw [haround] at hfind
    cases around with
    | file held => exact hof_error (makeDirectories_eq_error_iff.mpr (Or.inr ⟨rfl, hfind⟩))
    | directory entries =>
      change find (place ++ [name]) t = find [name] (.directory entries) at hfind
      rw [find] at hfind
      dsimp only
      rw [makeDirectory_concat, haround]
      dsimp only
      cases hget : Table.get? entries name with
      | none =>
        rw [hget] at hfind
        obtain ⟨made, hmade, -⟩ := isVacant_of_find hfind
        dsimp only
        rw [hmade, unlessThere, orNothing]
      | some below =>
        rw [hget] at hfind
        cases below with
        | file held =>
          exact hof_error (makeDirectories_eq_error_iff.mpr
            (Or.inl ⟨rfl, held, node?_eq_file_iff.mpr hfind⟩))
        | directory below => exact hof_there hfind _

theorem call_of_locate {α : Type} {path : Path} (hfault : path.fault? = none)
    (hplace : locate [] t path.names = .ok place) (act : List Text → Tree → Except Obstacle α) :
    call path act t = match act place t with
      | .error o => .error (.obstacle o path)
      | .ok result => .ok result := by
  unfold call
  rw [hfault]
  dsimp only
  rewrite [hplace]
  rfl

theorem isDirectoryAt_of_locate {path : Path} (hfault : path.fault? = none)
    (hplace : locate [] t path.names = .ok place) {entries : List (Text × Tree)}
    (hfind : find place t = .ok (.directory entries)) : isDirectoryAt path t = true := by
  rw [isDirectoryAt, call_of_locate hfault hplace, hfind]

/-- A step up leads to a directory that is there. -/
theorem unlessThere_concat_up (htop : t.node? [] = some .directory)
    (hfault : (⟨start, way ++ [Path.up]⟩ : Path).fault? = none)
    (hplace : t.place? [] way = some place) (hthere : t.node? place = some .directory) :
    call ⟨start, way ++ [Path.up]⟩ makeDirectory t =
        .error (.obstacle .exists ⟨start, way ++ [Path.up]⟩) ∧
      ∀ e, unlessThere ⟨start, way ++ [Path.up]⟩ t (.error e) =
        orNothing ⟨start, way ++ [Path.up]⟩ t (makeDirectories place.dropLast t) := by
  obtain ⟨entries, hfind⟩ := node?_eq_directory_iff.mp (node?_dropLast hthere)
  have hlocate := locate_concat_up htop hplace hthere
  constructor
  · rw [call_of_locate hfault hlocate, makeDirectory_of_find hfind]
  · intro e
    have hisDirectory := isDirectoryAt_of_locate hfault hlocate hfind
    rw [unlessThere, if_pos hisDirectory, makeDirectories_of_find hfind, orNothing]

theorem makeInTurn_of_call {room : Nat} (hcall : ∀ told,
    call ⟨start, way ++ [name]⟩ makeDirectory t ≠ .error (.obstacle .missing told)) :
    makeInTurn start room (way ++ [name]).reverse t =
      unlessThere ⟨start, way ++ [name]⟩ t (call ⟨start, way ++ [name]⟩ makeDirectory t) := by
  rw [List.reverse_concat]
  unfold makeInTurn
  dsimp only
  rw [List.reverse_cons, List.reverse_reverse]
  split
  · rename_i h
    exact absurd h (hcall _)
  · rfl

theorem makeInTurn_of_missing {room : Nat} {told : Path}
    (hcall : call ⟨start, way ++ [name]⟩ makeDirectory t = .error (.obstacle .missing told)) :
    makeInTurn start (room + 1) (way ++ [name]).reverse t =
      match makeInTurn start room way.reverse t with
      | (.error e, t) => (.error e, t)
      | (.ok (), t) =>
        unlessThere ⟨start, way ++ [name]⟩ t (call ⟨start, way ++ [name]⟩ makeDirectory t) := by
  rewrite [List.reverse_concat, makeInTurn, List.reverse_cons, List.reverse_reverse, hcall]
  rfl

/-- Calls make all directories on the way to a place, or change nothing. -/
theorem makeInTurn_eq (htop : t.node? [] = some .directory) {names : List Text}
    (hfault : (⟨start, names⟩ : Path).fault? = none) (hplace : t.place? [] names = some place)
    {room : Nat} (hroom : names.length ≤ room + 1) :
    makeInTurn start room names.reverse t =
      orNothing ⟨start, names⟩ t (makeDirectories place t) := by
  induction names using List.reverseRecOn generalizing t place room with
  | nil =>
    obtain rfl := Option.some.inj hplace
    obtain ⟨entries, hfind⟩ := node?_eq_directory_iff.mp htop
    have hlocate : locate [] t [] = .ok [] := rfl
    have hisDirectory := isDirectoryAt_of_locate hfault hlocate hfind
    rw [List.reverse_nil, makeInTurn, call_of_locate hfault hlocate, makeDirectory_of_find hfind]
    dsimp only
    rw [unlessThere, if_pos hisDirectory, makeDirectories_of_find hfind, orNothing]
  | append_singleton way name ih =>
    rw [place?_append] at hplace
    obtain ⟨around, haround, hname⟩ := Option.bind_eq_some_iff.mp hplace
    rw [place?] at hname
    by_cases hup : name = Path.up
    · subst hup
      rw [if_pos rfl] at hname
      split at hname
      · rename_i hthere
        obtain rfl := Option.some.inj hname
        obtain ⟨hcall, hunless⟩ := unlessThere_concat_up htop hfault haround hthere
        rw [makeInTurn_of_call (by simp [hcall]), hcall]
        exact hunless _
      · cases hname
    rw [if_neg hup] at hname
    split at hname
    · cases hname
    rename_i hlong
    obtain rfl := Option.some.inj hname
    have hplain : Path.IsPlain name := ⟨hup, by simpa using hlong⟩
    rw [List.length_append, List.length_singleton] at hroom
    by_cases hmissing : find around t = .error .missing
    · have hway : way ≠ [] := by
        rintro rfl
        obtain rfl := Option.some.inj haround
        cases hmissing
      have hpos := List.length_pos_iff.mpr hway
      obtain ⟨room, rfl⟩ := Nat.exists_eq_add_one_of_ne_zero (n := room) (by omega)
      -- the directory around is made first and is empty, so that the second call cannot fail
      obtain ⟨made, hmade, hempty⟩ := isVacant_of_find hmissing
      have hkeeps := (gains_makeDirectories hmade).keepsDirectories
      have hfirst : makeInTurn start room way.reverse t = (.ok (), made) := by
        have hfault' := Path.fault?_of_prefix (List.prefix_append way [name]) hfault
        rw [ih htop hfault' haround (by omega), hmade, orNothing]
      have hsecond := unlessThere_concat (hkeeps _ htop) hfault (place?_mono hkeeps haround) hplain
        (by simp [hempty])
      have hfind : find (around ++ [name]) t = .error .missing := by
        rw [find_append, hmissing]
        rfl
      obtain ⟨all, hall, -⟩ := isVacant_of_find hfind
      have hcall : call ⟨start, way ++ [name]⟩ makeDirectory t =
          .error (.obstacle .missing ⟨start, way ++ [name]⟩) := by
        rw [call_concat htop hfault haround hplain, hmissing]
      rw [makeInTurn_of_missing hcall, hfirst]
      dsimp only
      rw [hsecond, ← makeDirectories_append hmade, hall]
      rfl
    · rw [← unlessThere_concat htop hfault haround hplain hmissing]
      refine makeInTurn_of_call ?_
      intro told hcall
      have hcall' := call_concat htop hfault haround hplain makeDirectory
      rw [hcall] at hcall'
      split at hcall'
      · rename_i hfind
        cases hcall'
        exact hmissing hfind
      · cases hcall'
      split at hcall'
      · rename_i hmake
        cases hcall'
        exact hmissing (makeDirectory_eq_missing_iff.mp hmake)
      · cases hcall'

/-- A file that is not put leaves the tree as it was. If it cannot be written, that is because a
directory is in its place, and then the one around it is there too and was not made. -/
theorem writeAt_eq (htop : t.node? [] = some .directory)
    (hfault : (⟨start, way ++ [name]⟩ : Path).fault? = none) (hplace : t.place? [] way = some place)
    (hname : Path.IsPlain name) (hroom : way.length ≤ Path.maxMissing) (content : Bytes) :
    writeAt ⟨start, way ++ [name]⟩ content t =
      match putFile (place ++ [name]) ⟨start, way ++ [name]⟩ content t with
      | .error e => (.error e, t)
      | .ok t => (.ok (), t) := by
  have hparent : Path.parent ⟨start, way ++ [name]⟩ = ⟨start, way⟩ := by
    rw [Path.parent, List.dropLast_concat]
  have hfault' := Path.fault?_of_prefix (List.prefix_append way [name]) hfault
  have hway : makeWay ⟨start, way⟩ t = orNothing ⟨start, way⟩ t (makeDirectories place t) :=
    makeInTurn_eq htop hfault' hplace (by omega)
  rw [writeAt, putFile, hparent, hway, List.dropLast_concat]
  cases hmake : makeDirectories place t with
  | error o => rfl
  | ok made =>
    have hkeeps := (gains_makeDirectories hmake).keepsDirectories
    have haround := node?_of_makeDirectories hmake
    obtain ⟨entries, hfind⟩ := node?_eq_directory_iff.mp haround
    dsimp only [orNothing]
    rw [call_concat (hkeeps _ htop) hfault (place?_mono hkeeps hplace) hname, hfind]
    dsimp only
    cases hwrite : writeFile content (place ++ [name]) made with
    | ok t' => rfl
    | error o =>
      have hne : place ++ [name] ≠ [] := List.append_ne_nil_of_right_ne_nil _ (List.cons_ne_nil _ _)
      have hlast : (place ++ [name]).dropLast = place := List.dropLast_concat
      have hthere : t.node? (place ++ [name]) = some .directory := by
        rw [← node?_place_makeDirectories hne (by rw [hlast]; exact hmake)]
        by_contra hnot
        obtain ⟨t', hok⟩ := exists_writeFile content hne (by rw [hlast]; exact haround) hnot
        cases hwrite.symm.trans hok
      obtain ⟨entries', haround'⟩ := find_dropLast hne hthere
      rw [hlast] at haround'
      obtain rfl : made = t := Except.ok.inj (hmake.symm.trans (makeDirectories_of_find haround'))
      rfl

end Tree

end LegacyImage
