import LegacyImage.Proofs.Store.Nodes
import Mathlib.Data.List.TakeWhile

/-!
Where paths lead. Names lead to a place, there or not, if they step up from nothing but directories
that are there (`place?`). For such names it is what lies at the place that decides how a call about
them goes on (`locate_concat`), and no call about a path that leads through a shorter one is refused
unless the whole is (`fault?_of_prefix`).
-/

namespace LegacyImage

namespace Path

/-- Whether a name leads down: it is no step up, and not too long. -/
def IsPlain (name : Text) : Prop := name ≠ up ∧ isTooLong name = false

/-! ## Paths that are handed over -/

theorem byteCount_append (a b : Text) : byteCount (a ++ b) = byteCount a + byteCount b := by
  induction a with
  | nil => exact (Nat.zero_add _).symm
  | cons c a ih => rw [List.cons_append, byteCount, ih, byteCount, Nat.add_assoc]

/-- A path is handed over if it has neither nulls nor surrogates that stand for no bytes, and is not
too long. -/
theorem fault?_eq_none_iff {path : Path} :
    path.fault? = none ↔
      (∀ c ∈ path.toText, (c.isSurrogate = true → standsForByte c = true) ∧ c.val ≠ 0) ∧
        byteCount path.toText ≤ maxLength := by
  have hencode : encodeError? path.toText = none ↔
      ∀ c ∈ path.toText, c.isSurrogate = true → standsForByte c = true := by
    unfold encodeError?
    split
    · rename_i h
      rw [List.dropWhile_eq_nil_iff] at h
      simp only [true_iff]
      intro c hc hsurrogate
      simpa [hsurrogate] using h c hc
    · rename_i h
      simp only [reduceCtorEq, false_iff]
      intro hall
      refine h (List.dropWhile_eq_nil_iff.mpr ?_)
      intro c hc
      by_cases hsurrogate : c.isSurrogate = true
      · simp [hall c hc hsurrogate]
      · simp [hsurrogate]
  unfold fault?
  cases h : encodeError? path.toText with
  | some cause =>
    rw [h] at hencode
    simp only [reduceCtorEq, false_iff] at hencode ⊢
    intro hall
    exact hencode fun c hc => (hall.1 c hc).1
  | none =>
    have hnone := hencode.mp h
    dsimp only
    by_cases hzero : path.toText.any (·.val = 0) = true
    · rw [if_pos hzero]
      obtain ⟨c, hc, hval⟩ := List.any_eq_true.mp hzero
      simp only [reduceCtorEq, false_iff]
      intro hall
      exact (hall.1 c hc).2 (of_decide_eq_true hval)
    · rw [if_neg hzero]
      have hval : ∀ c ∈ path.toText, c.val ≠ 0 := by
        intro c hc hval
        exact hzero (List.any_eq_true.mpr ⟨c, hc, decide_eq_true hval⟩)
      by_cases hlong : maxLength < byteCount path.toText
      · rw [if_pos hlong]
        simp only [reduceCtorEq, false_iff]
        intro hall
        omega
      · rw [if_neg hlong]
        simp only [true_iff]
        exact ⟨fun c hc => ⟨hnone c hc, hval c hc⟩, by omega⟩

theorem slashSeparated_prefix {way names : List Text} (h : way <+: names) :
    slashSeparated way <+: slashSeparated names := by
  induction way generalizing names with
  | nil => exact List.nil_prefix
  | cons name way ih =>
    obtain ⟨rest, rfl⟩ := h
    cases way with
    | nil =>
      cases rest with
      | nil => exact List.prefix_rfl
      | cons next rest => exact List.prefix_append _ _
    | cons next way =>
      have hrest : slashSeparated (next :: way) <+: slashSeparated (next :: way ++ rest) :=
        ih (List.prefix_append _ _)
      have hnext : slashSeparated (name :: next :: way ++ rest) =
          name ++ ↑ '/' :: slashSeparated (next :: way ++ rest) := rfl
      rw [hnext, slashSeparated]
      · exact List.prefix_append_right_inj _ |>.mpr (List.cons_prefix_cons.mpr ⟨rfl, hrest⟩)
      · exact List.cons_ne_nil _ _

/-- If a path is handed over, so is one that leads to it. -/
theorem fault?_of_prefix {start : PathStart} {way names : List Text} (hway : way <+: names)
    (h : (⟨start, names⟩ : Path).fault? = none) : (⟨start, way⟩ : Path).fault? = none := by
  by_cases hdot : start = .here ∧ way = []
  · obtain ⟨rfl, rfl⟩ := hdot
    rfl
  have htext : ∀ ns, ¬ (start = .here ∧ ns = []) →
      (⟨start, ns⟩ : Path).toText = start.toText ++ slashSeparated ns := by
    intro ns hns
    cases start with
    | here =>
      cases ns with
      | nil => exact absurd ⟨rfl, rfl⟩ hns
      | cons name rest => rfl
    | top => rfl
    | network => rfl
  have hnames : ¬ (start = .here ∧ names = []) := by
    rintro ⟨hstart, rfl⟩
    exact hdot ⟨hstart, List.prefix_nil.mp hway⟩
  obtain ⟨more, hmore⟩ := slashSeparated_prefix hway
  rw [fault?_eq_none_iff, htext names hnames, ← hmore, ← List.append_assoc] at h
  rw [fault?_eq_none_iff, htext way hdot]
  refine ⟨fun c hc => h.1 c (List.mem_append_left _ hc), ?_⟩
  have hcount := h.2
  rw [byteCount_append] at hcount
  omega

end Path

namespace Tree

/-- The place to which names lead from the directory `here`, whether anything lies there or not. They
step up from nothing but directories that are there. -/
def place? (t : Tree) (here : List Text) : List Text → Option (List Text)
  | [] => some here
  | name :: rest =>
    if name = Path.up then
      if t.node? here = some .directory then place? t here.dropLast rest else none
    else if Path.isTooLong name then none
    else place? t (here ++ [name]) rest

variable {t t' : Tree} {here place : List Text}

theorem place?_append (first rest : List Text) :
    t.place? here (first ++ rest) = (t.place? here first).bind (t.place? · rest) := by
  fun_induction place? t here first with
  | case1 here => rfl
  | case2 here first hthere ih => rw [List.cons_append, place?, if_pos rfl, if_pos hthere, ih]
  | case3 here first hthere => rw [List.cons_append, place?, if_pos rfl, if_neg hthere]; rfl
  | case4 here name first hup hlong =>
    rw [List.cons_append, place?, if_neg hup, if_pos hlong]
    rfl
  | case5 here name first hup hlong ih =>
    rw [List.cons_append, place?, if_neg hup, if_neg hlong, ih]

/-- Names that lead down lead to what they name. -/
theorem place?_of_plain {names : List Text} (h : ∀ name ∈ names, Path.IsPlain name) :
    t.place? here names = some (here ++ names) := by
  induction names generalizing here with
  | nil => rw [place?, List.append_nil]
  | cons name rest ih =>
    obtain ⟨hup, hlong⟩ := h name List.mem_cons_self
    rw [place?, if_neg hup, if_neg (by simp [hlong]), ih fun n hn => h n (List.mem_cons_of_mem _ hn),
      List.append_assoc]
    rfl

/-- Whether all directories of a tree are directories of another. -/
def KeepsDirectories (t t' : Tree) : Prop :=
  ∀ names, t.node? names = some .directory → t'.node? names = some .directory

/-- Names lead to the same place as long as no directory goes away. -/
theorem place?_mono (hkeeps : t.KeepsDirectories t') {names : List Text}
    (h : t.place? here names = some place) : t'.place? here names = some place := by
  fun_induction place? t here names with
  | case1 here => exact h
  | case2 here rest hthere ih => rw [place?, if_pos rfl, if_pos (hkeeps _ hthere), ih h]
  | case3 here rest hthere => cases h
  | case4 here name rest hup hlong => cases h
  | case5 here name rest hup hlong ih => rw [place?, if_neg hup, if_neg hlong, ih h]

/-! ## Following names -/

theorem node?_of_append {way rest : List Text} (h : t.node? (way ++ rest) = some .directory) :
    t.node? way = some .directory := by
  rw [node?, find_append] at h
  rw [node?]
  cases hfind : find way t with
  | error o =>
    rw [hfind] at h
    cases h
  | ok around =>
    cases around with
    | directory entries => rfl
    | file held =>
      rw [hfind] at h
      cases rest <;> cases h

theorem node?_dropLast (h : t.node? here = some .directory) :
    t.node? here.dropLast = some .directory := by
  cases here with
  | nil => exact h
  | cons name rest =>
    rw [← List.dropLast_concat_getLast (List.cons_ne_nil name rest)] at h
    exact node?_of_append h

/-- Below what is no directory there is nothing from which to step up. -/
theorem eq_of_place?_of_not_directory (hhere : t.node? here ≠ some .directory)
    {names : List Text} (h : t.place? here names = some place) : place = here ++ names := by
  induction names generalizing here with
  | nil =>
    obtain rfl := Option.some.inj h
    exact (List.append_nil _).symm
  | cons name rest ih =>
    rw [place?, if_neg hhere] at h
    split at h
    · cases h
    split at h
    · cases h
    rw [ih (fun hbelow => hhere (node?_of_append hbelow)) h, List.append_assoc]
    rfl

/-- Names that lead to a directory that is there are followed to it. -/
theorem locate_append (hhere : t.node? here = some .directory) {way : List Text}
    (hplace : t.place? here way = some place) (hthere : t.node? place = some .directory)
    {rest : List Text} (hrest : rest ≠ []) : locate here t (way ++ rest) = locate place t rest := by
  induction way generalizing here with
  | nil =>
    obtain rfl := Option.some.inj hplace
    rfl
  | cons name way ih =>
    rw [place?] at hplace
    rw [List.cons_append, locate]
    by_cases hup : name = Path.up
    · rw [if_pos hup, if_pos hhere] at hplace
      rw [if_pos hup]
      exact ih (node?_dropLast hhere) hplace
    rw [if_neg hup] at hplace ⊢
    by_cases hlong : Path.isTooLong name = true
    · rw [if_pos hlong] at hplace
      cases hplace
    rw [if_neg hlong] at hplace ⊢
    have hnext : t.node? (here ++ [name]) = some .directory := by
      by_contra hnot
      obtain rfl := eq_of_place?_of_not_directory hnot hplace
      exact hnot (node?_of_append hthere)
    obtain ⟨entries, hfind⟩ := node?_eq_directory_iff.mp hnext
    rw [if_neg (List.append_ne_nil_of_right_ne_nil way hrest), hfind]
    exact ih hnext hplace

/-- Names that lead to anything else are followed to it, or to the first that is in the way. -/
theorem locate_append_of_not_directory (hhere : t.node? here = some .directory) {way : List Text}
    (hplace : t.place? here way = some place) (hthere : t.node? place ≠ some .directory)
    {rest : List Text} (hrest : rest ≠ []) :
    locate here t (way ++ rest) = match find place t with
      | .error o => .error o
      | .ok _ => .error .notADirectory := by
  induction way generalizing here with
  | nil =>
    obtain rfl := Option.some.inj hplace
    exact absurd hhere hthere
  | cons name way ih =>
    rw [place?] at hplace
    rw [List.cons_append, locate]
    by_cases hup : name = Path.up
    · rw [if_pos hup, if_pos hhere] at hplace
      rw [if_pos hup]
      exact ih (node?_dropLast hhere) hplace
    rw [if_neg hup] at hplace ⊢
    by_cases hlong : Path.isTooLong name = true
    · rw [if_pos hlong] at hplace
      cases hplace
    rw [if_neg hlong, if_neg (List.append_ne_nil_of_right_ne_nil way hrest)]
    rw [if_neg hlong] at hplace
    by_cases hnext : t.node? (here ++ [name]) = some .directory
    · obtain ⟨entries, hfind⟩ := node?_eq_directory_iff.mp hnext
      rw [hfind]
      exact ih hnext hplace
    · obtain rfl := eq_of_place?_of_not_directory hnext hplace
      rw [find_append (here ++ [name])]
      cases hfind : find (here ++ [name]) t with
      | error o => rfl
      | ok below =>
        cases below with
        | directory entries => exact absurd (node?_eq_directory_iff.mpr ⟨entries, hfind⟩) hnext
        | file held => cases way <;> rfl

/-- A call about names that lead down from a place goes on there if it is a directory. -/
theorem locate_concat (htop : t.node? [] = some .directory) {way : List Text}
    (hplace : t.place? [] way = some place) {name : Text} (hname : Path.IsPlain name) :
    locate [] t (way ++ [name]) = match find place t with
      | .error o => .error o
      | .ok (.file _) => .error .notADirectory
      | .ok (.directory _) => .ok (place ++ [name]) := by
  obtain ⟨hup, hlong⟩ := hname
  by_cases hthere : t.node? place = some .directory
  · obtain ⟨entries, hfind⟩ := node?_eq_directory_iff.mp hthere
    rw [locate_append htop hplace hthere (List.cons_ne_nil name []), hfind, locate, if_neg hup,
      if_neg (by simp [hlong]), if_pos rfl]
  · rw [locate_append_of_not_directory htop hplace hthere (List.cons_ne_nil name [])]
    cases hfind : find place t with
    | error o => rfl
    | ok below =>
      cases below with
      | file held => rfl
      | directory entries => exact absurd (node?_eq_directory_iff.mpr ⟨entries, hfind⟩) hthere

/-- A step up from a directory that is there leads to the one around it. -/
theorem locate_concat_up (htop : t.node? [] = some .directory) {way : List Text}
    (hplace : t.place? [] way = some place) (hthere : t.node? place = some .directory) :
    locate [] t (way ++ [Path.up]) = .ok place.dropLast := by
  rw [locate_append htop hplace hthere (List.cons_ne_nil _ []), locate, if_pos rfl, locate]

/-! ## Reading at a place -/

/-- A file is read by any path that leads to it, and if it cannot be read that is told of the path. -/
theorem openAt_concat (htop : t.node? [] = some .directory) {start : PathStart} {way : List Text}
    {name : Text} (hfault : (⟨start, way ++ [name]⟩ : Path).fault? = none)
    (hplace : t.place? [] way = some place) (hname : Path.IsPlain name) :
    openAt ⟨start, way ++ [name]⟩ t = match content (place ++ [name]) t with
      | .error o => .error (.obstacle o ⟨start, way ++ [name]⟩)
      | .ok _ => .ok (place ++ [name]) := by
  unfold openAt call
  rw [hfault]
  dsimp only
  rw [locate_concat htop hplace hname]
  cases hfind : find place t with
  | error o =>
    have hcontent : content (place ++ [name]) t = .error o := by
      rw [content, find_append, hfind]
      rfl
    rw [hcontent]
  | ok around =>
    cases around with
    | file held =>
      have hcontent : content (place ++ [name]) t = .error .notADirectory := by
        rw [content, find_append, hfind]
        rfl
      rw [hcontent]
    | directory entries =>
      dsimp only
      cases content (place ++ [name]) t <;> rfl

end Tree

end LegacyImage
