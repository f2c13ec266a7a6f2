import LegacyImage.Digest

/-!
Paths in a file system, as names below a starting point. Repeated slashes and parts that are a
single dot add nothing; two dots are a name like any other. Exactly two slashes at the front are a
starting point of their own. Reading the written form of a path gives the path (`ofText_toText`), and
no two blobs of a directory share one (`pathOf_inj`).
-/

namespace LegacyImage

inductive PathStart
  | here
  | top
  | network
deriving DecidableEq, Repr

def PathStart.toText : PathStart → Text
  | .here => []
  | .top => [↑ '/']
  | .network => [↑ '/', ↑ '/']

/-- A starting point and names from it. -/
structure Path where
  start : PathStart
  names : List Text
deriving DecidableEq

namespace Path

def split (t : Text) : List Text :=
  t.foldr (fun c parts =>
    if c = ↑ '/' then [] :: parts
    else match parts with
      | part :: rest => (c :: part) :: rest
      | [] => [[c]]) [[]]

def isName (part : Text) : Bool := part ≠ [] && part ≠ [↑ '.']

def startOf (t : Text) : PathStart :=
  match (t.takeWhile (· = ↑ '/')).length with
  | 0 => .here
  | 2 => .network
  | _ => .top

def ofText (t : Text) : Path := ⟨startOf t, (split t).filter isName⟩

def slashSeparated : List Text → Text
  | [] => []
  | [name] => name
  | name :: rest => name ++ ↑ '/' :: slashSeparated rest

/-- A path in writing; one that leads nowhere is a single dot. -/
def toText (p : Path) : Text :=
  match p.start, p.names with
  | .here, [] => [↑ '.']
  | start, names => start.toText ++ slashSeparated names

def descend (p : Path) (names : List Text) : Path := ⟨p.start, p.names ++ names⟩

def parent (p : Path) : Path := ⟨p.start, p.names.dropLast⟩

/-! ## Writing and reading again -/

/-- A path whose names are such as a text can name: not empty, not a single dot, without slashes. -/
def IsNormal (p : Path) : Prop := ∀ name ∈ p.names, isName name = true ∧ ↑ '/' ∉ name

theorem split_append_slash {name : Text} (h : ↑ '/' ∉ name) (t : Text) :
    split (name ++ ↑ '/' :: t) = name :: split t := by
  induction name with
  | nil => simp [split]
  | cons c name ih =>
    rw [List.mem_cons, not_or] at h
    have e := ih h.2
    simp only [split, List.cons_append, List.foldr_cons] at e ⊢
    rw [e, if_neg (Ne.symm h.1)]

theorem split_of_no_slash {name : Text} (h : ↑ '/' ∉ name) : split name = [name] := by
  induction name with
  | nil => rfl
  | cons c name ih =>
    rw [List.mem_cons, not_or] at h
    have e := ih h.2
    simp only [split, List.foldr_cons] at e ⊢
    rw [e, if_neg (Ne.symm h.1)]

theorem slash_not_mem_of_mem_split {t part : Text} (h : part ∈ split t) : ↑ '/' ∉ part := by
  have cons : ∀ c : CodePoint, c ≠ ↑ '/' → ∀ t, (∀ part ∈ split t, ↑ '/' ∉ part) →
      ∀ part ∈ split (c :: t), ↑ '/' ∉ part := by
    intro c hc t ih part hp
    have e : split (c :: t) = match split t with
        | first :: rest => (c :: first) :: rest
        | [] => [[c]] := if_neg hc
    rw [e] at hp
    split at hp
    · rename_i first rest hs
      rcases List.mem_cons.mp hp with rfl | hp
      · rw [List.mem_cons, not_or]
        exact ⟨Ne.symm hc, ih first (hs ▸ List.mem_cons_self)⟩
      · exact ih part (hs ▸ List.mem_cons_of_mem _ hp)
    · rw [List.mem_singleton] at hp
      simpa [hp] using Ne.symm hc
  induction t generalizing part with
  | nil => simp_all [split]
  | cons c t ih =>
    by_cases hc : c = ↑ '/'
    · subst hc
      have e := split_append_slash (List.not_mem_nil (a := (↑ '/' : CodePoint))) t
      rw [List.nil_append] at e
      rw [e] at h
      rcases List.mem_cons.mp h with rfl | h
      · exact List.not_mem_nil
      · exact ih h
    · exact cons c hc t (fun _ => ih) part h

theorem isNormal_ofText (t : Text) : (ofText t).IsNormal := by
  intro name h
  have h := List.mem_filter.mp h
  exact ⟨h.2, slash_not_mem_of_mem_split h.1⟩

theorem split_slashSeparated {name : Text} {names : List Text}
    (h : ∀ n ∈ name :: names, ↑ '/' ∉ n) :
    split (slashSeparated (name :: names)) = name :: names := by
  induction names generalizing name with
  | nil => exact split_of_no_slash (h name List.mem_cons_self)
  | cons next names ih =>
    rw [slashSeparated, split_append_slash (h name List.mem_cons_self),
      ih fun n hn => h n (List.mem_cons_of_mem _ hn)]
    exact List.cons_ne_nil _ _

theorem slashSeparated_ne_nil {name : Text} (names : List Text) (h : isName name = true) :
    ∃ c rest, slashSeparated (name :: names) = c :: rest ∧ name.head? = some c := by
  cases name with
  | nil => simp [isName] at h
  | cons c name =>
    cases names with
    | nil => exact ⟨c, name, rfl, rfl⟩
    | cons next names => exact ⟨c, _, rfl, rfl⟩

theorem takeWhile_slash {name : Text} {names : List Text} (hn : isName name = true)
    (hs : ↑ '/' ∉ name) : (slashSeparated (name :: names)).takeWhile (· = ↑ '/') = [] := by
  obtain ⟨c, rest, e, hc⟩ := slashSeparated_ne_nil names hn
  have : c ≠ ↑ '/' := fun h => hs (h ▸ List.mem_of_mem_head? hc)
  rw [e, List.takeWhile_cons_of_neg (by simpa using this)]

theorem ofText_toText {p : Path} (h : p.IsNormal) : ofText p.toText = p := by
  obtain ⟨start, names⟩ := p
  cases names with
  | nil => cases start <;> decide
  | cons name names =>
    obtain ⟨hn, hs⟩ := h name List.mem_cons_self
    have hf : (name :: names).filter isName = name :: names :=
      List.filter_eq_self.mpr fun n hm => (h n hm).1
    have hsplit := split_slashSeparated fun n hm => (h n hm).2
    have htake : (slashSeparated (name :: names)).takeWhile (· = ↑ '/') = [] :=
      takeWhile_slash hn hs
    have hslash : ∀ t : Text, (↑ '/' :: t).takeWhile (· = ↑ '/') =
        ↑ '/' :: t.takeWhile (· = ↑ '/') :=
      fun _ => List.takeWhile_cons_of_pos (by simp)
    have hempty : isName [] = false := rfl
    cases start with
    | here =>
      change ofText (slashSeparated (name :: names)) = _
      rw [ofText, startOf, htake, hsplit, hf]
      rfl
    | top =>
      change ofText (↑ '/' :: slashSeparated (name :: names)) = _
      have e := split_append_slash (List.not_mem_nil (a := (↑ '/' : CodePoint)))
        (slashSeparated (name :: names))
      rw [List.nil_append] at e
      rw [ofText, startOf, hslash, htake, e, hsplit,
        List.filter_cons_of_neg (by simp [hempty]), hf]
      rfl
    | network =>
      change ofText (↑ '/' :: ↑ '/' :: slashSeparated (name :: names)) = _
      have e := fun t => split_append_slash (List.not_mem_nil (a := (↑ '/' : CodePoint))) t
      simp only [List.nil_append] at e
      rw [ofText, startOf, hslash, hslash,
        htake, e, e, hsplit, List.filter_cons_of_neg (by simp [hempty]),
        List.filter_cons_of_neg (by simp [hempty]), hf]
      rfl

theorem ofText_toText_ofText (t : Text) : ofText (ofText t).toText = ofText t :=
  ofText_toText (isNormal_ofText t)

theorem toText_injective {p q : Path} (hp : p.IsNormal) (hq : q.IsNormal)
    (h : p.toText = q.toText) : p = q := by
  rw [← ofText_toText hp, h, ofText_toText hq]

theorem isNormal_descend {p : Path} {names : List Text} (hp : p.IsNormal)
    (h : ∀ name ∈ names, isName name = true ∧ ↑ '/' ∉ name) : (p.descend names).IsNormal := by
  intro name hn
  rcases List.mem_append.mp hn with hn | hn
  · exact hp name hn
  · exact h name hn

end Path

/-- A directory that holds blobs, each under its digest. -/
structure BlobDirectory where
  root : Path
deriving DecidableEq

namespace BlobDirectory

/-- The names from the directory to a blob. -/
def namesOf (d : Digest) : List Text := [Text.ofString "blobs", d.algorithm.name, d.hex]

def pathOf (dir : BlobDirectory) (d : Digest) : Path := dir.root.descend (namesOf d)

def pathOfText? (dir : BlobDirectory) (t : Text) : Option Path := (Digest.parse? t).map dir.pathOf

def describe (dir : BlobDirectory) : Text :=
  Text.ofString "DirectoryBlobSource(" ++ dir.root.toText ++ Text.ofString ")"

theorem isNormal_pathOf {dir : BlobDirectory} (h : dir.root.IsNormal) (d : Digest) :
    (dir.pathOf d).IsNormal := by
  refine Path.isNormal_descend h fun name hn => ?_
  simp only [namesOf, List.mem_cons, List.not_mem_nil, or_false] at hn
  rcases hn with rfl | rfl | rfl
  · decide
  · cases d.algorithm <;> decide
  · have hpos : d.hex ≠ [] := by
      rw [← List.length_pos_iff, Digest.hex, Text.length_ofHexBytes, d.length_value]
      cases d.algorithm <;> decide
    refine ⟨?_, fun h => ?_⟩
    · have hdot : d.hex ≠ [↑ '.'] := by
        intro e
        have := congrArg List.length e
        rw [Digest.hex, Text.length_ofHexBytes, List.length_singleton] at this
        omega
      simp [Path.isName, hpos, hdot]
    · have := Text.isSome_hexValue?_of_mem h
      revert this
      decide

theorem pathOf_inj {dir dir' : BlobDirectory} {d d' : Digest} :
    dir.pathOf d = dir'.pathOf d' ↔ dir = dir' ∧ d = d' := by
  refine ⟨fun h => ?_, fun ⟨hd, h⟩ => hd ▸ h ▸ rfl⟩
  obtain ⟨⟨start, names⟩⟩ := dir
  obtain ⟨⟨start', names'⟩⟩ := dir'
  simp only [pathOf, Path.descend, Path.mk.injEq] at h
  obtain ⟨hs, hn⟩ := List.append_inj' h.2 rfl
  simp only [namesOf, List.cons.injEq, and_true, true_and] at hn
  refine ⟨by rw [h.1, hs], Digest.toText_injective ?_⟩
  rw [Digest.toText, Digest.toText, hn.1, hn.2]

end BlobDirectory

end LegacyImage
