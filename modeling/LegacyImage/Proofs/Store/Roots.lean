import LegacyImage.Proofs.Store.InTurn
import LegacyImage.Store

/-!
Where a directory of blobs is. If its root leads to a place, its blobs lie below that place, and to put
or to open one is to do so there (`IsAt.writeAt_eq`, `IsAt.openAt_eq`), as long as the path of the blob
can be handed over to the file system.
-/

namespace LegacyImage

namespace Path

/-- Whether a path is taken by the file system, and has no more names than directories that can be
missing. -/
structure Fits (path : Path) : Prop where
  taken : path.fault? = none
  shallow : path.names.length ≤ maxMissing

theorem byteCount_of_ascii {t : Text} (h : ∀ c ∈ t, c.val < 0x80) : byteCount t = t.length := by
  induction t with
  | nil => rfl
  | cons c t ih =>
    have hc := h c List.mem_cons_self
    have hrest := ih fun c hc => h c (List.mem_cons_of_mem _ hc)
    have hstands : standsForByte c = false := by
      rw [standsForByte, decide_eq_false (by omega), Bool.false_and]
    have hone : (Utf8.encodeOne c).length = 1 := by
      rw [Utf8.encodeOne]
      dsimp only
      rw [if_pos hc]
      rfl
    rw [byteCount, hrest, hstands, if_neg Bool.false_ne_true, hone, List.length_cons, Nat.add_comm]

theorem slashSeparated_append {a b : List Text} (ha : a ≠ []) (hb : b ≠ []) :
    slashSeparated (a ++ b) = slashSeparated a ++ ↑ '/' :: slashSeparated b := by
  induction a with
  | nil => exact absurd rfl ha
  | cons name a ih =>
    cases a with
    | nil =>
      obtain ⟨next, rest, rfl⟩ := List.exists_cons_of_ne_nil hb
      rfl
    | cons next a =>
      have hrest := ih (List.cons_ne_nil next a)
      have hcons : ∀ ns, slashSeparated (name :: next :: ns) =
          name ++ ↑ '/' :: slashSeparated (next :: ns) := fun _ => rfl
      rw [List.cons_append, List.cons_append, hcons, hcons, ← List.cons_append, hrest,
        List.append_assoc]
      rfl

end Path

namespace Digest

theorem ascii_of_mem_hex {d : Digest} {c : CodePoint} (h : c ∈ d.hex) :
    c.val < 0x80 ∧ c.val ≠ 0 ∧ c ≠ ↑ '.' := by
  have hdigit := Text.isSome_hexValue?_of_mem h
  unfold CodePoint.hexValue? at hdigit
  refine ⟨?_, ?_, ?_⟩
  · by_contra hval
    rw [if_neg (by omega), if_neg (by omega), if_neg (by omega)] at hdigit
    cases hdigit
  · intro hval
    rw [if_neg (by omega), if_neg (by omega), if_neg (by omega)] at hdigit
    cases hdigit
  · rintro rfl
    exact absurd hdigit (by decide)

theorem length_hex_le (d : Digest) : d.hex.length ≤ 128 := by
  rw [hex, Text.length_ofHexBytes, d.length_value]
  cases d.algorithm <;> decide

end Digest

namespace BlobDirectory

variable {dir : BlobDirectory} {d : Digest}

theorem ascii_of_mem_namesOf {name : Text} (h : name ∈ namesOf d) :
    ∀ c ∈ name, c.val < 0x80 ∧ c.val ≠ 0 := by
  have hof_all : ∀ t : Text, (t.all fun c => decide (c.val < 0x80 ∧ c.val ≠ 0)) = true →
      ∀ c ∈ t, c.val < 0x80 ∧ c.val ≠ 0 :=
    fun t ht c hc => of_decide_eq_true (List.all_eq_true.mp ht c hc)
  simp only [namesOf, List.mem_cons, List.not_mem_nil, or_false] at h
  obtain rfl | rfl | rfl := h
  · exact hof_all _ rfl
  · refine hof_all _ ?_
    cases d.algorithm <;> rfl
  · exact fun c hc => ⟨(Digest.ascii_of_mem_hex hc).1, (Digest.ascii_of_mem_hex hc).2.1⟩

theorem isPlain_of_mem_namesOf {name : Text} (h : name ∈ namesOf d) : Path.IsPlain name := by
  have hascii := ascii_of_mem_namesOf h
  have hplain : name ≠ Path.up ∧ name.length ≤ 128 := by
    simp only [namesOf, List.mem_cons, List.not_mem_nil, or_false] at h
    obtain rfl | rfl | rfl := h
    · decide
    · cases d.algorithm <;> decide
    · refine ⟨?_, d.length_hex_le⟩
      intro hup
      have hdot : (↑ '.' : CodePoint) ∈ d.hex := by
        rw [hup]
        exact List.mem_cons_self
      exact (Digest.ascii_of_mem_hex hdot).2.2 rfl
  refine ⟨hplain.1, ?_⟩
  rw [Path.isTooLong, Path.byteCount_of_ascii fun c hc => (hascii c hc).1]
  exact decide_eq_false (by have := hplain.2; unfold Path.maxNameLength; omega)

/-- The path of a blob fits if that of the root does and there are as many bytes left for the names of
the blob as the longest have. -/
theorem fits_pathOf (hroot : dir.root.fault? = none) (hnames : dir.root.names ≠ [])
    (hlong : Path.byteCount dir.root.toText + 142 ≤ Path.maxLength)
    (hshallow : dir.root.names.length + 3 ≤ Path.maxMissing) (d : Digest) : (dir.pathOf d).Fits := by
  have hbelow : namesOf d ≠ [] := List.cons_ne_nil _ _
  have htext : (dir.pathOf d).toText =
      dir.root.toText ++ ↑ '/' :: Path.slashSeparated (namesOf d) := by
    obtain ⟨⟨start, names⟩⟩ := dir
    obtain ⟨name, rest, rfl⟩ := List.exists_cons_of_ne_nil hnames
    have hwritten : ∀ ns, (⟨start, name :: ns⟩ : Path).toText =
        start.toText ++ Path.slashSeparated (name :: ns) := fun _ => by cases start <;> rfl
    change (⟨start, name :: (rest ++ namesOf d)⟩ : Path).toText = _
    rw [hwritten, hwritten, ← List.cons_append, Path.slashSeparated_append
      (List.cons_ne_nil name rest) hbelow, List.append_assoc]
  have hwritten : Path.slashSeparated (namesOf d) = Text.ofString "blobs" ++ ↑ '/' ::
      (d.algorithm.name ++ ↑ '/' :: d.hex) := rfl
  have hascii : ∀ c ∈ (↑ '/' :: Path.slashSeparated (namesOf d) : Text),
      c.val < 0x80 ∧ c.val ≠ 0 := by
    intro c hc
    have hslash : (↑ '/' : CodePoint).val < 0x80 ∧ (↑ '/' : CodePoint).val ≠ 0 := by decide
    have hname : ∀ {name}, name ∈ namesOf d → c ∈ name → c.val < 0x80 ∧ c.val ≠ 0 :=
      fun h hc => ascii_of_mem_namesOf h c hc
    simp only [hwritten, List.mem_cons, List.mem_append] at hc
    obtain rfl | hc | rfl | hc | rfl | hc := hc
    · exact hslash
    · exact hname (by simp [namesOf]) hc
    · exact hslash
    · exact hname (by simp [namesOf]) hc
    · exact hslash
    · exact hname (by simp [namesOf]) hc
  have hlength : (↑ '/' :: Path.slashSeparated (namesOf d) : Text).length ≤ 142 := by
    have hblobs : (Text.ofString "blobs").length = 5 := by decide
    have halgorithm : d.algorithm.name.length = 6 := by cases d.algorithm <;> decide
    have hhex := d.length_hex_le
    rw [hwritten]
    simp only [List.length_cons, List.length_append, hblobs, halgorithm]
    omega
  obtain ⟨hchars, -⟩ := Path.fault?_eq_none_iff.mp hroot
  refine ⟨Path.fault?_eq_none_iff.mpr ⟨?_, ?_⟩, ?_⟩
  · intro c hc
    rw [htext] at hc
    rcases List.mem_append.mp hc with hc | hc
    · exact hchars c hc
    · obtain ⟨hval, hne⟩ := hascii c hc
      refine ⟨fun hsurrogate => ?_, hne⟩
      rw [CodePoint.isSurrogate, decide_eq_false (by omega), Bool.false_and] at hsurrogate
      cases hsurrogate
  · rw [htext, Path.byteCount_append, Path.byteCount_of_ascii fun c hc => (hascii c hc).1]
    omega
  · rw [pathOf, Path.descend, List.length_append]
    exact hshallow

/-- Whether the root leads to a place from the top, which is a directory. -/
structure IsAt (dir : BlobDirectory) (t : Tree) (here : List Text) : Prop where
  top : t.node? [] = some .directory
  place : t.place? [] dir.root.names = some here

/-- A root that steps up nowhere leads to what it names, in every tree. -/
theorem isAt_of_plain {t : Tree} (htop : t.node? [] = some .directory)
    (hroot : ∀ name ∈ dir.root.names, Path.IsPlain name) : dir.IsAt t dir.root.names :=
  ⟨htop, Tree.place?_of_plain hroot⟩

namespace IsAt

variable {t t' : Tree} {here : List Text}

theorem mono (h : dir.IsAt t here) (hkeeps : t.KeepsDirectories t') : dir.IsAt t' here :=
  ⟨hkeeps _ h.top, Tree.place?_mono hkeeps h.place⟩

/-- The names around a blob, and the last of its names. -/
theorem exists_around (h : dir.IsAt t here) (d : Digest) :
    t.place? [] (dir.root.names ++ [Text.ofString "blobs", d.algorithm.name]) =
        some (here ++ [Text.ofString "blobs", d.algorithm.name]) ∧ Path.IsPlain d.hex := by
  have hplain : ∀ name ∈ namesOf d, Path.IsPlain name := fun _ => isPlain_of_mem_namesOf
  refine ⟨?_, hplain _ (by simp [namesOf])⟩
  rw [Tree.place?_append, h.place, Option.bind_some, Tree.place?_of_plain]
  intro name hname
  refine hplain name ?_
  simp only [List.mem_cons, List.not_mem_nil, or_false] at hname
  obtain rfl | rfl := hname <;> simp [namesOf]

theorem pathOf_eq (dir : BlobDirectory) (d : Digest) : dir.pathOf d =
    ⟨dir.root.start, (dir.root.names ++ [Text.ofString "blobs", d.algorithm.name]) ++ [d.hex]⟩ := by
  rw [List.append_assoc]
  rfl

theorem place_eq (here : List Text) (d : Digest) :
    here ++ namesOf d = (here ++ [Text.ofString "blobs", d.algorithm.name]) ++ [d.hex] := by
  rw [List.append_assoc]
  rfl

theorem writeAt_eq (h : dir.IsAt t here) (hfits : (dir.pathOf d).Fits) (content : Bytes) :
    t.writeAt (dir.pathOf d) content =
      match Tree.putFile (here ++ namesOf d) (dir.pathOf d) content t with
      | .error e => (.error e, t)
      | .ok t => (.ok (), t) := by
  obtain ⟨haround, hlast⟩ := h.exists_around d
  rw [pathOf_eq] at hfits ⊢
  rw [place_eq]
  refine Tree.writeAt_eq h.top hfits.taken haround hlast ?_ content
  have hshallow := hfits.shallow
  rw [List.length_append] at hshallow
  omega

theorem openAt_eq (h : dir.IsAt t here) (htaken : (dir.pathOf d).fault? = none) :
    t.openAt (dir.pathOf d) = match t.content (here ++ namesOf d) with
      | .error o => .error (.obstacle o (dir.pathOf d))
      | .ok _ => .ok (here ++ namesOf d) := by
  obtain ⟨haround, hlast⟩ := h.exists_around d
  rw [pathOf_eq] at htaken ⊢
  rw [place_eq]
  exact Tree.openAt_concat h.top htaken haround hlast

/-- After a file was put below the root, the root leads to where it led. -/
theorem of_putFile (h : dir.IsAt t here) {place : List Text} (hplace : place ≠ []) {path : Path}
    {content : Bytes} (hput : Tree.putFile place path content t = .ok t') : dir.IsAt t' here := by
  refine h.mono ?_
  intro names hthere
  rw [Tree.node?_putFile hput]
  by_cases hnames : names = place
  · subst hnames
    cases hput.symm.trans (Tree.putFile_of_blocks hplace (.here hthere))
  · rw [if_neg hnames, hthere, Option.some_or]

end IsAt

theorem place_ne_nil (here : List Text) (d : Digest) : here ++ namesOf d ≠ [] :=
  List.append_ne_nil_of_right_ne_nil _ (List.cons_ne_nil _ _)

end BlobDirectory

namespace Store

variable {store : Store} {dir : BlobDirectory} {content : Bytes}

theorem put_directory (hkind : store.kind = .directory dir) (content : Bytes) :
    store.put content =
      match store.tree.writeAt (dir.pathOf (.ofBytes content)) content with
      | (.ok (), tree) => (.ok (.ofBytes content), { store with tree })
      | (.error e, tree) => (.error e, { store with tree }) := by
  obtain ⟨kind, failAt, maxRead, blobs, tree, asked, layersAsked, closed, log⟩ := store
  obtain rfl : kind = .directory dir := hkind
  unfold put storeAt
  dsimp only
  cases tree.writeAt (dir.pathOf (.ofBytes content)) content with
  | mk result tree => cases result <;> rfl

/-- What a directory stores below the place to which its root leads. -/
theorem put_of_isAt (hkind : store.kind = .directory dir) {here : List Text}
    (hat : dir.IsAt store.tree here) (hfits : (dir.pathOf (.ofBytes content)).Fits) :
    store.put content =
      match Tree.putFile (here ++ BlobDirectory.namesOf (.ofBytes content))
        (dir.pathOf (.ofBytes content)) content store.tree with
      | .error e => (.error e, store)
      | .ok tree => (.ok (.ofBytes content), { store with tree }) := by
  rw [put_directory hkind, hat.writeAt_eq hfits]
  cases Tree.putFile (here ++ BlobDirectory.namesOf (.ofBytes content))
    (dir.pathOf (.ofBytes content)) content store.tree <;> rfl

end Store

end LegacyImage
