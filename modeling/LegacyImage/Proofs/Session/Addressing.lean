import LegacyImage.Proofs.Digest.Spelling
import LegacyImage.Proofs.Session.Retrieval

/-!
A directory of blobs as a table of contents by digest. Contents that are put into an empty root, in
any order and however often, are all that is there, and a text opens a blob exactly if it spells the
digest of one of them, in letters of either case (`contents_by_digest`).
-/

namespace LegacyImage

namespace Session

variable {s : Session} {dir : BlobDirectory} {here : List Text} {contents : List Bytes}

/-! ## Libraries -/

theorem HasLibrary.content_eq_missing (h : s.HasLibrary dir here contents) {d : Digest}
    (hnone : d.lastOf contents = none) :
    s.store.tree.content (here ++ BlobDirectory.namesOf d) = .error .missing := by
  refine Tree.content_of_isLibrary_of_none h.tree ?_
  intro hname
  have hd : d.algorithm = .sha256 := Algorithm.name_injective hname
  rw [get?_shelved_hex hd, hnone]

/-- The directories of a library are there as soon as anything was put there. -/
theorem HasLibrary.find_root (h : s.HasLibrary dir here contents) (hcontents : contents ≠ []) :
    Tree.find here s.store.tree = .ok (Tree.library (shelved [] contents)) := by
  refine h.tree.resolve_left ?_
  rintro ⟨hnil, -⟩
  obtain ⟨x, rest, rfl⟩ := List.exists_cons_of_ne_nil hcontents
  have hlast : (Digest.ofBytes x).lastOf (x :: rest) = none := by
    rw [← get?_shelved_hex rfl, hnil, Table.get?_nil]
  exact Digest.lastOf_eq_none_iff.mp hlast x List.mem_cons_self rfl

/-- What is there does not depend on the order in which contents were put there, nor on how
often. -/
theorem HasLibrary.content_congr {s' : Session} {others : List Bytes}
    (h : s.HasLibrary dir here contents) (h' : s'.HasLibrary dir here others) (hcontents : contents ≠ [])
    (hothers : ∀ x, x ∈ others ↔ x ∈ contents)
    (hdiffer : ∀ x ∈ contents, ∀ y ∈ contents, Digest.ofBytes x = Digest.ofBytes y → x = y)
    (names : List Text) :
    s'.store.tree.content (here ++ names) =
      s.store.tree.content (here ++ names) := by
  have hothers' : others ≠ [] := by
    obtain ⟨x, rest, rfl⟩ := List.exists_cons_of_ne_nil hcontents
    exact List.ne_nil_of_mem ((hothers x).mpr List.mem_cons_self)
  have hdiffer' : ∀ x ∈ others, ∀ y ∈ others, Digest.ofBytes x = Digest.ofBytes y → x = y := by
    intro x hx y hy
    exact hdiffer x ((hothers x).mp hx) y ((hothers y).mp hy)
  rw [Tree.content_append (h.find_root hcontents), Tree.content_append (h'.find_root hothers')]
  refine Tree.content_library_congr ?_ names
  intro name
  ext x
  rw [get?_shelved_eq_some_iff hdiffer, get?_shelved_eq_some_iff hdiffer', hothers]

/-! ## Steps on a library -/

/-- Opening a blob of a directory, by what the text spells and what is below the root. -/
theorem step_blob_directory [Room] (hkind : s.store.kind = .directory dir)
    (hat : dir.IsAt s.store.tree here)
    (htaken : ∀ d, (dir.pathOf d).fault? = none) (t : Text) :
    (s.step (.blob (some t))).1 =
      match Digest.parse? t with
      | none => .failed (.invalidDigest (some t))
      | some d =>
        match s.store.tree.content (here ++ BlobDirectory.namesOf d) with
        | .error o => .failed (.obstacle o (dir.pathOf d))
        | .ok held => .bytes held := by
  change (s.readCompressed (s.store.openBlob (some t))).1 = _
  cases hparse : Digest.parse? t with
  | none =>
    have hdigest : Reference.digest? (some t) = none := hparse
    unfold Store.openBlob
    rw [hkind, hdigest]
    rfl
  | some d =>
    have hdigest : Reference.digest? (some t) = some d := hparse
    have hopenAt := hat.openAt_eq (htaken d)
    dsimp only
    cases hcontent : s.store.tree.content (here ++ BlobDirectory.namesOf d) with
    | error o =>
      rw [hcontent] at hopenAt
      unfold Store.openBlob
      rw [hkind, hdigest]
      dsimp only [Store.note]
      rw [hopenAt]
      rfl
    | ok held =>
      rw [hcontent] at hopenAt
      obtain ⟨id, store, hopen, hagrees⟩ := Store.openBlob_of_openAt hkind hdigest hopenAt
      rw [hagrees.tree] at hcontent
      rw [hopen]
      exact readCompressed_eq_bytes (OpenBlob.read_all_file hcontent)

/-- Contents are put into a directory at whose root nothing is. Then exactly the last content of
each digest is there, under its digest; if no two of the contents have the same digest, all that is
there is the same in whatever order and however often they are put. A text that spells no digest is
refused, one that spells the digest of none of them finds nothing, and any other opens a content
with the digest that it spells. -/
theorem contents_by_digest [Room] (hkind : s.store.kind = .directory dir)
    (hat : dir.IsAt s.store.tree here) (hfits : ∀ d, (dir.pathOf d).Fits)
    (hvacant : Tree.IsVacant here s.store.tree) (puts : List Bytes) :
    ∃ s', s.run (puts.map .put) = (puts.map fun x => .digest (.ofBytes x), s') ∧
      (∀ names held, s'.store.tree.content (here ++ names) = .ok held ↔
        names = BlobDirectory.namesOf (.ofBytes held) ∧
          (Digest.ofBytes held).lastOf puts = some held) ∧
      (∀ others : List Bytes, (∀ x, x ∈ others ↔ x ∈ puts) →
        (∀ x ∈ puts, ∀ y ∈ puts, Digest.ofBytes x = Digest.ofBytes y → x = y) →
        ∀ names, (s.run (others.map .put)).2.store.tree.content (here ++ names) =
          s'.store.tree.content (here ++ names)) ∧
      ∀ t, (¬ Digest.IsSpelled t →
          (s'.step (.blob (some t))).1 = .failed (.invalidDigest (some t))) ∧
        (Digest.IsSpelled t → (∀ x ∈ puts, (Digest.ofBytes x).toText ≠ t.lowerHex) →
          ∃ path, dir.pathOfText? t = some path ∧
            (s'.step (.blob (some t))).1 = .failed (.obstacle .missing path)) ∧
        (Digest.IsSpelled t → (∃ x ∈ puts, (Digest.ofBytes x).toText = t.lowerHex) →
          ∃ held ∈ puts, (Digest.ofBytes held).toText = t.lowerHex ∧
            (s'.step (.blob (some t))).1 = .bytes held) := by
  have hstart : s.HasLibrary dir here [] :=
    ⟨hkind, hat, fun x => hfits (.ofBytes x), Or.inl ⟨rfl, hvacant⟩⟩
  obtain ⟨store, hrun, hlibrary⟩ := run_puts_library hstart puts
  rw [List.nil_append] at hlibrary
  refine ⟨s.after store, hrun, fun _ _ => hlibrary.content_eq_ok_iff, ?_, ?_⟩
  · intro others hothers hdiffer names
    cases puts with
    | nil =>
      have hnil : others = [] := List.eq_nil_iff_forall_not_mem.mpr
        fun x hx => List.not_mem_nil ((hothers x).mp hx)
      rw [hnil, hrun]
    | cons x rest =>
      obtain ⟨store', hrun', hlibrary'⟩ := run_puts_library hstart others
      rw [hrun']
      exact hlibrary.content_congr hlibrary' (List.cons_ne_nil x rest) hothers hdiffer names
  · intro t
    have hstep := step_blob_directory hlibrary.kind hlibrary.isAt (fun d => (hfits d).taken) t
    refine ⟨?_, ?_, ?_⟩
    · intro hspelled
      rw [hstep, Digest.parse?_eq_none_iff.mpr hspelled]
    · intro hspelled hnone
      obtain ⟨d, hd⟩ := Digest.exists_parse?_of_isSpelled hspelled
      have hlast : d.lastOf puts = none := by
        refine Digest.lastOf_eq_none_iff.mpr ?_
        intro x hx hxd
        exact hnone x hx (by rw [hxd, (Digest.isSpelled_of_parse? hd).2])
      refine ⟨dir.pathOf d, by rw [BlobDirectory.pathOfText?, hd]; rfl, ?_⟩
      rw [hstep, hd]
      dsimp only
      rw [hlibrary.content_eq_missing hlast]
    · rintro hspelled ⟨x, hx, hxt⟩
      have hd : Digest.parse? t = some (.ofBytes x) :=
        Digest.parse?_eq_some_iff.mpr ⟨hspelled, hxt⟩
      cases hlast : (Digest.ofBytes x).lastOf puts with
      | none => exact absurd rfl (Digest.lastOf_eq_none_iff.mp hlast x hx)
      | some held =>
        obtain ⟨hheld, hdigest⟩ := Digest.lastOf_eq_some hlast
        refine ⟨held, hheld, by rw [hdigest, hxt], ?_⟩
        have hcontent : (s.after store).store.tree.content
            (here ++ BlobDirectory.namesOf (.ofBytes x)) = .ok held :=
          hlibrary.content_eq_ok_iff.mpr ⟨by rw [hdigest], by rw [hdigest, hlast]⟩
        rw [hstep, hd]
        dsimp only
        rw [hcontent]

/-- A blob that was put twice is opened by its digest in capitals. -/
theorem contents_by_digest_letter :
    (((start 3 (.ofKind (.directory ⟨.here, [Text.ofString "layout"]⟩) none none)).run
      [.put letterFile, .put letterFile]).2.step (.blob (some letterSum))).1 =
        .bytes letterFile := by
  obtain ⟨s', hrun, -, -, hblob⟩ := contents_by_digest
    (s := start 3 (.ofKind (.directory ⟨.here, [Text.ofString "layout"]⟩) none none)) rfl (isAt_layout rfl)
    fits_layout (Tree.isVacant_empty _) [letterFile, letterFile]
  obtain ⟨hspelled, htext⟩ := Digest.parse?_eq_some_iff.mp parse?_letterSum
  obtain ⟨held, hheld, -, hread⟩ := (hblob letterSum).2.2 hspelled
    ⟨letterFile, List.mem_cons_self, htext⟩
  have hletter : held = letterFile := by simpa using hheld
  rw [hletter] at hread
  have hsteps : [Step.put letterFile, Step.put letterFile] =
      [letterFile, letterFile].map .put := rfl
  rw [hsteps, hrun]
  exact hread

end Session

end LegacyImage
