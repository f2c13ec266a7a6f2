import LegacyImage.ChunkSize
import LegacyImage.Proofs.Session.Steps

/-!
What the size of the pieces does to what is read of blobs in memory. In pieces of any size but zero
an image that is fetched has the whole blob as its manifest, and a diff id is that of all that the
blob holds; pieces of size zero make every manifest empty and every diff id that of nothing
(`whole_unless_zero`).
-/

namespace LegacyImage.Session

variable {s : Session} {ref : Reference} {content : Bytes}

/-! ## Fetching from memory -/

/-- An image is fetched with the manifest that reading the blob gives. -/
theorem step_fetch_memory [Room] (hkind : ∀ dir, s.store.kind ≠ .directory dir)
    (hget : Table.get? s.store.blobs ref = some content) {manifest : Bytes}
    (hread : (Stream.reader.readAll s.chunkSize
      (.ofBytes content s.store.failAt s.store.maxRead)).1 = .ok manifest)
    (mediaType : Option Text) :
    ∃ s', s.step (.fetch ref mediaType) = (.image s.images.length, s') ∧
      (s'.step (.image s.images.length .rawManifest)).1 = .bytes manifest := by
  obtain ⟨store, hblob⟩ : ∃ store, s.store.readBlob s.chunkSize ref = (.ok manifest, store) := by
    rw [Store.readBlob_memory hkind, hget]
    dsimp only
    rw [hread]
    exact ⟨_, rfl⟩
  have himage : (s.images ++ [(⟨manifest, ref, mediaType⟩ : Image)])[s.images.length]? =
      some ⟨manifest, ref, mediaType⟩ := List.getElem?_concat_length
  refine ⟨_, step_fetch_of_readBlob hblob mediaType, ?_⟩
  rw [step_image himage]
  rfl

/-- An image that was fetched came from a blob that was read. -/
theorem exists_of_step_fetch [Room] (hkind : ∀ dir, s.store.kind ≠ .directory dir)
    {mediaType : Option Text} {n : Nat}
    (h : (s.step (.fetch ref mediaType)).1 = .image n) :
    ∃ content manifest, Table.get? s.store.blobs ref = some content ∧
      (Stream.reader.readAll s.chunkSize
        (.ofBytes content s.store.failAt s.store.maxRead)).1 = .ok manifest ∧
      ((s.step (.fetch ref mediaType)).2.step (.image n .rawManifest)).1 = .bytes manifest := by
  have hblob := Store.readBlob_memory hkind s.chunkSize ref
  cases hget : Table.get? s.store.blobs ref with
  | none =>
    rw [hget] at hblob
    unfold step Image.fetch at h
    dsimp only at h
    rw [hblob] at h
    cases h
  | some content =>
    rw [hget] at hblob
    dsimp only at hblob
    cases hread : (Stream.reader.readAll s.chunkSize
        (.ofBytes content s.store.failAt s.store.maxRead)).1 with
    | error e =>
      rw [hread] at hblob
      unfold step Image.fetch at h
      dsimp only at h
      rw [hblob] at h
      cases h
    | ok manifest =>
      obtain ⟨s', hstep, hmanifest⟩ := step_fetch_memory hkind hget hread mediaType
      rw [hstep] at h ⊢
      cases h
      exact ⟨content, manifest, rfl, hread, hmanifest⟩

/-! ## Sizes of pieces -/

/-- For blobs in memory whose streams give at least a byte as long as there is one: unless the size
of the pieces is zero, the manifest of an image that is fetched is the whole blob, and a diff id that
is computed is that of all that the blob holds. If it is zero, the one is empty and the other is that
of nothing. -/
theorem whole_unless_zero [Room] (hkind : ∀ dir, s.store.kind ≠ .directory dir)
    (hmax : s.store.maxRead ≠ some 0) :
    (s.chunkSize ≠ 0 →
      (∀ ref mediaType n, (s.step (.fetch ref mediaType)).1 = .image n →
        ∃ content, Table.get? s.store.blobs ref = some content ∧
          ((s.step (.fetch ref mediaType)).2.step (.image n .rawManifest)).1 = .bytes content) ∧
      ∀ k inner t, s.layers[k]? = some (.derived inner none) →
        (s.step (.layer k .diffId)).1 = .text t →
          ∃ content u, Table.get? s.store.blobs inner.reference = some content ∧
            Gzip.content content = .ok u ∧ t = some (Digest.ofBytes u).toText) ∧
    (s.chunkSize = 0 →
      (∀ ref mediaType n, (s.step (.fetch ref mediaType)).1 = .image n →
        ((s.step (.fetch ref mediaType)).2.step (.image n .rawManifest)).1 = .bytes []) ∧
      ∀ k inner t, s.layers[k]? = some (.derived inner none) →
        (s.step (.layer k .diffId)).1 = .text t → t = some (Digest.ofBytes []).toText) := by
  have hcomputed : ∀ k inner t, s.layers[k]? = some (.derived inner none) →
      (s.step (.layer k .diffId)).1 = .text t →
        ∃ d, Layer.computed s.chunkSize s.store inner.reference = .ok d ∧ t = some d.toText := by
    intro k inner t hlayer h
    rw [step_layer s hlayer, callLayer_diffId_eq_text_iff] at h
    obtain ⟨d, hd, rfl⟩ := h
    exact ⟨d, (Layer.diffId_derived_none s.chunkSize s.store inner).1.symm.trans hd, rfl⟩
  constructor
  · intro hsize
    constructor
    · intro ref mediaType n h
      obtain ⟨content, manifest, hget, hread, hmanifest⟩ := exists_of_step_fetch hkind h
      have hwhole : manifest = content := Stream.eq_rest_of_readAll hsize hmax hread
      exact ⟨content, hget, hwhole ▸ hmanifest⟩
    · intro k inner t hlayer h
      obtain ⟨d, hd, rfl⟩ := hcomputed k inner t hlayer h
      obtain ⟨content, u, hget, hcontent, rfl⟩ := Layer.content_of_computed hkind hmax hsize hd
      exact ⟨content, u, hget, hcontent, rfl⟩
  · intro hzero
    constructor
    · intro ref mediaType n h
      obtain ⟨content, manifest, -, hread, hmanifest⟩ := exists_of_step_fetch hkind h
      rw [hzero, Stream.readAll_zero rfl] at hread
      obtain rfl := Except.ok.inj hread
      exact hmanifest
    · intro k inner t hlayer h
      obtain ⟨d, hd, rfl⟩ := hcomputed k inner t hlayer h
      rw [hzero] at hd
      unfold Layer.computed at hd
      split at hd
      · cases hd
      rw [Layer.tallyOf_zero] at hd
      obtain rfl := Except.ok.inj hd
      rfl

theorem whole_unless_zero_letterFile :
    ∃ s', (letterSession 2).step (.fetch (some (Text.ofString "letter")) none) = (.image 0, s') ∧
      (s'.step (.image 0 .rawManifest)).1 = .bytes letterFile := by
  have hkind : ∀ dir, (letterSession 2).store.kind ≠ .directory dir := by
    intro dir h
    cases h
  have hget : Table.get? (letterSession 2).store.blobs (some (Text.ofString "letter")) =
      some letterFile := rfl
  have hread : (Stream.reader.readAll 2 (.ofBytes letterFile none none)).1 = .ok letterFile :=
    Stream.readAll_eq_rest (by decide) rfl rfl (by decide) rfl
  obtain ⟨s', hstep, -⟩ := step_fetch_memory hkind hget hread none
  obtain ⟨hwhole, -⟩ := (whole_unless_zero hkind (by decide)).1 (by decide)
  obtain ⟨content, hget', hmanifest⟩ := hwhole _ none 0 (congrArg Prod.fst hstep)
  have hcontent : letterFile = content := Option.some.inj (hget.symm.trans hget')
  rw [hstep, ← hcontent] at hmanifest
  exact ⟨s', hstep, hmanifest⟩

/-- The setting zero is taken, and makes a blob that is not empty an image without a manifest and a
layer that is not empty one with the diff id of nothing. -/
theorem whole_of_zero :
    ChunkSize.parse (Text.ofString "0") = .ok 0 ∧
      Table.get? (letterSession 0).store.blobs (some (Text.ofString "letter")) =
        some letterFile ∧
      (∃ s', (letterSession 0).step (.fetch (some (Text.ofString "letter")) none) =
          (.image 0, s') ∧
        (s'.step (.image 0 .rawManifest)).1 = .bytes []) ∧
      letterFile ≠ [] ∧ Gzip.content letterFile = .ok [0x61] ∧
      ((letterSession 0).step (.layer 1 .diffId)).1 = .text (some (Digest.ofBytes []).toText) := by
  have hkind : ∀ dir, (letterSession 0).store.kind ≠ .directory dir := by
    intro dir h
    cases h
  have hget : Table.get? (letterSession 0).store.blobs (some (Text.ofString "letter")) =
      some letterFile := rfl
  refine ⟨rfl, hget, ?_, by decide, rfl, ?_⟩
  · exact step_fetch_memory hkind hget (Stream.readAll_zero rfl) none
  · have hcomputed : Layer.computed 0 (letterSession 0).store (some (Text.ofString "letter")) =
        .ok (.ofBytes []) := by
      unfold Layer.computed
      rw [Store.openBlob_memory hkind, hget]
      dsimp only [Store.enter]
      rw [Layer.tallyOf_zero]
      rfl
    rw [step_layer _ rfl, callLayer_diffId_eq_text_iff]
    exact ⟨.ofBytes [], (Layer.diffId_derived_none 0 _ (.stored _)).1.trans hcomputed, rfl⟩

end LegacyImage.Session
