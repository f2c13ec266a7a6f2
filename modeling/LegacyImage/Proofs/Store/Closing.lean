import LegacyImage.Proofs.Image.Enumeration

/-!
The account that a store keeps of the blobs it opened. A blob is open from when it is opened until
it is closed under its number. What reads a blob for itself, be it a manifest or a layer's content,
has closed it when it answers, also when the answer is a fault (`settled_readBlob`,
`Layer.settled_diffId`).
-/

namespace LegacyImage

namespace Store

/-- Whether at most one more blob was opened, and is closed again, while all others are as they
were. -/
def Settled (a b : Store) : Prop := b.closed = a.closed ∨ b.closed = a.closed.push true

theorem getElem?_push_closed {closed : Array Bool} {id : Nat} {c : Bool}
    (hid : closed[id]? = some c) (c' : Bool) : (closed.push c')[id]? = some c := by
  obtain ⟨hlt, -⟩ := Array.getElem?_eq_some_iff.mp hid
  rw [Array.getElem?_push_lt hlt]
  exact (Array.getElem?_eq_getElem hlt).symm.trans hid

/-- All others are as they were. -/
theorem Settled.closed_eq_some {a b : Store} (h : a.Settled b) {id : Nat} {c : Bool}
    (hid : a.closed[id]? = some c) : b.closed[id]? = some c := by
  rcases h with h | h
  · rw [h]
    exact hid
  · rw [h]
    exact getElem?_push_closed hid true

/-- What is open was open before. -/
theorem Settled.closed_eq_false {a b : Store} (h : a.Settled b) {id : Nat}
    (hid : b.closed[id]? = some false) : a.closed[id]? = some false := by
  rcases h with h | h
  · rw [← h]
    exact hid
  · rw [h, Array.getElem?_push] at hid
    split at hid
    · cases hid
    · exact hid

/-- Closing what was just opened. -/
theorem closed_close {a b : Store} {id : Nat} (hid : id = a.closed.size)
    (hb : b.closed = a.closed.push false) : (b.close id).closed = a.closed.push true := by
  show b.closed.setIfInBounds id true = a.closed.push true
  rw [hid, hb]
  apply Array.ext'
  simp

theorem settled_close {a b : Store} {id : Nat} (hid : id = a.closed.size)
    (hb : b.closed = a.closed.push false) : a.Settled (b.close id) := Or.inr (closed_close hid hb)

/-- Opening a blob fails and opens nothing, or gives an open blob under the next number. -/
theorem openBlob_cases (store : Store) (ref : Reference) :
    (∃ e store', store.openBlob ref = (.error e, store') ∧ store'.closed = store.closed) ∨
    ∃ opened store', store.openBlob ref = (.ok opened, store') ∧ opened.id = store.closed.size ∧
      opened.blob.isClosed = false ∧ store'.closed = store.closed.push false := by
  unfold openBlob
  split
  · split
    · exact Or.inl ⟨_, _, rfl, rfl⟩
    · dsimp only
      split
      · exact Or.inl ⟨_, _, rfl, rfl⟩
      · exact Or.inr ⟨_, _, rfl, rfl, rfl, rfl⟩
  · dsimp only
    split
    · exact Or.inl ⟨_, _, rfl, rfl⟩
    · exact Or.inr ⟨_, _, rfl, rfl, rfl, rfl⟩

/-- Whatever comes of reading a blob, it is closed. -/
theorem settled_readBlob [Room] (store : Store) (size : Int) (ref : Reference) :
    store.Settled (store.readBlob size ref).2 := by
  unfold readBlob
  rcases store.openBlob_cases ref with
    ⟨e, store', h, hclosed⟩ | ⟨opened, store', h, hid, -, hclosed⟩
  · rw [h]
    exact Or.inl hclosed
  · rw [h]
    dsimp only
    split <;> exact settled_close hid hclosed

/-! ## Storing -/

theorem closed_storeAt (store : Store) (dir : BlobDirectory) (d : Digest) (content : Bytes) :
    (store.storeAt dir d content).2.closed = store.closed := by
  rfl

theorem closed_put (store : Store) (content : Bytes) :
    (store.put content).2.closed = store.closed := by
  unfold put
  dsimp only
  split
  · rename_i dir _
    have h := closed_storeAt store dir (.ofBytes content) content
    split <;> (rename_i hs; rw [hs] at h; exact h)
  · rfl

theorem closed_putAs (store : Store) (ref : Reference) (content : Bytes) :
    (store.putAs ref content).2.closed = store.closed := by
  unfold putAs
  split
  · split
    · rfl
    · exact closed_storeAt ..
  · rfl

theorem closed_makeDirectory (store : Store) (path : Path) :
    (store.makeDirectory path).2.closed = store.closed := by
  rfl

end Store

/-! ## Images and layers -/

namespace Image

theorem settled_fetch [Room] (chunkSize : Int) (store : Store) (ref : Reference)
    (mediaType : Option Text) : store.Settled (fetch chunkSize store ref mediaType).2 := by
  have h := store.settled_readBlob chunkSize ref
  unfold fetch
  split <;> (rename_i hr; rw [hr] at h; exact h)

theorem closed_layer (store : Store) (ref : Reference) :
    (layer store ref).2.closed = store.closed := by
  obtain ⟨asked, log, h⟩ := store.exists_afterLayers_eq [ref]
  rw [(layer_eq store ref).2, h]

theorem closed_layers (store : Store) (image : Image) :
    (image.layers store).2.closed = store.closed := by
  unfold layers
  split
  · rfl
  · rename_i ds _
    have hclosed : ∀ refs, (store.afterLayers refs).closed = store.closed := by
      intro refs
      obtain ⟨asked, log, h⟩ := store.exists_afterLayers_eq refs
      rw [h]
    rcases layersOf_cases store ds with ⟨ls, -, h⟩ | ⟨k, e, h⟩
    · rw [h]
      exact hclosed _
    · rw [h]
      exact hclosed _

end Image

namespace Layer

/-- Layers ask the store for no more than their blob. -/
theorem compressed_eq_openBlob (store : Store) (l : Layer) :
    l.compressed store = store.openBlob l.reference := by
  induction l with
  | stored ref => rfl
  | derived inner m ih => exact ih

/-- Opening uncompressed content opens the blob, and nothing but what is not derived and what the
store refuses fails. -/
theorem uncompressed_cases (store : Store) (l : Layer) :
    (∃ e store', l.uncompressed store = (.error e, store') ∧ store'.closed = store.closed) ∨
    ∃ id blob store', l.uncompressed store = (.ok ⟨id, .start blob⟩, store') ∧
      id = store.closed.size ∧ blob.isClosed = false ∧
      store'.closed = store.closed.push false := by
  cases l with
  | stored ref => exact Or.inl ⟨_, _, rfl, rfl⟩
  | derived inner m =>
    unfold uncompressed
    dsimp only
    rw [compressed_eq_openBlob]
    rcases store.openBlob_cases inner.reference with
      ⟨e, store', h, hclosed⟩ | ⟨opened, store', h, hid, hopen, hclosed⟩
    · rw [h]
      exact Or.inl ⟨_, _, rfl, hclosed⟩
    · rw [h]
      exact Or.inr ⟨_, _, _, rfl, hid, hopen, hclosed⟩

/-- Whatever comes of asking for the diff id, the stream that was read for it is closed. -/
theorem settled_diffId [Room] (chunkSize : Int) (store : Store) (l : Layer) :
    store.Settled (l.diffId chunkSize store).2.2 := by
  cases l with
  | stored ref => exact Or.inl rfl
  | derived inner m =>
    cases m with
    | some d => exact Or.inl rfl
    | none =>
      unfold diffId
      dsimp only
      rcases uncompressed_cases store (derived inner none) with
        ⟨e, store', h, hclosed⟩ | ⟨id, blob, store', h, hid, -, hclosed⟩
      · rw [h]
        exact Or.inl hclosed
      · rw [h]
        dsimp only
        split <;> exact Store.settled_close hid hclosed

end Layer

end LegacyImage
