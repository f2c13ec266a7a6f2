import LegacyImage.Proofs.Layer.DiffId
import LegacyImage.Proofs.Store.Account
import LegacyImage.Proofs.Store.Closing
import LegacyImage.Proofs.Store.Memory

/-!
How a layer comes to its diff id. A layer that remembers none asks the store once for its blob and
computes the diff id from what it is given then; one that remembers it asks for nothing. What is
computed depends on the store alone, and not on what the store was asked for before.
-/

namespace LegacyImage.Layer

/-- What computing the diff id of a reference comes to. -/
def computed [Room] (chunkSize : Int) (store : Store) (ref : Reference) : Except Error Digest :=
  match (store.openBlob ref).1 with
  | .error e => .error e
  | .ok opened =>
    match tallyOf store.tree chunkSize (.start opened.blob) with
    | .error e => .error (.uncompressed e)
    | .ok tally => .ok tally.digest

/-- The layer after the diff id was computed: a failure is not remembered. -/
def remembering (inner : Layer) : Except Error Digest → Layer
  | .error _ => derived inner none
  | .ok d => derived inner (some d)

theorem diffId_derived_none [Room] (chunkSize : Int) (store : Store) (inner : Layer) :
    ((derived inner none).diffId chunkSize store).1 = computed chunkSize store inner.reference ∧
      ((derived inner none).diffId chunkSize store).2.1 =
        remembering inner (computed chunkSize store inner.reference) ∧
      store.Agrees ((derived inner none).diffId chunkSize store).2.2 ∧
      ((derived inner none).diffId chunkSize store).2.2.asked =
        (store.openBlob inner.reference).2.asked := by
  have hagrees := Store.agrees_openBlob store inner.reference
  unfold diffId uncompressed computed
  dsimp only
  rw [compressed_eq_openBlob]
  cases h : store.openBlob inner.reference with
  | mk result store' =>
    rw [h] at hagrees
    cases result with
    | error e => exact ⟨rfl, rfl, hagrees, rfl⟩
    | ok opened =>
      have hclosed := hagrees.trans (Store.agrees_close store' opened.id)
      have htree : store.tree = store'.tree := hagrees.tree
      dsimp only
      rw [← htree]
      cases tallyOf store.tree chunkSize (.start opened.blob) with
      | error e => exact ⟨rfl, rfl, hclosed, rfl⟩
      | ok tally => exact ⟨rfl, rfl, hclosed.trans (Store.agrees_note ..), rfl⟩

/-- What is computed does not depend on the account of the store. -/
theorem computed_congr [Room] {a b : Store} (h : a.Agrees b) (chunkSize : Int) (ref : Reference) :
    computed chunkSize a ref = computed chunkSize b ref := by
  have hblob := Store.openBlob_congr h ref
  unfold computed
  rw [h.tree]
  cases ha : (a.openBlob ref).1 with
  | error e =>
    cases hb : (b.openBlob ref).1 with
    | error e' =>
      rw [ha, hb] at hblob
      cases hblob
      rfl
    | ok opened =>
      rw [ha, hb] at hblob
      cases hblob
  | ok opened =>
    cases hb : (b.openBlob ref).1 with
    | error e =>
      rw [ha, hb] at hblob
      cases hblob
    | ok opened' =>
      rw [ha, hb] at hblob
      have e : opened.blob = opened'.blob := Except.ok.inj hblob
      dsimp only
      rw [e]

/-- What a layer answers, and what it is afterwards, depends on the store alone. -/
theorem diffId_congr [Room] {a b : Store} (h : a.Agrees b) (chunkSize : Int) (l : Layer) :
    (l.diffId chunkSize a).1 = (l.diffId chunkSize b).1 ∧
      (l.diffId chunkSize a).2.1 = (l.diffId chunkSize b).2.1 := by
  cases l with
  | stored ref => exact ⟨rfl, rfl⟩
  | derived inner m =>
    cases m with
    | some d => exact ⟨rfl, rfl⟩
    | none =>
      obtain ⟨ha, hla, -, -⟩ := diffId_derived_none chunkSize a inner
      obtain ⟨hb, hlb, -, -⟩ := diffId_derived_none chunkSize b inner
      rw [ha, hb, hla, hlb, computed_congr h]
      exact ⟨rfl, rfl⟩

theorem agrees_diffId [Room] (chunkSize : Int) (store : Store) (l : Layer) :
    store.Agrees (l.diffId chunkSize store).2.2 := by
  cases l with
  | stored ref => exact .refl store
  | derived inner m =>
    cases m with
    | some d => exact .refl store
    | none => exact (diffId_derived_none chunkSize store inner).2.2.1

theorem agrees_uncompressed (store : Store) (l : Layer) :
    store.Agrees (l.uncompressed store).2 := by
  cases l with
  | stored ref => exact .refl store
  | derived inner m =>
    have h := Store.agrees_openBlob store inner.reference
    unfold uncompressed
    dsimp only
    rw [compressed_eq_openBlob]
    split <;> (rename_i ho; rw [ho] at h; exact h)

/-! ## Stores in memory -/

/-- A store in memory is asked for a blob and gives a stream of its content. -/
theorem openBlob_of_memory {store : Store} (hkind : ∀ dir, store.kind ≠ .directory dir)
    (ref : Reference) :
    (store.openBlob ref).2.asked = store.asked.push ref ∧
      (store.openBlob ref).1.map (·.blob) =
        match Table.get? store.blobs ref with
        | none => .error (.noBlob ref)
        | some content => .ok (.memory (.ofBytes content store.failAt store.maxRead)) := by
  rw [Store.openBlob_memory hkind]
  cases Table.get? store.blobs ref <;> exact ⟨rfl, rfl⟩

/-- Where streams give at least a byte as long as there is one, what is computed in pieces of any
size but zero is the digest of what the blob holds. -/
theorem content_of_computed [Room] {store : Store} (hkind : ∀ dir, store.kind ≠ .directory dir)
    (hmax : store.maxRead ≠ some 0) {chunkSize : Int} (hsize : chunkSize ≠ 0) {ref : Reference}
    {d : Digest} (h : computed chunkSize store ref = .ok d) :
    ∃ content u, Table.get? store.blobs ref = some content ∧ Gzip.content content = .ok u ∧
      d = .ofBytes u := by
  have hblob := (openBlob_of_memory hkind ref).2
  unfold computed at h
  split at h
  · cases h
  rename_i opened hopened
  rw [hopened] at hblob
  split at h
  · cases h
  rename_i tally htally
  obtain ⟨u, hcontent, hd⟩ := content_of_tallyOf hsize htally
  cases hget : Table.get? store.blobs ref with
  | none =>
    rw [hget] at hblob
    cases hblob
  | some content =>
    rw [hget] at hblob
    have hopen : opened.blob = .memory (.ofBytes content store.failAt store.maxRead) :=
      Except.ok.inj hblob
    have hheld : opened.blob.held store.tree = content := by
      rw [hopen]
      exact if_neg hmax
    rw [hheld] at hcontent
    exact ⟨content, u, rfl, hcontent, (Except.ok.inj h).symm.trans hd⟩

end LegacyImage.Layer
