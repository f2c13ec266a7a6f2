import LegacyImage.Proofs.Stream.Reading
import LegacyImage.Store

/-!
Stores in memory. Such a store hands out a stream of the content that it has under a reference, and
reading a blob is reading that stream; either way it takes note of what it was asked for.
-/

namespace LegacyImage.Store

variable {store : Store}

/-! ## What stores take note of -/

def asking (store : Store) (ref : Reference) : Store :=
  { store with asked := store.asked.push ref }

/-- A store that was asked for a reference and opened a blob. -/
def opening (store : Store) (ref : Reference) : Store :=
  { store.asking ref with closed := store.closed.push false }

/-- A store that was asked for a reference, and opened a blob and closed it. -/
def serving (store : Store) (ref : Reference) : Store :=
  (store.opening ref).close store.closed.size

/-! ## Opening and reading -/

theorem openBlob_memory (hkind : ∀ dir, store.kind ≠ .directory dir) (ref : Reference) :
    store.openBlob ref =
      match Table.get? store.blobs ref with
      | none => (.error (.noBlob ref), store.asking ref)
      | some content =>
        (.ok ⟨store.closed.size, .memory (.ofBytes content store.failAt store.maxRead)⟩,
          store.opening ref) := by
  unfold openBlob
  split
  · rename_i dir h
    exact absurd h (hkind dir)
  · rfl

theorem readBlob_memory [Room] (hkind : ∀ dir, store.kind ≠ .directory dir) (size : Int)
    (ref : Reference) :
    store.readBlob size ref =
      match Table.get? store.blobs ref with
      | none => (.error (.noBlob ref), store.asking ref)
      | some content =>
        ((Stream.reader.readAll size (.ofBytes content store.failAt store.maxRead)).1.mapError
          fun e => .blob (.memory e), store.serving ref) := by
  unfold readBlob
  rw [openBlob_memory hkind]
  cases Table.get? store.blobs ref with
  | none => rfl
  | some content =>
    dsimp only
    rw [OpenBlob.readAll_memory]
    cases (Stream.reader.readAll size (.ofBytes content store.failAt store.maxRead)).1 <;> rfl

/-! ## Storing -/

theorem put_memory (hkind : ∀ dir, store.kind ≠ .directory dir) (content : Bytes) :
    store.put content = (.ok (.ofBytes content),
      { store with blobs := Table.set (.ofDigest (.ofBytes content)) content store.blobs }) := by
  unfold put
  dsimp only
  split
  · rename_i dir h
    exact absurd h (hkind dir)
  · rfl

theorem putAs_memory (hkind : ∀ dir, store.kind ≠ .directory dir) (ref : Reference)
    (content : Bytes) :
    store.putAs ref content = (.ok (), { store with blobs := Table.set ref content store.blobs }) := by
  unfold putAs
  split
  · rename_i dir h
    exact absurd h (hkind dir)
  · rfl

end LegacyImage.Store
