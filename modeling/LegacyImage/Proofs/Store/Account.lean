import LegacyImage.Layer
import LegacyImage.Store.Tampering

/-!
Stores that agree in all but their accounts. Opening, reading and closing only add to the account,
so they leave a store in agreement with what it was, and whatever a store is asked for it answers
like any store that it agrees with.
-/

namespace LegacyImage

namespace Store

/-- Stores that differ in nothing but the account of what they were asked for and opened. -/
structure Agrees (a b : Store) : Prop where
  kind : a.kind = b.kind
  failAt : a.failAt = b.failAt
  maxRead : a.maxRead = b.maxRead
  blobs : a.blobs = b.blobs
  tree : a.tree = b.tree

theorem Agrees.refl (a : Store) : a.Agrees a := ⟨rfl, rfl, rfl, rfl, rfl⟩

theorem Agrees.symm {a b : Store} (h : a.Agrees b) : b.Agrees a :=
  ⟨h.kind.symm, h.failAt.symm, h.maxRead.symm, h.blobs.symm, h.tree.symm⟩

theorem Agrees.trans {a b c : Store} (h : a.Agrees b) (h' : b.Agrees c) : a.Agrees c :=
  ⟨h.kind.trans h'.kind, h.failAt.trans h'.failAt, h.maxRead.trans h'.maxRead,
    h.blobs.trans h'.blobs, h.tree.trans h'.tree⟩

/-! ## Asking -/

theorem agrees_openBlob (store : Store) (ref : Reference) :
    store.Agrees (store.openBlob ref).2 := by
  unfold openBlob
  split
  · split
    · exact .refl store
    · dsimp only
      split <;> exact ⟨rfl, rfl, rfl, rfl, rfl⟩
  · dsimp only
    split <;> exact ⟨rfl, rfl, rfl, rfl, rfl⟩

/-- The blob that is opened does not depend on the account, only its number does. -/
theorem openBlob_congr {a b : Store} (h : a.Agrees b) (ref : Reference) :
    (a.openBlob ref).1.map (·.blob) = (b.openBlob ref).1.map (·.blob) := by
  obtain ⟨kind, failAt, maxRead, blobs, tree⟩ := a
  obtain ⟨rfl, rfl, rfl, rfl, rfl⟩ := h
  unfold openBlob
  dsimp only
  split
  · split
    · rfl
    · dsimp only [note]
      split <;> rfl
  · split <;> rfl

theorem agrees_close (store : Store) (id : Nat) : store.Agrees (store.close id) :=
  ⟨rfl, rfl, rfl, rfl, rfl⟩

theorem agrees_note (store : Store) (entry : LogEntry) : store.Agrees (store.note entry) :=
  ⟨rfl, rfl, rfl, rfl, rfl⟩

theorem agrees_readBlob [Room] (store : Store) (size : Int) (ref : Reference) :
    store.Agrees (store.readBlob size ref).2 := by
  have hopen := agrees_openBlob store ref
  unfold readBlob
  split
  · rename_i e store' h
    rw [h] at hopen
    exact hopen
  · rename_i opened store' h
    rw [h] at hopen
    split <;> exact hopen.trans (agrees_close store' opened.id)

/-! ## Storing -/

/-- Storing changes nothing about what a store is. -/
structure IsLike (a b : Store) : Prop where
  kind : a.kind = b.kind
  failAt : a.failAt = b.failAt
  maxRead : a.maxRead = b.maxRead

theorem Agrees.isLike {a b : Store} (h : a.Agrees b) : a.IsLike b :=
  ⟨h.kind, h.failAt, h.maxRead⟩

theorem IsLike.trans {a b c : Store} (h : a.IsLike b) (h' : b.IsLike c) : a.IsLike c :=
  ⟨h.kind.trans h'.kind, h.failAt.trans h'.failAt, h.maxRead.trans h'.maxRead⟩

theorem isLike_storeAt (store : Store) (dir : BlobDirectory) (d : Digest) (content : Bytes) :
    store.IsLike (store.storeAt dir d content).2 := ⟨rfl, rfl, rfl⟩

theorem isLike_put (store : Store) (content : Bytes) : store.IsLike (store.put content).2 := by
  unfold put
  dsimp only
  split
  · rename_i dir _
    have h := isLike_storeAt store dir (.ofBytes content) content
    split <;> (rename_i hs; rw [hs] at h; exact h)
  · exact ⟨rfl, rfl, rfl⟩

theorem isLike_putAs (store : Store) (ref : Reference) (content : Bytes) :
    store.IsLike (store.putAs ref content).2 := by
  unfold putAs
  split
  · split
    · exact ⟨rfl, rfl, rfl⟩
    · exact isLike_storeAt ..
  · exact ⟨rfl, rfl, rfl⟩

theorem isLike_writeFile (store : Store) (path : Path) (content : Bytes) :
    store.IsLike (store.writeFile path content).2 := ⟨rfl, rfl, rfl⟩

theorem isLike_makeDirectory (store : Store) (path : Path) :
    store.IsLike (store.makeDirectory path).2 := ⟨rfl, rfl, rfl⟩

variable {a b : Store}

theorem storeAt_congr (h : a.Agrees b) (dir : BlobDirectory) (d : Digest) (content : Bytes) :
    (a.storeAt dir d content).2.Agrees (b.storeAt dir d content).2 := by
  unfold storeAt
  rw [h.tree]
  exact ⟨h.kind, h.failAt, h.maxRead, h.blobs, rfl⟩

theorem put_congr (h : a.Agrees b) (content : Bytes) :
    (a.put content).2.Agrees (b.put content).2 := by
  unfold put
  rw [h.kind]
  dsimp only
  split
  · rename_i dir _
    have hstored := storeAt_congr h dir (.ofBytes content) content
    cases ha : a.storeAt dir (.ofBytes content) content with
    | mk ra sa =>
      cases hb : b.storeAt dir (.ofBytes content) content with
      | mk rb sb =>
        rw [ha, hb] at hstored
        cases ra <;> cases rb <;> exact hstored
  · exact ⟨rfl, h.failAt, h.maxRead, congrArg (Table.set _ content) h.blobs, h.tree⟩

theorem putAs_congr (h : a.Agrees b) (ref : Reference) (content : Bytes) :
    (a.putAs ref content).2.Agrees (b.putAs ref content).2 := by
  unfold putAs
  rw [h.kind]
  split
  · split
    · exact h
    · exact storeAt_congr h ..
  · exact ⟨rfl, h.failAt, h.maxRead, congrArg (Table.set ref content) h.blobs, h.tree⟩

theorem writeFile_congr (h : a.Agrees b) (path : Path) (content : Bytes) :
    (a.writeFile path content).2.Agrees (b.writeFile path content).2 := by
  unfold writeFile
  rw [h.tree]
  exact ⟨h.kind, h.failAt, h.maxRead, h.blobs, rfl⟩

theorem makeDirectory_congr (h : a.Agrees b) (path : Path) :
    (a.makeDirectory path).2.Agrees (b.makeDirectory path).2 := by
  unfold makeDirectory
  rw [h.tree]
  exact ⟨h.kind, h.failAt, h.maxRead, h.blobs, rfl⟩

end Store

end LegacyImage
