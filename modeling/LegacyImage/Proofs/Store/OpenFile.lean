import LegacyImage.Proofs.Gzip.StreamView
import LegacyImage.Proofs.Store.Account

/-!
Files that were opened. A file at its start gives its content, at once or in pieces of any size for
which there is room (`OpenBlob.readAll_file`), and nothing in pieces for which there is none.
-/

namespace LegacyImage

namespace Store

/-- What a directory opens by the digest of a file that is found there: that file, at its start. -/
theorem openBlob_of_openAt {store : Store} {dir : BlobDirectory} (hkind : store.kind = .directory dir)
    {ref : Reference} {d : Digest} (hd : ref.digest? = some d) {place : List Text}
    (hopen : store.tree.openAt (dir.pathOf d) = .ok place) :
    ∃ id store', store.openBlob ref = (.ok ⟨id, .file ⟨place, [], 0, false⟩⟩, store') ∧
      store.Agrees store' := by
  have hagrees := store.agrees_openBlob ref
  unfold openBlob at hagrees ⊢
  rw [hkind, hd] at hagrees ⊢
  dsimp only [note] at hagrees ⊢
  rw [hopen] at hagrees ⊢
  exact ⟨_, _, rfl, hagrees⟩

end Store

namespace OpenBlob

variable {tree : Tree} {names : List Text} {content : Bytes}

theorem held_file (h : tree.content names = .ok content) :
    held tree (.file ⟨names, [], 0, false⟩) = content := by
  rw [held, contentOf, OpenFile.held, h]
  rfl

theorem read_file [Room] (h : tree.content names = .ok content) (size : Int) :
    (read tree size (.file ⟨names, [], 0, false⟩)).1 =
      (readFile content size ⟨names, [], 0, false⟩).1 := by
  have hcontent : contentOf tree ⟨names, [], 0, false⟩ = content := by
    rw [contentOf, h]
  unfold read
  dsimp only
  rw [hcontent]
  split <;> (rename_i hr; rw [hr])

theorem read_all_file [Room] (h : tree.content names = .ok content) :
    (read tree (-1) (.file ⟨names, [], 0, false⟩)).1 = .ok content := by
  rw [read_file h]
  rfl

theorem readAll_file [Room] {size : Int} (hn : 0 < size) (hroom : size < Room.bound)
    (h : tree.content names = .ok content) :
    ((reader tree).readAll size (.file ⟨names, [], 0, false⟩)).1 = .ok content := by
  refine ((view tree).readAll_eq_ok_iff hn hroom trivial content).mpr ⟨rfl, ?_⟩
  exact congrArg Except.ok (held_file h)

/-- The first piece of a file is as long as it can be. -/
theorem readFile_start [Room] {size : Int} (hn : 0 < size) (hroom : size < Room.bound) :
    (readFile content size ⟨names, [], 0, false⟩).1 = .ok (content.take size.toNat) := by
  have hlen : (([] : Bytes).take size.toNat).length ≠ size.toNat := by
    rw [List.take_nil, List.length_nil]
    omega
  unfold readFile
  rw [PieceSize.fault?_of_lt (Int.le_of_lt hn) hroom]
  dsimp only
  rw [if_neg Bool.false_ne_true, if_neg (by omega), if_neg hlen,
    PieceSize.roomFault?_of_lt (by omega)]
  dsimp only
  rw [List.nil_append, List.take_take, List.length_nil, Nat.sub_zero, List.drop_zero,
    Nat.min_eq_left (le_wholeBlocks _)]

theorem read_start_of_noRoom [Room] (tree : Tree) (names : List Text) {size : Int}
    (hroom : Room.bound ≤ size) :
    ∃ e b, read tree size (.file ⟨names, [], 0, false⟩) = (.error e, b) := by
  have hlen : (([] : Bytes).take size.toNat).length ≠ size.toNat := by
    have hbound := Room.le_bound
    rw [List.take_nil, List.length_nil]
    omega
  obtain ⟨fault, hfault⟩ := PieceSize.exists_roomFault? (n := size.toNat) (by omega)
  unfold read readFile
  dsimp only
  cases PieceSize.fault? size with
  | some fault => exact ⟨_, _, rfl⟩
  | none =>
    dsimp only
    rw [if_neg Bool.false_ne_true, if_neg (by omega), if_neg hlen, hfault]
    exact ⟨_, _, rfl⟩

/-- A file does not give the first byte of a gzip file alone. -/
theorem isSound_start_file [Room] (h : tree.content names = .ok content) {u : Bytes}
    (hu : Gzip.content content = .ok u) :
    Gzip.Gunzip.IsSound (view tree) (.start (.file ⟨names, [], 0, false⟩)) := by
  have htwo : ((reader tree).read 2 (.file ⟨names, [], 0, false⟩)).1 = .ok (content.take 2) :=
    (read_file h 2).trans (readFile_start (by decide) (Room.lt_bound (by decide)))
  refine Gzip.Uncompressed.isSound_start rfl htwo ?_
  rintro first rfl
  cases hu

end OpenBlob

/-- A directory gives no blob in pieces for which there is no room. -/
theorem Store.readBlob_of_noRoom [Room] {store : Store} {dir : BlobDirectory}
    (hkind : store.kind = .directory dir) {size : Int} (hroom : Room.bound ≤ size)
    (ref : Reference) (content : Bytes) : (store.readBlob size ref).1 ≠ .ok content := by
  intro h
  unfold readBlob at h
  cases hopen : store.openBlob ref with
  | mk result store' =>
    rw [hopen] at h
    cases result with
    | error e => cases h
    | ok opened =>
      obtain ⟨names, hblob⟩ : ∃ names, opened.blob = .file ⟨names, [], 0, false⟩ := by
        unfold openBlob at hopen
        rw [hkind] at hopen
        dsimp only at hopen
        split at hopen
        · cases hopen
        split at hopen
        · cases hopen
        · cases hopen
          exact ⟨_, rfl⟩
      obtain ⟨e, b, hread⟩ := OpenBlob.read_start_of_noRoom store'.tree names hroom
      have hread' : (OpenBlob.reader store'.tree).read size opened.blob = (.error e, b) := by
        rw [hblob]
        exact hread
      have hall : ((OpenBlob.reader store'.tree).readAll size opened.blob).1 = .error e := by
        rw [Reader.readAll, Reader.drain, Reader.drainFrom_of_error _ hread']
      dsimp only at h
      rw [hall] at h
      cases h

end LegacyImage
