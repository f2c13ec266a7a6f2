import LegacyImage.Proofs.Layer.Computing

/-!
What reading an uncompressed stream to its end comes to, and the diff id with it: what the gzip file
holds, or what is wrong with the file. It comes to this for every blob that never fails and gives its
first two bytes together (`readAll_start_eq`), however little it gives at a time after that.
-/

namespace LegacyImage

namespace Gzip

/-- A file of one byte is none. -/
theorem content_singleton (first : UInt8) : content [first] = .error (.notGzip [first]) := rfl

namespace Uncompressed

variable {tree : Tree} {b : OpenBlob} {file : Bytes}

theorem read_start_eq [Room] (hb : b.IsSound) (hheld : b.held tree = file)
    (htwo : ((OpenBlob.reader tree).read 2 b).1 = .ok (file.take 2)) :
    ((start b).read (OpenBlob.reader tree) (-1)).1 =
      (content file).mapError fun f => .file (.format f) := by
  by_cases hone : ∃ first, file = [first]
  · obtain ⟨first, rfl⟩ := hone
    rw [read_of_startsShort (Prod.ext htwo rfl) (Or.inl rfl), content_singleton]
    rfl
  · have hsound := isSound_start hb htwo fun first h => hone ⟨first, h⟩
    rw [read_all_eq (fits_start tree b) ⟨rfl, hsound⟩, ahead_start, hheld]

theorem readAll_start_eq [Room] (hb : b.IsSound) (hheld : b.held tree = file)
    (htwo : ((OpenBlob.reader tree).read 2 b).1 = .ok (file.take 2)) {size : Int}
    (hn : 0 < size) (hroom : size < Room.bound) :
    ((reader (OpenBlob.reader tree)).readAll size (start b)).1 =
      (content file).mapError fun f => .file (.format f) := by
  by_cases hone : ∃ first, file = [first]
  · obtain ⟨first, rfl⟩ := hone
    have hread : (reader (OpenBlob.reader tree)).read size (start b) =
        (.error (.file (.format (.notGzip [first]))),
          ((reader (OpenBlob.reader tree)).read size (start b)).2) :=
      Prod.ext (read_of_startsShort (Prod.ext htwo rfl) (Or.inr ⟨hn, hroom⟩)) rfl
    rw [Reader.readAll, Reader.drain, Reader.drainFrom_of_error _ hread, content_singleton]
    rfl
  · have hsound := isSound_start hb htwo fun first h => hone ⟨first, h⟩
    have hall := (view (OpenBlob.view tree)).readAll_eq hn hroom (s := start b)
      (fits_start tree b) ⟨rfl, hsound⟩
    rw [hall]
    exact congrArg (Except.mapError _) (hheld ▸ ahead_start tree b)

end Uncompressed

end Gzip

/-! ## Streams that give little at a time -/

namespace OpenBlob

variable {file : Bytes} {failAt maxRead : Option Nat}

/-- A stream in memory that does not fail before its end gives the first two bytes, or as many of them
as it gives at a time. -/
theorem read_first_memory [Room] (tree : Tree) (hfail : ∀ p, failAt = some p → file.length < p) :
    ((reader tree).read 2 (.memory (.ofBytes file failAt maxRead))).1 =
      .ok (file.take (min 2 (maxRead.getD 2))) := by
  have hpiece : (Stream.ofBytes file failAt maxRead).piece 2 =
      file.take (min 2 (maxRead.getD 2)) := by
    obtain ⟨m, hm, hp, hle⟩ :=
      (Stream.ofBytes file failAt maxRead).piece_eq_take (by decide : (0 : Int) ≤ 2)
    have hmost : m ≤ min 2 (maxRead.getD 2) := by
      have htwo : m ≤ 2 := hle 2 (Stream.toNat_mem_bounds (by decide) _)
      refine Nat.le_min.mpr ⟨htwo, ?_⟩
      cases hmax : maxRead with
      | none => exact htwo
      | some n => exact hle n (by simp [Stream.bounds, Stream.ofBytes, hmax])
    have hleast : min 2 (maxRead.getD 2) ≤ m ∨ file.length ≤ m := by
      simp only [Stream.bounds, Stream.ofBytes, List.mem_append, Option.mem_toList,
        Option.map_eq_some_iff] at hm
      rcases hm with (hm | hm) | ⟨p, hbound, rfl⟩
      · rw [List.mem_singleton.mp hm]
        exact Or.inl (Nat.min_le_left _ _)
      · rw [hm]
        exact Or.inl (Nat.min_le_right _ _)
      · exact Or.inr (Nat.le_of_lt (hfail p hbound))
    rw [hp]
    rcases hleast with hleast | hall
    · rw [Nat.le_antisymm hmost hleast]
      rfl
    · exact (List.take_of_length_le hall).trans
        (List.take_of_length_le (Nat.le_trans hall hmost)).symm
  have hahead : ∀ p, (Stream.ofBytes file failAt maxRead).failAt = some p →
      (Stream.ofBytes file failAt maxRead).position < p := by
    intro p hp
    exact Nat.zero_lt_of_lt (hfail p hp)
  obtain ⟨piece, s', hr⟩ := Stream.read_of_open rfl hahead
    (Stream.exceedsWords_of_lt (by decide : (0 : Int) ≤ 2) (by decide) _)
  obtain ⟨-, -, hp⟩ := Stream.read_eq_ok hr
  have hread : Stream.reader.read 2 (.ofBytes file failAt maxRead) = (.ok piece, s') := hr
  rw [read_memory, hread, (hp (by decide)).2, hpiece]
  rfl

theorem read_two_memory [Room] (tree : Tree) (hfail : ∀ p, failAt = some p → file.length < p)
    (hmax : ∀ m, maxRead = some m → 2 ≤ m) :
    ((reader tree).read 2 (.memory (.ofBytes file failAt maxRead))).1 = .ok (file.take 2) := by
  have htwo : min 2 (maxRead.getD 2) = 2 := by
    cases hlimit : maxRead with
    | none => rfl
    | some m => exact Nat.min_eq_left (hmax m hlimit)
  rw [read_first_memory tree hfail, htwo]

theorem held_memory (tree : Tree) (hmax : ∀ m, maxRead = some m → 2 ≤ m) :
    held tree (.memory (.ofBytes file failAt maxRead)) = file := by
  refine if_neg ?_
  intro hzero
  exact absurd (hmax 0 hzero) (by decide)

theorem isSound_memory (hfail : ∀ p, failAt = some p → file.length < p) :
    IsSound (.memory (.ofBytes file failAt maxRead)) := by
  refine ⟨rfl, ?_⟩
  intro p hp
  have hheld : (Stream.ofBytes file failAt maxRead).held.length ≤ file.length := by
    unfold Stream.held
    split
    · exact Nat.zero_le _
    · exact Nat.le_refl _
  have hbeyond := hfail p hp
  change 0 + (Stream.ofBytes file failAt maxRead).held.length < p
  omega

end OpenBlob

namespace Gzip.Uncompressed

variable {maxRead : Option Nat}

/-- How little a stream in memory gives at a time makes no difference to reading all at once, as long
as it gives the first two bytes together. -/
theorem read_start_memory [Room] (tree : Tree) (file : Bytes)
    (hmax : ∀ m, maxRead = some m → 2 ≤ m) :
    ((start (.memory (.ofBytes file none maxRead))).read (OpenBlob.reader tree) (-1)).1 =
      (content file).mapError fun f => .file (.format f) := by
  have hnever : ∀ p, (none : Option Nat) = some p → file.length < p := nofun
  exact read_start_eq (OpenBlob.isSound_memory hnever) (OpenBlob.held_memory tree hmax)
    (OpenBlob.read_two_memory tree hnever hmax)

/-- Nor does it make a difference to reading to the end in pieces, be there room for them or not. -/
theorem exists_readAll_start_memory [Room] (tree : Tree) (file : Bytes) {size : Int}
    (hn : 0 < size) :
    ∃ result, ∀ maxRead : Option Nat, (∀ m, maxRead = some m → 2 ≤ m) →
      ((reader (OpenBlob.reader tree)).readAll size
        (start (.memory (.ofBytes file none maxRead)))).1 = result := by
  by_cases hroom : size < Room.bound
  · refine ⟨(content file).mapError fun f => .file (.format f), ?_⟩
    intro maxRead hmax
    have hnever : ∀ p, (none : Option Nat) = some p → file.length < p := nofun
    exact readAll_start_eq (OpenBlob.isSound_memory hnever) (OpenBlob.held_memory tree hmax)
      (OpenBlob.read_two_memory tree hnever hmax) hn hroom
  · obtain ⟨fault, hread⟩ :=
      exists_read_start_of_noRoom (OpenBlob.reader tree) (Int.not_lt.mp hroom)
    refine ⟨.error (.size fault), ?_⟩
    intro maxRead hmax
    rw [Reader.readAll, Reader.drain, Reader.drainFrom_of_error _ (hread _)]

end Gzip.Uncompressed

/-! ## Diff ids -/

namespace Layer

/-- The digest of a tally is that of what reading to the end gives. -/
theorem tallyOf_map_digest [Room] (tree : Tree) (size : Int) (u : Gzip.Uncompressed OpenBlob) :
    (tallyOf tree size u).map (·.digest) =
      (((Gzip.Uncompressed.reader (OpenBlob.reader tree)).readAll size u).1).map .ofBytes := by
  obtain ⟨hfault, hdigest⟩ :=
    (Gzip.Uncompressed.reader (OpenBlob.reader tree)).hashing_drain size u
  unfold tallyOf Reader.readAll
  dsimp only
  rw [hfault]
  cases ((Gzip.Uncompressed.reader (OpenBlob.reader tree)).drain size u).fault with
  | some e => rfl
  | none => exact congrArg Except.ok hdigest

/-! ## Layers of stores in memory -/

variable {store : Store} {inner : Layer}

theorem uncompressed_memory (hkind : ∀ dir, store.kind ≠ .directory dir) (m : Option Digest) :
    (derived inner m).uncompressed store =
      match Table.get? store.blobs inner.reference with
      | none => (.error (.noBlob inner.reference), store.asking inner.reference)
      | some file =>
        (.ok ⟨store.closed.size, .start (.memory (.ofBytes file store.failAt store.maxRead))⟩,
          store.opening inner.reference) := by
  unfold uncompressed
  dsimp only
  rw [compressed_eq_openBlob, Store.openBlob_memory hkind]
  cases Table.get? store.blobs inner.reference <;> rfl

/-- What a derived layer of a store in memory answers that remembers nothing. -/
theorem diffId_memory [Room] (hkind : ∀ dir, store.kind ≠ .directory dir) (chunkSize : Int) :
    (derived inner none).diffId chunkSize store =
      match Table.get? store.blobs inner.reference with
      | none =>
        (.error (.noBlob inner.reference), derived inner none, store.asking inner.reference)
      | some file =>
        match ((Gzip.Uncompressed.reader (OpenBlob.reader store.tree)).readAll chunkSize
          (.start (.memory (.ofBytes file store.failAt store.maxRead)))).1.map Digest.ofBytes with
        | .error e => (.error (.uncompressed e), derived inner none, store.serving inner.reference)
        | .ok d =>
          (.ok d, derived inner (some d),
            (store.serving inner.reference).note (.computedDiffId d inner.reference)) := by
  unfold diffId
  dsimp only
  rw [uncompressed_memory hkind]
  cases Table.get? store.blobs inner.reference with
  | none => rfl
  | some file =>
    have htree : (store.opening inner.reference).tree = store.tree := rfl
    dsimp only
    rw [htree, ← tallyOf_map_digest]
    cases tallyOf store.tree chunkSize
      (.start (.memory (.ofBytes file store.failAt store.maxRead))) <;> rfl

/-- Opens the uncompressed content and reads it to the end in pieces of the given size. -/
def readToEnd [Room] (store : Store) (size : Int) (l : Layer) :
    Except Error Bytes :=
  match l.uncompressed store with
  | (.error e, _) => .error e
  | (.ok opened, store) =>
    ((Gzip.Uncompressed.reader (OpenBlob.reader store.tree)).readAll size opened.stream).1.mapError
      .uncompressed

end Layer

end LegacyImage
