import LegacyImage.Proofs.Layer.Truncation

/-!
Blobs that are delivered: the stream comes to the end before it fails, and the first two bytes come
together. A layer derived from such a blob gives what the blob holds, or says what is wrong with it
(`Session.step_uncompressed`, `Session.step_diffId_of_delivers`).
-/

namespace LegacyImage

/-- What a caller is told that is wrong with a gzip file. -/
def Gzip.Fault.told (f : Gzip.Fault) : Error := .uncompressed (.file (.format f))

/-- Whether an open blob gives just this content, and its first two bytes together. -/
structure OpenBlob.Delivers [Room] (tree : Tree) (b : OpenBlob) (file : Bytes) : Prop where
  sound : b.IsSound
  held : b.held tree = file
  two : ((OpenBlob.reader tree).read 2 b).1 = .ok (file.take 2)

/-- A stream in memory is delivered that comes to its end before it fails and gives two bytes at a
time. -/
theorem OpenBlob.delivers_memory [Room] (tree : Tree) {file : Bytes} {failAt maxRead : Option Nat}
    (hfail : ∀ p, failAt = some p → file.length < p) (hmax : ∀ m, maxRead = some m → 2 ≤ m) :
    (memory (.ofBytes file failAt maxRead)).Delivers tree file :=
  ⟨isSound_memory hfail, held_memory tree hmax, read_two_memory tree hfail hmax⟩

namespace Store

/-- Whether the streams of a store come to the end of a blob before they fail, as files do. -/
def ReachesEnd (store : Store) (file : Bytes) : Prop :=
  (∀ dir, store.kind ≠ .directory dir) → ∀ p, store.failAt = some p → file.length < p

/-- Whether they give the first two bytes together, as files do. -/
def GivesPairs (store : Store) : Prop :=
  (∀ dir, store.kind ≠ .directory dir) → ∀ m, store.maxRead = some m → 2 ≤ m

variable {store : Store} {ref : Reference} {file : Bytes}

theorem ReachesEnd.of_length_le {part : Bytes} (h : store.ReachesEnd file)
    (hle : part.length ≤ file.length) : store.ReachesEnd part :=
  fun hkind p hp => Nat.lt_of_le_of_lt hle (h hkind p hp)

/-- A store opens what it has, and delivers it. -/
theorem exists_delivers [Room] (hblob : store.blob? ref = some file) (hend : store.ReachesEnd file)
    (hpairs : store.GivesPairs) :
    ∃ opened store', store.openBlob ref = (.ok opened, store') ∧
      opened.blob.Delivers store.tree file := by
  by_cases hdirectory : ∃ dir, store.kind = .directory dir
  · obtain ⟨dir, hkind⟩ := hdirectory
    obtain ⟨d, place, hd, hplace, hcontent⟩ := blob?_directory hkind hblob
    obtain ⟨id, store', hopen, -⟩ := openBlob_of_openAt hkind hd hplace
    exact ⟨_, store', hopen, rfl, OpenBlob.held_file hcontent,
      (OpenBlob.read_file hcontent 2).trans (OpenBlob.readFile_start (by decide)
        (Room.lt_bound (by decide)))⟩
  · have hkind : ∀ dir, store.kind ≠ .directory dir := fun dir h => hdirectory ⟨dir, h⟩
    rw [blob?_memory hkind] at hblob
    rw [openBlob_memory hkind, hblob]
    exact ⟨_, _, rfl, OpenBlob.delivers_memory store.tree (hend hkind) (hpairs hkind)⟩

/-- Streams that do not give pairs give a byte at a time, or nothing. -/
theorem givesPairs_or (store : Store) :
    store.GivesPairs ∨ (∀ dir, store.kind ≠ .directory dir) ∧
      (store.maxRead = some 0 ∨ store.maxRead = some 1) := by
  by_cases hpairs : store.GivesPairs
  · exact Or.inl hpairs
  · unfold GivesPairs at hpairs
    simp only [Classical.not_forall, Nat.not_le] at hpairs
    obtain ⟨hkind, m, hmax, hlt⟩ := hpairs
    match m, hlt with
    | 0, _ => exact Or.inr ⟨hkind, Or.inl hmax⟩
    | 1, _ => exact Or.inr ⟨hkind, Or.inr hmax⟩

/-- A stream that gives nothing at a time delivers nothing. -/
theorem exists_delivers_nil [Room] (hkind : ∀ dir, store.kind ≠ .directory dir)
    (hmax : store.maxRead = some 0) (hblob : store.blob? ref = some file)
    (hend : store.ReachesEnd file) :
    ∃ opened store', store.openBlob ref = (.ok opened, store') ∧
      opened.blob.Delivers store.tree [] := by
  rw [blob?_memory hkind] at hblob
  rw [openBlob_memory hkind, hblob, hmax]
  exact ⟨_, _, rfl, OpenBlob.isSound_memory (hend hkind), rfl,
    OpenBlob.read_first_memory store.tree (hend hkind)⟩

/-- A stream that gives a byte at a time begins with the first byte alone. -/
theorem exists_startsShort [Room] (hkind : ∀ dir, store.kind ≠ .directory dir)
    (hmax : store.maxRead = some 1) (hblob : store.blob? ref = some file)
    (hend : store.ReachesEnd file) :
    ∃ opened store', store.openBlob ref = (.ok opened, store') ∧
      ((OpenBlob.reader store.tree).read 2 opened.blob).1 = .ok (file.take 1) := by
  rw [blob?_memory hkind] at hblob
  rw [openBlob_memory hkind, hblob, hmax]
  exact ⟨_, _, rfl, OpenBlob.read_first_memory store.tree (hend hkind)⟩

end Store

namespace Layer

variable {store store' : Store} {ref : Reference} {opened : Store.Opened} {file : Bytes}

theorem computed_of_delivers [Room] {chunkSize : Int} (hn : 0 < chunkSize)
    (hroom : chunkSize < Room.bound)
    (hopen : store.openBlob ref = (.ok opened, store'))
    (h : opened.blob.Delivers store.tree file) :
    computed chunkSize store ref =
      ((Gzip.content file).map Digest.ofBytes).mapError Gzip.Fault.told := by
  have htally := tallyOf_map_digest store.tree chunkSize (.start opened.blob)
  rw [Gzip.Uncompressed.readAll_start_eq h.sound h.held h.two hn hroom] at htally
  unfold computed
  rw [hopen]
  dsimp only
  cases hresult : tallyOf store.tree chunkSize (.start opened.blob) with
  | error e =>
    rw [hresult] at htally
    cases hcontent : Gzip.content file with
    | error f =>
      rw [hcontent] at htally
      obtain rfl := Except.error.inj htally
      rfl
    | ok u =>
      rw [hcontent] at htally
      cases htally
  | ok tally =>
    rw [hresult] at htally
    cases hcontent : Gzip.content file with
    | error f =>
      rw [hcontent] at htally
      cases htally
    | ok u =>
      rw [hcontent] at htally
      exact congrArg Except.ok (Except.ok.inj htally)

end Layer

namespace Session

variable {s : Session} {k : Nat} {inner : Layer} {m : Option Digest} {opened : Store.Opened}
  {store' : Store} {file w : Bytes}

/-- A layer whose blob is delivered gives what the blob holds, or what is wrong with it. -/
theorem step_uncompressed [Room] (hlayer : s.layers[k]? = some (.derived inner m))
    (hopen : s.store.openBlob inner.reference = (.ok opened, store'))
    (h : opened.blob.Delivers s.store.tree file) :
    (s.step (.layer k .uncompressed)).1 =
      bytesOutcome ((Gzip.content file).mapError Gzip.Fault.told) := by
  rw [Store.tree_of_openBlob hopen] at h
  rw [step_layer s hlayer]
  dsimp only [callLayer, readUncompressed]
  rw [Layer.uncompressed_of_openBlob hopen]
  dsimp only
  rw [read_uncompressed, Gzip.Uncompressed.read_start_eq h.sound h.held h.two]
  cases Gzip.content file <;> rfl

/-- It has the diff id of what the blob holds, or none if something is wrong with it. -/
theorem step_diffId_of_delivers [Room] (hlayer : s.layers[k]? = some (.derived inner none))
    (hn : 0 < s.chunkSize) (hroom : s.chunkSize < Room.bound)
    (hopen : s.store.openBlob inner.reference = (.ok opened, store'))
    (h : opened.blob.Delivers s.store.tree file) :
    (s.step (.layer k .diffId)).1 =
      match Gzip.content file with
      | .ok u => .text (some (Digest.ofBytes u).toText)
      | .error f => .failed f.told := by
  rw [step_diffId hlayer, (Layer.diffId_derived_none s.chunkSize s.store inner).1,
    Layer.computed_of_delivers hn hroom hopen h]
  cases Gzip.content file <;> rfl

/-- If there is no room for a piece there is no diff id. -/
theorem step_diffId_of_noRoom [Room] (hlayer : s.layers[k]? = some (.derived inner none))
    (hroom : Room.bound ≤ s.chunkSize) (t : Option Text) :
    (s.step (.layer k .diffId)).1 ≠ .text t := by
  intro ht
  have hn : 0 < s.chunkSize := Int.lt_of_lt_of_le (Room.lt_bound (by decide)) hroom
  rw [step_layer s hlayer, callLayer_diffId_eq_text_iff] at ht
  obtain ⟨d, hd, -⟩ := ht
  have hsmall := ((Layer.diffId_eq_ok_iff hn s.store inner d).mp hd).1
  omega

/-- A layer whose stream fails before its end, or at it, gives nothing. -/
theorem step_uncompressed_of_failure [Room] (hlayer : s.layers[k]? = some (.derived inner m))
    (hopen : s.store.openBlob inner.reference = (.ok opened, store')) {stream : Stream}
    (hblob : opened.blob = .memory stream) {p : Nat} (hfail : stream.failAt = some p)
    (hle : p ≤ stream.position + stream.held.length) (w : Bytes) :
    (s.step (.layer k .uncompressed)).1 ≠ .bytes w := by
  intro hw
  rw [step_layer s hlayer] at hw
  obtain ⟨opened', store₁, hopened, hread⟩ := (readUncompressed_eq_bytes_iff s _ w).mp hw
  rw [Layer.uncompressed_of_openBlob hopen] at hopened
  cases hopened
  obtain ⟨⟨hsound, -⟩, -⟩ := (Gzip.Uncompressed.read_start_eq_ok_iff _ _ w).mp hread
  have hstream : OpenBlob.IsSound (.memory stream) := hblob ▸ hsound
  exact Nat.not_lt.mpr hle (hstream.2 p hfail)

/-- A layer whose blob begins with its first byte alone gives nothing. -/
theorem step_uncompressed_of_startsShort [Room] (hlayer : s.layers[k]? = some (.derived inner m))
    (hopen : s.store.openBlob inner.reference = (.ok opened, store')) {byte : UInt8}
    (h : ((OpenBlob.reader s.store.tree).read 2 opened.blob).1 = .ok [byte]) :
    (s.step (.layer k .uncompressed)).1 = .failed (Gzip.Fault.told (.notGzip [byte])) := by
  rw [Store.tree_of_openBlob hopen] at h
  rw [step_layer s hlayer]
  dsimp only [callLayer, readUncompressed]
  rw [Layer.uncompressed_of_openBlob hopen]
  dsimp only
  rw [read_uncompressed, Gzip.Uncompressed.read_of_startsShort (Prod.ext h rfl) (Or.inl rfl)]
  rfl

end Session

end LegacyImage
