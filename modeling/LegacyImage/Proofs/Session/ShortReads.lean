import LegacyImage.Proofs.Layer.Outcome
import LegacyImage.Proofs.Session.PieceSizes
import LegacyImage.Proofs.Session.Remembering

/-!
Streams that give little at a time. As long as the two bytes that begin a gzip file come together, no
caller of a store in memory can tell how much its streams give at a time from fetching images, asking
for diff ids and reading uncompressed content to the end (`same_of_short_reads`). Where one byte comes
at a time, no gzip file can be read.
-/

namespace LegacyImage

/-! ## Stores -/

namespace Store

/-- A store in memory whose streams do not fail and give all that they are asked for. -/
structure IsUnlimited (store : Store) : Prop where
  kind : ∀ dir, store.kind ≠ .directory dir
  failAt : store.failAt = none
  maxRead : store.maxRead = none

/-- The store with streams that give at most so many bytes at a time. -/
def limited (store : Store) (m : Nat) : Store := { store with maxRead := some m }

variable {store : Store} {m : Nat}

theorem IsUnlimited.of_isLike {store' : Store} (h : store.IsUnlimited)
    (hlike : store.IsLike store') : store'.IsUnlimited :=
  ⟨fun dir hdir => h.kind dir (hlike.kind.trans hdir), hlike.failAt.symm.trans h.failAt,
    hlike.maxRead.symm.trans h.maxRead⟩

theorem IsUnlimited.kind_limited (h : store.IsUnlimited) (m : Nat) :
    ∀ dir, (store.limited m).kind ≠ .directory dir := h.kind

theorem put_limited (h : store.IsUnlimited) (m : Nat) (content : Bytes) :
    (store.limited m).put content = ((store.put content).1, (store.put content).2.limited m) := by
  rw [put_memory h.kind, put_memory (h.kind_limited m)]
  rfl

theorem putAs_limited (h : store.IsUnlimited) (m : Nat) (ref : Reference) (content : Bytes) :
    (store.limited m).putAs ref content =
      ((store.putAs ref content).1, (store.putAs ref content).2.limited m) := by
  rw [putAs_memory h.kind, putAs_memory (h.kind_limited m)]
  rfl

theorem makeDirectory_limited (store : Store) (m : Nat) (path : Path) :
    (store.limited m).makeDirectory path =
      ((store.makeDirectory path).1, (store.makeDirectory path).2.limited m) := by
  rfl

/-- Reading a blob comes to the same in pieces of any size that is a word. -/
theorem readBlob_limited [Room] (h : store.IsUnlimited) (hm : 1 ≤ m) {size : Int} (hn : 0 < size)
    (hword : size < PieceSize.wordBound) (ref : Reference) :
    (store.limited m).readBlob size ref =
      ((store.readBlob size ref).1, (store.readBlob size ref).2.limited m) := by
  have hread : ∀ (file : Bytes) (maxRead : Option Nat), maxRead ≠ some 0 →
      (Stream.reader.readAll size (.ofBytes file none maxRead)).1 = .ok file := by
    intro file maxRead hmax
    exact Stream.readAll_eq_rest (Int.ne_of_gt hn) rfl rfl hmax
      (Stream.exceedsWords_of_lt (Int.le_of_lt hn) hword _)
  have hmax : some m ≠ some 0 := by
    intro h
    cases h
    omega
  rw [readBlob_memory h.kind, readBlob_memory (h.kind_limited m)]
  have hblobs : (store.limited m).blobs = store.blobs := rfl
  have hfail : (store.limited m).failAt = none := h.failAt
  have hlimit : (store.limited m).maxRead = some m := rfl
  rw [hblobs, hfail, hlimit, h.failAt, h.maxRead]
  cases Table.get? store.blobs ref with
  | none => rfl
  | some file =>
    dsimp only
    rw [hread file _ hmax, hread file none (by decide)]
    rfl

end Store

/-! ## Layers and images -/

namespace Image

variable {store : Store}

theorem layer_limited (store : Store) (m : Nat) (ref : Reference) :
    layer (store.limited m) ref = ((layer store ref).1, (layer store ref).2.limited m) := by
  have hsource : (store.limited m).layerSource? = store.layerSource? := rfl
  unfold layer
  rw [hsource]
  cases store.layerSource? <;> rfl

theorem layersOf_limited (store : Store) (m : Nat) (ds : List Digest) :
    layersOf (store.limited m) ds = ((layersOf store ds).1, (layersOf store ds).2.limited m) := by
  induction ds generalizing store with
  | nil => rfl
  | cons d rest ih =>
    unfold layersOf
    rw [layer_limited]
    cases layer store (.ofDigest d) with
    | mk result store' =>
      cases result with
      | error e => rfl
      | ok l =>
        dsimp only
        rw [ih]
        cases layersOf store' rest with
        | mk result' store'' => cases result' <;> rfl

theorem layers_limited (store : Store) (m : Nat) (image : Image) :
    image.layers (store.limited m) =
      ((image.layers store).1, (image.layers store).2.limited m) := by
  unfold layers
  cases Manifest.layers image.manifest with
  | error e => rfl
  | ok ds => exact layersOf_limited store m ds

end Image

namespace Layer

variable {store : Store} {m : Nat}

theorem diffId_limited [Room] (h : store.IsUnlimited) (hm : 2 ≤ m) {chunkSize : Int}
    (hn : 0 < chunkSize) (l : Layer) :
    l.diffId chunkSize (store.limited m) =
      ((l.diffId chunkSize store).1, (l.diffId chunkSize store).2.1,
        (l.diffId chunkSize store).2.2.limited m) := by
  cases l with
  | stored ref => rfl
  | derived inner d =>
    cases d with
    | some d => rfl
    | none =>
      have hblobs : (store.limited m).blobs = store.blobs := rfl
      have htree : (store.limited m).tree = store.tree := rfl
      have hfail : (store.limited m).failAt = none := h.failAt
      have hlimit : (store.limited m).maxRead = some m := rfl
      rw [diffId_memory h.kind, diffId_memory (h.kind_limited m), hblobs, htree, hfail, hlimit,
        h.failAt, h.maxRead]
      cases Table.get? store.blobs inner.reference with
      | none => rfl
      | some file =>
        obtain ⟨result, hresult⟩ :=
          Gzip.Uncompressed.exists_readAll_start_memory store.tree file hn
        dsimp only
        rw [hresult (some m) fun k hk => Option.some.inj hk ▸ hm, hresult none nofun]
        cases result <;> rfl

theorem readToEnd_limited [Room] (h : store.IsUnlimited) (hm : 2 ≤ m) {size : Int} (hn : 0 < size)
    (l : Layer) : l.readToEnd (store.limited m) size = l.readToEnd store size := by
  cases l with
  | stored ref => rfl
  | derived inner d =>
    have hblobs : (store.limited m).blobs = store.blobs := rfl
    have hfail : (store.limited m).failAt = none := h.failAt
    have hlimit : (store.limited m).maxRead = some m := rfl
    unfold readToEnd
    rw [uncompressed_memory h.kind, uncompressed_memory (h.kind_limited m), hblobs, hfail, hlimit,
      h.failAt, h.maxRead]
    cases Table.get? store.blobs inner.reference with
    | none => rfl
    | some file =>
      obtain ⟨result, hresult⟩ :=
        Gzip.Uncompressed.exists_readAll_start_memory store.tree file hn
      have htree : ((store.limited m).opening inner.reference).tree = store.tree := rfl
      have htree' : (store.opening inner.reference).tree = store.tree := rfl
      dsimp only
      rw [htree, htree', hresult (some m) fun k hk => Option.some.inj hk ▸ hm, hresult none nofun]

end Layer

/-! ## Sessions -/

/-- Whether a step comes to the same however little streams give at a time, as long as it is so much:
it does not ask for pieces of content that streams may cut short, and has room for the pieces in which
it reads. -/
def Step.Tolerates (chunkSize : Int) (m : Nat) : Step → Prop
  | .fetch .. => chunkSize < PieceSize.wordBound
  | .layer _ .uncompressed | .layer _ .diffId => 2 ≤ m
  | .blob _ | .layer _ .compressed | .openCompressed _ | .openUncompressed _ => False
  | _ => True

namespace Session

variable {s : Session} {m : Nat}

/-- The session with streams that give at most so many bytes at a time. -/
def limited (s : Session) (m : Nat) : Session := s.after (s.store.limited m)

theorem withEntry_limited {α : Type} {table : List α} {number : Nat}
    {act act' : α → Outcome × Session}
    (h : ∀ entry, table[number]? = some entry →
      act' entry = ((act entry).1, (act entry).2.limited m)) :
    (s.limited m).withEntry table number act' =
      ((s.withEntry table number act).1, (s.withEntry table number act).2.limited m) := by
  unfold withEntry
  cases hentry : table[number]? with
  | none => rfl
  | some entry => exact h entry hentry

theorem callImage_limited (s : Session) (m : Nat) (image : Image) (call : ImageCall) :
    (s.limited m).callImage image call =
      ((s.callImage image call).1, (s.callImage image call).2.limited m) := by
  cases call with
  | layers =>
    have hlayers : image.layers (s.limited m).store = _ := Image.layers_limited s.store m image
    unfold callImage
    dsimp only
    rw [hlayers]
    cases image.layers s.store with
    | mk result store => cases result <;> rfl
  | layerByDigest ref =>
    have hlayer : Image.layer (s.limited m).store ref = _ := Image.layer_limited s.store m ref
    unfold callImage
    dsimp only
    rw [hlayer]
    cases Image.layer s.store ref with
    | mk result store => cases result <;> rfl
  | _ => rfl

theorem readUncompressed_limited [Room] (h : s.store.IsUnlimited) (hm : 2 ≤ m) (l : Layer) :
    (s.limited m).readUncompressed l =
      ((s.readUncompressed l).1, (s.readUncompressed l).2.limited m) := by
  cases l with
  | stored ref => rfl
  | derived inner d =>
    have hopen : (Layer.derived inner d).uncompressed (s.limited m).store = _ :=
      Layer.uncompressed_memory (h.kind_limited m) d
    have hblobs : (s.store.limited m).blobs = s.store.blobs := rfl
    have hfail : (s.store.limited m).failAt = none := h.failAt
    have hlimit : (s.store.limited m).maxRead = some m := rfl
    unfold readUncompressed
    rw [hopen, Layer.uncompressed_memory h.kind, hblobs, hfail, hlimit, h.failAt, h.maxRead]
    cases Table.get? s.store.blobs inner.reference with
    | none => rfl
    | some file =>
      dsimp only
      rw [read_uncompressed, read_uncompressed, Gzip.Uncompressed.read_start_memory,
        Gzip.Uncompressed.read_start_memory]
      · rfl
      · exact nofun
      · intro k hk
        exact Option.some.inj hk ▸ hm

/-- A step on a store whose streams give little at a time comes to the same. -/
theorem step_limited [Room] (h : s.store.IsUnlimited) (hm : 1 ≤ m) (hn : 0 < s.chunkSize)
    {step : Step}
    (hstep : step.Tolerates s.chunkSize m) :
    (s.limited m).step step = ((s.step step).1, (s.step step).2.limited m) := by
  cases step with
  | put content =>
    have hput : (s.limited m).store.put content = _ := Store.put_limited h m content
    unfold Session.step
    dsimp only
    rw [hput]
    cases s.store.put content with
    | mk result store => cases result <;> rfl
  | putAs ref content =>
    have hput : (s.limited m).store.putAs ref content = _ := Store.putAs_limited h m ref content
    unfold Session.step
    dsimp only
    rw [hput]
    cases s.store.putAs ref content with
    | mk result store => cases result <;> rfl
  | blob ref => exact hstep.elim
  | fetch ref mediaType =>
    have hread : (s.limited m).store.readBlob (s.limited m).chunkSize ref = _ :=
      Store.readBlob_limited h hm hn hstep ref
    unfold Session.step Image.fetch
    dsimp only
    rw [hread]
    cases s.store.readBlob s.chunkSize ref with
    | mk result store => cases result <;> rfl
  | image number call => exact withEntry_limited fun image _ => callImage_limited s m image call
  | derive number => exact withEntry_limited fun l _ => rfl
  | layer number call =>
    refine withEntry_limited fun l _ => ?_
    cases call with
    | compressed => exact hstep.elim
    | uncompressed => exact readUncompressed_limited h hstep l
    | diffId =>
      have hdiffId : l.diffId (s.limited m).chunkSize (s.limited m).store = _ :=
        Layer.diffId_limited h hstep hn l
      dsimp only [callLayer]
      rw [hdiffId]
      cases l.diffId s.chunkSize s.store with
      | mk result rest => cases result <;> rfl
    | size =>
      dsimp only [callLayer]
      cases l.size <;> rfl
    | describeInner =>
      dsimp only [callLayer]
      cases l.inner <;> rfl
    | _ => rfl
  | openCompressed number => exact hstep.elim
  | openUncompressed number => exact hstep.elim
  | read number size => exact withEntry_limited fun h _ => rfl
  | close number => exact withEntry_limited fun h _ => rfl
  | closed number => exact withEntry_limited fun h _ => rfl
  | writeFile path content =>
    unfold Session.step
    dsimp only
    have hwrite : (s.limited m).store.writeFile path content =
        ((s.store.writeFile path content).1, (s.store.writeFile path content).2.limited m) := rfl
    rw [hwrite]
    cases s.store.writeFile path content with
    | mk result store => cases result <;> rfl
  | makeDirectory path =>
    have hmake : (s.limited m).store.makeDirectory path = _ :=
      Store.makeDirectory_limited s.store m path
    unfold Session.step
    dsimp only
    rw [hmake]
    cases s.store.makeDirectory path with
    | mk result store => cases result <;> rfl
  | _ => rfl

/-- A run of steps that tolerate it does not tell how much streams give at a time. -/
theorem run_limited [Room] (h : s.store.IsUnlimited) (hm : 1 ≤ m) (hn : 0 < s.chunkSize)
    {steps : List Step} (hsteps : ∀ step ∈ steps, step.Tolerates s.chunkSize m) :
    (s.limited m).run steps = ((s.run steps).1, (s.run steps).2.limited m) := by
  induction steps generalizing s with
  | nil => rfl
  | cons first rest ih =>
    obtain ⟨hchunk, hlike⟩ := s.isLike_step first
    have hrest := ih (h.of_isLike hlike) (hchunk ▸ hn)
      (hchunk ▸ fun step hstep => hsteps step (List.mem_cons_of_mem first hstep))
    unfold run
    rw [step_limited h hm hn (hsteps first List.mem_cons_self)]
    dsimp only
    rw [hrest]

/-- On a store in memory whose streams do not fail, images that are fetched, diff ids and uncompressed
content that is read to the end are the same whether streams give all they are asked for or little at
a time. Fetching needs pieces whose size is a word, and streams that give a byte; the others need
streams that give two. -/
theorem same_of_short_reads [Room] (h : s.store.IsUnlimited) (hn : 0 < s.chunkSize) (hm : 1 ≤ m) :
    (∀ steps : List Step, (∀ step ∈ steps, step.Tolerates s.chunkSize m) →
      (s.limited m).run steps = ((s.run steps).1, (s.run steps).2.limited m)) ∧
    (2 ≤ m → ∀ (l : Layer) (size : Int), 0 < size →
      l.readToEnd (s.store.limited m) size = l.readToEnd s.store size) :=
  ⟨fun _ hsteps => run_limited h hm hn hsteps,
    fun hm l _ hsize => Layer.readToEnd_limited h hm hsize l⟩

theorem same_of_short_reads_letterSession :
    (((letterSession 3).limited 2).run [.layer 1 .uncompressed]).1 = [.bytes [0x61]] := by
  have hunlimited : (letterSession 3).store.IsUnlimited := by
    refine ⟨?_, rfl, rfl⟩
    intro dir h
    cases h
  have htolerates : ∀ step ∈ [Step.layer 1 .uncompressed],
      step.Tolerates (letterSession 3).chunkSize 2 := by
    intro step hstep
    rw [List.mem_singleton.mp hstep]
    exact Nat.le_refl 2
  rw [(same_of_short_reads hunlimited (by decide) (by decide)).1 _ htolerates]
  exact congrArg (fun outcome => [outcome]) (uncompressed_letterSession 3)

/-- Streams that give one byte at a time keep a gzip file from being read, and streams that give all
that they are asked for keep an image from being fetched in pieces whose size is no word. -/
theorem short_reads_tell :
    ((letterSession 3).step (.layer 1 .uncompressed)).1 = .bytes [0x61] ∧
      (((letterSession 3).limited 1).step (.layer 1 .uncompressed)).1 =
        .failed (.uncompressed (.file (.format (.notGzip [0x1F])))) ∧
      (∀ n, ((letterSession (2 ^ 63)).step (.fetch (some (Text.ofString "letter")) none)).1 ≠
        .image n) ∧
      (((letterSession (2 ^ 63)).limited 1).step
        (.fetch (some (Text.ofString "letter")) none)).1 = .image 0 := by
  have hkind : ∀ chunkSize dir, (letterSession chunkSize).store.kind ≠ .directory dir := by
    intro chunkSize dir h
    cases h
  refine ⟨uncompressed_letterSession 3, ?_, ?_, ?_⟩
  · have hshort : (OpenBlob.reader .empty).read 2 (.memory (.ofBytes letterFile none (some 1))) =
        (.ok [0x1F], .memory ⟨letterFile.drop 1, 1, none, some 1, false⟩) := rfl
    have hread := Gzip.Uncompressed.read_of_startsShort hshort (Or.inl (Eq.refl (-1)))
    have hlimited : ∀ dir, ((letterSession 3).limited 1).store.kind ≠ .directory dir := hkind 3
    rw [step_layer _ rfl]
    change (readUncompressed _ (.derived _ none)).1 = _
    unfold readUncompressed
    rw [Layer.uncompressed_memory hlimited]
    change bytesOutcome ((Handle.uncompressed 0 (.start (.memory (.ofBytes letterFile none
      (some 1))))).read .empty (-1)).1 = _
    rw [read_uncompressed, hread]
    rfl
  · intro n h
    obtain ⟨content, manifest, -, hall, -⟩ := exists_of_step_fetch (hkind (2 ^ 63)) h
    have hread : Stream.reader.read (2 ^ 63) (.ofBytes content none none) =
        (.error (.size .notAWord), .ofBytes content none none) := rfl
    change (Stream.reader.readAll (2 ^ 63) (.ofBytes content none none)).1 = _ at hall
    rw [Reader.readAll, Reader.drain, Reader.drainFrom_of_error _ hread] at hall
    cases hall
  · have hlimited : ∀ dir, ((letterSession (2 ^ 63)).limited 1).store.kind ≠ .directory dir :=
      hkind (2 ^ 63)
    have hread : (Stream.reader.readAll (2 ^ 63) (.ofBytes letterFile none (some 1))).1 =
        .ok letterFile :=
      Stream.readAll_eq_rest (by decide) rfl rfl (by decide) rfl
    have hget : Table.get? ((letterSession (2 ^ 63)).limited 1).store.blobs
        (some (Text.ofString "letter")) = some letterFile := rfl
    obtain ⟨s', hstep, -⟩ := step_fetch_memory hlimited hget hread none
    exact congrArg Prod.fst hstep

end Session

end LegacyImage
