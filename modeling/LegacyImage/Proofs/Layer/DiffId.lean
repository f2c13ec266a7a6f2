import LegacyImage.Proofs.Gzip.StreamView
import LegacyImage.Session

/-!
The diff id of a layer and the uncompressed stream that it hands out. Both read the compressed
content through the same decompressor, one in pieces of a given size and one all at once; whatever
the content and however the stream under it behaves, one succeeds exactly if the other does, and
the diff id is the digest of what the other gives (`diffId_eq_ok_iff`).
-/

namespace LegacyImage

/-! ## Streams that were just opened -/

namespace Gzip.Uncompressed

theorem fits_start [Room] (tree : Tree) (b : OpenBlob) :
    Gunzip.Fits (OpenBlob.view tree) (.start b) :=
  ⟨trivial, Stage.isSized_of_wanted 2 rfl (by decide), Nat.le_refl _⟩

theorem ahead_start [Room] (tree : Tree) (b : OpenBlob) :
    ahead (OpenBlob.view tree) (start b) = content (b.held tree) := by
  change ((Stage.start.content (b.held tree)).map (·.drop 0)).map ([] ++ ·) = _
  rw [map_nil_append, Stage.content_start]
  cases content (b.held tree) <;> rfl

/-- What reading all of a stream that was just opened comes to. -/
theorem read_start_eq_ok_iff [Room] (tree : Tree) (b : OpenBlob) (w : Bytes) :
    ((start b).read (OpenBlob.reader tree) (-1)).1 = .ok w ↔
      Gunzip.IsSound (OpenBlob.view tree) (.start b) ∧ content (b.held tree) = .ok w := by
  rw [read_all_eq_ok_iff (fits_start tree b), ahead_start]
  exact and_congr_left fun _ => and_iff_right rfl

end Gzip.Uncompressed

namespace Layer

/-- An uncompressed stream begins with the compressed content. -/
theorem compressed_of_uncompressed {store store' : Store} {inner : Layer} {m : Option Digest}
    {opened : OpenedUncompressed}
    (h : (derived inner m).uncompressed store = (.ok opened, store')) :
    ∃ b, opened.stream = .start b ∧ inner.compressed store = (.ok ⟨opened.id, b⟩, store') := by
  unfold uncompressed at h
  dsimp only at h
  split at h
  · cases h
  · rename_i compressed store₁ hcompressed
    cases h
    exact ⟨compressed.blob, rfl, hcompressed⟩

/-! ## Hashing -/

/-- The tally of a stream is there if reading it to the end succeeds, and is that of its pieces. -/
theorem tallyOf_eq_ok_iff [Room] (tree : Tree) (size : Int) (u : Gzip.Uncompressed OpenBlob)
    (d : Digest) :
    (∃ tally, tallyOf tree size u = .ok tally ∧ tally.digest = d) ↔
      ((Gzip.Uncompressed.reader (OpenBlob.reader tree)).drain size u).fault = none ∧
        .ofBytes ((Gzip.Uncompressed.reader (OpenBlob.reader tree)).drain size u).pieces.flatten =
          d := by
  obtain ⟨hfault, hdigest⟩ :=
    (Gzip.Uncompressed.reader (OpenBlob.reader tree)).hashing_drain size u
  rw [← hfault, ← hdigest]
  unfold tallyOf
  dsimp only
  cases h : ((Gzip.Uncompressed.reader (OpenBlob.reader tree)).hashing.drain size (.start u)).fault
    with
  | some e =>
    constructor
    · rintro ⟨tally, h, -⟩
      cases h
    · rintro ⟨h, -⟩
      cases h
  | none =>
    constructor
    · rintro ⟨tally, h, hd⟩
      cases h
      exact ⟨rfl, hd⟩
    · rintro ⟨-, hd⟩
      exact ⟨_, rfl, hd⟩

/-- A stream that was just opened can be hashed in pieces for which there is room exactly if it can
be read all at once, and its digest is that of what is read. -/
theorem tallyOf_start_eq_ok_iff [Room] (tree : Tree) {size : Int} (hn : 0 < size) (b : OpenBlob)
    (d : Digest) :
    (∃ tally, tallyOf tree size (.start b) = .ok tally ∧ tally.digest = d) ↔
      size < Room.bound ∧
        ∃ w, ((Gzip.Uncompressed.start b).read (OpenBlob.reader tree) (-1)).1 = .ok w ∧
          d = .ofBytes w := by
  rw [tallyOf_eq_ok_iff]
  constructor
  · rintro ⟨hfault, hd⟩
    have hroom : size < Room.bound :=
      Int.not_le.mp fun hroom => Gzip.Uncompressed.drain_of_noRoom hroom b hfault
    have hread := (Gzip.Uncompressed.readAll_eq_ok_iff_read hn hroom
      (Gzip.Uncompressed.fits_start tree b) _).mp ⟨hfault, rfl⟩
    exact ⟨hroom, _, hread, hd.symm⟩
  · rintro ⟨hroom, w, hread, hd⟩
    obtain ⟨hfault, hpieces⟩ := (Gzip.Uncompressed.readAll_eq_ok_iff_read hn hroom
      (Gzip.Uncompressed.fits_start tree b) w).mpr hread
    exact ⟨hfault, by rw [hpieces, hd]⟩

/-- A tally in pieces of any size but zero is that of all that the compressed content holds. -/
theorem content_of_tallyOf [Room] {tree : Tree} {size : Int} (hsize : size ≠ 0) {b : OpenBlob}
    {tally : Tally} (h : tallyOf tree size (.start b) = .ok tally) :
    ∃ u, Gzip.content (b.held tree) = .ok u ∧ tally.digest = .ofBytes u := by
  rcases Int.lt_or_gt_of_ne hsize with hneg | hpos
  · obtain ⟨hfault, hd⟩ := (tallyOf_eq_ok_iff tree size (.start b) _).mp ⟨tally, h, rfl⟩
    by_cases hall : size = -1
    · subst hall
      have hahead := Gzip.Uncompressed.ahead_of_drain_all
        (Gzip.Uncompressed.fits_start tree b) hfault
      rw [Gzip.Uncompressed.ahead_start] at hahead
      exact ⟨_, hahead, hd.symm⟩
    · -- no other size below zero is one of a piece
      cases hsizeFault : PieceSize.fault? size with
      | none =>
        have := PieceSize.neg_one_le_of_fault? hsizeFault
        omega
      | some fault =>
        have hread : (Gzip.Uncompressed.reader (OpenBlob.reader tree)).read size (.start b) =
            (.error (.size fault), .start b) := by
          change Gzip.Uncompressed.read (OpenBlob.reader tree) size ⟨.start b, [], false⟩ = _
          unfold Gzip.Uncompressed.read
          rw [if_neg Bool.false_ne_true, hsizeFault]
          rfl
        rw [Reader.drain, Reader.drainFrom_of_error _ hread] at hfault
        cases hfault
  · obtain ⟨-, u, hread, hd⟩ := (tallyOf_start_eq_ok_iff tree hpos b _).mp ⟨tally, h, rfl⟩
    exact ⟨u, ((Gzip.Uncompressed.read_start_eq_ok_iff tree b u).mp hread).2, hd⟩

/-- A tally in pieces of size zero is that of nothing. -/
theorem tallyOf_zero [Room] (tree : Tree) (b : OpenBlob) :
    tallyOf tree 0 (.start b) = .ok .empty := by
  have hread : (Gzip.Uncompressed.reader (OpenBlob.reader tree)).hashing.read 0
      (.start (.start b)) = (.ok [], .start (.start b)) := rfl
  unfold tallyOf Reader.drain
  dsimp only
  rw [Reader.drainFrom_of_end _ hread]
  rfl

/-- Whether a layer that remembers nothing gives its diff id, and which. -/
theorem diffId_eq_ok_iff [Room] {chunkSize : Int} (hn : 0 < chunkSize) (store : Store)
    (inner : Layer)
    (d : Digest) :
    ((derived inner none).diffId chunkSize store).1 = .ok d ↔
      chunkSize < Room.bound ∧
        ∃ opened store' w, (derived inner none).uncompressed store = (.ok opened, store') ∧
          (opened.stream.read (OpenBlob.reader store'.tree) (-1)).1 = .ok w ∧ d = .ofBytes w := by
  unfold diffId
  dsimp only
  cases hopen : (derived inner none).uncompressed store with
  | mk result store' =>
    cases result with
    | error e =>
      constructor
      · intro h
        cases h
      · rintro ⟨-, opened, store', w, h, -⟩
        cases h
    | ok opened =>
      obtain ⟨b, hstart, -⟩ := compressed_of_uncompressed hopen
      have htally := tallyOf_start_eq_ok_iff store'.tree hn b d
      rw [← hstart] at htally
      dsimp only
      constructor
      · intro h
        split at h
        · cases h
        · rename_i tally ht
          cases h
          obtain ⟨hroom, w, hread, hd⟩ := htally.mp ⟨tally, ht, rfl⟩
          exact ⟨hroom, opened, store', w, rfl, hread, hd⟩
      · rintro ⟨hroom, _, _, w, heq, hread, hd⟩
        cases heq
        obtain ⟨tally, ht, rfl⟩ := htally.mpr ⟨hroom, w, hread, hd⟩
        rw [ht]

end Layer

/-! ## What a caller sees -/

namespace Session

theorem read_uncompressed [Room] (tree : Tree) (size : Int) (id : Nat)
    (u : Gzip.Uncompressed OpenBlob) :
    ((Handle.uncompressed id u).read tree size).1 =
      (u.read (OpenBlob.reader tree) size).1.mapError .uncompressed := by
  unfold Handle.read
  dsimp only
  cases u.read (OpenBlob.reader tree) size with
  | mk result u' => cases result <;> rfl

/-- Reading all of a layer's uncompressed content in one piece. -/
theorem readUncompressed_eq_bytes_iff [Room] (s : Session) (l : Layer) (w : Bytes) :
    (s.readUncompressed l).1 = .bytes w ↔
      ∃ opened store', l.uncompressed s.store = (.ok opened, store') ∧
        (opened.stream.read (OpenBlob.reader store'.tree) (-1)).1 = .ok w := by
  unfold readUncompressed
  cases l.uncompressed s.store with
  | mk result store' =>
    cases result with
    | error e =>
      constructor
      · intro h
        cases h
      · rintro ⟨opened, store', h, -⟩
        cases h
    | ok opened =>
      have hread : ∀ result u, opened.stream.read (OpenBlob.reader store'.tree) (-1) = (result, u) →
          (bytesOutcome ((Handle.uncompressed opened.id opened.stream).read store'.tree (-1)).1 =
            .bytes w ↔ result = .ok w) := by
        intro result u h
        unfold Handle.read
        dsimp only
        rw [h]
        cases result with
        | error e => exact iff_of_false (by simp [bytesOutcome]) (by simp)
        | ok piece =>
          constructor
          · intro h
            cases h
            rfl
          · intro h
            cases h
            rfl
      rw [hread _ _ rfl]
      constructor
      · intro h
        exact ⟨opened, store', rfl, h⟩
      · rintro ⟨_, _, heq, h⟩
        cases heq
        exact h

theorem step_layer [Room] (s : Session) {k : Nat} {l : Layer} (hlayer : s.layers[k]? = some l)
    (call : LayerCall) : s.step (.layer k call) = s.callLayer k l call :=
  withEntry_of_some hlayer s _

theorem callLayer_diffId_eq_text_iff [Room] (s : Session) (k : Nat) (l : Layer) (t : Option Text) :
    (s.callLayer k l .diffId).1 = .text t ↔
      ∃ d, (l.diffId s.chunkSize s.store).1 = .ok d ∧ t = some d.toText := by
  dsimp only [callLayer]
  split
  · rename_i d l' store' h
    rw [h]
    constructor
    · intro h
      cases h
      exact ⟨d, rfl, rfl⟩
    · rintro ⟨_, h, rfl⟩
      cases h
      rfl
  · rename_i e l' store' h
    rw [h]
    constructor
    · intro h
      cases h
    · rintro ⟨_, h, -⟩
      cases h

/-- The diff id of a layer that remembers none is the digest of what its uncompressed stream gives
when it is read to the end in one call, and is there exactly if that succeeds and there is room for
a piece. How large a piece is plays no further part. -/
theorem diffId_iff_uncompressed [Room] (s : Session) {k : Nat} {inner : Layer}
    (hlayer : s.layers[k]? = some (.derived inner none)) (hpositive : 0 < s.chunkSize) :
    (∀ t, (s.step (.layer k .diffId)).1 = .text t ↔
      s.chunkSize < Room.bound ∧
        ∃ u, (s.step (.layer k .uncompressed)).1 = .bytes u ∧
          t = some (Digest.ofBytes u).toText) ∧
    ∀ c : Int, 0 < c → c < Room.bound → s.chunkSize < Room.bound →
      ∀ t, ({ s with chunkSize := c }.step (.layer k .diffId)).1 = .text t ↔
        (s.step (.layer k .diffId)).1 = .text t := by
  have hasked : ∀ c : Int, 0 < c → ∀ t,
      ({ s with chunkSize := c }.step (.layer k .diffId)).1 = .text t ↔
        c < Room.bound ∧
          ∃ u, (s.step (.layer k .uncompressed)).1 = .bytes u ∧
            t = some (Digest.ofBytes u).toText := by
    intro c hc t
    have hlayer' : ({ s with chunkSize := c } : Session).layers[k]? = _ := hlayer
    have hbytes := readUncompressed_eq_bytes_iff s (.derived inner none)
    rw [step_layer _ hlayer', callLayer_diffId_eq_text_iff, step_layer s hlayer]
    constructor
    · rintro ⟨d, hd, rfl⟩
      obtain ⟨hroom, opened, store', u, hopen, hread, rfl⟩ :=
        (Layer.diffId_eq_ok_iff hc s.store inner d).mp hd
      exact ⟨hroom, u, (hbytes u).mpr ⟨opened, store', hopen, hread⟩, rfl⟩
    · rintro ⟨hroom, u, hu, rfl⟩
      obtain ⟨opened, store', hopen, hread⟩ := (hbytes u).mp hu
      exact ⟨.ofBytes u, (Layer.diffId_eq_ok_iff hc s.store inner _).mpr
        ⟨hroom, opened, store', u, hopen, hread, rfl⟩, rfl⟩
  refine ⟨hasked s.chunkSize hpositive, ?_⟩
  intro c hc hroom hroom' t
  have hfirst := hasked s.chunkSize hpositive t
  rw [and_iff_right hroom'] at hfirst
  exact (hasked c hc t).trans ((and_iff_right hroom).trans hfirst.symm)

/-- A gzip file that holds the letter a. -/
def letterFile : Bytes :=
  [0x1F, 0x8B, 8, 0, 0, 0, 0, 0, 0, 0xFF, 1, 1, 0, 0xFE, 0xFF, 0x61, 0x43, 0xBE, 0xB7, 0xE8,
   1, 0, 0, 0]

/-- A store in memory with that file, and a layer derived from it. -/
def letterSession [Room] (chunkSize : Int) : Session :=
  let ref := some (Text.ofString "letter")
  ((start chunkSize (.ofKind .memory none none)).run
    [.putAs ref letterFile, .storedLayer ref, .derive 0]).2

theorem uncompressed_letterSession [Room] (chunkSize : Int) :
    ((letterSession chunkSize).step (.layer 1 .uncompressed)).1 = .bytes [0x61] := by
  rw [step_layer _ rfl]
  refine (readUncompressed_eq_bytes_iff _ _ _).mpr
    ⟨⟨0, .start (.memory (.ofBytes letterFile none none))⟩, _, rfl, ?_⟩
  refine (Gzip.Uncompressed.read_start_eq_ok_iff _ _ _).mpr ⟨⟨⟨rfl, ?_⟩, ?_⟩, rfl⟩
  · intro _ h
    cases h
  · rintro ⟨-, -, b, h⟩
    cases h

theorem diffId_iff_uncompressed_letterSession :
    ((letterSession 3).step (.layer 1 .diffId)).1 =
      .text (some (Digest.ofBytes [0x61]).toText) :=
  ((diffId_iff_uncompressed (letterSession 3) rfl (by decide)).1 _).mpr
    ⟨by decide, [0x61], uncompressed_letterSession 3, rfl⟩

/-- If there is no room for a piece, a stream can be read to the end and has no diff id. -/
theorem diffId_of_noRoom :
    0 < (letterSession (2 ^ 63)).chunkSize ∧
      (letterSession (2 ^ 63)).layers[1]? =
        some (.derived (.stored (some (Text.ofString "letter"))) none) ∧
      ¬ ((∃ t, ((letterSession (2 ^ 63)).step (.layer 1 .diffId)).1 = .text t) ↔
        ∃ u, ((letterSession (2 ^ 63)).step (.layer 1 .uncompressed)).1 = .bytes u) := by
  refine ⟨by decide, rfl, ?_⟩
  intro h
  obtain ⟨t, ht⟩ := h.mpr ⟨_, uncompressed_letterSession (2 ^ 63)⟩
  rw [step_layer _ rfl, callLayer_diffId_eq_text_iff] at ht
  obtain ⟨d, hd, -⟩ := ht
  have hroom := ((Layer.diffId_eq_ok_iff (by decide) _ _ d).mp hd).1
  exact absurd hroom (by decide)

end Session

end LegacyImage
