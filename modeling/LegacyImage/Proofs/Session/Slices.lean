import LegacyImage.Proofs.Gzip.Pieces
import LegacyImage.Proofs.Layer.Delivery
import LegacyImage.Proofs.Session.Ownership
import LegacyImage.Proofs.Session.ShortReads

/-!
Reading a stream that is held, piece by piece. The answers are the slices of the content that the blob
had when the stream was opened, one after the other, whatever is done between the reads
(`Session.reads_are_slices`): no step but a read or a close of the stream itself touches it, and every
read cuts its piece off what is left.
-/

namespace LegacyImage

/-! ## Slices -/

/-- What a read of that size gives of this content, all of it if the size is negative, and what is left
after that. -/
def cut (size : Int) (content : Bytes) : Bytes × Bytes :=
  if size < 0 then (content, []) else (content.take size.toNat, content.drop size.toNat)

theorem cut_of_neg {size : Int} (h : size < 0) (content : Bytes) :
    cut size content = (content, []) := if_pos h

theorem cut_of_nonneg {size : Int} (h : 0 ≤ size) (content : Bytes) :
    cut size content = (content.take size.toNat, content.drop size.toNat) :=
  if_neg (Int.not_lt.mpr h)

/-- The slices of a content that have these sizes, one after the other. -/
def slices : List Int → Bytes → List Bytes
  | [], _ => []
  | size :: sizes, content => (cut size content).1 :: slices sizes (cut size content).2

/-- The size of the piece that a step reads from the stream of that number. -/
def Step.readOf? (n : Nat) : Step → Option Int
  | .read number size => if number = n then some size else none
  | _ => none

theorem Step.readOf?_eq_some_iff {n : Nat} {step : Step} {size : Int} :
    step.readOf? n = some size ↔ step = .read n size := by
  cases step with
  | read number size' =>
    rw [readOf?, Option.ite_none_right_eq_some, Option.some.injEq, Step.read.injEq]
  | _ => exact iff_of_false nofun nofun

/-- Whether a step leaves the stream of that number open and reads no piece from it but of a size that
is admitted. -/
def Step.Spares (n : Nat) (admitted : Int → Prop) (step : Step) : Prop :=
  step ≠ .close n ∧ ∀ size, step.readOf? n = some size → admitted size

/-! ## One read -/

/-- A stream in memory that gives all that it is asked for gives a piece of every size that is not too
large for a word. -/
theorem Stream.read_unlimited (content : Bytes) (position : Nat) {size : Int}
    (hword : size < PieceSize.wordBound) :
    ∃ position', read size ⟨content, position, none, none, false⟩ =
      (.ok (cut size content).1, ⟨(cut size content).2, position', none, none, false⟩) := by
  rcases Int.lt_trichotomy size 0 with hneg | rfl | hpos
  · have hbounds : bounds size ⟨content, position, none, none, false⟩ = [] := by
      simp [bounds, hneg]
    rw [cut_of_neg hneg]
    refine ⟨position + content.length, ?_⟩
    simp [read, exceedsWords, piece, hbounds, Int.ne_of_lt hneg]
  · exact ⟨position, rfl⟩
  · have hbounds : bounds size ⟨content, position, none, none, false⟩ = [size.toNat] := by
      simp [bounds, Int.not_lt.mpr (Int.le_of_lt hpos)]
    have hsmall : ¬ PieceSize.wordBound ≤ size.toNat := by omega
    rw [cut_of_nonneg (Int.le_of_lt hpos)]
    refine ⟨position + (content.take size.toNat).length, ?_⟩
    simp [read, exceedsWords, piece, hbounds, hsmall, Int.ne_of_gt hpos]

/-- What is still to come from a file that is uncompressed from memory has nothing to do with what is
stored. -/
theorem Gzip.Uncompressed.Holds.of_isMemory [Room] {u : Gzip.Uncompressed OpenBlob}
    {content : Bytes}
    (hmemory : u.gunzip.source.isMemory = true) {tree : Tree}
    (h : u.Holds (OpenBlob.view tree) content) (tree' : Tree) :
    u.Holds (OpenBlob.view tree') content := by
  obtain ⟨⟨source, buffer, stage, delivered⟩, ready, closed⟩ := u
  cases source with
  | file f => cases hmemory
  | memory stream =>
    have hread : (OpenBlob.reader tree').read 2 (.memory stream) =
        (OpenBlob.reader tree).read 2 (.memory stream) := rfl
    have hdata : (OpenBlob.view tree').data (.memory stream) =
        (OpenBlob.view tree).data (.memory stream) := by
      rw [OpenBlob.data_view, OpenBlob.data_view]
      rfl
    obtain ⟨hopen, hsound, hpairs⟩ := h.sound
    have hahead := h.ahead
    unfold Gunzip.StartsShort at hpairs
    unfold Uncompressed.ahead Gunzip.ahead at hahead
    refine ⟨⟨trivial, h.fits.stage, h.fits.delivered⟩, ⟨hopen, hsound, ?_⟩, ?_⟩
    · unfold Gunzip.StartsShort
      rw [hread]
      exact hpairs
    · unfold Uncompressed.ahead Gunzip.ahead
      rw [hdata]
      exact hahead

/-- When the stream over a blob that is delivered was just opened, all that the blob holds is still to
come from it. -/
theorem OpenBlob.Delivers.holds_start [Room] {tree : Tree} {b : OpenBlob} {file w : Bytes}
    (h : b.Delivers tree file) (hcontent : Gzip.content file = .ok w) :
    (Gzip.Uncompressed.start b).Holds (OpenBlob.view tree) w := by
  have hone : ∀ first, file ≠ [first] := by
    rintro first rfl
    rw [Gzip.content_singleton] at hcontent
    cases hcontent
  refine ⟨Gzip.Uncompressed.fits_start tree b,
    ⟨rfl, Gzip.Uncompressed.isSound_start h.sound h.two hone⟩, ?_⟩
  rw [Gzip.Uncompressed.ahead_start, h.held]
  exact hcontent

namespace Handle

/-- Whether just this content is left in a compressed stream in memory, which gives all that it is
asked for. -/
def IsLeftRaw (content : Bytes) : Handle → Prop
  | compressed _ blob => ∃ position, blob = .memory ⟨content, position, none, none, false⟩
  | uncompressed .. => False

/-- Whether just this content is still to come from an uncompressed stream over one in memory. -/
def IsLeftUnpacked [Room] (content : Bytes) : Handle → Prop
  | compressed .. => False
  | uncompressed _ u =>
    u.gunzip.source.isMemory = true ∧ ∀ tree, u.Holds (OpenBlob.view tree) content

/-- Whether reading pieces of the sizes that are admitted cuts them off what is left in a stream,
whatever is stored. -/
def CutsOff [Room] (admitted : Int → Prop) (left : Bytes → Handle → Prop) : Prop :=
  ∀ (content : Bytes) (h : Handle), left content h → ∀ (tree : Tree) (size : Int), admitted size →
    ∃ h', h.read tree size = (.ok (cut size content).1, h') ∧ left (cut size content).2 h'

theorem cutsOff_raw [Room] : CutsOff (· < PieceSize.wordBound) IsLeftRaw := by
  intro content h hleft tree size hword
  cases h with
  | compressed id blob =>
    obtain ⟨position, rfl⟩ := hleft
    obtain ⟨position', hread⟩ := Stream.read_unlimited content position hword
    refine ⟨.compressed id (.memory ⟨(cut size content).2, position', none, none, false⟩), ?_,
      position', rfl⟩
    rw [read, OpenBlob.read, hread]
  | uncompressed id u => exact hleft.elim

theorem cutsOff_unpacked [Room] :
    CutsOff (fun size => -1 ≤ size ∧ size < Room.bound) IsLeftUnpacked := by
  intro content h hleft tree size hsize
  obtain ⟨hleast, hroom⟩ := hsize
  cases h with
  | compressed id blob => exact hleft.elim
  | uncompressed id u =>
    obtain ⟨hmemory, hholds⟩ := hleft
    have hread : ∃ u', u.read (OpenBlob.reader tree) size = (.ok (cut size content).1, u') ∧
        u'.Holds (OpenBlob.view tree) (cut size content).2 := by
      by_cases hn : 0 ≤ size
      · rw [cut_of_nonneg hn]
        exact (hholds tree).read hn hroom
      · obtain rfl : size = -1 := by omega
        exact (hholds tree).read_all
    obtain ⟨u', hread, hholds'⟩ := hread
    have hkept := (Gzip.Uncompressed.keeps_read (OpenBlob.keeps_isMemory tree) size u).2
    rw [hread, hmemory] at hkept
    refine ⟨.uncompressed id u', ?_, hkept, hholds'.of_isMemory hkept⟩
    rw [read, hread]

end Handle

namespace Session

variable {s : Session} {n k : Nat}

/-! ## Steps between the reads -/

/-- Only a read or a close of a stream changes it. -/
theorem stream_step [Room] {h : Handle} (hn : s.streams[n]? = some h) {step : Step}
    (hread : step.readOf? n = none) (hclose : step ≠ .close n) :
    (s.step step).2.streams[n]? = some h := by
  cases huse : step.streamUse with
  | none =>
    rw [(sameStreams_step huse s).1]
    exact hn
  | own =>
    rw [(settles_step huse s).1]
    exact hn
  | new =>
    rcases handsOut_step huse s with ⟨-, -, hsame⟩ | ⟨h', -, hstreams, -⟩
    · rw [hsame.1]
      exact hn
    · obtain ⟨hlt, -⟩ := List.getElem?_eq_some_iff.mp hn
      rw [hstreams, List.getElem?_append_left hlt]
      exact hn
  | held =>
    cases step with
    | read m size =>
      have hne : m ≠ n := by
        rintro rfl
        exact absurd hread (by simp [Step.readOf?])
      refine withEntry_cases (P := fun r => r.2.streams[n]? = some h) hn ?_
      intro h' _
      exact (List.getElem?_set_ne hne).trans hn
    | close m =>
      have hne : m ≠ n := fun heq => hclose (heq ▸ rfl)
      refine withEntry_cases (P := fun r => r.2.streams[n]? = some h) hn ?_
      intro h' _
      exact (List.getElem?_set_ne hne).trans hn
    | layer number call => cases call <;> cases huse
    | _ => cases huse

/-- A read of a stream goes on with what it left of it. -/
theorem step_read_of_stream [Room] {h h' : Handle} (hn : s.streams[n]? = some h) {size : Int}
    {piece : Bytes} (hread : h.read s.store.tree size = (.ok piece, h')) :
    (s.step (.read n size)).1 = .bytes piece ∧
      (s.step (.read n size)).2.streams[n]? = some h' := by
  obtain ⟨hlt, -⟩ := List.getElem?_eq_some_iff.mp hn
  have hstep : s.step (.read n size) = (.bytes piece, { s with streams := s.streams.set n h' }) := by
    simp only [step, withEntry, hn, hread, bytesOutcome]
  rw [hstep]
  exact ⟨rfl, List.getElem?_set_self hlt⟩

/-! ## All reads -/

/-- The answers to the reads of the stream of that number, in their order. -/
def answers (n : Nat) (history : List (Step × Outcome)) : List Outcome :=
  history.filterMap fun event => (event.1.readOf? n).map fun _ => event.2

/-- The answers to the reads of a stream are the slices of what was left in it. -/
theorem answers_run [Room] {admitted : Int → Prop} {left : Bytes → Handle → Prop}
    (hcuts : Handle.CutsOff admitted left) {h : Handle} (hn : s.streams[n]? = some h)
    {content : Bytes} (hleft : left content h) {steps : List Step}
    (hsteps : ∀ step ∈ steps, Step.Spares n admitted step) :
    answers n (steps.zip (s.run steps).1) =
      (slices (steps.filterMap (Step.readOf? n)) content).map .bytes := by
  -- the stream is at any time as the last read left it, so what is left in it is what no slice took
  induction steps generalizing s content h with
  | nil => rfl
  | cons first rest ih =>
    obtain ⟨hclose, hsize⟩ := hsteps first List.mem_cons_self
    have hrest : ∀ step ∈ rest, Step.Spares n admitted step :=
      fun step hstep => hsteps step (List.mem_cons_of_mem first hstep)
    have hrun : (first :: rest).zip (s.run (first :: rest)).1 =
        (first, (s.step first).1) :: rest.zip ((s.step first).2.run rest).1 := rfl
    rw [hrun, answers]
    cases hread : first.readOf? n with
    | none =>
      rw [List.filterMap_cons_none (by simp [hread]), List.filterMap_cons_none hread]
      exact ih (stream_step hn hread hclose) hleft hrest
    | some size =>
      obtain ⟨h', hpiece, hleft'⟩ := hcuts content h hleft s.store.tree size (hsize size hread)
      obtain rfl := Step.readOf?_eq_some_iff.mp hread
      obtain ⟨houtcome, hn'⟩ := step_read_of_stream hn hpiece
      rw [List.filterMap_cons_some (b := (s.step (.read n size)).1) (by simp [hread]),
        List.filterMap_cons_some hread, slices, List.map_cons, houtcome]
      exact congrArg _ (ih hn' hleft' hrest)

/-- Whether a step hands out a stream whose answers are the slices of this content, whatever is done as
long as the stream is not closed and the sizes are admitted. -/
def HandsOutSlices [Room] (s : Session) (opening : Step) (admitted : Int → Prop) (content : Bytes) :
    Prop :=
  let n := s.streams.length
  (s.step opening).1 = .stream n ∧
    ∀ steps : List Step, (∀ step ∈ steps, step.Spares n admitted) →
      answers n (steps.zip ((s.step opening).2.run steps).1) =
        (slices (steps.filterMap (Step.readOf? n)) content).map .bytes

theorem handsOutSlices_of_addStream [Room] {opening : Step} {store : Store} {h : Handle}
    (hstep : s.step opening = (s.after store).addStream h) {admitted : Int → Prop}
    {left : Bytes → Handle → Prop} (hcuts : Handle.CutsOff admitted left) {content : Bytes}
    (hleft : left content h) : s.HandsOutSlices opening admitted content := by
  unfold HandsOutSlices
  rw [hstep]
  refine ⟨rfl, ?_⟩
  intro steps hsteps
  exact answers_run hcuts List.getElem?_concat_length hleft hsteps

/-- On a store in memory whose streams do not fail and give all that they are asked for, a layer whose
blob is there hands out streams whose answers are the slices of the blob, for sizes that are no larger
than a word, or negative for all that is left. If the layer is derived and the blob is a gzip file, it
hands out streams whose answers are the slices of what that holds, for sizes for which there is room,
or -1 for all that is left. What is done with the session otherwise, between the reads, makes no
difference to them. -/
theorem reads_are_slices [Room] (hstore : s.store.IsUnlimited) {l : Layer}
    (hlayer : s.layers[k]? = some l) {file : Bytes}
    (hblob : s.store.blob? l.reference = some file) :
    s.HandsOutSlices (.openCompressed k) (· < PieceSize.wordBound) file ∧
      ∀ inner m w, l = .derived inner m → Gzip.content file = .ok w →
        s.HandsOutSlices (.openUncompressed k)
          (fun size => -1 ≤ size ∧ size < Room.bound) w := by
  rw [Store.blob?_memory hstore.kind] at hblob
  refine ⟨?_, ?_⟩
  · have hstep : s.step (.openCompressed k) =
        (s.after (s.store.opening l.reference)).addStream
          (.compressed s.store.closed.size (.memory (.ofBytes file none none))) := by
      simp only [step, withEntry, hlayer, openCompressed, Layer.compressed_eq_openBlob,
        Store.openBlob_memory hstore.kind, hblob, hstore.failAt, hstore.maxRead]
    exact handsOutSlices_of_addStream hstep Handle.cutsOff_raw ⟨0, rfl⟩
  · rintro inner m w rfl hcontent
    have hstep : s.step (.openUncompressed k) =
        (s.after (s.store.opening inner.reference)).addStream
          (.uncompressed s.store.closed.size
            (.start (.memory (.ofBytes file none none)))) := by
      have hfile : Table.get? s.store.blobs inner.reference = some file := hblob
      simp only [step, withEntry, hlayer, openUncompressed, Layer.uncompressed_memory hstore.kind,
        hfile, hstore.failAt, hstore.maxRead]
    have hdelivers : ∀ tree, (OpenBlob.memory (.ofBytes file none none)).Delivers tree file := by
      intro tree
      refine OpenBlob.delivers_memory tree ?_ ?_ <;> (intro bound h; cases h)
    exact handsOutSlices_of_addStream hstep Handle.cutsOff_unpacked
      ⟨rfl, fun tree => (hdelivers tree).holds_start hcontent⟩

theorem isUnlimited_letterSession [Room] : (letterSession 3).store.IsUnlimited := by
  refine ⟨?_, rfl, rfl⟩
  intro dir h
  cases h

/-- Reads of the letter and of the file that holds it, between which the file is overwritten, read
again, opened and closed. -/
theorem reads_are_slices_letterSession :
    let meanwhile := [Step.putAs (some (Text.ofString "letter")) [], .layer 1 .uncompressed,
      .openCompressed 1, .close 1]
    let unpacked := (letterSession 3).step (.openUncompressed 1)
    let steps := .read 0 0 :: meanwhile ++ [.read 0 1, .read 0 (-1)]
    let raw := (letterSession 3).step (.openCompressed 1)
    let steps' := .read 0 2 :: meanwhile ++ [.read 0 (-7), .read 0 1]
    answers 0 (steps.zip (unpacked.2.run steps).1) = [.bytes [], .bytes [0x61], .bytes []] ∧
      answers 0 (steps'.zip (raw.2.run steps').1) =
        [.bytes [0x1F, 0x8B], .bytes (letterFile.drop 2), .bytes []] := by
  intro meanwhile unpacked steps raw steps'
  have hblob : (letterSession 3).store.blob? (some (Text.ofString "letter")) = some letterFile := rfl
  obtain ⟨⟨-, hraw⟩, hunpacked⟩ := reads_are_slices (k := 1) isUnlimited_letterSession rfl hblob
  obtain ⟨-, hunpacked⟩ := hunpacked _ none [0x61] rfl rfl
  have hspares : ∀ step ∈ steps,
      step.Spares 0 fun size => -1 ≤ size ∧ size < Room.bound := by
    simp [steps, meanwhile, Step.Spares, Step.readOf?, Room.bound]
  have hspares' : ∀ step ∈ steps', step.Spares 0 (· < PieceSize.wordBound) := by
    simp [steps', meanwhile, Step.Spares, Step.readOf?, PieceSize.wordBound]
  exact ⟨hunpacked steps hspares, hraw steps' hspares'⟩

/-- A size that is no word is none that a stream can be read by, though there is little to give. -/
theorem slices_of_noWord :
    let s := letterSession 3
    let steps := [Step.read 0 (2 ^ 63)]
    s.store.IsUnlimited ∧
      s.layers[1]? = some (.derived (.stored (some (Text.ofString "letter"))) none) ∧
      s.store.blob? (some (Text.ofString "letter")) = some letterFile ∧
      Gzip.content letterFile = .ok [0x61] ∧
      (s.step (.openUncompressed 1)).1 = .stream 0 ∧ (s.step (.openCompressed 1)).1 = .stream 0 ∧
      answers 0 (steps.zip ((s.step (.openUncompressed 1)).2.run steps).1) ≠
        (slices [2 ^ 63] [0x61]).map .bytes ∧
      answers 0 (steps.zip ((s.step (.openCompressed 1)).2.run steps).1) ≠
        (slices [2 ^ 63] letterFile).map .bytes := by
  intro s steps
  refine ⟨isUnlimited_letterSession, rfl, rfl, rfl, rfl, rfl, ?_, ?_⟩
  · intro h
    cases h
  · intro h
    cases h

end Session

end LegacyImage
