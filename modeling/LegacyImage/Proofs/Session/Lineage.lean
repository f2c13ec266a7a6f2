import LegacyImage.Proofs.Layer.Delivery
import LegacyImage.Proofs.Session.Remembering

/-!
Layers that are derived again and again. All that a layer answers about its compressed content comes
from the stored layer at the bottom, through however many layers are between; its uncompressed
content is that of the same blob, unpacked once, by the outermost layer alone
(`same_at_any_depth`). Over a run every layer stays derived from the same stored layer, as often as
it was when it was made (`Records.run`).
-/

namespace LegacyImage

/-! ## Asking once -/

/-- The path of the file that an entry of the log says is opened. -/
def LogEntry.opening? : LogEntry → Option Path
  | openingBlob path => some path
  | _ => none

namespace Store

/-- The files that a store noted it was opening, first one first. -/
def openings (store : Store) : List Path := store.log.toList.filterMap LogEntry.opening?

/-- Whether a store was asked for the blob of a reference, once, and for nothing else: a store in
memory keeps a list of the blobs and one of the layers that it was asked for, and a directory notes
the file that belongs to a digest. -/
structure AskedOnce (before : Store) (ref : Reference) (after : Store) : Prop where
  memory : (∀ dir, before.kind ≠ .directory dir) → after.asked = before.asked.push ref
  directory : ∀ dir, before.kind = .directory dir →
    after.openings = before.openings ++ (ref.digest?.map dir.pathOf).toList
  layersAsked : after.layersAsked = before.layersAsked

variable {store store' : Store} {ref : Reference}

theorem openings_note (store : Store) (entry : LogEntry) :
    (store.note entry).openings = store.openings ++ entry.opening?.toList := by
  unfold openings note
  cases h : entry.opening? <;> simp [h]

theorem askedOnce_openBlob (store : Store) (ref : Reference) :
    store.AskedOnce ref (store.openBlob ref).2 := by
  refine ⟨?_, ?_, ?_⟩
  · intro hkind
    rw [openBlob_memory hkind]
    cases Table.get? store.blobs ref <;> rfl
  · intro dir hkind
    unfold openBlob
    rw [hkind]
    dsimp only
    cases ref.digest? with
    | none => exact (List.append_nil _).symm
    | some d =>
      have hnoted := store.openings_note (.openingBlob (dir.pathOf d))
      dsimp only
      split <;> exact hnoted
  · unfold openBlob
    split
    · split
      · rfl
      · dsimp only
        split <;> rfl
    · dsimp only
      split <;> rfl

theorem AskedOnce.close (h : store.AskedOnce ref store') (id : Nat) :
    store.AskedOnce ref (store'.close id) := ⟨h.memory, h.directory, h.layersAsked⟩

/-- Entries about anything else than opening a file make no difference. -/
theorem AskedOnce.note (h : store.AskedOnce ref store') {entry : LogEntry}
    (hentry : entry.opening? = none) : store.AskedOnce ref (store'.note entry) := by
  refine ⟨h.memory, ?_, h.layersAsked⟩
  intro dir hkind
  rw [openings_note, hentry, h.directory dir hkind]
  exact List.append_nil _

end Store

/-! ## Layers at any depth -/

namespace Layer

def depth : Layer → Nat
  | stored _ => 0
  | derived inner _ => inner.depth + 1

/-- The reference of a layer, and how often it was derived. -/
def lineage (l : Layer) : Reference × Nat := (l.reference, l.depth)

variable {store : Store} {inner inner' : Layer}

theorem mediaType_eq (l : Layer) : l.mediaType = MediaType.layer := by
  induction l with
  | stored ref => rfl
  | derived inner m ih => exact ih

theorem size_eq (l : Layer) : l.size = .error (.unknownSize l.reference) := by
  induction l with
  | stored ref => rfl
  | derived inner m ih => exact ih

/-- What is under a derived layer makes a difference to its uncompressed content only by its
reference, and what the layer remembers makes none. -/
theorem uncompressed_congr (h : inner.reference = inner'.reference) (m m' : Option Digest) :
    (derived inner m).uncompressed store = (derived inner' m').uncompressed store := by
  unfold uncompressed
  dsimp only
  rw [compressed_eq_openBlob, compressed_eq_openBlob, h]

theorem askedOnce_uncompressed (store : Store) (inner : Layer) (m : Option Digest) :
    store.AskedOnce inner.reference ((derived inner m).uncompressed store).2 := by
  have hasked := store.askedOnce_openBlob inner.reference
  unfold uncompressed
  dsimp only
  rw [compressed_eq_openBlob]
  generalize store.openBlob inner.reference = result at hasked ⊢
  obtain ⟨e | opened, after⟩ := result
  · exact hasked
  · exact hasked

/-- What is under a derived layer makes a difference to the diff id that it computes, and to what
becomes of the store, only by its reference. -/
theorem diffId_congr_reference [Room] (h : inner.reference = inner'.reference) (chunkSize : Int)
    (store : Store) :
    ((derived inner none).diffId chunkSize store).1 =
        ((derived inner' none).diffId chunkSize store).1 ∧
      ((derived inner none).diffId chunkSize store).2.2 =
        ((derived inner' none).diffId chunkSize store).2.2 := by
  unfold diffId
  dsimp only
  rw [uncompressed_congr h none none]
  cases (derived inner' none).uncompressed store with
  | mk result store' =>
    cases result with
    | error e => exact ⟨rfl, rfl⟩
    | ok opened =>
      dsimp only
      cases tallyOf store'.tree chunkSize opened.stream with
      | error e => exact ⟨rfl, rfl⟩
      | ok tally =>
        refine ⟨rfl, ?_⟩
        dsimp only [reference]
        rw [h]

theorem askedOnce_diffId [Room] (chunkSize : Int) (store : Store) (inner : Layer) :
    store.AskedOnce inner.reference ((derived inner none).diffId chunkSize store).2.2 := by
  have hasked := askedOnce_uncompressed store inner none
  unfold diffId
  dsimp only
  generalize (derived inner none).uncompressed store = result at hasked ⊢
  obtain ⟨e | opened, after⟩ := result
  · exact hasked
  · dsimp only
    split
    · exact hasked.close opened.id
    · -- the note is about a digest, not about a file
      exact (hasked.close opened.id).note rfl

/-- A layer that was asked for its diff id is derived from the same, as often as before. -/
theorem lineage_diffId [Room] (chunkSize : Int) (store : Store) (l : Layer) :
    (l.diffId chunkSize store).2.1.lineage = l.lineage := by
  cases l with
  | stored ref => rfl
  | derived inner m =>
    cases m with
    | some d => rfl
    | none =>
      rw [(diffId_derived_none chunkSize store inner).2.1]
      cases computed chunkSize store inner.reference <;> rfl

theorem eq_stored_of_lineage {l : Layer} {ref : Reference} (h : l.lineage = (ref, 0)) :
    l = .stored ref := by
  cases l with
  | stored given => exact congrArg stored (Prod.mk.inj h).1
  | derived inner m => cases (Prod.mk.inj h).2

theorem exists_derived_of_lineage {l : Layer} {ref : Reference} {n : Nat}
    (h : l.lineage = (ref, n)) (hn : 1 ≤ n) :
    ∃ inner m, l = .derived inner m ∧ inner.reference = ref := by
  obtain ⟨href, rfl⟩ := Prod.mk.inj h
  cases l with
  | stored given => cases hn
  | derived inner m => exact ⟨inner, m, rfl, href⟩

end Layer

namespace Session

variable {s : Session} {ref : Reference} {history : List (Step × Outcome)} {n k : Nat}

/-! ## Where layers come from -/

/-- Whether some steps with their outcomes tell that the layer of number `k` came of the stored
layer of a reference by deriving `n` times. -/
inductive Derived (history : List (Step × Outcome)) (ref : Reference) : Nat → Nat → Prop
  | stored {k : Nat} {given : Reference} :
    (.storedLayer ref, .layer k given) ∈ history → Derived history ref 0 k
  | derive {n j k : Nat} {given : Reference} : Derived history ref n j →
    (.derive j, .layer k given) ∈ history → Derived history ref (n + 1) k

def lineage? (s : Session) (k : Nat) : Option (Reference × Nat) := s.layers[k]?.map Layer.lineage

theorem lineage?_eq_some_iff {p : Reference × Nat} :
    s.lineage? k = some p ↔ ∃ l, s.layers[k]? = some l ∧ l.lineage = p := Option.map_eq_some_iff

/-- No step changes what a layer is derived from. -/
theorem lineage?_step [Room] {p : Reference × Nat} (h : s.lineage? k = some p) (step : Step) :
    (s.step step).2.lineage? k = some p := by
  by_cases hstoring : step.IsStoring
  · rw [step_of_isStoring hstoring]
    exact h
  by_cases hdiffId : ∃ j, step = .layer j .diffId
  · obtain ⟨j, rfl⟩ := hdiffId
    by_cases hj : j = k
    · subst hj
      obtain ⟨l, hlayer, rfl⟩ := lineage?_eq_some_iff.mp h
      rw [step_diffId hlayer, lineage?_eq_some_iff]
      exact ⟨_, layer_of_set hlayer _, l.lineage_diffId s.chunkSize s.store⟩
    · rw [lineage?, layers_step_diffId_of_ne hj]
      exact h
  · have hext := extends_step (s := s) hstoring fun j hstep => hdiffId ⟨j, hstep⟩
    obtain ⟨l, hlayer, -⟩ := lineage?_eq_some_iff.mp h
    rw [lineage?, hext.layer (hlayer ▸ rfl)]
    exact h

/-- What holds between a session and steps that led to it: the layers that they made are there, and
a layer that they derived was derived once more than what it was derived from. -/
structure Records (history : List (Step × Outcome)) (s : Session) : Prop where
  stored : ∀ {ref : Reference} {k : Nat} {given : Reference},
    (.storedLayer ref, .layer k given) ∈ history → s.lineage? k = some (ref, 0)
  derived : ∀ {j k : Nat} {given : Reference}, (.derive j, .layer k given) ∈ history →
    ∃ ref n, s.lineage? j = some (ref, n) ∧ s.lineage? k = some (ref, n + 1)

theorem records_nil (s : Session) : s.Records [] := ⟨nofun, nofun⟩

theorem lineage?_addLayer (s : Session) (l : Layer) :
    (s.addLayer l).2.lineage? s.layers.length = some l.lineage :=
  congrArg (Option.map Layer.lineage) List.getElem?_concat_length

theorem exists_of_step_derive [Room] {j : Nat} {given : Reference}
    (h : (s.step (.derive j)).1 = .layer k given) :
    ∃ l, s.layers[j]? = some l ∧ k = s.layers.length ∧
      (s.step (.derive j)).2 = (s.addLayer l.derive).2 := by
  cases hlayer : s.layers[j]? with
  | none =>
    have hstep : s.step (.derive j) = (.failed (.noSuchEntry j), s) := withEntry_of_none hlayer s _
    rw [hstep] at h
    cases h
  | some l =>
    have hstep : s.step (.derive j) = s.addLayer l.derive := withEntry_of_some hlayer s _
    rw [hstep] at h ⊢
    cases h
    exact ⟨l, rfl, rfl, rfl⟩

theorem Records.step [Room] (h : s.Records history) (step : Step) :
    (s.step step).2.Records (history ++ [(step, (s.step step).1)]) := by
  refine ⟨?_, ?_⟩
  · intro ref k given hmem
    rcases List.mem_append.mp hmem with hold | hnew
    · exact lineage?_step (h.stored hold) step
    · obtain ⟨rfl, houtcome⟩ := Prod.mk.inj (List.mem_singleton.mp hnew)
      cases houtcome
      exact s.lineage?_addLayer (.stored ref)
  · intro j k given hmem
    rcases List.mem_append.mp hmem with hold | hnew
    · obtain ⟨ref, n, hj, hk⟩ := h.derived hold
      exact ⟨ref, n, lineage?_step hj step, lineage?_step hk step⟩
    · obtain ⟨rfl, houtcome⟩ := Prod.mk.inj (List.mem_singleton.mp hnew)
      obtain ⟨l, hlayer, rfl, hstep⟩ := exists_of_step_derive houtcome.symm
      have hj : s.lineage? j = some (l.reference, l.depth) :=
        lineage?_eq_some_iff.mpr ⟨l, hlayer, rfl⟩
      refine ⟨l.reference, l.depth, lineage?_step hj _, ?_⟩
      rw [hstep]
      exact s.lineage?_addLayer l.derive

theorem Records.run [Room] (h : s.Records history) (steps : List Step) :
    (s.run steps).2.Records (history ++ steps.zip (s.run steps).1) :=
  run_keeps (P := fun history s => s.Records history) (fun _ _ step h => h.step step) h steps

/-- The layer is there, and has the lineage that the steps tell. -/
theorem Derived.lineage?_eq (h : Derived history ref n k) (hs : s.Records history) :
    s.lineage? k = some (ref, n) := by
  induction h with
  | stored hmem => exact hs.stored hmem
  | derive _ hmem ih =>
    obtain ⟨ref', n', hj, hk⟩ := hs.derived hmem
    obtain ⟨rfl, rfl⟩ := Prod.mk.inj (Option.some.inj (ih.symm.trans hj))
    exact hk

theorem Derived.eq_stored (h : Derived history ref 0 k) (hs : s.Records history) :
    s.layers[k]? = some (.stored ref) := by
  obtain ⟨l, hlayer, hl⟩ := lineage?_eq_some_iff.mp (h.lineage?_eq hs)
  rw [hlayer, Layer.eq_stored_of_lineage hl]

theorem Derived.exists_derived (h : Derived history ref n k) (hn : 1 ≤ n)
    (hs : s.Records history) :
    ∃ inner m, s.layers[k]? = some (.derived inner m) ∧ inner.reference = ref := by
  obtain ⟨l, hlayer, hl⟩ := lineage?_eq_some_iff.mp (h.lineage?_eq hs)
  obtain ⟨inner, m, rfl, href⟩ := Layer.exists_derived_of_lineage hl hn
  exact ⟨inner, m, hlayer, href⟩

/-! ## What layers answer -/

def compressedCalls : List LayerCall := [.digest, .mediaType, .size, .compressed]

variable {l l' : Layer} {inner inner' : Layer} {m m' : Option Digest} {j : Nat}

theorem step_openCompressed [Room] (hlayer : s.layers[k]? = some l) :
    s.step (.openCompressed k) = s.openCompressed l :=
  withEntry_of_some hlayer s _

theorem step_openUncompressed [Room] (hlayer : s.layers[k]? = some l) :
    s.step (.openUncompressed k) = s.openUncompressed l :=
  withEntry_of_some hlayer s _

/-- Layers with the same reference cannot be told apart by what is asked of their compressed
content. -/
theorem step_compressed_congr [Room] (hk : s.layers[k]? = some l) (hj : s.layers[j]? = some l')
    (href : l.reference = l'.reference) :
    (∀ call ∈ compressedCalls, s.step (.layer k call) = s.step (.layer j call)) ∧
      s.step (.openCompressed k) = s.step (.openCompressed j) := by
  refine ⟨?_, ?_⟩
  · intro call hcall
    rw [step_layer s hk, step_layer s hj]
    simp only [compressedCalls, List.mem_cons, List.not_mem_nil, or_false] at hcall
    rcases hcall with rfl | rfl | rfl | rfl
    · dsimp only [callLayer]
      rw [href]
    · dsimp only [callLayer]
      rw [Layer.mediaType_eq, Layer.mediaType_eq]
    · dsimp only [callLayer]
      rw [Layer.size_eq, Layer.size_eq, href]
    · dsimp only [callLayer]
      rw [Layer.compressed_eq_openBlob, Layer.compressed_eq_openBlob, href]
  · rw [step_openCompressed hk, step_openCompressed hj, openCompressed, openCompressed,
      Layer.compressed_eq_openBlob, Layer.compressed_eq_openBlob, href]

/-- What a layer says of its compressed content without asking the store. -/
theorem step_description [Room] (hk : s.layers[k]? = some l) :
    s.step (.layer k .digest) = (.text l.reference, s) ∧
      s.step (.layer k .mediaType) = (.text (some MediaType.layer), s) ∧
      s.step (.layer k .size) = (.failed (.unknownSize l.reference), s) := by
  refine ⟨step_layer s hk _, ?_, ?_⟩
  · rw [step_layer s hk, ← l.mediaType_eq]
    rfl
  · rw [step_layer s hk]
    dsimp only [callLayer]
    rw [Layer.size_eq]

/-- Derived layers with the same reference cannot be told apart by their uncompressed content. -/
theorem step_uncompressed_congr [Room] (hk : s.layers[k]? = some (.derived inner m))
    (hj : s.layers[j]? = some (.derived inner' m')) (href : inner.reference = inner'.reference) :
    s.step (.layer k .uncompressed) = s.step (.layer j .uncompressed) ∧
      s.step (.openUncompressed k) = s.step (.openUncompressed j) := by
  refine ⟨?_, ?_⟩
  · rw [step_layer s hk, step_layer s hj]
    dsimp only [callLayer, readUncompressed]
    rw [Layer.uncompressed_congr href m m']
  · rw [step_openUncompressed hk, step_openUncompressed hj, openUncompressed, openUncompressed,
      Layer.uncompressed_congr href m m']

/-- Whoever opens or reads the compressed content of a layer asks the store once. -/
theorem askedOnce_step_compressed [Room] (hk : s.layers[k]? = some l) :
    s.store.AskedOnce l.reference (s.step (.layer k .compressed)).2.store ∧
      s.store.AskedOnce l.reference (s.step (.openCompressed k)).2.store := by
  have hasked := s.store.askedOnce_openBlob l.reference
  rw [step_layer s hk, step_openCompressed hk, openCompressed]
  dsimp only [callLayer, readCompressed]
  rw [Layer.compressed_eq_openBlob]
  generalize s.store.openBlob l.reference = result at hasked ⊢
  obtain ⟨e | opened, store⟩ := result
  · exact ⟨hasked, hasked⟩
  · exact ⟨hasked.close opened.id, hasked⟩

/-- So does whoever opens or reads the uncompressed content. -/
theorem askedOnce_step_uncompressed [Room] (hk : s.layers[k]? = some (.derived inner m)) :
    s.store.AskedOnce inner.reference (s.step (.layer k .uncompressed)).2.store ∧
      s.store.AskedOnce inner.reference (s.step (.openUncompressed k)).2.store := by
  have hasked := Layer.askedOnce_uncompressed s.store inner m
  rw [step_layer s hk, step_openUncompressed hk, openUncompressed]
  dsimp only [callLayer, readUncompressed]
  generalize (Layer.derived inner m).uncompressed s.store = result at hasked ⊢
  obtain ⟨e | opened, store⟩ := result
  · exact ⟨hasked, hasked⟩
  · exact ⟨hasked.close opened.id, hasked⟩

/-- A layer that remembers no diff id is a derived one without memory. -/
theorem eq_derived_none_of_remembered (hk : s.layers[k]? = some (.derived inner m))
    (h : s.remembered k = none) : s.layers[k]? = some (.derived inner none) := by
  rw [remembered, hk] at h
  cases m with
  | none => exact hk
  | some d => cases h

/-- The diff id of a layer that remembers none: the store is asked once, and what it comes to is the
same for any other such layer with the same reference. -/
theorem step_diffId_congr [Room] (hk : s.layers[k]? = some (.derived inner none)) :
    s.store.AskedOnce inner.reference (s.step (.layer k .diffId)).2.store ∧
      ∀ j inner', s.layers[j]? = some (.derived inner' none) → inner.reference = inner'.reference →
        (s.step (.layer k .diffId)).1 = (s.step (.layer j .diffId)).1 ∧
          (s.step (.layer k .diffId)).2.store = (s.step (.layer j .diffId)).2.store := by
  refine ⟨?_, ?_⟩
  · rw [step_diffId hk]
    exact Layer.askedOnce_diffId s.chunkSize s.store inner
  · intro j inner' hj href
    obtain ⟨hanswer, hstore⟩ := Layer.diffId_congr_reference href s.chunkSize s.store
    rw [step_diffId hk, step_diffId hj]
    dsimp only
    rw [hanswer, hstore]
    exact ⟨rfl, rfl⟩

/-- Layers derived from one stored layer, at any depth and after any run, whatever became of the
store meanwhile. What is asked of the compressed content comes to the same as for the stored layer:
its digest, its media type, the fault that its size is not known, its content, and the stream that
is opened. Uncompressed content, and the first diff id, come to the same as for the layer that is
derived once, with the blob unpacked once. Whichever content is asked for, the store is asked for it
once. -/
theorem same_at_any_depth [Room] {chunkSize : Int} {store : Store} {steps : List Step}
    {outcomes : List Outcome} (hrun : (start chunkSize store).run steps = (outcomes, s))
    {below once deep : Nat} (hbelow : Derived (steps.zip outcomes) ref 0 below)
    (honce : Derived (steps.zip outcomes) ref 1 once) (hn : 1 ≤ n)
    (hdeep : Derived (steps.zip outcomes) ref n deep) :
    ((∀ call ∈ compressedCalls, s.step (.layer deep call) = s.step (.layer below call)) ∧
      s.step (.openCompressed deep) = s.step (.openCompressed below)) ∧
    (s.step (.layer deep .digest) = (.text ref, s) ∧
      s.step (.layer deep .mediaType) = (.text (some MediaType.layer), s) ∧
      s.step (.layer deep .size) = (.failed (.unknownSize ref), s)) ∧
    (s.store.AskedOnce ref (s.step (.layer deep .compressed)).2.store ∧
      s.store.AskedOnce ref (s.step (.openCompressed deep)).2.store) ∧
    (s.step (.layer deep .uncompressed) = s.step (.layer once .uncompressed) ∧
      s.step (.openUncompressed deep) = s.step (.openUncompressed once)) ∧
    (s.store.AskedOnce ref (s.step (.layer deep .uncompressed)).2.store ∧
      s.store.AskedOnce ref (s.step (.openUncompressed deep)).2.store) ∧
    (firstAnswer deep (steps.zip outcomes) = none →
      s.store.AskedOnce ref (s.step (.layer deep .diffId)).2.store ∧
        (firstAnswer once (steps.zip outcomes) = none →
          (s.step (.layer deep .diffId)).1 = (s.step (.layer once .diffId)).1 ∧
            (s.step (.layer deep .diffId)).2.store = (s.step (.layer once .diffId)).2.store)) ∧
    ∀ opened store' file, s.store.openBlob ref = (.ok opened, store') →
      opened.blob.Delivers s.store.tree file →
      (s.step (.layer deep .uncompressed)).1 =
          bytesOutcome ((Gzip.content file).mapError Gzip.Fault.told) ∧
        (0 < chunkSize → chunkSize < Room.bound →
          firstAnswer deep (steps.zip outcomes) = none →
          (s.step (.layer deep .diffId)).1 =
            match Gzip.content file with
            | .ok u => .text (some (Digest.ofBytes u).toText)
            | .error f => .failed f.told) := by
  have hs : s.Records (steps.zip outcomes) := by
    have hall := (records_nil (start chunkSize store)).run steps
    rw [hrun] at hall
    exact hall
  have hremembered : ∀ k, firstAnswer k (steps.zip outcomes) = none → s.remembered k = none := by
    intro k hnone
    have hall := remembered_run (start chunkSize store) steps k
    rw [hrun] at hall
    exact hall.trans hnone
  have hchunk : s.chunkSize = chunkSize := by
    have hlike := ((start chunkSize store).isLike_run steps).1
    rw [hrun] at hlike
    exact hlike
  obtain ⟨inner, m, hlayer, rfl⟩ := hdeep.exists_derived hn hs
  obtain ⟨innerOnce, mOnce, hlayerOnce, hrefOnce⟩ := honce.exists_derived (Nat.le_refl 1) hs
  have hdescription := step_description hlayer
  have hasked := askedOnce_step_compressed hlayer
  refine ⟨step_compressed_congr hlayer (hbelow.eq_stored hs) rfl, hdescription, hasked,
    step_uncompressed_congr hlayer hlayerOnce hrefOnce.symm,
    askedOnce_step_uncompressed hlayer, ?_, ?_⟩
  · intro hfirst
    obtain ⟨hasked, hsame⟩ :=
      step_diffId_congr (eq_derived_none_of_remembered hlayer (hremembered deep hfirst))
    refine ⟨hasked, ?_⟩
    intro hfirstOnce
    exact hsame once innerOnce
      (eq_derived_none_of_remembered hlayerOnce (hremembered once hfirstOnce)) hrefOnce.symm
  · intro opened store' file hopen hdelivers
    refine ⟨step_uncompressed hlayer hopen hdelivers, ?_⟩
    intro hpos hroom hfirst
    exact step_diffId_of_delivers (eq_derived_none_of_remembered hlayer (hremembered deep hfirst))
      (hchunk ▸ hpos) (hchunk ▸ hroom) hopen hdelivers

/-- A layer that is derived three times, from a blob that is stored only after that. -/
def thriceDerived : List Step :=
  let letter := some (Text.ofString "letter")
  [.storedLayer letter, .derive 0, .derive 1, .derive 2, .putAs letter letterFile]

/-- The content of that layer is unpacked once. -/
theorem same_at_any_depth_thriceDerived :
    let letter := some (Text.ofString "letter")
    let s := ((start 3 (.ofKind .memory none none)).run thriceDerived).2
    (s.step (.layer 3 .uncompressed)).1 = .bytes [0x61] ∧
      (s.step (.layer 3 .diffId)).1 = .text (some (Digest.ofBytes [0x61]).toText) ∧
      s.step (.layer 3 .size) = (.failed (.unknownSize letter), s) ∧
      (s.step (.layer 3 .diffId)).2.store.asked = #[letter] := by
  intro letter s
  let outcomes : List Outcome :=
    [.layer 0 letter, .layer 1 letter, .layer 2 letter, .layer 3 letter, .done]
  have hrun : (start 3 (.ofKind .memory none none)).run thriceDerived = (outcomes, s) := rfl
  have hbelow : Derived (thriceDerived.zip outcomes) letter 0 0 :=
    .stored (List.mem_of_getElem? (i := 0) rfl)
  have honce : Derived (thriceDerived.zip outcomes) letter 1 1 :=
    .derive hbelow (List.mem_of_getElem? (i := 1) rfl)
  have htwice : Derived (thriceDerived.zip outcomes) letter 2 2 :=
    .derive honce (List.mem_of_getElem? (i := 2) rfl)
  have hdeep : Derived (thriceDerived.zip outcomes) letter 3 3 :=
    .derive htwice (List.mem_of_getElem? (i := 3) rfl)
  obtain ⟨-, ⟨-, -, hsize⟩, -, -, -, hdiffId, hcontent⟩ :=
    same_at_any_depth hrun hbelow honce (by decide) hdeep
  obtain ⟨huncompressed, hdigest⟩ := hcontent _ _ letterFile rfl
    (OpenBlob.delivers_memory _ nofun nofun)
  have hasked := (hdiffId rfl).1.memory nofun
  exact ⟨huncompressed, hdigest (by decide) (by decide) rfl, hsize, hasked⟩

end Session

end LegacyImage
