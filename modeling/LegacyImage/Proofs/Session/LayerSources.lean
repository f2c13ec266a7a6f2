import LegacyImage.Proofs.Layer.Outcome
import LegacyImage.Proofs.Session.Remembering

/-!
Who builds the layers. A store in memory has them derived from its blobs, one that provides layers
derives them itself, and one that only seems to provide them is never asked for one. Nobody can tell
these apart but by asking for just that, for what was asked of the store, or for the log
(`same_of_any_builder`).
-/

namespace LegacyImage

/-! ## Builders -/

/-- Whether a source derives the layer of a reference from its blob, whatever it was asked for
before. -/
def LayerSource.Derives (source : LayerSource) (ref : Reference) : Prop :=
  ∀ state, source.answer state ref = .ok (Layer.stored ref).derive

/-- Whether the layer of a reference is derived from its blob, by whomever. -/
def StoreKind.DerivesLayer : StoreKind → Reference → Prop
  | .layers source, ref => source.Derives ref
  | _, _ => True

/-- Whether a store is in memory and the layers of all digests are derived from its blobs. -/
structure StoreKind.Derives (kind : StoreKind) : Prop where
  ne_directory : ∀ dir, kind ≠ .directory dir
  digest : ∀ d, kind.DerivesLayer (.ofDigest d)

theorem StoreKind.derives_memory : StoreKind.memory.Derives := ⟨nofun, fun _ => trivial⟩

/-- What a store is, and what tells who built its layers. -/
structure Builder where
  kind : StoreKind
  layersAsked : Array Reference
  log : Array LogEntry

/-- Whether a builder can become another: it stays what it is, and is asked for layers only if it
provides them. -/
structure Builder.Becomes (b b' : Builder) : Prop where
  kind : b'.kind = b.kind
  layersAsked : (∀ source, b.kind ≠ .layers source) → b'.layersAsked = b.layersAsked

namespace Builder

theorem Becomes.refl (b : Builder) : b.Becomes b := ⟨rfl, fun _ => rfl⟩

theorem Becomes.trans {a b c : Builder} (h : a.Becomes b) (h' : b.Becomes c) : a.Becomes c := by
  refine ⟨h'.kind.trans h.kind, ?_⟩
  intro hnot
  have hnot' : ∀ source, b.kind ≠ .layers source := by
    rw [h.kind]
    exact hnot
  exact (h'.layersAsked hnot').trans (h.layersAsked hnot)

theorem becomes_log (b : Builder) (log : Array LogEntry) : b.Becomes { b with log } :=
  ⟨rfl, fun _ => rfl⟩

theorem Becomes.derives {b b' : Builder} (h : b.Becomes b') (hb : b.kind.Derives) :
    b'.kind.Derives := by
  rw [h.kind]
  exact hb

end Builder

/-! ## Stores -/

namespace Store

def builder (store : Store) : Builder := ⟨store.kind, store.layersAsked, store.log⟩

def builtBy (store : Store) (b : Builder) : Store :=
  { store with kind := b.kind, layersAsked := b.layersAsked, log := b.log }

variable {store : Store} {b : Builder}

theorem put_builtBy (hk : store.kind.Derives) (hb : b.kind.Derives) (content : Bytes) :
    (store.builtBy b).put content =
      ((store.put content).1, (store.put content).2.builtBy b) := by
  have hb' : ∀ dir, (store.builtBy b).kind ≠ .directory dir := hb.ne_directory
  rw [put_memory hk.ne_directory, put_memory hb']
  rfl

theorem putAs_builtBy (hk : store.kind.Derives) (hb : b.kind.Derives) (ref : Reference)
    (content : Bytes) :
    (store.builtBy b).putAs ref content =
      ((store.putAs ref content).1, (store.putAs ref content).2.builtBy b) := by
  have hb' : ∀ dir, (store.builtBy b).kind ≠ .directory dir := hb.ne_directory
  rw [putAs_memory hk.ne_directory, putAs_memory hb']
  rfl

theorem writeFile_builtBy (store : Store) (b : Builder) (path : Path) (content : Bytes) :
    (store.builtBy b).writeFile path content =
      ((store.writeFile path content).1, (store.writeFile path content).2.builtBy b) := by
  rfl

theorem makeDirectory_builtBy (store : Store) (b : Builder) (path : Path) :
    (store.builtBy b).makeDirectory path =
      ((store.makeDirectory path).1, (store.makeDirectory path).2.builtBy b) := by
  rfl

theorem openBlob_builtBy (hk : store.kind.Derives) (hb : b.kind.Derives) (ref : Reference) :
    (store.builtBy b).openBlob ref =
      ((store.openBlob ref).1, (store.openBlob ref).2.builtBy b) := by
  have hb' : ∀ dir, (store.builtBy b).kind ≠ .directory dir := hb.ne_directory
  have hblobs : (store.builtBy b).blobs = store.blobs := rfl
  rw [openBlob_memory hk.ne_directory, openBlob_memory hb', hblobs]
  cases Table.get? store.blobs ref <;> rfl

theorem readBlob_builtBy [Room] (hk : store.kind.Derives) (hb : b.kind.Derives) (size : Int)
    (ref : Reference) :
    (store.builtBy b).readBlob size ref =
      ((store.readBlob size ref).1, (store.readBlob size ref).2.builtBy b) := by
  have hb' : ∀ dir, (store.builtBy b).kind ≠ .directory dir := hb.ne_directory
  have hblobs : (store.builtBy b).blobs = store.blobs := rfl
  rw [readBlob_memory hk.ne_directory, readBlob_memory hb', hblobs]
  cases Table.get? store.blobs ref <;> rfl

end Store

/-! ## Images and layers -/

namespace Image

variable {store : Store}

theorem layerAnswers_of_derives {refs : List Reference}
    (h : ∀ ref ∈ refs, store.kind.DerivesLayer ref) :
    store.layerAnswers refs = refs.map fun ref => .ok (Layer.stored ref).derive := by
  unfold Store.layerAnswers
  split
  · rename_i source hsource
    have hderives : ∀ ref ∈ refs, source.Derives ref := by
      intro ref href
      have hkind := h ref href
      unfold Store.layerSource? at hsource
      split at hsource
      · rename_i hlayers
        cases hsource
        rw [hlayers] at hkind
        exact hkind
      · cases hsource
    generalize store.sourceState = state
    clear h
    induction refs generalizing state with
    | nil => rfl
    | cons ref rest ih =>
      rw [LayerSource.answers, hderives ref List.mem_cons_self state,
        ih fun r hr => hderives r (List.mem_cons_of_mem ref hr)]
      rfl
  · rfl

/-- Asking for layers makes another builder of a store's builder. -/
theorem exists_builtBy_afterLayers (store : Store) (refs : List Reference) :
    ∃ b, store.builder.Becomes b ∧ store.afterLayers refs = store.builtBy b := by
  unfold Store.afterLayers
  split
  · rename_i source hsource
    refine ⟨(store.afterProviding source refs).builder, ⟨rfl, fun hnot => ?_⟩, rfl⟩
    rw [Store.layerSource?_eq_none hnot] at hsource
    cases hsource
  · exact ⟨(store.afterDeriving refs).builder, store.builder.becomes_log _, rfl⟩

/-- Whoever builds them, the layers of some digests are derived from their blobs. -/
theorem layersOf_of_derives (hk : store.kind.Derives) (ds : List Digest) :
    ∃ b, store.builder.Becomes b ∧
      layersOf store ds = (.ok (ds.map Layer.ofDigest), store.builtBy b) := by
  obtain ⟨b, hbecomes, hstore⟩ := exists_builtBy_afterLayers store (ds.map .ofDigest)
  refine ⟨b, hbecomes, ?_⟩
  have hanswers : store.layerAnswers (ds.map .ofDigest) = (ds.map Layer.ofDigest).map .ok := by
    rw [layerAnswers_of_derives, List.map_map, List.map_map]
    · rfl
    · intro ref href
      obtain ⟨d, -, rfl⟩ := List.mem_map.mp href
      exact hk.digest d
  rw [layersOf_of_answers hanswers, hstore]

theorem layer_of_derives {ref : Reference} (href : store.kind.DerivesLayer ref) :
    ∃ b, store.builder.Becomes b ∧
      layer store ref = (.ok (Layer.stored ref).derive, store.builtBy b) := by
  obtain ⟨b, hbecomes, hstore⟩ := exists_builtBy_afterLayers store [ref]
  obtain ⟨hanswer, hafter⟩ := layer_eq store ref
  rw [layerAnswers_of_derives fun r hr => List.mem_singleton.mp hr ▸ href] at hanswer
  exact ⟨b, hbecomes, Prod.ext (List.cons.inj hanswer).1.symm (hafter.trans hstore)⟩

end Image

namespace Layer

variable {store : Store} {b : Builder}

theorem compressed_builtBy (hk : store.kind.Derives) (hb : b.kind.Derives) (l : Layer) :
    l.compressed (store.builtBy b) =
      ((l.compressed store).1, (l.compressed store).2.builtBy b) := by
  rw [compressed_eq_openBlob, compressed_eq_openBlob]
  exact Store.openBlob_builtBy hk hb l.reference

theorem uncompressed_builtBy (hk : store.kind.Derives) (hb : b.kind.Derives) (l : Layer) :
    l.uncompressed (store.builtBy b) =
      ((l.uncompressed store).1, (l.uncompressed store).2.builtBy b) := by
  cases l with
  | stored ref => rfl
  | derived inner d =>
    unfold uncompressed
    dsimp only
    rw [compressed_builtBy hk hb]
    cases inner.compressed store with
    | mk result store' => cases result <;> rfl

theorem diffId_builtBy [Room] (hk : store.kind.Derives) (hb : b.kind.Derives) (chunkSize : Int)
    (l : Layer) :
    ∃ b', b.Becomes b' ∧ l.diffId chunkSize (store.builtBy b) =
      ((l.diffId chunkSize store).1, (l.diffId chunkSize store).2.1,
        (l.diffId chunkSize store).2.2.builtBy b') := by
  cases l with
  | stored ref => exact ⟨b, .refl b, rfl⟩
  | derived inner d =>
    cases d with
    | some d => exact ⟨b, .refl b, rfl⟩
    | none =>
      unfold diffId
      dsimp only
      rw [uncompressed_builtBy hk hb]
      cases (derived inner none).uncompressed store with
      | mk result store' =>
        cases result with
        | error e => exact ⟨b, .refl b, rfl⟩
        | ok opened =>
          dsimp only
          have htree : (store'.builtBy b).tree = store'.tree := rfl
          rw [htree]
          cases tallyOf store'.tree chunkSize opened.stream with
          | error e => exact ⟨b, .refl b, rfl⟩
          | ok tally => exact ⟨_, b.becomes_log _, rfl⟩

end Layer

/-! ## Sessions -/

/-- Whether a step asks an image for no single layer but those that are derived in such a store. -/
def Step.AsksWithin (kind : StoreKind) (step : Step) : Prop :=
  ∀ image ref, step = .image image (.layerByDigest ref) → kind.DerivesLayer ref

/-- An outcome without what tells who builds layers: whether the store provides them, what it was
asked for as layers, and the log. -/
def Outcome.impartial : Step → Outcome → Outcome
  | .supports, .flag _ => .flag false
  | .state, .state asked _ ended => .state asked #[] ended
  | .log, .log _ => .log #[]
  | _, outcome => outcome

namespace Session

variable {s : Session} {b : Builder}

def builtBy (s : Session) (b : Builder) : Session := s.after (s.store.builtBy b)

/-- What comes of something with another builder: the same answer, and the same session but for the
builder. -/
def SameBuilt (b : Builder) (result result' : Outcome × Session) : Prop :=
  ∃ b', b.Becomes b' ∧ result' = (result.1, result.2.builtBy b')

theorem SameBuilt.of_eq {result result' : Outcome × Session}
    (h : result' = (result.1, result.2.builtBy b)) : SameBuilt b result result' :=
  ⟨b, .refl b, h⟩

theorem sameBuilt_withEntry {α : Type} {table : List α} {number : Nat}
    {act act' : α → Outcome × Session} (h : ∀ entry, SameBuilt b (act entry) (act' entry)) :
    SameBuilt b (s.withEntry table number act) ((s.builtBy b).withEntry table number act') := by
  unfold withEntry
  cases table[number]? with
  | none => exact .of_eq rfl
  | some entry => exact h entry

theorem sameBuilt_callImage (hk : s.store.kind.Derives) (hb : b.kind.Derives) (image : Image)
    {call : ImageCall}
    (hcall : ∀ ref, call = .layerByDigest ref →
      s.store.kind.DerivesLayer ref ∧ b.kind.DerivesLayer ref) :
    SameBuilt b (s.callImage image call) ((s.builtBy b).callImage image call) := by
  have hb' : (s.builtBy b).store.kind.Derives := hb
  cases call with
  | layers =>
    unfold callImage Image.layers
    dsimp only
    cases Manifest.layers image.manifest with
    | error e => exact .of_eq rfl
    | ok ds =>
      obtain ⟨b₁, -, hlayers⟩ := Image.layersOf_of_derives hk ds
      obtain ⟨b₂, hbecomes, hlayers'⟩ := Image.layersOf_of_derives hb' ds
      dsimp only
      rw [hlayers, hlayers']
      exact ⟨b₂, hbecomes, rfl⟩
  | layerByDigest ref =>
    obtain ⟨hderives, hderives'⟩ := hcall ref rfl
    obtain ⟨b₁, -, hlayer⟩ := Image.layer_of_derives hderives
    obtain ⟨b₂, hbecomes, hlayer'⟩ :
        ∃ b₂, (s.builtBy b).store.builder.Becomes b₂ ∧ Image.layer (s.builtBy b).store ref =
          (.ok (Layer.stored ref).derive, (s.builtBy b).store.builtBy b₂) :=
      Image.layer_of_derives hderives'
    unfold callImage
    dsimp only
    rw [hlayer, hlayer']
    exact ⟨b₂, hbecomes, rfl⟩
  | _ => exact .of_eq rfl

theorem readCompressed_builtBy [Room] (b : Builder) (s : Session)
    (opened : Except Error Store.Opened)
    (store : Store) :
    (s.builtBy b).readCompressed (opened, store.builtBy b) =
      ((s.readCompressed (opened, store)).1, (s.readCompressed (opened, store)).2.builtBy b) := by
  cases opened <;> rfl

theorem readUncompressed_builtBy [Room] (hk : s.store.kind.Derives) (hb : b.kind.Derives)
    (l : Layer) :
    (s.builtBy b).readUncompressed l =
      ((s.readUncompressed l).1, (s.readUncompressed l).2.builtBy b) := by
  have hopen : l.uncompressed (s.builtBy b).store = _ := Layer.uncompressed_builtBy hk hb l
  unfold readUncompressed
  rw [hopen]
  cases l.uncompressed s.store with
  | mk result store => cases result <;> rfl

theorem sameBuilt_callLayer [Room] (hk : s.store.kind.Derives) (hb : b.kind.Derives) (number : Nat)
    (l : Layer) (call : LayerCall) :
    SameBuilt b (s.callLayer number l call) ((s.builtBy b).callLayer number l call) := by
  cases call with
  | compressed =>
    have hopen : l.compressed (s.builtBy b).store = _ := Layer.compressed_builtBy hk hb l
    dsimp only [callLayer]
    rw [hopen]
    exact .of_eq (readCompressed_builtBy b s _ _)
  | uncompressed => exact .of_eq (readUncompressed_builtBy hk hb l)
  | size =>
    dsimp only [callLayer]
    cases l.size <;> exact .of_eq rfl
  | diffId =>
    obtain ⟨b', hbecomes, hdiffId⟩ := Layer.diffId_builtBy hk hb s.chunkSize l
    have hdiffId' : l.diffId (s.builtBy b).chunkSize (s.builtBy b).store = _ := hdiffId
    dsimp only [callLayer]
    rw [hdiffId']
    refine ⟨b', hbecomes, ?_⟩
    cases l.diffId s.chunkSize s.store with
    | mk result rest => cases result <;> rfl
  | describeInner =>
    dsimp only [callLayer]
    cases l.inner <;> exact .of_eq rfl
  | _ => exact .of_eq rfl

theorem openCompressed_builtBy (hk : s.store.kind.Derives) (hb : b.kind.Derives) (l : Layer) :
    (s.builtBy b).openCompressed l =
      ((s.openCompressed l).1, (s.openCompressed l).2.builtBy b) := by
  have hopen : l.compressed (s.builtBy b).store = _ := Layer.compressed_builtBy hk hb l
  unfold openCompressed
  rw [hopen]
  cases l.compressed s.store with
  | mk result store => cases result <;> rfl

theorem openUncompressed_builtBy (hk : s.store.kind.Derives) (hb : b.kind.Derives) (l : Layer) :
    (s.builtBy b).openUncompressed l =
      ((s.openUncompressed l).1, (s.openUncompressed l).2.builtBy b) := by
  have hopen : l.uncompressed (s.builtBy b).store = _ := Layer.uncompressed_builtBy hk hb l
  unfold openUncompressed
  rw [hopen]
  cases l.uncompressed s.store with
  | mk result store => cases result <;> rfl

/-- Any step but those that look at the builder. -/
theorem sameBuilt_step [Room] (hk : s.store.kind.Derives) (hb : b.kind.Derives) {step : Step}
    (hasks : step.AsksWithin s.store.kind) (hasks' : step.AsksWithin b.kind) (hsupports : step ≠ .supports) (hstate : step ≠ .state)
    (hlog : step ≠ .log) :
    SameBuilt b (s.step step) ((s.builtBy b).step step) := by
  cases step with
  | supports => exact absurd rfl hsupports
  | state => exact absurd rfl hstate
  | log => exact absurd rfl hlog
  | put content =>
    have hput : (s.builtBy b).store.put content = _ := Store.put_builtBy hk hb content
    unfold Session.step
    dsimp only
    rw [hput]
    cases s.store.put content with
    | mk result store => cases result <;> exact .of_eq rfl
  | putAs ref content =>
    have hput : (s.builtBy b).store.putAs ref content = _ := Store.putAs_builtBy hk hb ref content
    unfold Session.step
    dsimp only
    rw [hput]
    cases s.store.putAs ref content with
    | mk result store => cases result <;> exact .of_eq rfl
  | blob ref =>
    have hopen : (s.builtBy b).store.openBlob ref = _ := Store.openBlob_builtBy hk hb ref
    dsimp only [Session.step]
    rw [hopen]
    exact .of_eq (readCompressed_builtBy b s _ _)
  | fetch ref mediaType =>
    have hread : (s.builtBy b).store.readBlob (s.builtBy b).chunkSize ref = _ :=
      Store.readBlob_builtBy hk hb s.chunkSize ref
    unfold Session.step Image.fetch
    dsimp only
    rw [hread]
    cases s.store.readBlob s.chunkSize ref with
    | mk result store =>
      cases result with
      | error e => exact .of_eq rfl
      | ok manifest => exact ⟨_, b.becomes_log _, rfl⟩
  | image number call =>
    refine sameBuilt_withEntry fun image => sameBuilt_callImage hk hb image ?_
    rintro ref rfl
    exact ⟨hasks number ref rfl, hasks' number ref rfl⟩
  | derive number => exact sameBuilt_withEntry fun l => .of_eq rfl
  | layer number call => exact sameBuilt_withEntry fun l => sameBuilt_callLayer hk hb number l call
  | openCompressed number =>
    exact sameBuilt_withEntry fun l => .of_eq (openCompressed_builtBy hk hb l)
  | openUncompressed number =>
    exact sameBuilt_withEntry fun l => .of_eq (openUncompressed_builtBy hk hb l)
  | read number size => exact sameBuilt_withEntry fun h => .of_eq rfl
  | close number => exact sameBuilt_withEntry fun h => .of_eq rfl
  | closed number => exact sameBuilt_withEntry fun h => .of_eq rfl
  | writeFile path content =>
    have hwrite : (s.builtBy b).store.writeFile path content = _ :=
      Store.writeFile_builtBy s.store b path content
    unfold Session.step
    dsimp only
    rw [hwrite]
    cases s.store.writeFile path content with
    | mk result store => cases result <;> exact .of_eq rfl
  | makeDirectory path =>
    have hmake : (s.builtBy b).store.makeDirectory path = _ :=
      Store.makeDirectory_builtBy s.store b path
    unfold Session.step
    dsimp only
    rw [hmake]
    cases s.store.makeDirectory path with
    | mk result store => cases result <;> exact .of_eq rfl
  | _ => exact .of_eq rfl

/-- A step comes to the same whoever builds the layers, as far as it does not look at that. -/
theorem exists_step_builtBy [Room] (hk : s.store.kind.Derives) (hb : b.kind.Derives) {step : Step}
    (hasks : step.AsksWithin s.store.kind) (hasks' : step.AsksWithin b.kind) :
    ∃ b', b.Becomes b' ∧ ((s.builtBy b).step step).2 = (s.step step).2.builtBy b' ∧
      ((s.builtBy b).step step).1.impartial step = (s.step step).1.impartial step := by
  by_cases hlooks : step = .supports ∨ step = .state ∨ step = .log
  · obtain rfl | rfl | rfl := hlooks
    · exact ⟨b, .refl b, rfl, rfl⟩
    · exact ⟨b, .refl b, rfl, rfl⟩
    · exact ⟨_, b.becomes_log #[], rfl, rfl⟩
  · obtain ⟨b', hbecomes, h⟩ := sameBuilt_step hk hb hasks hasks' (fun h => hlooks (.inl h))
      (fun h => hlooks (.inr (.inl h))) fun h => hlooks (.inr (.inr h))
    rw [h]
    exact ⟨b', hbecomes, rfl, rfl⟩

theorem exists_run_builtBy [Room] (hk : s.store.kind.Derives) (hb : b.kind.Derives)
    {steps : List Step}
    (hasks : ∀ step ∈ steps, step.AsksWithin s.store.kind ∧ step.AsksWithin b.kind) :
    ∃ b', b.Becomes b' ∧ ((s.builtBy b).run steps).2 = (s.run steps).2.builtBy b' ∧
      List.zipWith Outcome.impartial steps ((s.builtBy b).run steps).1 =
        List.zipWith Outcome.impartial steps (s.run steps).1 := by
  induction steps generalizing s b with
  | nil => exact ⟨b, .refl b, rfl, rfl⟩
  | cons first rest ih =>
    obtain ⟨hfirst, hfirst'⟩ := hasks first List.mem_cons_self
    obtain ⟨b₁, hbecomes₁, hsession, houtcome⟩ := exists_step_builtBy hk hb hfirst hfirst'
    have hkind : (s.step first).2.store.kind = s.store.kind := (s.isLike_step first).2.kind.symm
    have hk₁ : (s.step first).2.store.kind.Derives := by
      rw [hkind]
      exact hk
    have hasks₁ : ∀ step ∈ rest,
        step.AsksWithin (s.step first).2.store.kind ∧ step.AsksWithin b₁.kind := by
      intro step hstep
      rw [hkind, hbecomes₁.kind]
      exact hasks step (List.mem_cons_of_mem first hstep)
    obtain ⟨b₂, hbecomes₂, hsessions, houtcomes⟩ := ih hk₁ (hbecomes₁.derives hb) hasks₁
    rw [← hsession] at hsessions houtcomes
    refine ⟨b₂, hbecomes₁.trans hbecomes₂, hsessions, ?_⟩
    unfold run
    dsimp only
    rw [List.zipWith_cons_cons, List.zipWith_cons_cons, houtcome, houtcomes]

/-- A session comes to the same on a store in memory, on one that only seems to provide layers, and on
one whose source derives the layers of all digests and every single one that is asked for: outcomes are
the same, as far as they do not look at who builds layers, and so is the session after any number of
steps, with all that the store was asked for and what is open and closed of it. A store that only seems
to provide layers is never asked for one. -/
theorem same_of_any_builder [Room] (chunkSize : Int) (failAt maxRead : Option Nat)
    {source : LayerSource}
    {steps : List Step} (hdigests : ∀ d, source.Derives (.ofDigest d))
    (hasked : ∀ image ref, Step.image image (.layerByDigest ref) ∈ steps → source.Derives ref) :
    let run (kind : StoreKind) := (start chunkSize (.ofKind kind failAt maxRead)).run
    ∀ kind ∈ [StoreKind.lookalike, .layers source],
      List.zipWith Outcome.impartial steps (run kind steps).1 =
        List.zipWith Outcome.impartial steps (run .memory steps).1 ∧
      ∀ n, ∃ layersAsked log,
        let s := (run .memory (steps.take n)).2
        (run kind (steps.take n)).2 =
          { s with store := { s.store with kind, layersAsked, log } } ∧
        (kind = .lookalike → layersAsked = #[]) := by
  intro run kind hkind
  have hderives : kind.Derives ∧ ∀ step ∈ steps, step.AsksWithin kind := by
    simp only [List.mem_cons, List.not_mem_nil, or_false] at hkind
    obtain rfl | rfl := hkind
    · exact ⟨⟨nofun, fun _ => trivial⟩, fun _ _ _ _ _ => trivial⟩
    · refine ⟨⟨nofun, hdigests⟩, ?_⟩
      rintro step hstep image ref rfl
      exact hasked image ref hstep
  have hmemory : (start chunkSize (.ofKind .memory failAt maxRead)).store.kind.Derives :=
    StoreKind.derives_memory
  let b : Builder := ⟨kind, #[], #[]⟩
  have hb : b.kind.Derives := hderives.1
  have hasks : ∀ step ∈ steps, step.AsksWithin .memory ∧ step.AsksWithin b.kind :=
    fun step hstep => ⟨fun _ _ _ => trivial, hderives.2 step hstep⟩
  refine ⟨?_, ?_⟩
  · obtain ⟨b', -, -, houtcomes⟩ := exists_run_builtBy hmemory hb hasks
    exact houtcomes
  · intro n
    obtain ⟨⟨kind', layersAsked, log⟩, hbecomes, hsession, -⟩ :=
      exists_run_builtBy hmemory hb fun step hstep => hasks step (List.mem_of_mem_take hstep)
    obtain rfl : kind' = kind := hbecomes.kind
    refine ⟨layersAsked, log, hsession, ?_⟩
    rintro rfl
    exact hbecomes.layersAsked nofun

/-- A source that derives every layer from its blob. -/
def allDerived : LayerSource where
  shown := Text.ofString "all"
  answer _ ref := .ok (Layer.stored ref).derive
  fresh _ _ _ h := by
    cases h
    rfl

/-- A store that provides layers and one that does not tell them by just that. -/
theorem same_of_any_builder_asked :
    let letter := some (Text.ofString "letter")
    let steps : List Step := [.wrap none none [], .image 0 (.layerByDigest letter),
      .layer 0 .compressed, .supports]
    let run (kind : StoreKind) := ((start 3 (.ofKind kind none none)).run steps).1
    List.zipWith Outcome.impartial steps (run (.layers allDerived)) =
        List.zipWith Outcome.impartial steps (run .memory) ∧
      run (.layers allDerived) =
        [.image 0, .layer 0 letter, .failed (.noBlob letter), .flag true] ∧
      run .memory = [.image 0, .layer 0 letter, .failed (.noBlob letter), .flag false] := by
  intro letter steps run
  have hderives : ∀ ref, allDerived.Derives ref := fun _ _ => rfl
  exact ⟨(same_of_any_builder 3 none none (fun d => hderives (.ofDigest d))
    (fun _ ref _ => hderives ref) _ (by simp)).1, rfl, rfl⟩

end Session

end LegacyImage
