import LegacyImage.Session

/-!
The layers of an image, one after the other. What one layer is answered with and what asking for it
makes of the store settles what comes of all of them (`layersOf_of_answers`, `layersOf_of_failed`). A
store that provides layers is asked for them in the order of the manifest, up to the first that it
fails on, and all or nothing comes of it; any other store is asked for nothing (`layers_in_order`).
-/

namespace LegacyImage

/-- The layer that is derived from the blob of a digest. -/
def Layer.ofDigest (d : Digest) : Layer := (Layer.stored (.ofDigest d)).derive

namespace Store

/-- A store after some layers were derived from its blobs: the log tells, and that is all. -/
def afterDeriving (store : Store) (refs : List Reference) : Store :=
  { store with log := store.log ++ refs.map LogEntry.derivingLayer }

def afterProviding (store : Store) (source : LayerSource) (refs : List Reference) : Store :=
  { store with
    layersAsked := store.layersAsked ++ refs
    log := store.log ++ refs.map (LogEntry.retrievingLayer · source.shown) }

/-- What images of the store are answered with when they ask for some layers one after the other. -/
def layerAnswers (store : Store) (refs : List Reference) : List (Except Error Layer) :=
  match store.layerSource? with
  | some source => source.answers store.sourceState refs
  | none => refs.map fun ref => .ok (Layer.stored ref).derive

def afterLayers (store : Store) (refs : List Reference) : Store :=
  match store.layerSource? with
  | some source => store.afterProviding source refs
  | none => store.afterDeriving refs

theorem afterLayers_nil (store : Store) : store.afterLayers [] = store := by
  unfold afterLayers
  split <;> simp [afterProviding, afterDeriving]

/-- Asking for layers changes nothing but the account of it. -/
theorem exists_afterLayers_eq (store : Store) (refs : List Reference) :
    ∃ layersAsked log, store.afterLayers refs = { store with layersAsked, log } := by
  unfold afterLayers
  split <;> exact ⟨_, _, rfl⟩

/-- Asking for one layer and for others after it is asking for all of them. -/
theorem afterLayers_cons (store : Store) (ref : Reference) (refs : List Reference) :
    (store.afterLayers [ref]).afterLayers refs = store.afterLayers (ref :: refs) ∧
      store.layerAnswers (ref :: refs) =
        store.layerAnswers [ref] ++ (store.afterLayers [ref]).layerAnswers refs := by
  unfold afterLayers layerAnswers
  cases hsource : store.layerSource? with
  | none =>
    have hnext : (store.afterDeriving [ref]).layerSource? = none := hsource
    dsimp only
    rw [hnext]
    exact ⟨by simp [afterDeriving], rfl⟩
  | some source =>
    have hnext : (store.afterProviding source [ref]).layerSource? = some source := hsource
    have hstate : (store.afterProviding source [ref]).sourceState =
        { store.sourceState with layersAsked := store.layersAsked.push ref } := by
      simp [afterProviding, sourceState]
    dsimp only
    rw [hnext]
    dsimp only
    rw [hstate]
    exact ⟨by simp [afterProviding], rfl⟩

theorem layerSource?_eq_none {store : Store} (h : ∀ source, store.kind ≠ .layers source) :
    store.layerSource? = none := by
  unfold layerSource?
  split
  · rename_i source hkind
    exact absurd hkind (h source)
  · rfl

theorem layerSource?_of_kind {store : Store} {source : LayerSource}
    (h : store.kind = .layers source) : store.layerSource? = some source := by
  rw [layerSource?, h]

/-- A layer that an image is answered with remembers nothing yet. -/
theorem remembered?_of_mem_layerAnswers {store : Store} {refs : List Reference} {l : Layer}
    (h : .ok l ∈ store.layerAnswers refs) : l.remembered? = none := by
  unfold layerAnswers at h
  split at h
  · rename_i source _
    generalize store.sourceState = state at h
    induction refs generalizing state with
    | nil => cases h
    | cons ref rest ih =>
      rcases List.mem_cons.mp h with h | h
      · exact source.fresh _ _ _ h.symm
      · exact ih _ h
  · obtain ⟨ref, -, h⟩ := List.mem_map.mp h
    cases h
    rfl

end Store

namespace Image

variable {store : Store}

/-! ## One layer after the other -/

theorem layer_eq (store : Store) (ref : Reference) :
    store.layerAnswers [ref] = [(layer store ref).1] ∧
      (layer store ref).2 = store.afterLayers [ref] := by
  unfold layer Store.layerAnswers Store.afterLayers
  cases store.layerSource? with
  | none => exact ⟨rfl, by simp [Store.afterDeriving, Store.note]⟩
  | some source => exact ⟨rfl, by simp [providedLayer, Store.afterProviding, Store.note]⟩

/-- If there is an answer for each digest, these are the layers. -/
theorem layersOf_of_answers {ds : List Digest} {ls : List Layer}
    (h : store.layerAnswers (ds.map .ofDigest) = ls.map .ok) :
    layersOf store ds = (.ok ls, store.afterLayers (ds.map .ofDigest)) := by
  induction ds generalizing store ls with
  | nil =>
    cases ls with
    | nil => rw [layersOf, List.map_nil, Store.afterLayers_nil]
    | cons l ls =>
      unfold Store.layerAnswers at h
      split at h <;> cases h
  | cons d rest ih =>
    obtain ⟨hstore, hanswers⟩ := store.afterLayers_cons (.ofDigest d) (rest.map .ofDigest)
    obtain ⟨hfirst, hnext⟩ := layer_eq store (.ofDigest d)
    rw [List.map_cons, hanswers, hfirst] at h
    cases ls with
    | nil => cases h
    | cons l ls =>
      obtain ⟨hl, hls⟩ := List.cons.inj h
      have hlayer : layer store (.ofDigest d) = (.ok l, store.afterLayers [.ofDigest d]) :=
        Prod.ext hl hnext
      rw [layersOf, hlayer]
      dsimp only
      rw [ih hls, List.map_cons, ← hstore]

/-- The first fault is told as it is, and nothing is asked for after it. -/
theorem layersOf_of_failed {ds : List Digest} {k : Nat} {e : Error}
    (h : (store.layerAnswers (ds.map .ofDigest))[k]? = some (.error e))
    (hbefore : ∀ j < k, ∃ l, (store.layerAnswers (ds.map .ofDigest))[j]? = some (.ok l)) :
    layersOf store ds = (.error e, store.afterLayers ((ds.take (k + 1)).map .ofDigest)) := by
  induction ds generalizing store k with
  | nil =>
    unfold Store.layerAnswers at h
    split at h <;> cases h
  | cons d rest ih =>
    obtain ⟨hstore, hanswers⟩ := store.afterLayers_cons (.ofDigest d) (rest.map .ofDigest)
    obtain ⟨hfirst, hnext⟩ := layer_eq store (.ofDigest d)
    rw [List.map_cons, hanswers, hfirst] at h hbefore
    cases k with
    | zero =>
      have hlayer : layer store (.ofDigest d) = (.error e, store.afterLayers [.ofDigest d]) :=
        Prod.ext (Option.some.inj h) hnext
      rw [layersOf, hlayer]
      rfl
    | succ k =>
      obtain ⟨l, hl⟩ := hbefore 0 (Nat.succ_pos k)
      have hlayer : layer store (.ofDigest d) = (.ok l, store.afterLayers [.ofDigest d]) :=
        Prod.ext (Option.some.inj hl) hnext
      have hrest : layersOf (store.afterLayers [.ofDigest d]) rest = _ :=
        ih h fun j hj => hbefore (j + 1) (Nat.succ_lt_succ hj)
      obtain ⟨hstore', -⟩ := store.afterLayers_cons (.ofDigest d) ((rest.take (k + 1)).map .ofDigest)
      rw [layersOf, hlayer]
      dsimp only
      rw [hrest, hstore']
      rfl

/-- Among some answers there is a first fault, or none. -/
theorem exists_of_answers (answers : List (Except Error Layer)) :
    (∃ ls : List Layer, answers = ls.map .ok) ∨ ∃ (k : Nat) (e : Error), answers[k]? = some (.error e) ∧
      ∀ j < k, ∃ l, answers[j]? = some (.ok l) := by
  induction answers with
  | nil => exact Or.inl ⟨[], rfl⟩
  | cons answer rest ih =>
    cases answer with
    | error e => exact Or.inr ⟨0, e, rfl, fun j hj => absurd hj (Nat.not_lt_zero j)⟩
    | ok l =>
      rcases ih with ⟨ls, rfl⟩ | ⟨k, e, hk, hbefore⟩
      · exact Or.inl ⟨l :: ls, rfl⟩
      · refine Or.inr ⟨k + 1, e, hk, ?_⟩
        intro j hj
        cases j with
        | zero => exact ⟨l, rfl⟩
        | succ j => exact hbefore j (Nat.lt_of_succ_lt_succ hj)

/-- Images ask for the layers of some digests from the first on, up to a fault or to the last. -/
theorem layersOf_cases (store : Store) (ds : List Digest) :
    (∃ ls, store.layerAnswers (ds.map .ofDigest) = ls.map .ok ∧
      layersOf store ds = (.ok ls, store.afterLayers (ds.map .ofDigest))) ∨
    ∃ k e, layersOf store ds = (.error e, store.afterLayers ((ds.take (k + 1)).map .ofDigest)) := by
  rcases exists_of_answers (store.layerAnswers (ds.map .ofDigest)) with
    ⟨ls, hls⟩ | ⟨k, e, hk, hbefore⟩
  · exact Or.inl ⟨ls, hls, layersOf_of_answers hls⟩
  · exact Or.inr ⟨k, e, layersOf_of_failed hk hbefore⟩

/-- A store that provides no layers has them derived. -/
theorem layersOf_of_not_provided (h : store.layerSource? = none) (ds : List Digest) :
    layersOf store ds =
      (.ok (ds.map Layer.ofDigest), store.afterDeriving (ds.map .ofDigest)) := by
  have hanswers : store.layerAnswers (ds.map .ofDigest) = (ds.map Layer.ofDigest).map .ok := by
    rw [Store.layerAnswers, h]
    simp only [List.map_map]
    rfl
  rw [layersOf_of_answers hanswers, Store.afterLayers, h]

end Image

namespace Session

/-! ## The layers of an image in a session -/

theorem step_image [Room] {s : Session} {n : Nat} {image : Image} (h : s.images[n]? = some image)
    (call : ImageCall) : s.step (.image n call) = s.callImage image call :=
  withEntry_of_some h s _

/-- Layers of digests are numbered in the order of the digests, after those that are there. -/
theorem addLayers_ofDigest (s : Session) (ds : List Digest) :
    s.addLayers (ds.map Layer.ofDigest) =
      (.layers ((ds.zipIdx s.layers.length).map fun p => (p.2, .ofDigest p.1)),
        { s with layers := s.layers ++ ds.map Layer.ofDigest }) := by
  refine Prod.ext (congrArg Outcome.layers ?_) rfl
  rw [List.zipIdx_map, List.map_map]
  rfl

/-- Asking an image for its layers. If its manifest lists none, that is the answer and nothing
changes. Otherwise a store that does not provide layers is asked for nothing, and there is a derived
layer for each digest, in the same order. A store that does has its source asked for each, in the same
order. The first fault of the source is the answer, nothing beyond it is asked for and no layer is
added; if there is none, the layers are those that the source answers with. -/
theorem layers_in_order [Room] (s : Session) {n : Nat} {image : Image}
    (himage : s.images[n]? = some image) :
    (∀ e, Manifest.layers image.manifest = .error e →
      s.step (.image n .layers) = (.failed (.manifest e), s)) ∧
    ∀ ds, Manifest.layers image.manifest = .ok ds →
      ((∀ source, s.store.kind ≠ .layers source) →
        s.step (.image n .layers) =
          (.layers ((ds.zipIdx s.layers.length).map fun p => (p.2, .ofDigest p.1)), { s with
            store := s.store.afterDeriving (ds.map .ofDigest)
            layers := s.layers ++ ds.map Layer.ofDigest })) ∧
      ∀ source, s.store.kind = .layers source →
        let answers := source.answers s.store.sourceState (ds.map .ofDigest)
        (∀ k e, answers[k]? = some (.error e) → (∀ j < k, ∃ l, answers[j]? = some (.ok l)) →
          s.step (.image n .layers) = (.failed e, { s with
            store := s.store.afterProviding source ((ds.take (k + 1)).map .ofDigest) })) ∧
        (∀ ls, answers = ls.map .ok →
          s.step (.image n .layers) =
            (.layers ((ls.zipIdx s.layers.length).map fun p => (p.2, p.1.reference)), { s with
              store := s.store.afterProviding source (ds.map .ofDigest)
              layers := s.layers ++ ls })) := by
  rw [step_image himage]
  dsimp only [callImage]
  refine ⟨?_, ?_⟩
  · intro e he
    rw [Image.layers, he]
    rfl
  intro ds hds
  have hlayers : image.layers s.store = Image.layersOf s.store ds := by rw [Image.layers, hds]
  rw [hlayers]
  refine ⟨?_, ?_⟩
  · intro hkind
    rw [Image.layersOf_of_not_provided (Store.layerSource?_eq_none hkind)]
    exact addLayers_ofDigest _ ds
  · intro source hkind
    have hsource := Store.layerSource?_of_kind hkind
    have hanswers : s.store.layerAnswers (ds.map .ofDigest) =
        source.answers s.store.sourceState (ds.map .ofDigest) := by
      rw [Store.layerAnswers, hsource]
    have hafter : ∀ refs, s.store.afterLayers refs = s.store.afterProviding source refs := by
      intro refs
      rw [Store.afterLayers, hsource]
    refine ⟨?_, ?_⟩
    · intro k e hk hbefore
      rw [← hanswers] at hk hbefore
      rw [Image.layersOf_of_failed hk hbefore, hafter]
      rfl
    · intro ls hls
      rw [← hanswers] at hls
      rw [Image.layersOf_of_answers hls, hafter]
      rfl

/-- A digest of zero bytes, and one of bytes that are not. -/
def lowDigest : Digest := ⟨.sha256, List.replicate 32 0, by decide⟩

def highDigest : Digest := ⟨.sha256, List.replicate 32 0xFF, by decide⟩

/-- A manifest that names one digest and then another one twice. -/
def twiceListing : Bytes :=
  let entry (d : Digest) : Text :=
    Text.ofString "\x7b\"blobSum\": \"" ++ d.toText ++ Text.ofString "\"\x7d"
  Utf8.encodeAll (Text.ofString "\x7b\"fsLayers\": [" ++ entry lowDigest ++ Text.ofString ", " ++
    entry highDigest ++ Text.ofString ", " ++ entry highDigest ++ Text.ofString "]\x7d")

/-- A source that has one layer, whatever it is asked for first, and no other. -/
def singleLayer : LayerSource where
  shown := Text.ofString "single"
  answer state ref :=
    if state.layersAsked.isEmpty then .ok (Layer.stored none).derive.derive
    else .error (.raised "KeyError" ref.shown)
  fresh _ _ _ h := by
    split at h
    · cases h
      rfl
    · cases h

/-- The source is asked for the other digest once, and what it says to that is passed on. -/
theorem layers_in_order_twiceListing :
    let s := ((start 3 (.ofKind (.layers singleLayer) none none)).run [.wrap none none twiceListing]).2
    (s.step (.image 0 .layers)).1 = .failed (.raised "KeyError" highDigest.toText) ∧
      (s.step (.image 0 .layers)).2.store.layersAsked =
        #[.ofDigest lowDigest, .ofDigest highDigest] ∧
      (s.step (.image 0 .layers)).2.layers = [] := by
  intro s
  have himage : s.images[0]? = some ⟨twiceListing, none, none⟩ := rfl
  have hread : (Manifest.layers twiceListing).toOption =
      some [lowDigest, highDigest, highDigest] := by decide +kernel
  have hlayers : Manifest.layers twiceListing = .ok [lowDigest, highDigest, highDigest] := by
    cases h : Manifest.layers twiceListing with
    | error e =>
      rw [h] at hread
      cases hread
    | ok ds =>
      rw [h] at hread
      exact congrArg Except.ok (Option.some.inj hread)
  have hstep := (((layers_in_order s himage).2 _ hlayers).2 singleLayer rfl).1 1 _ rfl (by
    intro j hj
    obtain rfl : j = 0 := by omega
    exact ⟨_, rfl⟩)
  rw [hstep]
  exact ⟨rfl, rfl, rfl⟩

end Session

end LegacyImage
