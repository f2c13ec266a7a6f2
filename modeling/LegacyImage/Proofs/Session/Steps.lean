import LegacyImage.Proofs.Image.Enumeration
import LegacyImage.Proofs.Layer.Computing

/-!
What a step of a session can do: store something, ask a layer for its diff id, or go on with what
is stored and what is remembered as they are, perhaps with further layers that remember nothing
(`extends_step`).
-/

namespace LegacyImage

/-! ## What images add -/

namespace Image

theorem agrees_afterLayers (store : Store) (refs : List Reference) :
    store.Agrees (store.afterLayers refs) := by
  obtain ⟨asked, log, h⟩ := store.exists_afterLayers_eq refs
  rw [h]
  exact ⟨rfl, rfl, rfl, rfl, rfl⟩

theorem layer_spec (store : Store) (ref : Reference) :
    store.Agrees (layer store ref).2 ∧
      ∀ l, (layer store ref).1 = .ok l → l.remembered? = none := by
  obtain ⟨hanswer, hstore⟩ := layer_eq store ref
  refine ⟨hstore ▸ agrees_afterLayers store _, ?_⟩
  intro l hl
  rw [hl] at hanswer
  exact Store.remembered?_of_mem_layerAnswers (hanswer ▸ List.mem_singleton_self _)

theorem layersOf_spec (store : Store) (ds : List Digest) :
    store.Agrees (layersOf store ds).2 ∧
      ∀ ls, (layersOf store ds).1 = .ok ls → ∀ l ∈ ls, l.remembered? = none := by
  rcases layersOf_cases store ds with ⟨ls, hanswers, h⟩ | ⟨k, e, h⟩
  · rw [h]
    refine ⟨agrees_afterLayers store _, ?_⟩
    rintro ls' h' l hl
    cases h'
    exact Store.remembered?_of_mem_layerAnswers (hanswers ▸ List.mem_map_of_mem hl)
  · rw [h]
    exact ⟨agrees_afterLayers store _, nofun⟩

theorem layers_spec (store : Store) (image : Image) :
    store.Agrees (image.layers store).2 ∧
      ∀ ls, (image.layers store).1 = .ok ls → ∀ l ∈ ls, l.remembered? = none := by
  unfold layers
  split
  · refine ⟨.refl store, ?_⟩
    intro ls h
    cases h
  · exact layersOf_spec ..

theorem agrees_fetch [Room] (chunkSize : Int) (store : Store) (ref : Reference)
    (mediaType : Option Text) : store.Agrees (fetch chunkSize store ref mediaType).2 := by
  have h := store.agrees_readBlob chunkSize ref
  unfold fetch
  split
  · rename_i hr
    rw [hr] at h
    exact h
  · rename_i hr
    rw [hr] at h
    exact h.trans (Store.agrees_note ..)

end Image

/-- Whether a step may change what is stored. -/
def Step.IsStoring : Step → Prop
  | .put _ | .putAs .. | .writeFile .. | .makeDirectory _ => True
  | _ => False

namespace Store

def afterStoring (store : Store) : Step → Store
  | .put content => (store.put content).2
  | .putAs ref content => (store.putAs ref content).2
  | .writeFile path content => (store.writeFile path content).2
  | .makeDirectory path => (store.makeDirectory path).2
  | _ => store

theorem isLike_afterStoring (store : Store) (step : Step) :
    store.IsLike (store.afterStoring step) := by
  cases step with
  | put content => exact store.isLike_put content
  | putAs ref content => exact store.isLike_putAs ref content
  | writeFile path content => exact store.isLike_writeFile path content
  | makeDirectory path => exact store.isLike_makeDirectory path
  | _ => exact (Agrees.refl store).isLike

theorem afterStoring_congr {a b : Store} (h : a.Agrees b) (step : Step) :
    (a.afterStoring step).Agrees (b.afterStoring step) := by
  cases step with
  | put content => exact put_congr h content
  | putAs ref content => exact putAs_congr h ref content
  | writeFile path content => exact writeFile_congr h path content
  | makeDirectory path => exact makeDirectory_congr h path
  | _ => exact h

end Store

namespace Session

/-! ## What a step can do -/

/-- A session that went on without storing anything or remembering a diff id. -/
structure Extends (s s' : Session) : Prop where
  chunkSize : s'.chunkSize = s.chunkSize
  store : s.store.Agrees s'.store
  layers : ∃ fresh, s'.layers = s.layers ++ fresh ∧ ∀ l ∈ fresh, l.remembered? = none

variable {s s' : Session} {k : Nat}

theorem Extends.of_eq (hchunk : s'.chunkSize = s.chunkSize) (hstore : s.store.Agrees s'.store)
    (hlayers : s'.layers = s.layers) : s.Extends s' := by
  refine ⟨hchunk, hstore, [], ?_, ?_⟩
  · rw [hlayers, List.append_nil]
  · intro l hl
    cases hl

theorem Extends.refl (s : Session) : s.Extends s := .of_eq rfl (.refl s.store) rfl

theorem Extends.of_layer {l : Layer} (h : l.remembered? = none) :
    s.Extends (s.addLayer l).2 := by
  refine ⟨rfl, .refl s.store, [l], rfl, ?_⟩
  intro l' hl
  rw [List.mem_singleton.mp hl]
  exact h

theorem extends_withEntry {α : Type} {table : List α} {number : Nat}
    {act : α → Outcome × Session}
    (h : ∀ entry, table[number]? = some entry → s.Extends (act entry).2) :
    s.Extends (s.withEntry table number act).2 := by
  unfold withEntry
  split
  · rename_i entry he
    exact h entry he
  · exact .refl s

theorem extends_callImage (s : Session) (image : Image) (call : ImageCall) :
    s.Extends (s.callImage image call).2 := by
  cases call with
  | layers =>
    obtain ⟨hagrees, hfresh⟩ := image.layers_spec s.store
    unfold callImage
    dsimp only
    split
    · rename_i ls store h
      rw [h] at hagrees hfresh
      exact ⟨rfl, hagrees, ls, rfl, hfresh ls rfl⟩
    · rename_i e store h
      rw [h] at hagrees
      exact .of_eq rfl hagrees rfl
  | layerByDigest ref =>
    obtain ⟨hagrees, hfresh⟩ := Image.layer_spec s.store ref
    unfold callImage
    dsimp only
    split
    · rename_i l store h
      rw [h] at hagrees hfresh
      refine ⟨rfl, hagrees, [l], rfl, ?_⟩
      intro l' hl
      rw [List.mem_singleton.mp hl]
      exact hfresh l rfl
    · rename_i e store h
      rw [h] at hagrees
      exact .of_eq rfl hagrees rfl
  | _ => exact .refl s

theorem extends_readCompressed [Room] {result : Except Error Store.Opened × Store}
    (h : s.store.Agrees result.2) : s.Extends (s.readCompressed result).2 := by
  unfold readCompressed
  split
  · exact .of_eq rfl h rfl
  · exact .of_eq rfl (h.trans (Store.agrees_close ..)) rfl

theorem extends_readUncompressed [Room] (s : Session) (l : Layer) :
    s.Extends (s.readUncompressed l).2 := by
  have hagrees := l.agrees_uncompressed s.store
  unfold readUncompressed
  split
  · rename_i h
    rw [h] at hagrees
    exact .of_eq rfl hagrees rfl
  · rename_i h
    rw [h] at hagrees
    exact .of_eq rfl (hagrees.trans (Store.agrees_close ..)) rfl

theorem extends_openCompressed (s : Session) (l : Layer) : s.Extends (s.openCompressed l).2 := by
  have hagrees := Store.agrees_openBlob s.store l.reference
  unfold openCompressed
  rw [Layer.compressed_eq_openBlob]
  split <;> (rename_i h; rw [h] at hagrees; exact .of_eq rfl hagrees rfl)

theorem extends_openUncompressed (s : Session) (l : Layer) :
    s.Extends (s.openUncompressed l).2 := by
  have hagrees := l.agrees_uncompressed s.store
  unfold openUncompressed
  split <;> (rename_i h; rw [h] at hagrees; exact .of_eq rfl hagrees rfl)

theorem extends_callLayer [Room] (s : Session) (number : Nat) (l : Layer) {call : LayerCall}
    (hcall : call ≠ .diffId) : s.Extends (s.callLayer number l call).2 := by
  cases call with
  | compressed =>
    refine extends_readCompressed ?_
    rw [Layer.compressed_eq_openBlob]
    exact Store.agrees_openBlob ..
  | uncompressed => exact extends_readUncompressed s l
  | size =>
    dsimp only [callLayer]
    split <;> exact .refl s
  | describeInner =>
    dsimp only [callLayer]
    split <;> exact .refl s
  | diffId => exact absurd rfl hcall
  | _ => exact .refl s

theorem extends_step [Room] {step : Step} (hstoring : ¬ step.IsStoring)
    (hdiffId : ∀ n, step ≠ .layer n .diffId) : s.Extends (s.step step).2 := by
  cases step with
  | put => exact absurd trivial hstoring
  | putAs => exact absurd trivial hstoring
  | writeFile => exact absurd trivial hstoring
  | makeDirectory => exact absurd trivial hstoring
  | blob ref => exact extends_readCompressed (Store.agrees_openBlob ..)
  | fetch ref mediaType =>
    have hagrees := Image.agrees_fetch s.chunkSize s.store ref mediaType
    unfold Session.step
    dsimp only
    split <;> (rename_i h; rw [h] at hagrees; exact .of_eq rfl hagrees rfl)
  | wrap ref mediaType manifest => exact .of_eq rfl (.refl _) rfl
  | image number call => exact extends_withEntry fun image _ => extends_callImage s image call
  | storedLayer ref => exact .of_layer rfl
  | derive number => exact extends_withEntry fun l _ => .of_layer rfl
  | layer number call =>
    exact extends_withEntry fun l _ => extends_callLayer s number l fun h => hdiffId number (h ▸ rfl)
  | openCompressed number => exact extends_withEntry fun l _ => extends_openCompressed s l
  | openUncompressed number => exact extends_withEntry fun l _ => extends_openUncompressed s l
  | read number size => exact extends_withEntry fun h _ => .of_eq rfl (.refl _) rfl
  | close number => exact extends_withEntry fun h _ => .of_eq rfl (Store.agrees_close ..) rfl
  | closed number => exact extends_withEntry fun h _ => .refl s
  | log => exact .of_eq rfl ⟨rfl, rfl, rfl, rfl, rfl⟩ rfl
  | _ => exact .refl s

theorem step_of_isStoring [Room] {step : Step} (h : step.IsStoring) (s : Session) :
    (s.step step).2 = s.after (s.store.afterStoring step) := by
  cases step with
  | put content =>
    unfold Session.step Store.afterStoring
    dsimp only
    split <;> (rename_i hr; rw [hr])
  | putAs ref content =>
    unfold Session.step Store.afterStoring
    dsimp only
    split <;> (rename_i hr; rw [hr])
  | writeFile path content =>
    unfold Session.step Store.afterStoring
    dsimp only
    split <;> (rename_i hr; rw [hr])
  | makeDirectory path =>
    unfold Session.step Store.afterStoring
    dsimp only
    split <;> (rename_i hr; rw [hr])
  | _ => exact h.elim

theorem step_diffId [Room] {n : Nat} {l : Layer} (hlayer : s.layers[n]? = some l) :
    s.step (.layer n .diffId) =
      (match (l.diffId s.chunkSize s.store).1 with
        | .ok d => .text (some d.toText)
        | .error e => .failed e,
        { s with
          store := (l.diffId s.chunkSize s.store).2.2
          layers := s.layers.set n (l.diffId s.chunkSize s.store).2.1 }) := by
  rw [step_layer s hlayer]
  dsimp only [callLayer]
  split <;> (rename_i h; rw [h])

theorem step_fetch_of_readBlob [Room] {ref : Reference} {manifest : Bytes} {store : Store}
    (h : s.store.readBlob s.chunkSize ref = (.ok manifest, store)) (mediaType : Option Text) :
    s.step (.fetch ref mediaType) =
      (s.after (store.note (.retrievedManifest ref manifest.length))).addImage
        ⟨manifest, ref, mediaType⟩ := by
  unfold step Image.fetch
  dsimp only
  rw [h]

end Session

end LegacyImage
