import LegacyImage.Proofs.Manifest.Faults
import LegacyImage.Proofs.Session.LayerSources
import LegacyImage.Proofs.Session.Ownership
import LegacyImage.Proofs.Session.PieceSizes

/-!
Images are snapshots. An image that was fetched, and one that was made of the same bytes, answer alike
and always the same, whatever becomes of the blob that the bytes came from (`snapshot`). That takes the
store being asked once, when the image is fetched; an image asks it for nothing.
-/

namespace LegacyImage

/-- Whether a step has the store open a blob, to read it or to hand it out. -/
def Step.OpensContent (step : Step) : Prop := step.streamUse = .own ∨ step.streamUse = .new

theorem Store.asked_afterStoring (store : Store) (hkind : ∀ dir, store.kind ≠ .directory dir)
    (step : Step) : (store.afterStoring step).asked = store.asked := by
  cases step with
  | put content =>
    unfold afterStoring
    dsimp only
    rw [put_memory hkind]
  | putAs ref content =>
    unfold afterStoring
    dsimp only
    rw [putAs_memory hkind]
  | makeDirectory path =>
    rfl
  | _ => rfl

namespace Session

variable {s : Session}

/-! ## Images are kept -/

theorem images_callImage (s : Session) (image : Image) (call : ImageCall) :
    (s.callImage image call).2.images = s.images := by
  cases call with
  | layers =>
    unfold callImage
    dsimp only
    split <;> rfl
  | layerByDigest ref =>
    unfold callImage
    dsimp only
    split <;> rfl
  | _ => rfl

theorem images_readCompressed [Room] (s : Session) (result : Except Error Store.Opened × Store) :
    (s.readCompressed result).2.images = s.images := by
  unfold readCompressed
  split <;> rfl

theorem images_callLayer [Room] (s : Session) (number : Nat) (l : Layer) (call : LayerCall) :
    (s.callLayer number l call).2.images = s.images := by
  cases call with
  | compressed => exact images_readCompressed ..
  | uncompressed =>
    dsimp only [callLayer, readUncompressed]
    split <;> rfl
  | size =>
    dsimp only [callLayer]
    split <;> rfl
  | diffId =>
    dsimp only [callLayer]
    split <;> rfl
  | describeInner =>
    dsimp only [callLayer]
    split <;> rfl
  | _ => rfl

theorem withEntry_keeps {α β : Type} {table : List α} {number : Nat}
    {act : α → Outcome × Session} (f : Session → β) (h : ∀ entry, f (act entry).2 = f s) :
    f (s.withEntry table number act).2 = f s := by
  unfold withEntry
  split
  · exact h _
  · rfl

/-- Only fetching and wrapping change the images. -/
theorem images_step [Room] {step : Step} (hfetch : ∀ ref mediaType, step ≠ .fetch ref mediaType)
    (hwrap : ∀ ref mediaType manifest, step ≠ .wrap ref mediaType manifest) :
    (s.step step).2.images = s.images := by
  by_cases hstoring : step.IsStoring
  · rw [step_of_isStoring hstoring]
    rfl
  cases step with
  | put | putAs | writeFile | makeDirectory => exact absurd trivial hstoring
  | fetch ref mediaType => exact absurd rfl (hfetch ref mediaType)
  | wrap ref mediaType manifest => exact absurd rfl (hwrap ref mediaType manifest)
  | blob ref => exact images_readCompressed ..
  | image number call =>
    exact withEntry_keeps images fun image => images_callImage s image call
  | layer number call =>
    exact withEntry_keeps images fun l => images_callLayer s number l call
  | openCompressed number =>
    refine withEntry_keeps images fun l => ?_
    unfold openCompressed
    split <;> rfl
  | openUncompressed number =>
    refine withEntry_keeps images fun l => ?_
    unfold openUncompressed
    split <;> rfl
  | derive number => exact withEntry_keeps images fun l => rfl
  | read number size => exact withEntry_keeps images fun h => rfl
  | close number => exact withEntry_keeps images fun h => rfl
  | closed number => exact withEntry_keeps images fun h => rfl
  | _ => rfl

theorem exists_images_step [Room] (s : Session) (step : Step) :
    ∃ fresh, (s.step step).2.images = s.images ++ fresh := by
  by_cases hfetch : ∃ ref mediaType, step = .fetch ref mediaType
  · obtain ⟨ref, mediaType, rfl⟩ := hfetch
    unfold Session.step
    dsimp only
    split
    · exact ⟨_, rfl⟩
    · exact ⟨[], (List.append_nil _).symm⟩
  by_cases hwrap : ∃ ref mediaType manifest, step = .wrap ref mediaType manifest
  · obtain ⟨ref, mediaType, manifest, rfl⟩ := hwrap
    exact ⟨_, rfl⟩
  · have hsame : (s.step step).2.images = s.images := images_step
      (fun ref mediaType h => hfetch ⟨ref, mediaType, h⟩)
      fun ref mediaType manifest h => hwrap ⟨ref, mediaType, manifest, h⟩
    exact ⟨[], hsame.trans (List.append_nil _).symm⟩

theorem exists_images_run [Room] (s : Session) (steps : List Step) :
    ∃ fresh, (s.run steps).2.images = s.images ++ fresh := by
  induction steps generalizing s with
  | nil => exact ⟨[], (List.append_nil _).symm⟩
  | cons first rest ih =>
    obtain ⟨fresh, hfirst⟩ := s.exists_images_step first
    obtain ⟨fresh', hrest⟩ := ih (s.step first).2
    refine ⟨fresh ++ fresh', ?_⟩
    rw [← List.append_assoc, ← hfirst]
    exact hrest

theorem run_append [Room] (s : Session) (before after : List Step) :
    (s.run (before ++ after)).2 = ((s.run before).2.run after).2 := by
  induction before generalizing s with
  | nil => rfl
  | cons first rest ih => exact ih (s.step first).2

theorem image_run [Room] {i : Nat} {image : Image} (h : s.images[i]? = some image)
    (steps : List Step) :
    (s.run steps).2.images[i]? = some image := by
  obtain ⟨fresh, hrun⟩ := s.exists_images_run steps
  obtain ⟨hi, -⟩ := List.getElem?_eq_some_iff.mp h
  rw [hrun, List.getElem?_append_left hi]
  exact h

/-! ## Who asks the store -/

theorem asked_afterLayers (store : Store) (refs : List Reference) :
    (store.afterLayers refs).asked = store.asked := by
  obtain ⟨layersAsked, log, h⟩ := store.exists_afterLayers_eq refs
  rw [h]

theorem asked_callImage (s : Session) (image : Image) (call : ImageCall) :
    (s.callImage image call).2.store.asked = s.store.asked := by
  cases call with
  | layers =>
    unfold callImage Image.layers
    dsimp only
    cases Manifest.layers image.manifest with
    | error e => rfl
    | ok ds =>
      dsimp only
      rcases Image.layersOf_cases s.store ds with ⟨ls, -, h⟩ | ⟨k, e, h⟩
      · rw [h]
        exact asked_afterLayers ..
      · rw [h]
        exact asked_afterLayers ..
  | layerByDigest ref =>
    have hasked := (congrArg Store.asked (Image.layer_eq s.store ref).2).trans
      (asked_afterLayers s.store [ref])
    unfold callImage
    dsimp only
    split <;> (rename_i h; rw [h] at hasked; exact hasked)
  | _ => rfl

/-- A store in memory is asked for content only by steps that open it. -/
theorem asked_step [Room] (hkind : ∀ dir, s.store.kind ≠ .directory dir) {step : Step}
    (h : ¬ step.OpensContent) : (s.step step).2.store.asked = s.store.asked := by
  by_cases hstoring : step.IsStoring
  · rw [step_of_isStoring hstoring]
    exact s.store.asked_afterStoring hkind step
  cases step with
  | put | putAs | writeFile | makeDirectory => exact absurd trivial hstoring
  | blob | fetch => exact absurd (.inl rfl) h
  | openCompressed | openUncompressed => exact absurd (.inr rfl) h
  | image number call =>
    exact withEntry_keeps (fun s => s.store.asked) fun image => asked_callImage s image call
  | layer number call =>
    refine withEntry_keeps (fun s => s.store.asked) fun l => ?_
    cases call with
    | compressed | uncompressed | diffId => exact absurd (.inl rfl) h
    | size =>
      dsimp only [callLayer]
      split <;> rfl
    | describeInner =>
      dsimp only [callLayer]
      split <;> rfl
    | _ => rfl
  | derive number => exact withEntry_keeps (fun s => s.store.asked) fun l => rfl
  | read number size => exact withEntry_keeps (fun s => s.store.asked) fun h => rfl
  | close number => exact withEntry_keeps (fun s => s.store.asked) fun h => rfl
  | closed number => exact withEntry_keeps (fun s => s.store.asked) fun h => rfl
  | _ => rfl

/-! ## Fetched and wrapped images -/

/-- An image that was fetched from memory has the whole blob as its manifest, and the store was asked
for that alone. -/
theorem step_fetch_whole [Room] (hkind : ∀ dir, s.store.kind ≠ .directory dir)
    (hmax : s.store.maxRead ≠ some 0) (hsize : s.chunkSize ≠ 0) {ref : Reference}
    {mediaType : Option Text} {m : Bytes} (hget : Table.get? s.store.blobs ref = some m) {n : Nat}
    (hfetch : (s.step (.fetch ref mediaType)).1 = .image n) :
    s.step (.fetch ref mediaType) =
      (s.after ((s.store.serving ref).note (.retrievedManifest ref m.length))).addImage
        ⟨m, ref, mediaType⟩ := by
  obtain ⟨content, manifest, hcontent, hread, -⟩ := exists_of_step_fetch hkind hfetch
  obtain rfl : m = content := Option.some.inj (hget.symm.trans hcontent)
  obtain rfl : manifest = m := Stream.eq_rest_of_readAll hsize hmax hread
  refine step_fetch_of_readBlob ?_ mediaType
  rw [Store.readBlob_memory hkind, hget]
  dsimp only
  rw [hread]
  rfl

/-- The layers of an image over a store that refuses none. -/
theorem step_layers_of_derives [Room] (hk : s.store.kind.Derives) {i : Nat} {image : Image}
    (himage : s.images[i]? = some image) :
    (s.step (.image i .layers)).1 =
      match Manifest.layers image.manifest with
      | .ok ds =>
        .layers ((ds.zipIdx s.layers.length).map fun p => (p.2, .ofDigest p.1))
      | .error e => .failed (.manifest e) := by
  rw [step_image himage]
  dsimp only [callImage, Image.layers]
  cases Manifest.layers image.manifest with
  | error e => rfl
  | ok ds =>
    obtain ⟨b, -, hlayers⟩ := Image.layersOf_of_derives hk ds
    dsimp only
    rw [hlayers]
    exact congrArg Prod.fst (addLayers_ofDigest _ ds)

theorem derives_run [Room] (hk : s.store.kind.Derives) (steps : List Step) :
    (s.run steps).2.store.kind.Derives := by
  rw [← (s.isLike_run steps).2.kind]
  exact hk

/-- Fetching an image from memory asks the store once. From then on, whatever else is done, the image
answers with the bytes that were there, their number, the reference and the media type that it was
asked for by, and the layers that the bytes list, in their order, or always the same fault, which is a
parse error unless the bytes nest too deep. An image that is made of the same bytes at any later time
gives the same answers. Nothing but opening content asks the store for any. -/
theorem snapshot [Room] (hk : s.store.kind.Derives) (hmax : s.store.maxRead ≠ some 0)
    (hsize : s.chunkSize ≠ 0) {ref : Reference} {mediaType : Option Text} {m : Bytes}
    (hget : Table.get? s.store.blobs ref = some m) {n : Nat}
    (hfetch : (s.step (.fetch ref mediaType)).1 = .image n) :
    let fetched := (s.step (.fetch ref mediaType)).2
    fetched.store.asked = s.store.asked.push ref ∧
    fetched.store.layersAsked = s.store.layersAsked ∧
    (∀ e, Manifest.layers m = .error e → e.kind? = some .parse ∨ e = .document .tooDeep ∧
      ∃ t, Json.decode m = .ok t ∧ Json.maxDepth < Json.nesting t) ∧
    (∀ steps : List Step,
      let later := (fetched.run steps).2
      (later.step (.image n .rawManifest)).1 = .bytes m ∧
      (later.step (.image n .size)).1 = .number m.length ∧
      (later.step (.image n .digest)).1 = .text ref ∧
      (later.step (.image n .mediaType)).1 = .text mediaType ∧
      (later.step (.image n .layers)).1 =
        (match Manifest.layers m with
        | .ok ds =>
          .layers ((ds.zipIdx later.layers.length).map fun p => (p.2, .ofDigest p.1))
        | .error e => .failed (.manifest e)) ∧
      ∀ step : Step, ¬ step.OpensContent →
        (later.step step).2.store.asked = later.store.asked) ∧
    ∀ before : List Step, ∃ n',
      let wrapping := (fetched.run before).2.step (.wrap ref mediaType m)
      wrapping.1 = .image n' ∧ wrapping.2.store = (fetched.run before).2.store ∧
      ∀ (after : List Step) (call : ImageCall),
        let later := (fetched.run (before ++ .wrap ref mediaType m :: after)).2
        later.step (.image n' call) = later.step (.image n call) := by
  have hstep := step_fetch_whole hk.ne_directory hmax hsize hget hfetch
  obtain rfl : n = s.images.length := by
    rw [hstep] at hfetch
    cases hfetch
    rfl
  rw [hstep]
  let image : Image := ⟨m, ref, mediaType⟩
  let fetched :=
    ((s.after ((s.store.serving ref).note (.retrievedManifest ref m.length))).addImage image).2
  have hfetched : ∀ steps, (fetched.run steps).2.images[s.images.length]? = some image :=
    image_run List.getElem?_concat_length
  refine ⟨rfl, rfl, fun e he => Manifest.kind?_of_layers_error he, ?_, ?_⟩
  · intro steps later
    have hk' : later.store.kind.Derives := by
      apply derives_run
      exact hk
    have hcall : ∀ call, later.step (.image s.images.length call) = later.callImage image call :=
      step_image (hfetched steps)
    refine ⟨?_, ?_, ?_, ?_, step_layers_of_derives hk' (hfetched steps),
      fun step hstep => asked_step hk'.ne_directory hstep⟩
    · rw [hcall]
      rfl
    · rw [hcall]
      rfl
    · rw [hcall]
      rfl
    · rw [hcall]
      rfl
  · intro before
    refine ⟨(fetched.run before).2.images.length, rfl, rfl, ?_⟩
    intro after call later
    have hlater : later = ((fetched.run before).2.run (.wrap ref mediaType m :: after)).2 :=
      run_append fetched before _
    have hwrapped : later.images[(fetched.run before).2.images.length]? = some image := by
      rw [hlater]
      exact image_run List.getElem?_concat_length after
    rw [step_image (hfetched _), step_image hwrapped]

/-- A blob that is stored anew after it was fetched. -/
theorem snapshot_overwritten :
    let letter := some (Text.ofString "letter")
    let s := letterSession 3
    ∃ fetched s₁, s.step (.fetch letter none) = (.image 0, fetched) ∧
      fetched.run [.putAs letter [], .wrap letter none letterFile] = ([.done, .image 1], s₁) ∧
      (s₁.step (.image 0 .rawManifest)).1 = .bytes letterFile ∧
      s₁.step (.image 0 .layers) = s₁.step (.image 1 .layers) ∧
      (s₁.step (.blob letter)).1 = .bytes [] := by
  intro letter s
  have hkind : ∀ dir, s.store.kind ≠ .directory dir := by
    intro dir h
    cases h
  have hget : Table.get? s.store.blobs letter = some letterFile := rfl
  have hread : (Stream.reader.readAll 3 (.ofBytes letterFile none none)).1 = .ok letterFile :=
    Stream.readAll_eq_rest (by decide) rfl rfl (by decide) rfl
  obtain ⟨s', hfetch, -⟩ := step_fetch_memory hkind hget hread none
  have hstep := step_fetch_whole hkind (by decide) (by decide) hget (congrArg Prod.fst hfetch)
  obtain ⟨-, -, -, hlater, hwrapped⟩ := snapshot (s := s) StoreKind.derives_memory (by decide) (by decide) hget
    (congrArg Prod.fst hfetch)
  obtain ⟨n', hwrap, -, hsame⟩ := hwrapped [.putAs letter []]
  obtain ⟨hmanifest, -⟩ := hlater [.putAs letter [], .wrap letter none letterFile]
  have hlayers := hsame [] .layers
  rw [hstep] at hwrap hmanifest hlayers
  cases hwrap
  exact ⟨_, _, hstep, rfl, hmanifest, hlayers.symm, rfl⟩

/-- Brackets that open and open are no parse error, whenever the layers of their image are asked
for. -/
theorem snapshot_of_deepLists :
    let letter := some (Text.ofString "letter")
    let s := ((start 3 (.ofKind .memory none none)).run [.putAs letter Manifest.deepLists]).2
    ∃ fetched, s.step (.fetch letter none) = (.image 0, fetched) ∧
      (fetched.step (.image 0 .layers)).1 = .failed (.manifest (.document .tooDeep)) ∧
      (∀ ds, Manifest.layers Manifest.deepLists ≠ .ok ds) ∧
      ManifestError.kind? (.document .tooDeep) ≠ some .parse := by
  intro letter s
  have hkind : ∀ dir, s.store.kind ≠ .directory dir := by
    intro dir h
    cases h
  have hget : Table.get? s.store.blobs letter = some Manifest.deepLists := rfl
  have hread : (Stream.reader.readAll 3 (.ofBytes Manifest.deepLists none none)).1 =
      .ok Manifest.deepLists :=
    Stream.readAll_eq_rest (by decide) rfl rfl (by decide) rfl
  obtain ⟨s', hfetch, -⟩ := step_fetch_memory hkind hget hread none
  have hstep := step_fetch_whole hkind (by decide) (by decide) hget (congrArg Prod.fst hfetch)
  refine ⟨_, hstep, ?_, ?_, nofun⟩
  · rw [step_image rfl]
    dsimp only [callImage, Image.layers]
    rw [Manifest.layers_deepLists]
  · intro ds h
    rw [Manifest.layers_deepLists] at h
    cases h

end Session

end LegacyImage
