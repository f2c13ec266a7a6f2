import LegacyImage.Proofs.Image.Enumeration
import LegacyImage.Proofs.Manifest.Listing
import LegacyImage.Proofs.Session.Steps
import LegacyImage.Proofs.Store.Library
import LegacyImage.Proofs.Store.OpenFile
import LegacyImage.Proofs.Store.Roots

/-!
Images through a directory, from end to end. What was put into an empty directory in any order is
fetched as it was, and the manifest among it gives one layer for each entry, with the content that
was put there under the digest of the entry (`retrieval`).
-/

namespace LegacyImage

theorem Manifest.layers_of_names {m : Bytes} {v : Json} {items : List Json} {ds : List Digest}
    (hm : Json.read m = .ok v) (hlist : v.fsLayers? = some (.array items))
    (hnames : List.Forall₂ Names items ds) : layers m = .ok ds := by
  have hl : layers m = layersOf v := by simp only [layers, hm]
  rw [hl, layersOf_of_array hlist]
  exact entryDigests_eq_ok_iff.mpr ⟨ds, rfl, hnames⟩

namespace Session

variable {s : Session} {dir : BlobDirectory} {here : List Text} {contents : List Bytes}

/-! ## Steps on a library -/

/-- Whether the store is a directory whose root leads to a place that was empty before these contents
were put there. -/
structure HasLibrary (s : Session) (dir : BlobDirectory) (here : List Text)
    (contents : List Bytes) : Prop where
  kind : s.store.kind = .directory dir
  isAt : dir.IsAt s.store.tree here
  fits : ∀ x, (dir.pathOf (.ofBytes x)).Fits
  tree : Tree.IsLibrary here (shelved [] contents) s.store.tree

theorem HasLibrary.of_agrees {s' : Session} (h : s.HasLibrary dir here contents)
    (hstore : s.store.Agrees s'.store) : s'.HasLibrary dir here contents :=
  ⟨hstore.kind.symm.trans h.kind, hstore.tree ▸ h.isAt, h.fits, hstore.tree ▸ h.tree⟩

theorem HasLibrary.content_eq_ok_iff (h : s.HasLibrary dir here contents) {names : List Text}
    {held : Bytes} :
    s.store.tree.content (here ++ names) = .ok held ↔
      names = BlobDirectory.namesOf (.ofBytes held) ∧
        (Digest.ofBytes held).lastOf contents = some held := by
  rw [Tree.content_of_isLibrary h.tree]
  constructor
  · rintro ⟨name, rfl, hget⟩
    have hfind := hget
    rw [get?_shelved_nil] at hfind
    have hname : (Digest.ofBytes held).hex = name := by simpa using List.find?_some hfind
    subst hname
    exact ⟨rfl, by rw [← get?_shelved_hex rfl, hget]⟩
  · rintro ⟨rfl, hlast⟩
    exact ⟨_, rfl, by rw [get?_shelved_hex rfl, hlast]⟩

theorem HasLibrary.openBlob (h : s.HasLibrary dir here contents) {x : Bytes}
    (hx : (Digest.ofBytes x).lastOf contents = some x) :
    ∃ id store place, s.store.openBlob (.ofDigest (.ofBytes x)) =
        (.ok ⟨id, .file ⟨place, [], 0, false⟩⟩, store) ∧
      s.store.Agrees store ∧ s.store.tree.content place = .ok x := by
  have hcontent := h.content_eq_ok_iff.mpr ⟨rfl, hx⟩
  have hplace := h.isAt.openAt_eq (h.fits x).taken
  rw [hcontent] at hplace
  have hdigest : (Reference.ofDigest (.ofBytes x)).digest? = some (.ofBytes x) :=
    Digest.parse?_toText (.ofBytes x)
  obtain ⟨id, store, hopen, hagrees⟩ := Store.openBlob_of_openAt h.kind hdigest hplace
  exact ⟨id, store, _, hopen, hagrees, hcontent⟩

theorem step_put_of_ok [Room] {content : Bytes} {d : Digest} {store : Store}
    (h : s.store.put content = (.ok d, store)) :
    s.step (.put content) = (.digest d, s.after store) := by
  unfold step
  dsimp only
  rw [h]

theorem step_put_library [Room] (h : s.HasLibrary dir here contents) (x : Bytes) :
    ∃ store, s.step (.put x) = (.digest (.ofBytes x), s.after store) ∧
      (s.after store).HasLibrary dir here (contents ++ [x]) := by
  obtain ⟨tree, hput, hlibrary⟩ :=
    Tree.putFile_library h.tree (Digest.ofBytes x).hex (dir.pathOf (.ofBytes x)) x
  have hstore := Store.put_of_isAt h.kind h.isAt (h.fits x)
  have hisAt := h.isAt.of_putFile (BlobDirectory.place_ne_nil here (.ofBytes x)) hput
  change Tree.putFile (here ++ BlobDirectory.namesOf (.ofBytes x)) _ x s.store.tree = .ok tree at hput
  rw [hput] at hstore
  refine ⟨{ s.store with tree }, step_put_of_ok hstore, h.kind, hisAt, h.fits, ?_⟩
  rw [shelved, List.foldl_append]
  exact hlibrary

/-- What holds of a session and the contents put so far, and is kept by every further one, holds
after all of them. -/
theorem run_puts_of_step [Room] {P : Session → List Bytes → Prop}
    (hstep : ∀ {s : Session} {done : List Bytes}, P s done → ∀ x, ∃ store,
      s.step (.put x) = (.digest (.ofBytes x), s.after store) ∧ P (s.after store) (done ++ [x]))
    {done : List Bytes} (h : P s done) (contents : List Bytes) :
    ∃ store, s.run (contents.map .put) =
        (contents.map fun x => .digest (.ofBytes x), s.after store) ∧
      P (s.after store) (done ++ contents) := by
  induction contents generalizing s done with
  | nil => exact ⟨s.store, rfl, by rwa [List.append_nil]⟩
  | cons x rest ih =>
    obtain ⟨store, hput, hdone⟩ := hstep h x
    obtain ⟨store', hrest, hall⟩ := ih hdone
    refine ⟨store', ?_, by rwa [List.append_cons]⟩
    rw [List.map_cons, run, hput]
    dsimp only
    rw [hrest]
    rfl

/-- Contents that are put one after the other are all in the library. -/
theorem run_puts_library [Room] (h : s.HasLibrary dir here contents) (puts : List Bytes) :
    ∃ store, s.run (puts.map .put) =
        (puts.map fun x => .digest (.ofBytes x), s.after store) ∧
      (s.after store).HasLibrary dir here (contents ++ puts) := by
  exact run_puts_of_step (P := fun s done => s.HasLibrary dir here done) step_put_library h puts

theorem step_fetch [Room] (h : s.HasLibrary dir here contents) {m : Bytes}
    (hm : (Digest.ofBytes m).lastOf contents = some m) (hn : 0 < s.chunkSize)
    (hroom : s.chunkSize < Room.bound) (mediaType : Option Text) :
    ∃ s', s.step (.fetch (.ofDigest (.ofBytes m)) mediaType) = (.image s.images.length, s') ∧
      s'.HasLibrary dir here contents ∧ s'.chunkSize = s.chunkSize ∧
      s'.images = s.images ++ [⟨m, .ofDigest (.ofBytes m), mediaType⟩] ∧
      s'.layers = s.layers := by
  obtain ⟨id, store, place, hopen, hagrees, hcontent⟩ := h.openBlob hm
  rw [hagrees.tree] at hcontent
  have hread : s.store.readBlob s.chunkSize (.ofDigest (.ofBytes m)) =
      (.ok m, store.close id) := by
    unfold Store.readBlob
    rw [hopen]
    dsimp only
    rw [OpenBlob.readAll_file hn hroom hcontent]
  have hagrees' : s.store.Agrees ((store.close id).note
      (.retrievedManifest (.ofDigest (.ofBytes m)) m.length)) :=
    hagrees.trans ((store.agrees_close id).trans (Store.agrees_note ..))
  exact ⟨_, step_fetch_of_readBlob hread mediaType, h.of_agrees hagrees', rfl, rfl, rfl⟩

/-- Nothing can be fetched in pieces for which there is no room. -/
theorem step_fetch_of_noRoom [Room] (h : s.HasLibrary dir here contents)
    (hroom : Room.bound ≤ s.chunkSize) (ref : Reference) (mediaType : Option Text)
    (n : Nat) : (s.step (.fetch ref mediaType)).1 ≠ .image n := by
  have hread := Store.readBlob_of_noRoom h.kind hroom ref
  intro hfetch
  unfold step Image.fetch at hfetch
  dsimp only at hfetch
  cases hresult : s.store.readBlob s.chunkSize ref with
  | mk result store =>
    rw [hresult] at hread hfetch
    cases result with
    | error e => cases hfetch
    | ok content => exact absurd rfl (hread content)

/-- The layers of an image whose manifest names some digests. -/
theorem step_layers [Room] (h : s.HasLibrary dir here contents) {n : Nat} {image : Image}
    (himage : s.images[n]? = some image) {ds : List Digest}
    (hlayers : Manifest.layers image.manifest = .ok ds) :
    ∃ s', s.step (.image n .layers) =
        (.layers ((ds.zipIdx s.layers.length).map fun p => (p.2, .ofDigest p.1)), s') ∧
      s'.HasLibrary dir here contents ∧ s'.chunkSize = s.chunkSize ∧
      s'.layers = s.layers ++ ds.map Layer.ofDigest := by
  have hsource : s.store.layerSource? = none := by
    rw [Store.layerSource?, h.kind]
  have hstep : s.step (.image n .layers) =
      (s.after (s.store.afterDeriving (ds.map .ofDigest))).addLayers (ds.map Layer.ofDigest) := by
    rw [step_image himage]
    dsimp only [callImage]
    rw [Image.layers, hlayers]
    dsimp only
    rw [Image.layersOf_of_not_provided hsource]
  exact ⟨_, hstep.trans (addLayers_ofDigest _ ds), ⟨h.kind, h.isAt, h.fits, h.tree⟩, rfl, rfl⟩

theorem readCompressed_eq_bytes [Room] {opened : Store.Opened} {store : Store} {content : Bytes}
    (h : (opened.blob.read store.tree (-1)).1 = .ok content) :
    (s.readCompressed (.ok opened, store)).1 = .bytes content := by
  unfold readCompressed Handle.read
  dsimp only
  cases hread : opened.blob.read store.tree (-1) with
  | mk result blob =>
    rw [hread] at h
    dsimp only at h
    rw [h]
    rfl

/-- What a layer gives whose blob is in the library. -/
theorem step_layer_of_library [Room] (h : s.HasLibrary dir here contents) {b : Bytes}
    (hb : (Digest.ofBytes b).lastOf contents = some b) {i : Nat}
    (hlayer : s.layers[i]? = some (Layer.ofDigest (.ofBytes b))) :
    (s.step (.layer i .digest)).1 = .text (some (Digest.ofBytes b).toText) ∧
      (s.step (.layer i .compressed)).1 = .bytes b ∧
      (0 < s.chunkSize → s.chunkSize < Room.bound → ∀ u, Gzip.content b = .ok u →
        (s.step (.layer i .diffId)).1 = .text (some (Digest.ofBytes u).toText)) := by
  obtain ⟨id, store, place, hopen, hagrees, hcontent⟩ := h.openBlob hb
  rw [hagrees.tree] at hcontent
  have hcompressed : (Layer.stored (.ofDigest (.ofBytes b))).compressed s.store =
      (.ok ⟨id, .file ⟨place, [], 0, false⟩⟩, store) := hopen
  refine ⟨?_, ?_, ?_⟩
  · rw [step_layer s hlayer]
    rfl
  · rw [step_layer s hlayer]
    change (s.readCompressed (s.store.openBlob (.ofDigest (.ofBytes b)))).1 = _
    rw [hopen]
    exact readCompressed_eq_bytes (OpenBlob.read_all_file hcontent)
  · intro hn hroom u hu
    rw [step_layer s hlayer, callLayer_diffId_eq_text_iff]
    refine ⟨.ofBytes u, ?_, rfl⟩
    refine (Layer.diffId_eq_ok_iff hn s.store _ _).mpr
      ⟨hroom, ⟨id, .start (.file ⟨place, [], 0, false⟩)⟩, store, u, ?_, ?_, rfl⟩
    · unfold Layer.uncompressed
      dsimp only
      rw [hcompressed]
    · refine (Gzip.Uncompressed.read_start_eq_ok_iff _ _ u).mpr
        ⟨OpenBlob.isSound_start_file hcontent hu, ?_⟩
      rw [OpenBlob.held_file hcontent]
      exact hu

/-- Some byte strings and a manifest that names their digests are put into a directory at whose root
nothing is, in any order and however often. If no two of them have the same digest and there is room for
a piece, the manifest can be fetched, and its layers are those of the byte strings, in their order. -/
theorem retrieval [Room] {dir : BlobDirectory} {tree : Tree} {here : List Text}
    (hat : dir.IsAt tree here)
    (hfits : ∀ x, (dir.pathOf (.ofBytes x)).Fits) (hvacant : Tree.IsVacant here tree)
    (failAt maxRead : Option Nat) {chunkSize : Int}
    (hn : 0 < chunkSize) (hroom : chunkSize < Room.bound) {bs : List Bytes} {m : Bytes}
    {v : Json} {items : List Json} (hm : Json.read m = .ok v)
    (hlist : v.fsLayers? = some (.array items))
    (hnames : List.Forall₂ Manifest.Names items (bs.map Digest.ofBytes)) {puts : List Bytes}
    (hputs : ∀ x, x ∈ puts ↔ x = m ∨ x ∈ bs)
    (hdiffer : ∀ x ∈ puts, ∀ y ∈ puts, Digest.ofBytes x = Digest.ofBytes y → x = y)
    (mediaType : Option Text) :
    ∃ s s₁ s₂ : Session,
      (start chunkSize { Store.ofKind (.directory dir) failAt maxRead with tree }).run
          (puts.map .put) =
        (puts.map fun x => .digest (.ofBytes x), s) ∧
      s.step (.fetch (.ofDigest (.ofBytes m)) mediaType) = (.image 0, s₁) ∧
      (s₁.step (.image 0 .rawManifest)).1 = .bytes m ∧
      (s₁.step (.image 0 .size)).1 = .number m.length ∧
      (s₁.step (.image 0 .mediaType)).1 = .text mediaType ∧
      s₁.step (.image 0 .layers) =
        (.layers (bs.zipIdx.map fun p => (p.2, .ofDigest (.ofBytes p.1))), s₂) ∧
      ∀ i b, bs[i]? = some b →
        (s₂.step (.layer i .digest)).1 = .text (some (Digest.ofBytes b).toText) ∧
        (s₂.step (.layer i .compressed)).1 = .bytes b ∧
        ∀ u, Gzip.content b = .ok u →
          (s₂.step (.layer i .diffId)).1 = .text (some (Digest.ofBytes u).toText) := by
  have hstart : (start chunkSize { Store.ofKind (.directory dir) failAt maxRead with tree }).HasLibrary
      dir here [] := ⟨rfl, hat, hfits, Or.inl ⟨rfl, hvacant⟩⟩
  obtain ⟨store, hrun, hlibrary⟩ := run_puts_library hstart puts
  rw [List.nil_append] at hlibrary
  have hfound : ∀ x ∈ puts, (Digest.ofBytes x).lastOf puts = some x := by
    intro x hx
    rw [← get?_shelved_hex rfl]
    exact get?_shelved (Or.inl hx) fun y hy h => hdiffer y hy x hx h
  obtain ⟨s₁, hfetch, hlibrary₁, hchunk₁, himages₁, hlayers₁⟩ :=
    step_fetch hlibrary (hfound m ((hputs m).mpr (Or.inl rfl))) hn hroom mediaType
  have himage : s₁.images[0]? = some ⟨m, .ofDigest (.ofBytes m), mediaType⟩ := by
    rw [himages₁]
    rfl
  have hcall := step_image himage
  obtain ⟨s₂, hlayers, hlibrary₂, hchunk₂, hlayers₂⟩ :=
    step_layers hlibrary₁ himage (Manifest.layers_of_names hm hlist hnames)
  rw [hlayers₁] at hlayers hlayers₂
  refine ⟨_, s₁, s₂, hrun, hfetch, by rw [hcall]; rfl, by rw [hcall]; rfl, by rw [hcall]; rfl,
    ?_, ?_⟩
  · rw [hlayers, List.zipIdx_map, List.map_map]
    rfl
  · intro i b hb
    have hlayer : s₂.layers[i]? = some (Layer.ofDigest (.ofBytes b)) := by
      rw [hlayers₂]
      change ((bs.map Digest.ofBytes).map Layer.ofDigest)[i]? = _
      rw [List.getElem?_map, List.getElem?_map, hb]
      rfl
    have hlast := hfound b ((hputs b).mpr (Or.inr (List.mem_of_getElem? hb)))
    obtain ⟨hdigest, hcompressed, hdiffId⟩ := step_layer_of_library hlibrary₂ hlast hlayer
    have hchunk : s₂.chunkSize = chunkSize := hchunk₂.trans hchunk₁
    exact ⟨hdigest, hcompressed, hdiffId (hchunk ▸ hn) (hchunk ▸ hroom)⟩

/-- A directory of blobs that is named at the top. -/
theorem isAt_layout {t : Tree} (htop : t.node? [] = some .directory) :
    BlobDirectory.IsAt ⟨.here, [Text.ofString "layout"]⟩ t [Text.ofString "layout"] := by
  refine BlobDirectory.isAt_of_plain htop ?_
  intro name hname
  obtain rfl := List.mem_singleton.mp hname
  exact ⟨by decide, rfl⟩

theorem fits_layout (d : Digest) :
    (BlobDirectory.pathOf ⟨.here, [Text.ofString "layout"]⟩ d).Fits :=
  BlobDirectory.fits_pathOf rfl (List.cons_ne_nil _ _) (by decide) (by decide) d

/-- The digest of the letter's file, in capitals. -/
def letterSum : Text := Text.ofString
  "sha256:FD646D39015628C6DC92E5A24F147994AE0FC3C418758B2903A65F2A4F2D9D7E"

/-- A manifest that names it. -/
def letterManifest : Bytes := Utf8.encodeAll
  (Text.ofString "\x7b\"fsLayers\": [\x7b\"blobSum\": \"" ++ letterSum ++
    Text.ofString "\"\x7d]\x7d")

theorem read_letterManifest : Json.read letterManifest = .ok (.object
    [(Text.ofString "fsLayers", .array [.object [(Text.ofString "blobSum", .str letterSum)]])]) := by
  rfl

theorem parse?_letterSum : Digest.parse? letterSum = some (.ofBytes letterFile) := by
  decide +kernel

theorem ofBytes_letterManifest_ne : some (Digest.ofBytes letterManifest) ≠
    Digest.parse? letterSum := by
  decide +kernel

theorem retrieval_letter : ∃ s s₁ s₂ : Session,
    ((start 3 (.ofKind (.directory ⟨.here, [Text.ofString "layout"]⟩) none none)).run
      [.put letterFile, .put letterManifest, .put letterFile]).2 = s ∧
    s.step (.fetch (.ofDigest (.ofBytes letterManifest)) none) = (.image 0, s₁) ∧
    s₁.step (.image 0 .layers) = (.layers [(0, .ofDigest (.ofBytes letterFile))], s₂) ∧
    (s₂.step (.layer 0 .compressed)).1 = .bytes letterFile ∧
    (s₂.step (.layer 0 .diffId)).1 = .text (some (Digest.ofBytes [0x61]).toText) := by
  have hentry : Manifest.Names (.object [(Text.ofString "blobSum", .str letterSum)])
      (.ofBytes letterFile) :=
    ⟨letterSum, rfl, Digest.parse?_eq_some_iff.mp parse?_letterSum⟩
  have hne : Digest.ofBytes letterManifest ≠ Digest.ofBytes letterFile := by
    intro h
    exact ofBytes_letterManifest_ne (by rw [parse?_letterSum, h])
  have hputs : ∀ x, x ∈ [letterFile, letterManifest, letterFile] ↔
      x = letterManifest ∨ x ∈ [letterFile] := by
    intro x
    simp only [List.mem_cons, List.not_mem_nil, or_false]
    constructor
    · rintro (h | h | h)
      · exact Or.inr h
      · exact Or.inl h
      · exact Or.inr h
    · rintro (h | h)
      · exact Or.inr (Or.inl h)
      · exact Or.inl h
  have hdiffer : ∀ x ∈ [letterFile, letterManifest, letterFile],
      ∀ y ∈ [letterFile, letterManifest, letterFile],
        Digest.ofBytes x = Digest.ofBytes y → x = y := by
    intro x hx y hy h
    rw [hputs, List.mem_singleton] at hx hy
    rcases hx with rfl | rfl <;> rcases hy with rfl | rfl
    · rfl
    · exact absurd h hne
    · exact absurd h.symm hne
    · rfl
  have hnames : List.Forall₂ Manifest.Names [.object [(Text.ofString "blobSum", .str letterSum)]]
      ([letterFile].map Digest.ofBytes) := .cons hentry .nil
  have hn : (0 : Int) < 3 := by decide
  obtain ⟨s, s₁, s₂, hrun, hfetch, -, -, -, hlayers, hlayer⟩ :=
    retrieval (isAt_layout rfl) (fun x => fits_layout (.ofBytes x)) (Tree.isVacant_empty _) none none hn
      (by decide) read_letterManifest rfl hnames hputs hdiffer none
  obtain ⟨-, hcompressed, hdiffId⟩ := hlayer 0 letterFile rfl
  exact ⟨s, s₁, s₂, congrArg Prod.snd hrun, hfetch, hlayers, hcompressed, hdiffId [0x61] rfl⟩

/-- A manifest that names nothing. -/
def emptyListing : Bytes := Utf8.encodeAll (Text.ofString "\x7b\"fsLayers\": []\x7d")

/-- If there is no room for a piece, what was put into a directory is not fetched. -/
theorem retrieval_of_noRoom :
    Json.read emptyListing = .ok (.object [(Text.ofString "fsLayers", .array [])]) ∧
      ∀ n, (((start (2 ^ 63)
          (.ofKind (.directory ⟨.here, [Text.ofString "layout"]⟩) none none)).run
        [.put emptyListing]).2.step (.fetch (.ofDigest (.ofBytes emptyListing)) none)).1 ≠
          .image n := by
  refine ⟨by rfl, ?_⟩
  have hstart : (start (2 ^ 63) (.ofKind (.directory ⟨.here, [Text.ofString "layout"]⟩)
      none none)).HasLibrary ⟨.here, [Text.ofString "layout"]⟩ [Text.ofString "layout"] [] :=
    ⟨rfl, isAt_layout rfl, fun x => fits_layout (.ofBytes x), Or.inl ⟨rfl, Tree.isVacant_empty _⟩⟩
  obtain ⟨store, hrun, hlibrary⟩ := run_puts_library hstart [emptyListing]
  have hroom : (Room.bound : Int) ≤ 2 ^ 63 := by decide
  rw [List.map_singleton] at hrun
  rw [hrun]
  exact step_fetch_of_noRoom hlibrary hroom _ _

end Session

end LegacyImage
