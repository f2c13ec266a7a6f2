import LegacyImage.EmptyConfig
import LegacyImage.Layer

/-!
Legacy images: a manifest with its reference and media type, seen through what a modern image
offers. Layers come from a store that provides them, or are derived from their blobs; what a legacy
manifest does not say is refused.
-/

namespace LegacyImage

/-- A manifest as it was retrieved, and what it was asked for by. -/
structure Image where
  manifest : Bytes
  ref : Reference
  mediaType : Option Text

namespace Image

def size (image : Image) : Nat := image.manifest.length

def describe (image : Image) : Text :=
  Text.ofString "Schema1Image(" ++ image.ref.shown ++ Text.ofString ")"

def providedLayer (source : LayerSource) (store : Store) (ref : Reference) :
    Except Error Layer × Store :=
  (source.answer store.sourceState ref,
    { store with layersAsked := store.layersAsked.push ref })

def layer (store : Store) (ref : Reference) : Except Error Layer × Store :=
  match store.layerSource? with
  | some source => providedLayer source (store.note (.retrievingLayer ref source.shown)) ref
  | none => (.ok (Layer.stored ref).derive, store.note (.derivingLayer ref))

/-- The layers of some digests, in their order, up to the first failure. -/
def layersOf (store : Store) : List Digest → Except Error (List Layer) × Store
  | [] => (.ok [], store)
  | d :: rest =>
    match layer store (.ofDigest d) with
    | (.error e, store) => (.error e, store)
    | (.ok l, store) =>
      match layersOf store rest with
      | (.error e, store) => (.error e, store)
      | (.ok ls, store) => (.ok (l :: ls), store)

def layers (store : Store) (image : Image) : Except Error (List Layer) × Store :=
  match Manifest.layers image.manifest with
  | .error e => (.error (.manifest e), store)
  | .ok ds => layersOf store ds

/-- Retrieves the manifest of a reference, in pieces of the given size. -/
def fetch [Room] (chunkSize : Int) (store : Store) (ref : Reference) (mediaType : Option Text) :
    Except Error Image × Store :=
  match store.readBlob chunkSize ref with
  | (.error e, store) => (.error e, store)
  | (.ok manifest, store) =>
    (.ok ⟨manifest, ref, mediaType⟩, store.note (.retrievedManifest ref manifest.length))

end Image

end LegacyImage
