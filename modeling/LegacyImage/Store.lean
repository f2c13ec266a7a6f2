import LegacyImage.LayerSource
import LegacyImage.Store.Calls

/-!
Stores of blobs: what images and layers get their content from. A store is a directory of blobs, or
a table in memory that may in addition provide whole layers, or seem to without saying so. It keeps
account of what it was asked for and of every blob it opened, open or closed.
-/

namespace LegacyImage

inductive LogEntry
  | openingBlob (path : Path)
  | retrievedManifest (ref : Reference) (size : Nat)
  | retrievingLayer (ref : Reference) (source : Text)
  | derivingLayer (ref : Reference)
  | computedDiffId (diffId : Digest) (ref : Reference)

namespace LogEntry

def topic : LogEntry → String
  | openingBlob _ => "blobsource"
  | computedDiffId .. => "partial"
  | _ => "schema1"

def message : LogEntry → Text
  | openingBlob path => Text.ofString "Opening blob: " ++ path.toText
  | retrievedManifest ref size =>
    Text.ofString "Retrieved manifest " ++ ref.shown ++ Text.ofString " (" ++ Text.ofNat size ++
      Text.ofString " bytes)"
  | retrievingLayer ref source =>
    Text.ofString "Retrieving layer " ++ ref.shown ++ Text.ofString " from " ++ source
  | derivingLayer ref =>
    Text.ofString "Deriving layer " ++ ref.shown ++ Text.ofString " from compressed blob"
  | computedDiffId diffId ref =>
    Text.ofString "Computed diff id " ++ diffId.toText ++ Text.ofString " for layer " ++ ref.shown

end LogEntry

/-- What a store is. Only the kind that says so is asked for layers. -/
inductive StoreKind
  | directory (dir : BlobDirectory)
  | memory
  | layers (source : LayerSource)
  | lookalike

/-- A store: its kind, the table or the tree with its blobs, how its streams behave, what it was
asked for, whether each blob it opened is closed by now, and the log. -/
structure Store where
  kind : StoreKind
  failAt : Option Nat
  maxRead : Option Nat
  blobs : List (Reference × Bytes)
  tree : Tree
  asked : Array Reference
  layersAsked : Array Reference
  closed : Array Bool
  log : Array LogEntry

namespace Store

def ofKind (kind : StoreKind) (failAt maxRead : Option Nat) : Store :=
  ⟨kind, failAt, maxRead, [], .empty, #[], #[], #[], #[]⟩

def layerSource? (store : Store) : Option LayerSource :=
  match store.kind with
  | .layers source => some source
  | _ => none

def sourceState (store : Store) : SourceState := ⟨store.blobs, store.asked, store.layersAsked⟩

def note (store : Store) (entry : LogEntry) : Store :=
  { store with log := store.log.push entry }

/-! ## Storing -/

def storeAt (store : Store) (dir : BlobDirectory) (d : Digest) (content : Bytes) :
    Except Error Unit × Store :=
  match store.tree.writeAt (dir.pathOf d) content with
  | (result, tree) => (result, { store with tree })

def put (store : Store) (content : Bytes) : Except Error Digest × Store :=
  let d := Digest.ofBytes content
  match store.kind with
  | .directory dir =>
    match store.storeAt dir d content with
    | (.ok (), store) => (.ok d, store)
    | (.error e, store) => (.error e, store)
  | _ => (.ok d, { store with blobs := Table.set (.ofDigest d) content store.blobs })

/-- Stores a blob under any reference. -/
def putAs (store : Store) (ref : Reference) (content : Bytes) : Except Error Unit × Store :=
  match store.kind with
  | .directory dir =>
    match ref.digest? with
    | none => (.error (.invalidDigest ref), store)
    | some d => store.storeAt dir d content
  | _ => (.ok (), { store with blobs := Table.set ref content store.blobs })

/-! ## Opening and closing -/

/-- An open blob and the number under which the store knows it. -/
structure Opened where
  id : Nat
  blob : OpenBlob

def enter (store : Store) (blob : OpenBlob) : Opened × Store :=
  (⟨store.closed.size, blob⟩, { store with closed := store.closed.push false })

def openBlob (store : Store) (ref : Reference) : Except Error Opened × Store :=
  match store.kind with
  | .directory dir =>
    match ref.digest? with
    | none => (.error (.invalidDigest ref), store)
    | some d =>
      let path := dir.pathOf d
      let store := store.note (.openingBlob path)
      match store.tree.openAt path with
      | .error e => (.error e, store)
      | .ok place =>
        let (opened, store) := store.enter (.file ⟨place, [], 0, false⟩)
        (.ok opened, store)
  | _ =>
    let store := { store with asked := store.asked.push ref }
    match Table.get? store.blobs ref with
    | none => (.error (.noBlob ref), store)
    | some content =>
      let (opened, store) := store.enter (.memory (.ofBytes content store.failAt store.maxRead))
      (.ok opened, store)

/-- Takes note that a blob is closed. -/
def close (store : Store) (id : Nat) : Store :=
  { store with closed := store.closed.setIfInBounds id true }

/-- Opens a blob, reads it to the end in pieces of the given size and closes it. -/
def readBlob [Room] (store : Store) (size : Int) (ref : Reference) : Except Error Bytes × Store :=
  match store.openBlob ref with
  | (.error e, store) => (.error e, store)
  | (.ok opened, store) =>
    match ((OpenBlob.reader store.tree).readAll size opened.blob).1 with
    | .ok content => (.ok content, store.close opened.id)
    | .error e => (.error (.blob e), store.close opened.id)

end Store

end LegacyImage
