import LegacyImage.MediaType
import LegacyImage.Reader.Hashing
import LegacyImage.Store

/-!
Layers. A stored layer knows its reference and gets its compressed content from the store. A
derived layer adds the uncompressed content of the layer under it and the digest of that, which it
computes when first asked for and remembers. A failed attempt is not remembered, and every derived
layer remembers for itself alone.
-/

namespace LegacyImage

/-- An open uncompressed stream and the number of the blob under it. -/
structure OpenedUncompressed where
  id : Nat
  stream : Gzip.Uncompressed OpenBlob

namespace Layer

def mediaType : Layer → Text
  | stored _ => MediaType.layer
  | derived inner _ => inner.mediaType

/-- The size of the compressed content, which a legacy manifest does not record. -/
def size : Layer → Except Error Nat
  | stored ref => .error (.unknownSize ref)
  | derived inner _ => inner.size

def compressed (store : Store) : Layer → Except Error Store.Opened × Store
  | stored ref => store.openBlob ref
  | derived inner _ => inner.compressed store

def uncompressed (store : Store) (l : Layer) : Except Error OpenedUncompressed × Store :=
  match l with
  | stored _ => (.error (.notDerived "uncompressed"), store)
  | derived inner _ =>
    match inner.compressed store with
    | (.error e, store) => (.error e, store)
    | (.ok opened, store) => (.ok ⟨opened.id, .start opened.blob⟩, store)

def tallyOf [Room] (tree : Tree) (chunkSize : Int) (u : Gzip.Uncompressed OpenBlob) :
    Except (Gzip.Uncompressed.Fault OpenBlob.Fault) Tally :=
  let reader := (Gzip.Uncompressed.reader (OpenBlob.reader tree)).hashing
  let d := reader.drain chunkSize (.start u)
  match d.fault with
  | some e => .error e
  | none => .ok d.state.tally

/-- The digest of the uncompressed content, and the layer that remembers it. -/
def diffId [Room] (chunkSize : Int) (store : Store) (l : Layer) :
    Except Error Digest × Layer × Store :=
  match l with
  | stored _ => (.error (.notDerived "diff_id"), l, store)
  | derived _ (some d) => (.ok d, l, store)
  | derived inner none =>
    match l.uncompressed store with
    | (.error e, store) => (.error e, l, store)
    | (.ok opened, store) =>
      let store' := store.close opened.id
      match tallyOf store.tree chunkSize opened.stream with
      | .error e => (.error (.uncompressed e), l, store')
      | .ok tally =>
        let d := tally.digest
        (.ok d, derived inner (some d), store'.note (.computedDiffId d l.reference))

def describe? : Layer → Option Text
  | stored ref => some (Text.ofString "Schema1Layer(" ++ ref.shown ++ Text.ofString ")")
  | derived .. => none

def inner : Layer → Except Error Layer
  | stored _ => .error (.notDerived "compressed_layer")
  | derived inner _ => .ok inner

end Layer

end LegacyImage
