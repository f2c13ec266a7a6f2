import LegacyImage.Digest
import LegacyImage.Json.Display
import LegacyImage.Json.Encoding

/-!
Legacy manifests. A manifest is a JSON object that lists its layers, most recent first, each by the
digest of its compressed content; all else in it is left alone. A manifest without a list has no
layers.
-/

namespace LegacyImage

inductive ManifestError
  | document (cause : Json.ReadError)
  | notAnObject (value : Json)
  | layersNotAList (value : Json)
  | entryNotAnObject (index : Nat) (entry : Json)
  | invalidDigest (index : Nat) (value : Json)

/-- The message for every manifest error but one: nesting past the limit has none. -/
def ManifestError.message : ManifestError → Text
  | .document cause => Text.ofString "Invalid JSON document: " ++ cause.message
  | .notAnObject value =>
    Text.ofString "Manifest is not a JSON object: " ++ Text.ofString value.kindName
  | .layersNotAList value =>
    Text.ofString "fsLayers is not a list: " ++ Text.ofString value.kindName
  | .entryNotAnObject index entry =>
    Text.ofString "fsLayers[" ++ Text.ofNat index ++ Text.ofString "] is not an object: " ++
      entry.shown
  | .invalidDigest index value =>
    Text.ofString "fsLayers[" ++ Text.ofNat index ++
      Text.ofString "] has an invalid blobSum: " ++ value.shown

/-- The digest that a value spells, if it is a text that spells one. -/
def Digest.ofJson? : Json → Option Digest
  | .str s => Digest.parse? s
  | _ => none

namespace Manifest

def entryDigest (index : Nat) : Json → Except ManifestError Digest
  | .object members =>
    let sum := (Table.get? members (Text.ofString "blobSum")).getD .null
    match Digest.ofJson? sum with
    | some d => .ok d
    | none => .error (.invalidDigest index sum)
  | entry => .error (.entryNotAnObject index entry)

/-- The digests of the entries from `index` on, or the first fault among them. -/
def entryDigests : Nat → List Digest → List Json → Except ManifestError (List Digest)
  | _, done, [] => .ok done.reverse
  | index, done, entry :: rest =>
    match entryDigest index entry with
    | .error e => .error e
    | .ok d => entryDigests (index + 1) (d :: done) rest

def layersOf : Json → Except ManifestError (List Digest)
  | .object members =>
    match Table.get? members (Text.ofString "fsLayers") with
    | none | some .null => .ok []
    | some (.array entries) => entryDigests 0 [] entries
    | some value => .error (.layersNotAList value)
  | value => .error (.notAnObject value)

def layers (bs : Bytes) : Except ManifestError (List Digest) :=
  match Json.read bs with
  | .error e => .error (.document e)
  | .ok v => layersOf v

end Manifest

end LegacyImage
