import LegacyImage.Json.Canonical
import LegacyImage.Manifest

/-!
Documents: bytes that are read as JSON when a question first asks for their value. The value is
remembered after that, which no answer shows. Values are handed out as copies, and a copy is made of
values whose nesting is within its own limit.
-/

namespace LegacyImage

/-- The bytes of a document, and its value once it was read; a null value is not remembered. -/
structure Document where
  bytes : Bytes
  remembered : Option Json

namespace Document

def ofBytes (bytes : Bytes) : Document := ⟨bytes, none⟩

/-- The document of a value in canonical form. -/
def ofJson (v : Json) : Except Json.CanonicalError Document := v.canonicalBytes.map ofBytes

def digest (d : Document) : Digest := .ofBytes d.bytes

/-- The text, which must be UTF-8 without encoded surrogates. -/
def text (d : Document) : Except DecodeError Text := Utf8.decode false d.bytes

/-- The value, read unless it is remembered, and the document that remembers it. -/
def decode (d : Document) : Except Json.ReadError Json × Document :=
  match d.remembered with
  | some v => (.ok v, d)
  | none =>
    match Json.read d.bytes with
    | .error e => (.error e, d)
    | .ok .null => (.ok .null, d)
    | .ok v => (.ok v, { d with remembered := some v })

/-- The most brackets around a value of which a copy can be made. This stands for the recursion limit,
of which a copy takes two calls for every bracket. -/
def maxCopyDepth : Nat := 495

/-- A copy of the value. -/
def json (d : Document) : Except Json.ReadError Json × Document :=
  match d.decode with
  | (.ok v, d) => (if v.depth ≤ maxCopyDepth then .ok v else .error .tooDeep, d)
  | (.error e, d) => (.error e, d)

def layers (d : Document) : Except ManifestError (List Digest) × Document :=
  match d.decode with
  | (.ok v, d) => (Manifest.layersOf v, d)
  | (.error e, d) => (.error (.document e), d)

/-! ## Questions -/

/-- A list or object without its content; any other value as it is. -/
def hollow : Json → Json
  | .array _ => .array []
  | .object _ => .object []
  | v => v

/-- A value with its parts hollowed out and a mark added, if it is a list or an object. -/
def spoil : Json → Json
  | .array items => .array (items.map hollow ++ [.str (Text.ofString "mutated")])
  | .object members =>
    .object (Table.set (Text.ofString "mutated") (.bool true)
      (members.map fun m => (m.1, hollow m.2)))
  | v => v

inductive Question
  | bytes
  | text
  | digest
  | json
  | layers
  | spoiled
deriving DecidableEq, Repr

inductive Answer
  | bytes (bytes : Bytes)
  | text (text : Text)
  | digest (digest : Digest)
  | json (value : Json)
  | layers (layers : List Digest)
  | notText (cause : DecodeError)
  | notReadable (cause : ManifestError)

/-- Answers a question. Asking for a spoiled value spoils a copy. -/
def answer (d : Document) : Question → Answer × Document
  | .bytes => (.bytes d.bytes, d)
  | .text => (match d.text with | .ok t => .text t | .error e => .notText e, d)
  | .digest => (.digest d.digest, d)
  | .json =>
    match d.json with
    | (.ok v, d) => (.json v, d)
    | (.error e, d) => (.notReadable (.document e), d)
  | .layers =>
    match d.layers with
    | (.ok ds, d) => (.layers ds, d)
    | (.error e, d) => (.notReadable e, d)
  | .spoiled =>
    match d.json with
    | (.ok v, d) => (.json (spoil v), d)
    | (.error e, d) => (.notReadable (.document e), d)

end Document

end LegacyImage
