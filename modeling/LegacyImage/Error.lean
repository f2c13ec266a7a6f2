import LegacyImage.Gzip.Uncompressed
import LegacyImage.Manifest
import LegacyImage.Store.OpenBlob

/-!
References to blobs, and why an operation on a store, an image or a layer gives nothing. A fault that
others raise, such as a source of layers, is passed on as it is.
-/

namespace LegacyImage

/-- A digest as a caller gave it: a text, which need not be a digest, or nothing. -/
abbrev Reference := Option Text

namespace Reference

def shown : Reference → Text
  | some t => t
  | none => Text.ofString "None"

def digest? (ref : Reference) : Option Digest := ref.bind Digest.parse?

def ofDigest (d : Digest) : Reference := some d.toText

end Reference

inductive Error
  | invalidDigest (given : Reference)
  | noBlob (ref : Reference)
  | raised (kind : String) (message : Text)
  | obstacle (obstacle : Tree.Obstacle) (path : Path)
  | notEncodable (cause : Utf8.EncodeError)
  | zeroInPath
  | tooDeep
  | blob (fault : OpenBlob.Fault)
  | uncompressed (fault : Gzip.Uncompressed.Fault OpenBlob.Fault)
  | manifest (fault : ManifestError)
  | unknownSize (ref : Reference)
  | unsupported (ref : Reference) (operation : String)
  | notDerived (wanted : String)
  | noSuchEntry (number : Nat)

namespace Error

def message : Error → Text
  | invalidDigest given => given.shown
  | noBlob ref => Text.ofString "no blob " ++ ref.shown
  | raised _ message => message
  | obstacle o path => o.message path
  | notEncodable cause => cause.message
  | zeroInPath => Text.ofString "embedded null byte"
  | tooDeep => Text.ofString "maximum recursion depth exceeded"
  | blob fault => fault.message
  | uncompressed .closed => Text.ofString "I/O operation on closed file"
  | uncompressed (.size fault) => fault.message
  | uncompressed (.file (.source fault)) => fault.message
  | uncompressed (.file (.format fault)) => fault.message
  | manifest fault => fault.message
  | unknownSize ref =>
    Text.ofString "Schema 1 layer " ++ ref.shown ++ Text.ofString " cannot know its size"
  | unsupported ref operation =>
    Text.ofString "Schema 1 image " ++ ref.shown ++ Text.ofString " does not support " ++
      Text.ofString operation
  | notDerived wanted =>
    Text.ofString "'Schema1Layer' object has no attribute '" ++ Text.ofString wanted ++
      Text.ofString "'"
  | noSuchEntry number =>
    if number < PieceSize.wordBound then Text.ofString "list index out of range"
    else SizeFault.notAWord.message

end Error

end LegacyImage
