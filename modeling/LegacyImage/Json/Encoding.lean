import LegacyImage.Json.Reader
import LegacyImage.Text.Utf16
import LegacyImage.Text.Utf32
import LegacyImage.Text.Utf8

/-!
Reading a value from bytes. The encoding is told by a byte order mark, or else by the zero bytes
among the first four: a document starts with two ASCII characters, or is one character.
-/

namespace LegacyImage.Json

/-- The byte order marks, and the encodings that they tell. The shorter ones of UTF-16 come after
those of UTF-32 that begin with them. -/
def marks : List (Bytes × Encoding) :=
  [([0x00, 0x00, 0xFE, 0xFF], .utf32 .big), ([0xFF, 0xFE, 0x00, 0x00], .utf32 .little),
   ([0xFE, 0xFF], .utf16 .big), ([0xFF, 0xFE], .utf16 .little), ([0xEF, 0xBB, 0xBF], .utf8)]

def encodingOf : Bytes → Encoding
  | b0 :: b1 :: b2 :: b3 :: _ =>
    if b0 = 0 then (if b1 = 0 then .utf32 .big else .utf16 .big)
    else if b1 = 0 then (if b2 = 0 ∧ b3 = 0 then .utf32 .little else .utf16 .little)
    else .utf8
  | [b0, b1] => if b0 = 0 then .utf16 .big else if b1 = 0 then .utf16 .little else .utf8
  | _ => .utf8

/-- The encoding of a document and the size of its byte order mark. -/
def detect (bs : Bytes) : Encoding × Nat :=
  match marks.find? fun m => m.1.isPrefixOf bs with
  | some (mark, encoding) => (encoding, mark.length)
  | none => (encodingOf bs, 0)

/-- The text of a document. Places count the mark, except in UTF-8. -/
def decode (bs : Bytes) : Except DecodeError Text :=
  match detect bs with
  | (.utf8, mark) => Utf8.decode true (bs.drop mark)
  | (.utf16 order, mark) => Utf16.decodeFrom order mark [] (bs.drop mark)
  | (.utf32 order, mark) => Utf32.decodeFrom order mark [] (bs.drop mark)

/-- The place of a fault: its line and its column in it, both from one, and its place in the text,
from zero. -/
structure Location where
  line : Nat
  column : Nat
  position : Nat
deriving DecidableEq, Repr

def Location.after (before : Text) : Location :=
  ⟨before.count ↑ '\n' + 1, (before.reverse.takeWhile (· ≠ ↑ '\n')).length + 1, before.length⟩

inductive ReadError
  | undecodable (cause : DecodeError)
  | malformed (fault : Fault) (location : Location)
  | tooDeep
deriving DecidableEq

def read (bs : Bytes) : Except ReadError Json :=
  match decode bs with
  | .error e => .error (.undecodable e)
  | .ok t =>
    match ofText t with
    | .ok v => .ok v
    | .error ⟨.tooDeep, _⟩ => .error .tooDeep
    | .error ⟨fault, rest⟩ =>
      .error (.malformed fault (.after (t.take (t.length - rest.length))))

def Fault.message : Fault → Text
  | .expectedValue => Text.ofString "Expecting value"
  | .expectedName => Text.ofString "Expecting property name enclosed in double quotes"
  | .expectedColon => Text.ofString "Expecting ':' delimiter"
  | .expectedComma => Text.ofString "Expecting ',' delimiter"
  | .extraData => Text.ofString "Extra data"
  | .unterminatedString => Text.ofString "Unterminated string starting at"
  | .controlCharacter => Text.ofString "Invalid control character at"
  | .unknownEscape => Text.ofString "Invalid \\escape"
  | .malformedCodePoint => Text.ofString "Invalid \\uXXXX escape"
  | .tooManyDigits count =>
    Text.ofString "Exceeds the limit (" ++ Text.ofNat maxIntDigits ++
      Text.ofString " digits) for integer string conversion: value has " ++ Text.ofNat count ++
      Text.ofString " digits; use sys.set_int_max_str_digits() to increase the limit"
  | .tooDeep => Text.ofString "maximum recursion depth exceeded"

/-- What is wrong, and where unless it is the size of a number. -/
def ReadError.message : ReadError → Text
  | .undecodable cause => cause.message
  | .malformed (.tooManyDigits count) _ => (Fault.tooManyDigits count).message
  | .malformed fault location =>
    fault.message ++ Text.ofString ": line " ++ Text.ofNat location.line ++
      Text.ofString " column " ++ Text.ofNat location.column ++ Text.ofString " (char " ++
      Text.ofNat location.position ++ Text.ofString ")"
  | .tooDeep => Fault.tooDeep.message

end LegacyImage.Json
