import LegacyImage.Double.Notation
import LegacyImage.Json
import LegacyImage.Text.Utf8

/-!
The canonical form of a value: members in the order of their names, no white space, and an escape
only where a text cannot do without one. Values that differ only in the order of members have the
same form.
-/

namespace LegacyImage.Json

def escapeOne (c : CodePoint) : Text :=
  if c = ↑ '"' then Text.ofChars ['\\', '"']
  else if c = ↑ '\\' then Text.ofChars ['\\', '\\']
  else if c = ↑ '\n' then Text.ofChars ['\\', 'n']
  else if c = ↑ '\r' then Text.ofChars ['\\', 'r']
  else if c = ↑ '\t' then Text.ofChars ['\\', 't']
  else if c = 0x08 then Text.ofChars ['\\', 'b']
  else if c = 0x0C then Text.ofChars ['\\', 'f']
  else if c.val < 0x20 then Text.ofChars ['\\', 'u'] ++ Text.ofHexFixed 4 c.val
  else [c]

def escaped (t : Text) : Text := ↑ '"' :: (t.flatMap escapeOne ++ Text.ofChars ['"'])

def commaSeparated : List Text → Text
  | [] => []
  | [t] => t
  | t :: rest => t ++ ↑ ',' :: commaSeparated rest

def sortByName {α : Type} (members : List (Text × α)) : List (Text × α) :=
  members.mergeSort fun a b => a.1.le b.1

mutual

/-- The canonical text of a value whose doubles are all finite. -/
def canonicalText : Json → Text
  | null => Text.ofChars ['n', 'u', 'l', 'l']
  | bool true => Text.ofChars ['t', 'r', 'u', 'e']
  | bool false => Text.ofChars ['f', 'a', 'l', 's', 'e']
  | int n => Text.ofInt n
  | float x => x.toText
  | str s => escaped s
  | array items => ↑ '[' :: commaSeparated (canonicalItems items) ++ [↑ ']']
  | object members =>
    ↑ '{' :: commaSeparated ((sortByName (canonicalMembers members)).map fun m =>
      escaped m.1 ++ ↑ ':' :: m.2) ++ [↑ '}']

def canonicalItems : List Json → List Text
  | [] => []
  | v :: rest => v.canonicalText :: canonicalItems rest

def canonicalMembers : List (Text × Json) → List (Text × Text)
  | [] => []
  | (name, v) :: rest => (name, v.canonicalText) :: canonicalMembers rest

end

mutual

/-- Whether every double in the value is a number. -/
def isFinite : Json → Bool
  | float x => x.isFinite
  | array items => isFiniteItems items
  | object members => isFiniteMembers members
  | _ => true

def isFiniteItems : List Json → Bool
  | [] => true
  | v :: rest => v.isFinite && isFiniteItems rest

def isFiniteMembers : List (Text × Json) → Bool
  | [] => true
  | (_, v) :: rest => v.isFinite && isFiniteMembers rest

end

inductive CanonicalError
  | notFinite
  | surrogates (cause : Utf8.EncodeError)
deriving DecidableEq

def CanonicalError.message : CanonicalError → Text
  | .notFinite => Text.ofString "Out of range float values are not JSON compliant"
  | .surrogates cause => cause.message

/-- The canonical bytes of a value. The text is complete before it is encoded. -/
def canonicalBytes (v : Json) : Except CanonicalError Bytes :=
  if v.isFinite then
    match Utf8.encode v.canonicalText with
    | .ok bs => .ok bs
    | .error e => .error (.surrogates e)
  else .error .notFinite

end LegacyImage.Json
