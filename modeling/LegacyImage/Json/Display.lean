import LegacyImage.Double.Notation
import LegacyImage.Json
import LegacyImage.Text.Quoted

/-!
How messages show a value: texts are quoted inside lists and objects, and stand as they are by
themselves.
-/

namespace LegacyImage.Json

def kindName : Json → String
  | null => "NoneType"
  | bool _ => "bool"
  | int _ => "int"
  | float _ => "float"
  | str _ => "str"
  | array _ => "list"
  | object _ => "dict"

mutual

/-- A value as it stands inside another. -/
def display : Json → Text
  | null => Text.ofString "None"
  | bool true => Text.ofString "True"
  | bool false => Text.ofString "False"
  | int n => Text.ofInt n
  | float x => x.toText
  | str s => s.quoted
  | array items => ↑ '[' :: displayItems items ++ [↑ ']']
  | object members => ↑ '{' :: displayMembers members ++ [↑ '}']

def displayItems : List Json → Text
  | [] => []
  | [v] => v.display
  | v :: rest => v.display ++ ↑ ',' :: ↑ ' ' :: displayItems rest

def displayMembers : List (Text × Json) → Text
  | [] => []
  | [(name, v)] => name.quoted ++ ↑ ':' :: ↑ ' ' :: v.display
  | (name, v) :: rest =>
    name.quoted ++ ↑ ':' :: ↑ ' ' :: (v.display ++ ↑ ',' :: ↑ ' ' :: displayMembers rest)

end

def shown : Json → Text
  | str s => s
  | v => v.display

end LegacyImage.Json
