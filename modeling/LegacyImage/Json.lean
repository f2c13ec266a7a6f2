import LegacyImage.Double
import LegacyImage.Table

/-!
Values of JSON documents. The members of an object are a table: they keep the order in which their
names first appeared, and a name that appears again replaces the value and not the place.
-/

namespace LegacyImage

/-- The value of a document. Whole numbers and doubles are different kinds. -/
inductive Json
  | null
  | bool (value : Bool)
  | int (value : Int)
  | float (value : Double)
  | str (value : Text)
  | array (items : List Json)
  | object (members : List (Text × Json))

namespace Json

mutual

/-- How many brackets are open around the innermost value. -/
def depth : Json → Nat
  | array items => depthOfItems items + 1
  | object members => depthOfMembers members + 1
  | _ => 0

def depthOfItems : List Json → Nat
  | [] => 0
  | v :: rest => max v.depth (depthOfItems rest)

def depthOfMembers : List (Text × Json) → Nat
  | [] => 0
  | (_, v) :: rest => max v.depth (depthOfMembers rest)

end

end Json

end LegacyImage
