import LegacyImage.Text

/-!
Blanks: the white space that may surround a number. These are the white space characters of the
Unicode character database, version 14; the information separators U+001C to U+001F are not.
-/

namespace LegacyImage.CodePoint

def blankRanges : List (Nat × Nat) := [
  (0x9, 0xD), (0x20, 0x20), (0x85, 0x85), (0xA0, 0xA0), (0x1680, 0x1680), (0x2000, 0x200A),
  (0x2028, 0x2029), (0x202F, 0x202F), (0x205F, 0x205F), (0x3000, 0x3000)]

/-- Whether the code point may stand around a number. -/
def isBlank (c : CodePoint) : Bool :=
  blankRanges.any fun (first, last) => first ≤ c.val && c.val ≤ last

end LegacyImage.CodePoint
