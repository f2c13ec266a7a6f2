import LegacyImage.Double.Shortest

/-!
Doubles in writing. A number is positional, with at least one digit after the point, while its
leading digit stands for a power of ten from -4 to 15; beyond that there is one digit before the
point and an exponent with a sign and at least two digits.
-/

namespace LegacyImage.Double

/-- The significant digits of a decimal number, without zeros at the end. -/
def significantDigits (d : Decimal) : List Char :=
  let ds := Nat.toDigits 10 d.coefficient
  (ds.reverse.dropWhile (· = '0')).reverse

/-- The power of ten for which the first digit stands. -/
def scale (d : Decimal) : Int := d.exponent + ((Nat.toDigits 10 d.coefficient).length - 1 : Nat)

/-- The exponent part: a sign and at least two digits. -/
def exponentPart (exponent : Int) : List Char :=
  let digits := Nat.toDigits 10 exponent.natAbs
  'e' :: (if exponent < 0 then '-' else '+') ::
    (if digits.length < 2 then '0' :: digits else digits)

/-- Digits with a point after the first `count` of them, padded by zeros so that a digit stands on
both sides. -/
def withPoint (digits : List Char) (count : Nat) : List Char :=
  let whole := digits.take count ++ List.replicate (count - digits.length) '0'
  let fraction := digits.drop count
  whole ++ '.' :: (if fraction.isEmpty then ['0'] else fraction)

/-- A decimal number in the notation that its size asks for. -/
def layout (d : Decimal) : List Char :=
  let digits := significantDigits d
  let e := scale d
  if e < -4 ∨ 16 ≤ e then
    match digits with
    | [] => ['0']
    | [one] => one :: exponentPart e
    | one :: more => one :: '.' :: more ++ exponentPart e
  else if e < 0 then '0' :: '.' :: List.replicate (-e - 1).toNat '0' ++ digits
  else withPoint digits (e.toNat + 1)

def magnitudeChars (rank : Nat) : List Char :=
  if rank = 0 then ['0', '.', '0'] else layout (shortest rank)

def toText : Double → Text
  | nan => Text.ofString "nan"
  | infinite false => Text.ofString "inf"
  | infinite true => Text.ofString "-inf"
  | finite false rank => Text.ofChars (magnitudeChars rank.val)
  | finite true rank => ↑ '-' :: Text.ofChars (magnitudeChars rank.val)

end LegacyImage.Double
