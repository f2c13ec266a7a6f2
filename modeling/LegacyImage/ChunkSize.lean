import LegacyImage.Text.Blank
import LegacyImage.Text.DecimalDigit
import LegacyImage.Text.Quoted

/-!
The setting for the size of the pieces in which content is read: a whole number, with an optional
sign, in digits of any scripts with single underscores between them, and blanks around it.
-/

namespace LegacyImage.ChunkSize

/-- The size if there is no setting. -/
def standard : Int := 2097152

def maxDigits : Nat := 4300

inductive Fault
  | notANumber (setting : Text)
  | tooManyDigits (count : Nat)
deriving DecidableEq

/-- The message shows no more of a quoted setting than its first two hundred code points. -/
def Fault.message : Fault → Text
  | .notANumber setting =>
    Text.ofString "invalid literal for int() with base 10: " ++ setting.quoted.take 200
  | .tooManyDigits count =>
    Text.ofString "Exceeds the limit (" ++ Text.ofNat maxDigits ++
      Text.ofString " digits) for integer string conversion: value has " ++ Text.ofNat count ++
      Text.ofString " digits; use sys.set_int_max_str_digits() to increase the limit"

def trim (t : Text) : Text :=
  ((t.dropWhile (·.isBlank)).reverse.dropWhile (·.isBlank)).reverse

/-- Whether a sign is a minus, and the text after it. -/
def signOf (t : Text) : Bool × Text :=
  match t with
  | c :: rest => if c = ↑ '-' then (true, rest) else if c = ↑ '+' then (false, rest) else (false, t)
  | [] => (false, [])

def isDigitOrUnderscore (c : CodePoint) : Bool := c = ↑ '_' || c.decimalValue?.isSome

/-- Whether every underscore has a digit on both sides, and there is a digit. `after` says whether
the code point before was a digit. -/
def wellSpaced (after : Bool) : Text → Bool
  | [] => after
  | c :: rest => if c = ↑ '_' then after && wellSpaced false rest else wellSpaced true rest

/-- The values of the digits, underscores left out. -/
def digitValues (t : Text) : List Nat := t.filterMap (·.decimalValue?)

def natOfDigits (values : List Nat) : Nat := values.foldl (fun n d => 10 * n + d) 0

def parse (setting : Text) : Except Fault Int :=
  let (negative, unsigned) := signOf (trim setting)
  let digits := unsigned.takeWhile isDigitOrUnderscore
  let values := digitValues digits
  if !wellSpaced false digits then .error (.notANumber setting)
  else if maxDigits < values.length then .error (.tooManyDigits values.length)
  else if digits.length < unsigned.length then .error (.notANumber setting)
  else
    .ok (if negative then -natOfDigits values else natOfDigits values)

/-- The size that a setting, or its absence, asks for. -/
def ofSetting : Option Text → Except Fault Int
  | none => .ok standard
  | some setting => parse setting

end LegacyImage.ChunkSize
