import LegacyImage.Json

/-!
Reading a value from text. Every reader takes the text before it and answers with what it read and
the text after it, or with a fault and the text from the place of the fault on. Brackets may be
open up to a limit; within it every text is either read or at fault.
-/

namespace LegacyImage.Json

inductive Fault
  | expectedValue
  | expectedName
  | expectedColon
  | expectedComma
  | extraData
  | unterminatedString
  | controlCharacter
  | unknownEscape
  | malformedCodePoint
  | tooManyDigits (count : Nat)
  | tooDeep
deriving DecidableEq, Repr

/-- A fault and the text from its place on. -/
structure Failure where
  fault : Fault
  rest : Text
deriving DecidableEq

abbrev Reading (α : Type) := Except Failure (α × Text)

def isSpace (c : CodePoint) : Bool :=
  c = ↑ ' ' || c = ↑ '\t' || c = ↑ '\n' || c = ↑ '\r'

def skip (t : Text) : Text := t.dropWhile isSpace

/-! ## Strings -/

/-- A code point of a string, and whether it was written as a hexadecimal escape: only two escaped
surrogates make a pair. -/
structure Piece where
  codePoint : CodePoint
  escaped : Bool
deriving DecidableEq

/-- Adds a piece to those before it, the last one first. A low surrogate joins the high one right
before it if both are escaped. -/
def Piece.push (done : List Piece) (p : Piece) : List Piece :=
  match done with
  | q :: before =>
    if p.escaped && p.codePoint.isLowSurrogate && q.escaped && q.codePoint.isHighSurrogate then
      ⟨CodePoint.ofSurrogates q.codePoint p.codePoint, false⟩ :: before
    else p :: done
  | [] => [p]

/-- The text of the pieces, the last one first. -/
def Piece.text (done : List Piece) : Text := (done.map (·.codePoint)).reverse

/-- Where the reader of a string stands: between pieces, after a backslash, or in the digits of a
hexadecimal escape. The latter two know the text from the backslash, or from the `u`, on. -/
inductive StringState
  | between
  | escape (backslash : Text)
  | digits (letter : Text) (count value : Nat)

/-- The control character or mark that a letter after a backslash stands for. -/
def escapeOf? (c : CodePoint) : Option CodePoint :=
  if c = ↑ '"' ∨ c = ↑ '\\' ∨ c = ↑ '/' then some c
  else if c = ↑ 'b' then some 0x08
  else if c = ↑ 'f' then some 0x0C
  else if c = ↑ 'n' then some 0x0A
  else if c = ↑ 'r' then some 0x0D
  else if c = ↑ 't' then some 0x09
  else none

/-- Reads a string up to its closing quote. `opening` is the text from the opening quote on. A
hexadecimal escape must be followed by something, whatever it is. -/
def stringFrom (opening : Text) : StringState → List Piece → Text → Reading Text
  | .between, _, [] => .error ⟨.unterminatedString, opening⟩
  | .between, done, c :: rest =>
    if c = ↑ '"' then .ok (Piece.text done, rest)
    else if c = ↑ '\\' then stringFrom opening (.escape (c :: rest)) done rest
    else if c.val < 0x20 then .error ⟨.controlCharacter, c :: rest⟩
    else stringFrom opening .between (Piece.push done ⟨c, false⟩) rest
  | .escape _, _, [] => .error ⟨.unterminatedString, opening⟩
  | .escape backslash, done, c :: rest =>
    if c = ↑ 'u' then stringFrom opening (.digits (c :: rest) 0 0) done rest
    else match escapeOf? c with
      | some e => stringFrom opening .between (Piece.push done ⟨e, false⟩) rest
      | none => .error ⟨.unknownEscape, backslash⟩
  | .digits letter _ _, _, [] => .error ⟨.malformedCodePoint, letter⟩
  | .digits letter count value, done, c :: rest =>
    match c.hexValue? with
    | none => .error ⟨.malformedCodePoint, letter⟩
    | some d =>
      if count < 3 then stringFrom opening (.digits letter (count + 1) (16 * value + d)) done rest
      else if rest.isEmpty then .error ⟨.malformedCodePoint, letter⟩
      else stringFrom opening .between
        (Piece.push done ⟨Fin.ofNat 0x110000 (16 * value + d), true⟩) rest

def string (rest : Text) : Reading Text := stringFrom (↑ '"' :: rest) .between [] rest

/-! ## Numbers -/

def isDigit (c : CodePoint) : Bool := 0x30 ≤ c.val && c.val ≤ 0x39

def addDigit (n : Nat) (c : CodePoint) : Nat := 10 * n + (c.val - 0x30)

/-- The number that ASCII digits spell, put together from halves that were halved so many times. -/
def natOfHalves : Nat → Text → Nat
  | 0, digits => digits.foldl addDigit 0
  | times + 1, digits =>
    let low := digits.drop (digits.length / 2)
    natOfHalves times (digits.take (digits.length / 2)) * 10 ^ low.length + natOfHalves times low

/-- The number that ASCII digits spell. Many digits are halved until few are left, for adding a
digit to a large number is as much work as adding it to many small ones. -/
def natOfDigits (digits : Text) : Nat := natOfHalves (digits.length / 512).log2 digits

theorem foldl_addDigit (n : Nat) (digits : Text) :
    digits.foldl addDigit n = n * 10 ^ digits.length + digits.foldl addDigit 0 := by
  induction digits generalizing n with
  | nil => simp
  | cons c rest ih =>
    rw [List.foldl_cons, List.foldl_cons, ih, ih (addDigit 0 c), List.length_cons, Nat.pow_succ']
    simp only [addDigit, Nat.add_mul, Nat.mul_zero, Nat.zero_add, Nat.mul_assoc, Nat.add_assoc,
      Nat.mul_left_comm n]

theorem natOfHalves_eq (times : Nat) (digits : Text) :
    natOfHalves times digits = digits.foldl addDigit 0 := by
  induction times generalizing digits with
  | zero => rfl
  | succ times ih =>
    have h := List.take_append_drop (digits.length / 2) digits
    rw [natOfHalves, ih, ih, ← foldl_addDigit, ← List.foldl_append, h]

theorem natOfDigits_eq (digits : Text) : natOfDigits digits = digits.foldl addDigit 0 :=
  natOfHalves_eq _ digits

/-- The digits before the point: a zero alone, or digits that start with another one. -/
def wholeDigits (t : Text) : Text × Text :=
  match t with
  | c :: rest => if c = ↑ '0' then ([c], rest) else (t.takeWhile isDigit, t.dropWhile isDigit)
  | [] => ([], [])

/-- The digits after the point, if a point with a digit after it follows. -/
def fractionDigits (t : Text) : Text × Text :=
  match t with
  | c :: rest =>
    if c = ↑ '.' ∧ rest.takeWhile isDigit ≠ [] then (rest.takeWhile isDigit, rest.dropWhile isDigit)
    else ([], t)
  | [] => ([], [])

/-- A sign, which is there or not: whether it is a minus, and the text after it. -/
def signOf (t : Text) : Bool × Text :=
  match t with
  | c :: rest => if c = ↑ '-' then (true, rest) else if c = ↑ '+' then (false, rest) else (false, t)
  | [] => (false, [])

/-- The exponent, if there is a letter for it with digits after it. -/
def exponentOf (t : Text) : Option Int × Text :=
  match t with
  | c :: rest =>
    let (negative, unsigned) := signOf rest
    let digits := unsigned.takeWhile isDigit
    if (c = ↑ 'e' ∨ c = ↑ 'E') ∧ digits ≠ [] then
      let n : Int := natOfDigits digits
      (some (if negative then -n else n), unsigned.dropWhile isDigit)
    else (none, t)
  | [] => (none, [])

def maxIntDigits : Nat := 4300

/-- Reads the longest number at the start of the text. -/
def number (t : Text) : Reading Json :=
  let (negative, unsigned) := match t with
    | c :: rest => if c = (↑ '-' : CodePoint) then (true, rest) else (false, t)
    | [] => (false, [])
  let (whole, afterWhole) := wholeDigits unsigned
  if whole.isEmpty then .error ⟨.expectedValue, t⟩
  else
    let (fraction, afterFraction) := fractionDigits afterWhole
    let (exponent, rest) := exponentOf afterFraction
    if fraction.isEmpty && exponent.isNone then
      if maxIntDigits < whole.length then .error ⟨.tooManyDigits whole.length, t⟩
      else
        let n : Int := natOfDigits whole
        .ok (.int (if negative then -n else n), rest)
    else
      .ok (.float (Double.ofDecimal negative (natOfDigits (whole ++ fraction))
        (exponent.getD 0 - fraction.length)), rest)

/-! ## Values -/

def keywords : List (List Char × Json) :=
  [(['n', 'u', 'l', 'l'], null), (['t', 'r', 'u', 'e'], bool true),
   (['f', 'a', 'l', 's', 'e'], bool false), (['N', 'a', 'N'], float .nan),
   (['I', 'n', 'f', 'i', 'n', 'i', 't', 'y'], float (.infinite false)),
   (['-', 'I', 'n', 'f', 'i', 'n', 'i', 't', 'y'], float (.infinite true))]

/-- Reads a value other than a list or an object. -/
def scalar (t : Text) : Reading Json :=
  match t with
  | c :: rest =>
    if c = ↑ '"' then (string rest).map fun (s, after) => (str s, after)
    else match keywords.find? fun k => (Text.ofChars k.1).isPrefixOf t with
      | some (word, value) => .ok (value, t.drop word.length)
      | none => number t
  | [] => .error ⟨.expectedValue, []⟩

def items (item : Text → Reading Json) : Nat → List Json → Text → Reading Json
  | 0, _, t => .error ⟨.expectedValue, t⟩
  | fuel + 1, done, t =>
    match item t with
    | .error e => .error e
    | .ok (v, after) =>
      match skip after with
      | [] => .error ⟨.expectedComma, []⟩
      | c :: rest =>
        if c = ↑ ']' then .ok (array (v :: done).reverse, rest)
        else if c = ↑ ',' then items item fuel (v :: done) (skip rest)
        else .error ⟨.expectedComma, c :: rest⟩

def pair (item : Text → Reading Json) (t : Text) : Reading (Text × Json) :=
  match t with
  | [] => .error ⟨.expectedName, []⟩
  | c :: rest =>
    if c = ↑ '"' then
      match string rest with
      | .error e => .error e
      | .ok (name, after) =>
        match skip after with
        | [] => .error ⟨.expectedColon, []⟩
        | d :: rest =>
          if d = ↑ ':' then (item (skip rest)).map fun (v, after) => ((name, v), after)
          else .error ⟨.expectedColon, d :: rest⟩
    else .error ⟨.expectedName, c :: rest⟩

def members (item : Text → Reading Json) : Nat → List (Text × Json) → Text → Reading Json
  | 0, _, t => .error ⟨.expectedName, t⟩
  | fuel + 1, done, t =>
    match pair item t with
    | .error e => .error e
    | .ok (m, after) =>
      match skip after with
      | [] => .error ⟨.expectedComma, []⟩
      | c :: rest =>
        if c = ↑ '}' then .ok (object (Table.ofEntries (m :: done).reverse), rest)
        else if c = ↑ ',' then members item fuel (m :: done) (skip rest)
        else .error ⟨.expectedComma, c :: rest⟩

/-- Reads a value at the very start of the text, with so many brackets left to open. `fuel` bounds
the number of items in one list, which the length of the text does. -/
def value (fuel : Nat) : Nat → Text → Reading Json
  | _, [] => .error ⟨.expectedValue, []⟩
  | 0, c :: rest =>
    if c = ↑ '[' ∨ c = ↑ '{' then .error ⟨.tooDeep, c :: rest⟩ else scalar (c :: rest)
  | depth + 1, c :: rest =>
    if c = ↑ '[' then
      match skip rest with
      | [] => .error ⟨.expectedValue, []⟩
      | d :: more =>
        if d = ↑ ']' then .ok (array [], more) else items (value fuel depth) fuel [] (d :: more)
    else if c = ↑ '{' then
      match skip rest with
      | [] => .error ⟨.expectedName, []⟩
      | d :: more =>
        if d = ↑ '}' then .ok (object [], more) else members (value fuel depth) fuel [] (d :: more)
    else scalar (c :: rest)

/-- The most brackets that may be open at once. This stands for the recursion limit: it is what is left
of it when a text is read by the outermost call. -/
def maxDepth : Nat := 988

/-- Reads a text that is one value, with white space around it. -/
def ofText (t : Text) : Except Failure Json :=
  match value t.length maxDepth (skip t) with
  | .error e => .error e
  | .ok (v, after) =>
    match skip after with
    | [] => .ok v
    | rest => .error ⟨.extraData, rest⟩

end LegacyImage.Json
