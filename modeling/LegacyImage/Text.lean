import LegacyImage.Bytes

/-!
Text as a sequence of code points. A code point is any number below `0x110000`, the surrogates
included: a document may spell a surrogate that has no partner, and text with one can be held,
compared and shown, but has no UTF-8 form.
-/

namespace LegacyImage

/-- A number in the code space. -/
abbrev CodePoint := Fin 0x110000

namespace CodePoint

-- the zero that `Fin` speaks of, also where another zero of the numbers is in scope
instance instNeZero : @NeZero Nat Zero.ofOfNat0 0x110000 := ⟨by decide⟩

def ofChar (c : Char) : CodePoint :=
  ⟨c.toNat, by
    have h := c.valid
    simp only [UInt32.isValidChar, Nat.isValidChar] at h
    show c.val.toNat < 0x110000
    omega⟩

instance : Coe Char CodePoint := ⟨ofChar⟩

/-- A surrogate has no meaning by itself; two of them spell one character in UTF-16. -/
def isSurrogate (c : CodePoint) : Bool := 0xD800 ≤ c.val && c.val < 0xE000

/-- The first half of a pair. -/
def isHighSurrogate (c : CodePoint) : Bool := 0xD800 ≤ c.val && c.val < 0xDC00

/-- The second half of a pair. -/
def isLowSurrogate (c : CodePoint) : Bool := 0xDC00 ≤ c.val && c.val < 0xE000

/-- The character that a high and a low surrogate spell together. -/
def ofSurrogates (high low : CodePoint) : CodePoint :=
  ⟨0x10000 + (high.val - 0xD800) % 0x400 * 0x400 + (low.val - 0xDC00) % 0x400, by omega⟩

/-- The value of an ASCII hexadecimal digit in either case. -/
def hexValue? (c : CodePoint) : Option Nat :=
  if 0x30 ≤ c.val ∧ c.val ≤ 0x39 then some (c.val - 0x30)
  else if 0x41 ≤ c.val ∧ c.val ≤ 0x46 then some (c.val - 0x37)
  else if 0x61 ≤ c.val ∧ c.val ≤ 0x66 then some (c.val - 0x57)
  else none

def toChar? (c : CodePoint) : Option Char :=
  if h : c.val < 0xD800 ∨ 0xE000 ≤ c.val then
    some ⟨c.val.toUInt32, by
      have hc := c.isLt
      have e : c.val.toUInt32.toNat = c.val := by
        simp only [Nat.toUInt32, UInt32.toNat_ofNat']
        omega
      simp only [UInt32.isValidChar, Nat.isValidChar, e]
      omega⟩
  else none

end CodePoint

/-- A text, which may hold surrogates. -/
abbrev Text := List CodePoint

namespace Text

def ofChars (cs : List Char) : Text := cs.map CodePoint.ofChar

def ofString (s : String) : Text := ofChars s.toList

def toString? (t : Text) : Option String := (t.mapM CodePoint.toChar?).map String.ofList

def ofNat (n : Nat) : Text := ofChars (Nat.toDigits 10 n)

/-- A number in decimal, a minus sign in front of a negative one. -/
def ofInt (n : Int) : Text := if n < 0 then ↑ '-' :: ofNat n.natAbs else ofNat n.natAbs

/-- A number in lowercase hexadecimal, without leading zeros. -/
def ofHex (n : Nat) : Text := ofChars (Nat.toDigits 16 n)

/-- One of the sixteen lowercase hexadecimal digits; the low four bits of the number count. -/
def hexDigit (n : Nat) : CodePoint :=
  if n % 16 < 10 then ⟨0x30 + n % 16, by omega⟩ else ⟨0x57 + n % 16, by omega⟩

/-- The low `width` hexadecimal digits of a number, leading zeros kept. -/
def ofHexFixed (width n : Nat) : Text :=
  (List.range width).map fun i => hexDigit (n / 16 ^ (width - 1 - i))

def ofHexBytes (bs : Bytes) : Text :=
  bs.flatMap fun b => [hexDigit (b.toNat / 16), hexDigit b.toNat]

/-- The bytes that pairs of hexadecimal digits spell. -/
def toHexBytes? : Text → Option Bytes
  | [] => some []
  | [_] => none
  | high :: low :: rest => do
    let h ← high.hexValue?
    let l ← low.hexValue?
    return UInt8.ofNat (16 * h + l) :: (← toHexBytes? rest)

theorem hexValue?_hexDigit (n : Nat) : (hexDigit n).hexValue? = some (n % 16) := by
  have h : n % 16 < 16 := Nat.mod_lt _ (by decide)
  unfold hexDigit
  split
  · unfold CodePoint.hexValue?
    rw [if_pos ⟨by simp, by simp; omega⟩]
    simp
  · unfold CodePoint.hexValue?
    rw [if_neg (by simp; omega), if_neg (by simp; omega), if_pos (by constructor <;> simp <;> omega)]
    simp

theorem isSome_hexValue?_of_mem {c : CodePoint} {bs : Bytes} (h : c ∈ ofHexBytes bs) :
    c.hexValue?.isSome := by
  obtain ⟨b, _, hc⟩ := List.mem_flatMap.mp h
  simp only [List.mem_cons, List.not_mem_nil, or_false] at hc
  rcases hc with rfl | rfl <;> rw [hexValue?_hexDigit] <;> rfl

@[simp] theorem length_ofHexBytes (bs : Bytes) : (ofHexBytes bs).length = 2 * bs.length := by
  induction bs with
  | nil => rfl
  | cons b bs ih =>
    simp only [ofHexBytes, List.flatMap_cons, List.length_append, List.length_cons,
      List.length_nil] at ih ⊢
    omega

theorem toHexBytes?_ofHexBytes (bs : Bytes) : toHexBytes? (ofHexBytes bs) = some bs := by
  induction bs with
  | nil => rfl
  | cons b bs ih =>
    have hb := b.toNat_lt
    have e : 16 * (b.toNat / 16 % 16) + b.toNat % 16 = b.toNat := by omega
    change toHexBytes? (hexDigit (b.toNat / 16) :: hexDigit b.toNat :: ofHexBytes bs) = _
    simp only [toHexBytes?, hexValue?_hexDigit, ih, Option.bind_eq_bind, Option.bind_some,
      Option.pure_def, e, UInt8.ofNat_toNat]

/-- Lexicographic order by code point. -/
def le (s t : Text) : Bool := !decide (t < s)

end Text

end LegacyImage
