import LegacyImage.Text

/-!
The encodings of text in bytes, and what can be wrong with bytes that claim to be in one.
-/

namespace LegacyImage

inductive ByteOrder
  | little
  | big
deriving DecidableEq, Repr

def ByteOrder.value : ByteOrder → Bytes → Nat
  | .little => Bytes.toNatLE
  | .big => Bytes.toNatBE

def ByteOrder.bytes : ByteOrder → Nat → Nat → Bytes
  | .little => Bytes.ofNatLE
  | .big => Bytes.ofNatBE

theorem ByteOrder.value_bytes (order : ByteOrder) (count n : Nat) :
    order.value (order.bytes count n) = n % 256 ^ count := by
  cases order
  · exact Bytes.toNatLE_ofNatLE count n
  · exact Bytes.toNatBE_ofNatBE count n

@[simp] theorem ByteOrder.length_bytes (order : ByteOrder) (count n : Nat) :
    (order.bytes count n).length = count := by
  cases order
  · exact Bytes.length_ofNatLE count n
  · exact Bytes.length_ofNatBE count n

inductive Encoding
  | utf8
  | utf16 (order : ByteOrder)
  | utf32 (order : ByteOrder)
deriving DecidableEq, Repr

def Encoding.name : Encoding → String
  | .utf8 => "utf-8"
  | .utf16 .little => "utf-16-le"
  | .utf16 .big => "utf-16-be"
  | .utf32 .little => "utf-32-le"
  | .utf32 .big => "utf-32-be"

inductive DecodeReason
  | invalidStart
  | invalidContinuation
  | unexpectedEnd
  | truncated
  | outOfRange
deriving DecidableEq, Repr

def DecodeReason.message : DecodeReason → String
  | .invalidStart => "invalid start byte"
  | .invalidContinuation => "invalid continuation byte"
  | .unexpectedEnd => "unexpected end of data"
  | .truncated => "truncated data"
  | .outOfRange => "code point not in range(0x110000)"

/-- The bytes at fault, by the place of the first one, and why. -/
structure DecodeError where
  encoding : Encoding
  position : Nat
  bytes : Bytes
  reason : DecodeReason
deriving DecidableEq

/-- One byte is shown, of several only their places. -/
def DecodeError.message (e : DecodeError) : Text :=
  let place := match e.bytes with
    | [b] => Text.ofString "byte 0x" ++ Text.ofHexFixed 2 b.toNat ++
        Text.ofString " in position " ++ Text.ofNat e.position
    | bs => Text.ofString "bytes in position " ++ Text.ofNat e.position ++ ↑ '-' ::
        Text.ofNat (e.position + bs.length - 1)
  Text.ofString "'" ++ Text.ofString e.encoding.name ++ Text.ofString "' codec can't decode " ++
    place ++ Text.ofString ": " ++ Text.ofString e.reason.message

end LegacyImage
