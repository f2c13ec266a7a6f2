import LegacyImage.Text.Encoding

/-!
UTF-32 in either byte order: four bytes a code point, which must be in the code space.
-/

namespace LegacyImage.Utf32

/-- Decodes what follows `position` bytes, whose code points are `done`, the last one first. -/
def decodeFrom (order : ByteOrder) (position : Nat) (done : Text) :
    Bytes → Except DecodeError Text
  | [] => .ok done.reverse
  | b0 :: b1 :: b2 :: b3 :: rest =>
    let n := order.value [b0, b1, b2, b3]
    if h : n < 0x110000 then decodeFrom order (position + 4) (⟨n, h⟩ :: done) rest
    else .error ⟨.utf32 order, position, [b0, b1, b2, b3], .outOfRange⟩
  | few => .error ⟨.utf32 order, position, few, .truncated⟩

def encode (order : ByteOrder) (t : Text) : Bytes := t.flatMap fun c => order.bytes 4 c.val

theorem decodeFrom_encode (order : ByteOrder) (position : Nat) (done t : Text) :
    decodeFrom order position done (encode order t) = .ok (done.reverse ++ t) := by
  induction t generalizing position done with
  | nil => simp [encode, decodeFrom]
  | cons c t ih =>
    have hv := order.value_bytes 4 c.val
    have hl := order.length_bytes 4 c.val
    rw [Nat.mod_eq_of_lt (Nat.lt_trans c.isLt (by decide))] at hv
    rw [encode, List.flatMap_cons]
    generalize order.bytes 4 c.val = bs at hv hl
    match bs, hl with
    | [b0, b1, b2, b3], _ =>
      simp only [List.cons_append, List.nil_append]
      rw [decodeFrom]
      simp only [hv, dif_pos c.isLt]
      rw [← encode, ih]
      simp

end LegacyImage.Utf32
