import LegacyImage.Text.Encoding

/-!
UTF-16 in either byte order. A surrogate without its partner is taken as it is, so the only fault
is a byte too many.
-/

namespace LegacyImage.Utf16

def unit (order : ByteOrder) (b0 b1 : UInt8) : CodePoint :=
  Fin.ofNat 0x110000 (order.value [b0, b1])

/-- Decodes what follows `position` bytes, whose code points are `done`, the last one first. -/
def decodeFrom (order : ByteOrder) (position : Nat) (done : Text) :
    Bytes → Except DecodeError Text
  | [] => .ok done.reverse
  | [b] => .error ⟨.utf16 order, position, [b], .truncated⟩
  | b0 :: b1 :: rest =>
    let high := unit order b0 b1
    match rest with
    | b2 :: b3 :: more =>
      let low := unit order b2 b3
      if high.isHighSurrogate && low.isLowSurrogate then
        decodeFrom order (position + 4) (CodePoint.ofSurrogates high low :: done) more
      else decodeFrom order (position + 2) (high :: done) (b2 :: b3 :: more)
    | rest => decodeFrom order (position + 2) (high :: done) rest

/-- The bytes of one code point: two units for one above U+FFFF. -/
def encodeOne (order : ByteOrder) (c : CodePoint) : Bytes :=
  if c.val < 0x10000 then order.bytes 2 c.val
  else order.bytes 2 (0xD800 + (c.val - 0x10000) / 0x400) ++
    order.bytes 2 (0xDC00 + (c.val - 0x10000) % 0x400)

def encode (order : ByteOrder) (t : Text) : Bytes := t.flatMap (encodeOne order)

theorem unit_bytes (order : ByteOrder) {n : Nat} (h : n < 0x10000) :
    ∃ b0 b1, order.bytes 2 n = [b0, b1] ∧ (unit order b0 b1).val = n := by
  have hv := order.value_bytes 2 n
  have hl := order.length_bytes 2 n
  generalize order.bytes 2 n = bs at hv hl
  match bs, hl with
  | [b0, b1], _ =>
    refine ⟨b0, b1, rfl, ?_⟩
    simp only [unit, hv]
    show n % 256 ^ 2 % 0x110000 = n
    omega

/-- A unit that begins no pair is a code point. -/
theorem decodeFrom_single (order : ByteOrder) (position : Nat) (done : Text) (b0 b1 : UInt8)
    (rest : Bytes) (h : (unit order b0 b1).isHighSurrogate = false) :
    decodeFrom order position done (b0 :: b1 :: rest) =
      decodeFrom order (position + 2) (unit order b0 b1 :: done) rest := by
  match rest with
  | [] => rfl
  | [_] => rfl
  | _ :: _ :: _ =>
    rw [decodeFrom]
    simp only [h, Bool.false_and, Bool.false_eq_true, if_false]

theorem decodeFrom_encode (order : ByteOrder) (position : Nat) (done t : Text)
    (h : ∀ c ∈ t, c.isSurrogate = false) :
    decodeFrom order position done (encode order t) = .ok (done.reverse ++ t) := by
  induction t generalizing position done with
  | nil => simp [encode, decodeFrom]
  | cons c t ih =>
    have hc := h c List.mem_cons_self
    have ht : ∀ x ∈ t, x.isSurrogate = false := fun x hx => h x (List.mem_cons_of_mem _ hx)
    have hlt := c.isLt
    rw [encode, List.flatMap_cons, ← encode]
    simp only [CodePoint.isSurrogate, Bool.and_eq_false_iff, decide_eq_false_iff_not] at hc
    unfold encodeOne
    split
    · rename_i hn
      obtain ⟨b0, b1, hb, hu⟩ := unit_bytes order hn
      have e : unit order b0 b1 = c := Fin.ext hu
      rw [hb, List.cons_append, List.cons_append, List.nil_append, decodeFrom_single, e, ih _ _ ht]
      · simp
      · simp only [CodePoint.isHighSurrogate, e, Bool.and_eq_false_iff, decide_eq_false_iff_not]
        omega
    · obtain ⟨b0, b1, hb, hu⟩ := unit_bytes order
        (show 0xD800 + (c.val - 0x10000) / 0x400 < 0x10000 by omega)
      obtain ⟨b2, b3, hb', hu'⟩ := unit_bytes order
        (show 0xDC00 + (c.val - 0x10000) % 0x400 < 0x10000 by omega)
      have hh : (unit order b0 b1).isHighSurrogate = true := by
        simp only [CodePoint.isHighSurrogate, hu, Bool.and_eq_true, decide_eq_true_eq]
        omega
      have hl : (unit order b2 b3).isLowSurrogate = true := by
        simp only [CodePoint.isLowSurrogate, hu', Bool.and_eq_true, decide_eq_true_eq]
        omega
      have e : CodePoint.ofSurrogates (unit order b0 b1) (unit order b2 b3) = c := by
        refine Fin.ext ?_
        simp only [CodePoint.ofSurrogates, hu, hu']
        omega
      rw [hb, hb']
      simp only [List.cons_append, List.nil_append]
      rw [decodeFrom]
      simp only [hh, hl, Bool.and_self, if_true, e]
      rw [ih _ _ ht]
      simp

end LegacyImage.Utf16
