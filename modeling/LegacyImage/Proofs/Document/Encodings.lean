import LegacyImage.Proofs.Document.Roundtrip

/-!
Documents in other encodings. A document begins with an ASCII character and holds no null, so the
zero bytes among its first four tell its encoding where no mark does (`decode_encoded`). So a
document is read as the same value, and lists the same layers or has the same fault, in all five
encodings, with and without a byte order mark (`same_in_every_encoding`).
-/

namespace LegacyImage

namespace Encoding

def encode : Encoding → Text → Bytes
  | .utf8 => Utf8.encodeAll
  | .utf16 order => Utf16.encode order
  | .utf32 order => Utf32.encode order

/-- The byte order mark is the code point U+FEFF before the text. -/
def mark (e : Encoding) : Bytes := e.encode [0xFEFF]

/-- The bytes of a text, with the mark before them or without it. -/
def encoded (e : Encoding) (marked : Bool) (t : Text) : Bytes :=
  if marked then e.mark ++ e.encode t else e.encode t

end Encoding

/-! ## First bytes -/

theorem ByteOrder.bytes_two_of_lt {n : Nat} (h : n < 0x80) (order : ByteOrder) :
    order.bytes 2 n = match order with
      | .little => [UInt8.ofNat n, 0]
      | .big => [0, UInt8.ofNat n] := by
  have hhigh : n / 256 = 0 := by omega
  cases order with
  | little => simp [bytes, Bytes.ofNatLE, hhigh]
  | big => simp [bytes, Bytes.ofNatBE, Bytes.ofNatLE, hhigh]

theorem ByteOrder.bytes_four_of_lt {n : Nat} (h : n < 0x80) (order : ByteOrder) :
    order.bytes 4 n = match order with
      | .little => [UInt8.ofNat n, 0, 0, 0]
      | .big => [0, 0, 0, UInt8.ofNat n] := by
  have hhigh : n / 256 = 0 := by omega
  cases order with
  | little => simp [bytes, Bytes.ofNatLE, hhigh]
  | big => simp [bytes, Bytes.ofNatBE, Bytes.ofNatLE, hhigh]

namespace Utf16

theorem encode_cons (order : ByteOrder) (c : CodePoint) (t : Text) :
    encode order (c :: t) = encodeOne order c ++ encode order t := List.flatMap_cons

theorem encode_ascii {c : CodePoint} (hc : c.val < 0x80) (order : ByteOrder) (t : Text) :
    encode order (c :: t) = (match order with
      | .little => [UInt8.ofNat c.val, 0]
      | .big => [0, UInt8.ofNat c.val]) ++ encode order t := by
  have hone : encodeOne order c = order.bytes 2 c.val := if_pos (by omega)
  rw [encode_cons, hone, ByteOrder.bytes_two_of_lt hc]

/-- The first unit of a code point other than the null is not zero. -/
theorem exists_unit_encodeOne (order : ByteOrder) {c : CodePoint} (hc : c.val ≠ 0) :
    ∃ b0 b1 rest, encodeOne order c = b0 :: b1 :: rest ∧ ¬(b0 = 0 ∧ b1 = 0) := by
  have hunit : ∀ n : Nat, n ≠ 0 → n < 0x10000 →
      ∃ b0 b1, order.bytes 2 n = [b0, b1] ∧ ¬(b0 = 0 ∧ b1 = 0) := by
    intro n hn hlt
    obtain ⟨b0, b1, hbytes, hvalue⟩ := unit_bytes order hlt
    refine ⟨b0, b1, hbytes, ?_⟩
    rintro ⟨rfl, rfl⟩
    have hzero : (unit order 0 0).val = 0 := by cases order <;> rfl
    omega
  have hlt := c.isLt
  unfold encodeOne
  split
  · rename_i hsmall
    obtain ⟨b0, b1, hbytes, hne⟩ := hunit c.val hc hsmall
    exact ⟨b0, b1, [], hbytes, hne⟩
  · obtain ⟨b0, b1, hbytes, hne⟩ :=
      hunit (0xD800 + (c.val - 0x10000) / 0x400) (by omega) (by omega)
    exact ⟨b0, b1, _, by rw [hbytes]; rfl, hne⟩

end Utf16

theorem Utf32.encode_ascii {c : CodePoint} (hc : c.val < 0x80) (order : ByteOrder) (t : Text) :
    encode order (c :: t) = (match order with
      | .little => [UInt8.ofNat c.val, 0, 0, 0]
      | .big => [0, 0, 0, UInt8.ofNat c.val]) ++ encode order t := by
  rw [encode, List.flatMap_cons, ByteOrder.bytes_four_of_lt hc]
  rfl

namespace Json

/-! ## Detection -/

theorem ofNat_ne_zero {c : CodePoint} (hc : c.IsAscii) : UInt8.ofNat c.val ≠ 0 := by
  obtain ⟨hpos, hlt⟩ := hc
  intro h
  have hvalue := congrArg UInt8.toNat h
  rw [UInt8.toNat_ofNat', UInt8.toNat_zero] at hvalue
  omega

theorem ofNat_lt {c : CodePoint} (hc : c.IsAscii) : UInt8.ofNat c.val < 0x80 := by
  obtain ⟨hpos, hlt⟩ := hc
  simp only [UInt8.lt_iff_toNat_lt, UInt8.toNat_ofNat', UInt8.reduceToNat]
  omega

/-- The mark of little-endian UTF-32 begins with that of UTF-16, but goes on with zeros. -/
theorem detect_littleMark {b : UInt8} (hb : b ≠ 0) (bs : Bytes) :
    detect (0xFF :: 0xFE :: b :: bs) = (.utf16 .little, 2) := by
  simp [detect, marks, List.isPrefixOf, Ne.symm hb]

/-- A mark tells the encoding that it is in. -/
theorem detect_marked (e : Encoding) {c : CodePoint} (hc : c.IsAscii) (t : Text) :
    detect (e.mark ++ e.encode (c :: t)) = (e, e.mark.length) := by
  cases e with
  | utf8 => rfl
  | utf16 order =>
    have hencode := Utf16.encode_ascii hc.2 order t
    rw [Encoding.encode, hencode]
    cases order with
    | little => exact detect_littleMark (ofNat_ne_zero hc) _
    | big => rfl
  | utf32 order => cases order <;> rfl

/-- Without a mark, the zeros among the first bytes tell the encoding of a text that begins with an
ASCII character and goes on with no null. -/
theorem detect_unmarked (e : Encoding) {c : CodePoint} (hc : c.IsAscii) {t : Text}
    (h : HasNoNull t) : detect (e.encode (c :: t)) = (e, 0) := by
  have hne := ofNat_ne_zero hc
  have hlt := ofNat_lt hc
  cases e with
  | utf8 =>
    have hzero := ne_zero_of_hasNoNull (hasNoNull_cons.mpr ⟨Nat.ne_of_gt hc.1, h⟩)
    have hencode := encodeAll_ascii hc.2 t
    rw [Encoding.encode, hencode]
    exact detect_of_ne_zero hlt (hencode ▸ hzero)
  | utf16 order =>
    rw [Encoding.encode, Utf16.encode_ascii hc.2 order t]
    cases order with
    | little =>
      rw [List.cons_append, detect, find?_marks_ascii hne hlt]
      cases t with
      | nil => simp [encodingOf, Utf16.encode, hne]
      | cons d t =>
        obtain ⟨b2, b3, rest, hunit, hnot⟩ :=
          Utf16.exists_unit_encodeOne .little (hasNoNull_cons.mp h).1
        rw [Utf16.encode_cons, hunit]
        simp [encodingOf, hne, hnot]
    | big =>
      cases t with
      | nil => simp [detect, marks, List.isPrefixOf, encodingOf, Utf16.encode]
      | cons d t =>
        obtain ⟨b2, b3, rest, hunit, -⟩ :=
          Utf16.exists_unit_encodeOne .big (hasNoNull_cons.mp h).1
        rw [Utf16.encode_cons, hunit]
        simp [detect, marks, List.isPrefixOf, encodingOf, hne, Ne.symm hne]
  | utf32 order =>
    rw [Encoding.encode, Utf32.encode_ascii hc.2 order t]
    cases order with
    | little =>
      rw [List.cons_append, detect, find?_marks_ascii hne hlt]
      simp [encodingOf, hne]
    | big => simp [detect, marks, List.isPrefixOf, encodingOf]

/-! ## Decoding -/

/-- A text that begins with an ASCII character and holds neither nulls nor surrogates is decoded
from its bytes in every encoding. -/
theorem decode_encoded (e : Encoding) (marked : Bool) {c : CodePoint} {t : Text}
    (hc : c.val < 0x80) (hnull : HasNoNull (c :: t)) (h : Text.IsEncodable (c :: t)) :
    decode (e.encoded marked (c :: t)) = .ok (c :: t) := by
  obtain ⟨hfirst, hrest⟩ := hasNoNull_cons.mp hnull
  have hascii : c.IsAscii := ⟨Nat.pos_of_ne_zero hfirst, hc⟩
  have hsplit : ∃ front : Bytes, e.encoded marked (c :: t) = front ++ e.encode (c :: t) ∧
      detect (e.encoded marked (c :: t)) = (e, front.length) := by
    cases marked with
    | true => exact ⟨e.mark, rfl, detect_marked e hascii t⟩
    | false => exact ⟨[], rfl, detect_unmarked e hascii hrest⟩
  obtain ⟨front, hbytes, hdetect⟩ := hsplit
  rw [decode, hdetect, hbytes]
  cases e with
  | utf8 =>
    dsimp only
    rw [List.drop_left]
    exact Utf8.decode_encodeAll true _ (.inl rfl)
  | utf16 order =>
    dsimp only
    rw [List.drop_left]
    exact Utf16.decodeFrom_encode order _ [] _ h
  | utf32 order =>
    dsimp only
    rw [List.drop_left]
    exact Utf32.decodeFrom_encode order _ [] _

/-- A document is read as what it is the writing of, in every encoding. -/
theorem read_encoded {raw : Json} {before t after : Text} (hbefore : IsBlank before)
    (hafter : IsBlank after) (h : Written (.value raw) t)
    (hscalar : Text.IsEncodable (before ++ (t ++ after))) (hfits : raw.Fits maxDepth)
    (e : Encoding) (marked : Bool) :
    read (e.encoded marked (before ++ (t ++ after))) = .ok raw.merged := by
  refine read_of_decode hbefore hafter h hfits ?_
  have hnull := hasNoNull_document hbefore hafter h
  obtain ⟨c, rest, hc, hascii⟩ := document_begins hbefore h after
  rw [hc] at hnull hscalar ⊢
  exact decode_encoded e marked hascii hnull hscalar

end Json

namespace Document

/-- The value of a document and the layers that it lists, or what is wrong with them, are the same
in every encoding, with a byte order mark and without. -/
theorem same_in_every_encoding {raw : Json} {before t after : Text} (hbefore : Json.IsBlank before)
    (hafter : Json.IsBlank after) (h : Json.Written (.value raw) t)
    (hscalar : Text.IsEncodable (before ++ (t ++ after))) (hfits : raw.Fits Json.maxDepth)
    (e : Encoding) (marked : Bool) :
    (raw.depth ≤ maxCopyDepth →
      (ofBytes (e.encoded marked (before ++ (t ++ after)))).json.1 = .ok raw.merged) ∧
    (ofBytes (e.encoded marked (before ++ (t ++ after)))).json.1 =
      (ofBytes (Utf8.encodeAll (before ++ (t ++ after)))).json.1 ∧
    Manifest.layers (e.encoded marked (before ++ (t ++ after))) =
      Manifest.layersOf raw.merged := by
  have hread := Json.read_encoded hbefore hafter h hscalar hfits
  have hplain : Json.read (Utf8.encodeAll (before ++ (t ++ after))) = .ok raw.merged :=
    hread .utf8 false
  refine ⟨?_, ?_, ?_⟩
  · intro hdepth
    exact json_ofBytes_eq_ok_iff.mpr
      ⟨hread e marked, Json.depth_rebuild_le Table.ofEntries_subset hdepth⟩
  · rw [json_ofBytes, json_ofBytes, hread, hplain]
  · simp only [Manifest.layers, hread]

/-- A letter whose low byte is zero, right after the quote with which the document begins. -/
def quotedLetter : Text := [↑ '"', 0x100, ↑ '"']

theorem same_in_every_encoding_quotedLetter :
    (Encoding.utf16 .little).encoded false ([] ++ (quotedLetter ++ [])) =
      [0x22, 0x00, 0x00, 0x01, 0x22, 0x00] ∧
    (ofBytes ((Encoding.utf16 .little).encoded false ([] ++ (quotedLetter ++ [])))).json.1 =
      .ok (.str [0x100]) ∧
    Manifest.layers ((Encoding.utf16 .little).encoded false ([] ++ (quotedLetter ++ []))) =
      .error (.notAnObject (.str [0x100])) := by
  have hpieces : Json.WrittenPieces _ [0x100] := Json.writtenPieces_plain rfl
  have hwritten : Json.Written (.value (.str [0x100])) quotedLetter :=
    Json.written_str hpieces (Json.Piece.joined_map_plain _)
  have hscalar : Text.IsEncodable ([] ++ (quotedLetter ++ [])) :=
    List.forall_mem_cons.mpr ⟨rfl, List.forall_mem_cons.mpr ⟨rfl, List.forall_mem_singleton.mpr rfl⟩⟩
  have hfits : (Json.str [0x100]).Fits Json.maxDepth :=
    @Json.IsScalar.fits (.str [0x100]) trivial trivial _
  obtain ⟨hvalue, -, hlayers⟩ := same_in_every_encoding Json.isBlank_nil Json.isBlank_nil hwritten
    hscalar hfits (.utf16 .little) false
  exact ⟨rfl, hvalue (by decide), hlayers⟩

end Document

end LegacyImage
