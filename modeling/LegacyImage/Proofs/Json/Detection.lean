import LegacyImage.Json.Encoding
import LegacyImage.Proofs.Json.Reading
import LegacyImage.Proofs.Text.Utf8

/-!
Documents in UTF-8. A document holds no null and begins with an ASCII character, so its UTF-8 form,
or a start of it, is not taken for any other encoding (`decode_of_start`), and it is read as the
value that it is the writing of (`read_of_written`).
-/

namespace LegacyImage.Json

/-! ## No nulls -/

def HasNoNull (t : Text) : Prop := ∀ c ∈ t, c.val ≠ 0

theorem hasNoNull_append {t u : Text} : HasNoNull (t ++ u) ↔ HasNoNull t ∧ HasNoNull u :=
  List.forall_mem_append

theorem hasNoNull_cons {c : CodePoint} {t : Text} :
    HasNoNull (c :: t) ↔ c.val ≠ 0 ∧ HasNoNull t := List.forall_mem_cons

theorem hasNoNull_nil : HasNoNull [] := nofun

theorem hasNoNull_of_isBlank {t : Text} (h : IsBlank t) : HasNoNull t := by
  intro c hc
  exact Nat.ne_of_gt (isSpace_cases (h c hc)).1.1

theorem hasNoNull_of_writtenPieces {ps : List Piece} {t : Text} (h : WrittenPieces ps t) :
    HasNoNull t := by
  induction h with
  | nil => exact hasNoNull_nil
  | cons hp hps ih =>
    refine hasNoNull_append.mpr ⟨?_, ih⟩
    intro c hc
    rcases mem_of_writtenPiece hp c hc with hascii | ⟨-, hplain⟩
    · exact Nat.ne_of_gt hascii.1
    · omega

theorem hasNoNull_of_written {form : Form} {t : Text} (h : Written form t) : HasNoNull t := by
  have henclosed : ∀ (opening closing : CodePoint) (t : Text), opening.val ≠ 0 → closing.val ≠ 0 →
      HasNoNull t → HasNoNull (enclosed opening t closing) := fun opening closing t ho hc ht =>
    hasNoNull_cons.mpr ⟨ho, hasNoNull_append.mpr ⟨ht, hasNoNull_cons.mpr ⟨hc, hasNoNull_nil⟩⟩⟩
  induction h with
  | keyword h => exact fun c hc => Nat.ne_of_gt (isAscii_of_mem_keywords h c hc).1
  | number n => exact fun c hc => Nat.ne_of_gt (n.isAscii_text c hc).1
  | string h => exact henclosed _ _ _ (by decide) (by decide) (hasNoNull_of_writtenPieces h)
  | noItems h => exact henclosed _ _ _ (by decide) (by decide) (hasNoNull_of_isBlank h)
  | array h ih => exact henclosed _ _ _ (by decide) (by decide) ih
  | noMembers h => exact henclosed _ _ _ (by decide) (by decide) (hasNoNull_of_isBlank h)
  | object h ih => exact henclosed _ _ _ (by decide) (by decide) ih
  | lastItem hbefore hv hafter ih =>
    simp only [hasNoNull_append]
    exact ⟨hasNoNull_of_isBlank hbefore, ih, hasNoNull_of_isBlank hafter⟩
  | nextItem hbefore hv hafter hvs ihv ihvs =>
    simp only [hasNoNull_append, hasNoNull_cons]
    exact ⟨hasNoNull_of_isBlank hbefore, ihv, hasNoNull_of_isBlank hafter, by decide, ihvs⟩
  | member hname hbefore hafter hv ih =>
    simp only [hasNoNull_append, hasNoNull_cons]
    exact ⟨by decide, hasNoNull_of_writtenPieces hname, by decide, hasNoNull_of_isBlank hbefore,
      by decide, hasNoNull_of_isBlank hafter, ih⟩
  | lastMember hbefore hm hafter ih =>
    simp only [hasNoNull_append]
    exact ⟨hasNoNull_of_isBlank hbefore, ih, hasNoNull_of_isBlank hafter⟩
  | nextMember hbefore hm hafter hms ihm ihms =>
    simp only [hasNoNull_append, hasNoNull_cons]
    exact ⟨hasNoNull_of_isBlank hbefore, ihm, hasNoNull_of_isBlank hafter, by decide, ihms⟩

/-! ## Documents -/

/-- A value in writing with white space before it begins with an ASCII character. -/
theorem document_begins {v : Json} {before t : Text} (hbefore : IsBlank before)
    (h : Written (.value v) t) (after : Text) :
    ∃ c rest, before ++ (t ++ after) = c :: rest ∧ c.val < 0x80 := by
  cases before with
  | nil =>
    obtain ⟨c, rest, rfl, hc⟩ := exists_begins_of_written h
    exact ⟨c, _, rfl, hc.1⟩
  | cons c rest => exact ⟨c, _, rfl, (isSpace_cases (hbefore c List.mem_cons_self)).1.2⟩

theorem hasNoNull_document {v : Json} {before t after : Text} (hbefore : IsBlank before)
    (hafter : IsBlank after) (h : Written (.value v) t) : HasNoNull (before ++ (t ++ after)) := by
  rw [hasNoNull_append, hasNoNull_append]
  exact ⟨hasNoNull_of_isBlank hbefore, hasNoNull_of_written h, hasNoNull_of_isBlank hafter⟩

/-! ## Byte order marks -/

def utf8Mark : Bytes := [0xEF, 0xBB, 0xBF]

/-- What may stand before a document in UTF-8: nothing or the mark. -/
def IsMark (mark : Bytes) : Prop := mark = [] ∨ mark = utf8Mark

theorem decode_utf8Mark (bs : Bytes) : decode (utf8Mark ++ bs) = Utf8.decode true bs := rfl

theorem decode_of_detect {mark rest : Bytes}
    (h : detect (mark ++ rest) = (.utf8, mark.length)) :
    decode (mark ++ rest) = Utf8.decode true rest := by
  rw [decode, h]
  dsimp only
  rw [List.drop_left]

/-- Bytes that begin with an ASCII character begin with no mark. -/
theorem find?_marks_ascii {b : UInt8} (hne : b ≠ 0) (hlt : b < 0x80) (bs : Bytes) :
    marks.find? (fun m => m.1.isPrefixOf (b :: bs)) = none := by
  have hmarks : ∀ m ∈ marks, ∃ x xs, m.1 = x :: xs ∧ (x = 0 ∨ 0x80 ≤ x) := by
    simp [marks]
  refine List.find?_eq_none.mpr ?_
  intro m hm hstart
  obtain ⟨x, xs, hx, hvalue⟩ := hmarks m hm
  rw [List.isPrefixOf_iff_prefix, hx, List.cons_prefix_cons] at hstart
  rcases hvalue with hzero | hlarge
  · exact hne (hstart.1 ▸ hzero)
  · rw [hstart.1, UInt8.le_iff_toNat_le] at hlarge
    exact Nat.not_lt.mpr hlarge (UInt8.lt_iff_toNat_lt.mp hlt)

/-- Bytes that begin with an ASCII character and hold no zero are taken for UTF-8. -/
theorem detect_of_ne_zero {b : UInt8} {bs : Bytes} (hb : b < 0x80) (h : ∀ x ∈ b :: bs, x ≠ 0) :
    detect (b :: bs) = (.utf8, 0) := by
  have hfirst : b ≠ 0 := h b List.mem_cons_self
  have hencoding : encodingOf (b :: bs) = .utf8 := by
    have hsecond : ∀ b1 rest, bs = b1 :: rest → b1 ≠ 0 := by
      rintro b1 rest rfl
      exact h b1 (List.mem_cons_of_mem _ List.mem_cons_self)
    unfold encodingOf
    split
    · rename_i heq
      cases heq
      rw [if_neg hfirst, if_neg (hsecond _ _ rfl)]
    · rename_i heq
      cases heq
      rw [if_neg hfirst, if_neg (hsecond _ _ rfl)]
    · rfl
  rw [detect, find?_marks_ascii hfirst hb]
  dsimp only
  rw [hencoding]

/-- Bytes taken for UTF-8 are decoded after their mark. -/
theorem exists_mark_of_detect {bs : Bytes} (h : (detect bs).1 = .utf8) :
    ∃ mark rest, IsMark mark ∧ bs = mark ++ rest ∧ decode bs = Utf8.decode true rest := by
  have hmark : ∀ m ∈ marks, m.2 = .utf8 → m.1 = utf8Mark := by
    simp [marks, utf8Mark]
  cases hfind : marks.find? fun m => m.1.isPrefixOf bs with
  | none =>
    have hdetect : detect bs = (encodingOf bs, 0) := by rw [detect, hfind]
    rw [hdetect] at h
    have hencoding : encodingOf bs = .utf8 := h
    rw [hencoding] at hdetect
    exact ⟨[], bs, .inl rfl, rfl, @decode_of_detect [] bs hdetect⟩
  | some m =>
    have hdetect : detect bs = (m.2, m.1.length) := by rw [detect, hfind]
    rw [hdetect] at h
    have hencoding : m.2 = .utf8 := h
    have hstart : m.1.isPrefixOf bs = true := by simpa using List.find?_some hfind
    obtain ⟨rest, rfl⟩ := List.isPrefixOf_iff_prefix.mp hstart
    rw [hencoding] at hdetect
    exact ⟨m.1, rest, .inr (hmark m (List.mem_of_find?_eq_some hfind) hencoding), rfl,
      decode_of_detect hdetect⟩

/-! ## Texts in UTF-8 -/

theorem encodeAll_ascii {c : CodePoint} (hc : c.val < 0x80) (t : Text) :
    Utf8.encodeAll (c :: t) = UInt8.ofNat c.val :: Utf8.encodeAll t := by
  have hone : Utf8.encodeOne c = [UInt8.ofNat c.val] := if_pos hc
  rw [Utf8.encodeAll_cons, hone]
  rfl

theorem ne_zero_of_hasNoNull {t : Text} (h : HasNoNull t) : ∀ x ∈ Utf8.encodeAll t, x ≠ 0 := by
  intro x hx hzero
  obtain ⟨d, hd, hvalue⟩ := Utf8.exists_of_mem_encodeAll hx (by rw [hzero]; decide)
  exact h d hd (by rw [hvalue, hzero]; rfl)

/-- A start of the UTF-8 form of a text without nulls that begins with an ASCII character is taken
for UTF-8, and so is what comes after a mark. -/
theorem decode_of_start {c : CodePoint} {t : Text} (hc : c.val < 0x80) (h : HasNoNull (c :: t))
    {mark : Bytes} (hmark : IsMark mark) {b : UInt8} {bs : Bytes}
    (hstart : b :: bs <+: Utf8.encodeAll (c :: t)) :
    decode (mark ++ b :: bs) = Utf8.decode true (b :: bs) := by
  rcases hmark with rfl | rfl
  · have hzero : ∀ x ∈ b :: bs, x ≠ 0 := fun x hx => ne_zero_of_hasNoNull h x (hstart.subset hx)
    rw [encodeAll_ascii hc] at hstart
    obtain ⟨rfl, -⟩ := List.cons_prefix_cons.mp hstart
    refine decode_of_detect (detect_of_ne_zero ?_ hzero)
    simp only [UInt8.lt_iff_toNat_lt, UInt8.toNat_ofNat', UInt8.reduceToNat]
    omega
  · exact decode_utf8Mark (b :: bs)

theorem decode_encodeAll {c : CodePoint} {t : Text} (hc : c.val < 0x80) (h : HasNoNull (c :: t))
    {mark : Bytes} (hmark : IsMark mark) :
    decode (mark ++ Utf8.encodeAll (c :: t)) = .ok (c :: t) := by
  have hbytes := encodeAll_ascii hc t
  have hstart : UInt8.ofNat c.val :: Utf8.encodeAll t <+: Utf8.encodeAll (c :: t) := by
    simp [hbytes]
  rw [hbytes, decode_of_start hc h hmark hstart]
  exact Utf8.decode_eq_ok_iff.mpr hbytes

/-- What is decoded to a document is read as the value that it is the writing of. -/
theorem read_of_decode {raw : Json} {before t after : Text} {bs : Bytes} (hbefore : IsBlank before)
    (hafter : IsBlank after) (h : Written (.value raw) t) (hfits : raw.Fits maxDepth)
    (hdecode : decode bs = .ok (before ++ (t ++ after))) : read bs = .ok raw.merged := by
  have htext : ofText (before ++ (t ++ after)) = .ok raw.merged :=
    ofText_eq_ok_iff.mpr ⟨before, t, after, rfl, hbefore, hafter, raw, h, hfits, rfl⟩
  rw [read, hdecode]
  dsimp only
  rw [htext]

/-- The bytes of a document in UTF-8 are read as what it is the writing of. -/
theorem read_of_written {raw : Json} {before t after : Text} {mark : Bytes} (hmark : IsMark mark)
    (hbefore : IsBlank before) (hafter : IsBlank after) (h : Written (.value raw) t)
    (hfits : raw.Fits maxDepth) :
    read (mark ++ Utf8.encodeAll (before ++ (t ++ after))) = .ok raw.merged := by
  refine read_of_decode hbefore hafter h hfits ?_
  have hnull := hasNoNull_document hbefore hafter h
  obtain ⟨c, rest, hc, hascii⟩ := document_begins hbefore h after
  rw [hc] at hnull ⊢
  exact decode_encodeAll hascii hnull hmark

end LegacyImage.Json
