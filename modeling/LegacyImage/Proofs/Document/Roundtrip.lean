import LegacyImage.Document
import LegacyImage.Proofs.Json.Canonical

/-!
Documents made from values. A document hands out the value that it was made from, with the members of
every object in the order of their names (`json_ofJson`). Its bytes tell apart all values that differ
in more than the order of members, and are made again from what it hands out (`bytes_eq_iff`).
-/

namespace LegacyImage

/-- A value that has a canonical form, within what is read and copied, and without a name that comes
twice in an object. -/
structure Json.IsWritable (v : Json) : Prop where
  depth_le : v.depth ≤ Document.maxCopyDepth
  each_isShort : v.Each IsShort
  isFinite : v.isFinite = true
  each_hasDistinctNames : v.Each HasDistinctNames
  each_hasEncodableTexts : v.Each HasEncodableTexts

namespace Document

theorem ofJson_eq_ok_iff {v : Json} {d : Document} :
    ofJson v = .ok d ↔ v.isFinite = true ∧ v.canonicalText.IsEncodable ∧
      d = ofBytes (Utf8.encodeAll v.canonicalText) := by
  unfold ofJson Json.canonicalBytes
  by_cases hfinite : v.isFinite = true
  · rw [if_pos hfinite]
    cases hencode : Utf8.encode v.canonicalText with
    | error e =>
      have hnot : ¬ v.canonicalText.IsEncodable := by
        intro h
        rw [Utf8.encode_eq_ok_iff.mpr ⟨h, rfl⟩] at hencode
        cases hencode
      simp [Except.map, hnot]
    | ok bs =>
      obtain ⟨hencodable, rfl⟩ := Utf8.encode_eq_ok_iff.mp hencode
      have hencodable : v.canonicalText.IsEncodable := hencodable
      simp [Except.map, hfinite, hencodable, eq_comm]
  · simp [Except.map, hfinite]

/-- What a document hands out first is what its bytes are read as, if a copy can be made. -/
theorem json_ofBytes (bs : Bytes) :
    (ofBytes bs).json.1 = (Json.read bs).bind fun v =>
      if v.depth ≤ maxCopyDepth then .ok v else .error .tooDeep := by
  have hdecode : (ofBytes bs).decode.1 = Json.read bs := by
    unfold decode ofBytes
    dsimp only
    split <;> simp [*]
  rw [← hdecode]
  unfold json
  split <;> (rename_i h; rw [h]; rfl)

/-- A value is handed out if it is read and a copy of it can be made. -/
theorem json_ofBytes_eq_ok_iff {bs : Bytes} {v : Json} :
    (ofBytes bs).json.1 = .ok v ↔ Json.read bs = .ok v ∧ v.depth ≤ maxCopyDepth := by
  rw [json_ofBytes]
  cases Json.read bs with
  | error e => simp [Except.bind]
  | ok w =>
    dsimp only [Except.bind]
    split
    · rename_i hdepth
      simp only [Except.ok.injEq]
      exact ⟨fun h => ⟨h, h ▸ hdepth⟩, And.left⟩
    · rename_i hdepth
      simp only [reduceCtorEq, Except.ok.injEq, false_iff, not_and]
      exact fun h hv => hdepth (h ▸ hv)

/-- The document of a value hands it out with its members in order. -/
theorem json_ofJson {v : Json} (h : v.IsWritable) :
    ∃ d w, ofJson v = .ok d ∧ d.text = .ok v.canonicalText ∧ d.json.1 = .ok w ∧
      v.Reordered w ∧ w.Each Json.HasOrderedNames := by
  have hencodable := Json.isEncodable_canonicalText h.isFinite h.each_hasEncodableTexts
  have hdepth : v.depth ≤ Json.maxDepth := Nat.le_trans h.depth_le (by decide)
  have hread := Json.read_canonicalText h.isFinite ⟨hdepth, h.each_isShort⟩ h.each_hasDistinctNames
  have hcopy : v.sorted.depth ≤ maxCopyDepth :=
    Json.depth_rebuild_le Json.sortByName_subset h.depth_le
  refine ⟨_, v.sorted, ofJson_eq_ok_iff.mpr ⟨h.isFinite, hencodable, rfl⟩, ?_,
    json_ofBytes_eq_ok_iff.mpr ⟨hread, hcopy⟩, Json.reordered_sorted v,
    Json.each_hasOrderedNames_sorted h.each_hasDistinctNames⟩
  exact Utf8.decode_encodeAll false v.canonicalText (.inr hencodable)

/-- Two members out of order, with an escape in a name, and values of several kinds. -/
def mixedKinds : Json :=
  .object [([↑ 'b', ↑ '\n'], .array [.int 1, .float (.finite true 0), .bool true]),
    ([↑ 'a'], .object [])]

theorem isWritable_mixedKinds : mixedKinds.IsWritable where
  depth_le := by decide
  each_isShort := by
    have hone : (Text.ofNat 1).length ≤ Json.maxIntDigits := by decide
    simpa [mixedKinds, Json.Each, Json.parts, Json.partsOfMembers, Json.partsOfItems,
      Json.IsShort] using hone
  isFinite := rfl
  each_hasDistinctNames := by
    simp [mixedKinds, Json.Each, Json.parts, Json.partsOfMembers, Json.partsOfItems,
      Json.HasDistinctNames]
  each_hasEncodableTexts := by
    have hb : Text.IsEncodable [↑ 'b', ↑ '\n'] :=
      List.forall_mem_cons.mpr ⟨rfl, List.forall_mem_singleton.mpr rfl⟩
    have ha : Text.IsEncodable [↑ 'a'] := List.forall_mem_singleton.mpr rfl
    refine Json.each_object.mpr
      ⟨List.forall_mem_cons.mpr ⟨hb, List.forall_mem_singleton.mpr ha⟩, ?_⟩
    simp [Json.Each, Json.parts, Json.partsOfMembers, Json.partsOfItems, Json.HasEncodableTexts]

theorem json_ofJson_mixedKinds : ∃ d w, ofJson mixedKinds = .ok d ∧
    d.text = .ok mixedKinds.canonicalText ∧ d.json.1 = .ok w ∧ mixedKinds.Reordered w ∧
      w.Each Json.HasOrderedNames :=
  json_ofJson isWritable_mixedKinds

/-- The documents of two values that were handed out have the same bytes exactly if the values differ
in the order of members only, and the document of what such a document hands out is this document
again. -/
theorem bytes_eq_iff {bs cs : Bytes} {v w : Json} {d e : Document}
    (hv : (ofBytes bs).json.1 = .ok v) (hw : (ofBytes cs).json.1 = .ok w) (hd : ofJson v = .ok d)
    (he : ofJson w = .ok e) :
    (d.bytes = e.bytes ↔ v.Reordered w) ∧
      ∃ u again, d.json.1 = .ok u ∧ ofJson u = .ok again ∧ again.bytes = d.bytes ∧
        again.digest = d.digest := by
  obtain ⟨hvfinite, hvtext, rfl⟩ := ofJson_eq_ok_iff.mp hd
  obtain ⟨hwfinite, -, rfl⟩ := ofJson_eq_ok_iff.mp he
  obtain ⟨hv, hvdepth⟩ := json_ofBytes_eq_ok_iff.mp hv
  obtain ⟨hvfits, hvnames⟩ := Json.fits_of_read hv
  obtain ⟨hwfits, hwnames⟩ := Json.fits_of_read (json_ofBytes_eq_ok_iff.mp hw).1
  have hvread := Json.read_canonicalText hvfinite hvfits hvnames
  have hwread := Json.read_canonicalText hwfinite hwfits hwnames
  refine ⟨⟨?_, ?_⟩, ?_⟩
  · intro hbytes
    -- the same bytes are read as both values in order
    have hsame : v.sorted = w.sorted := by
      have hbytes : Utf8.encodeAll v.canonicalText = Utf8.encodeAll w.canonicalText := hbytes
      rw [hbytes, hwread] at hvread
      exact (Except.ok.inj hvread).symm
    have hback := (Json.reordered_sorted w).symm
    rw [← hsame] at hback
    exact (Json.reordered_sorted v).trans hback
  · intro hreordered
    show Utf8.encodeAll v.canonicalText = Utf8.encodeAll w.canonicalText
    rw [hreordered.canonicalText_eq hvnames]
  · have hcopy : v.sorted.depth ≤ maxCopyDepth :=
      Json.depth_rebuild_le Json.sortByName_subset hvdepth
    have htext := (Json.reordered_sorted v).canonicalText_eq hvnames
    refine ⟨v.sorted, ofBytes (Utf8.encodeAll v.canonicalText),
      json_ofBytes_eq_ok_iff.mpr ⟨hvread, hcopy⟩, ?_, rfl, rfl⟩
    refine ofJson_eq_ok_iff.mpr ⟨Json.isFinite_rebuild Json.sortByName_subset hvfinite, ?_, ?_⟩
    · rw [← htext]
      exact hvtext
    · rw [← htext]

/-- A member with a whole number, then one with a list of a double. -/
def numberFirst : Json :=
  .object [([↑ 'b'], .int 1), ([↑ 'a'], .array [.float (Double.ofDecimal false 10 (-1))])]

/-- The same members, the list first. -/
def listFirst : Json :=
  .object [([↑ 'a'], .array [.float (Double.ofDecimal false 10 (-1))]), ([↑ 'b'], .int 1)]

theorem reordered_listFirst : numberFirst.Reordered listFirst := .swap [] _ _ []

theorem bytes_eq_iff_listFirst : ∃ d e, ofJson numberFirst = .ok d ∧ ofJson listFirst = .ok e ∧
    d.bytes = e.bytes ∧ ∃ u again, d.json.1 = .ok u ∧ ofJson u = .ok again ∧
      again.bytes = d.bytes ∧ again.digest = d.digest := by
  have hnumber : Json.read (Utf8.encodeAll (Text.ofString "\x7b\"b\":1,\"a\":[1.0]\x7d")) =
    .ok numberFirst := rfl
  have hlist : Json.read (Utf8.encodeAll (Text.ofString "\x7b\"a\": [10e-1], \"b\": 1\x7d")) =
    .ok listFirst := rfl
  have hfinite : numberFirst.isFinite = true := by decide +kernel
  have htexts : numberFirst.Each Json.HasEncodableTexts := by
    have ha : Text.IsEncodable [↑ 'a'] := List.forall_mem_singleton.mpr rfl
    have hb : Text.IsEncodable [↑ 'b'] := List.forall_mem_singleton.mpr rfl
    refine Json.each_object.mpr
      ⟨List.forall_mem_cons.mpr ⟨hb, List.forall_mem_singleton.mpr ha⟩, ?_⟩
    simp [Json.Each, Json.parts, Json.partsOfItems, Json.HasEncodableTexts]
  have hencodable := Json.isEncodable_canonicalText hfinite htexts
  have hd := ofJson_eq_ok_iff.mpr ⟨hfinite, hencodable, rfl⟩
  rw [reordered_listFirst.canonicalText_eq (Json.fits_of_read hnumber).2] at hencodable
  have he := ofJson_eq_ok_iff.mpr ⟨(by decide +kernel : listFirst.isFinite = true), hencodable, rfl⟩
  obtain ⟨hbytes, hagain⟩ := bytes_eq_iff (json_ofBytes_eq_ok_iff.mpr ⟨hnumber, by decide⟩)
    (json_ofBytes_eq_ok_iff.mpr ⟨hlist, by decide⟩) hd he
  exact ⟨_, _, hd, he, hbytes.mpr reordered_listFirst, hagain⟩

end Document

end LegacyImage
