import LegacyImage.Proofs.Json.Detection
import LegacyImage.Proofs.Json.Nesting
import LegacyImage.Proofs.Manifest.Listing

/-!
Manifests that were cut short. The reader of a value stops at the end of the first value that there
is, so nothing but white space follows an object that begins a document that is read
(`isBlank_of_ofText`): a text that ends before the end of its object is none. Bytes that lack the
last brace of a manifest are a parse error, wherever they were cut (`layers_of_cut`).
-/

namespace LegacyImage

namespace Json

/-! ## Texts cut short -/

/-- A start of a text nests no deeper than the text. -/
theorem nestingFrom_append (place : Place) (level : Nat) (t rest : Text) :
    nestingFrom place level t ≤ nestingFrom place level (t ++ rest) := by
  fun_induction nestingFrom place level t with
  | case1 => exact le_nestingFrom ..
  | _ => simp_all [nestingFrom] <;> omega

/-- After an object that stands at the start of a document there is only white space. -/
theorem isBlank_of_ofText {before u rest : Text} {ms : List (Text × Json)} {v : Json}
    (h : ofText (before ++ (u ++ rest)) = .ok v) (hbefore : IsBlank before)
    (hu : Written (.value (.object ms)) u) (hfits : (object ms).Fits maxDepth) : IsBlank rest := by
  unfold ofText at h
  rw [value_of_document hbefore hu hfits nofun] at h
  dsimp only at h
  split at h
  · exact isBlank_of_skip ‹_›
  · cases h

theorem exists_object_of_merged {raw : Json} {ms : List (Text × Json)}
    (h : raw.merged = object ms) : ∃ ms, raw = object ms := by
  cases raw with
  | object ms => exact ⟨ms, rfl⟩
  | _ => cases h

/-- A text that is no document of an object, for another reason than that it nests too deep. -/
def IsNoObject (t : Text) : Prop :=
  (∃ w, ofText t = .ok w ∧ ∀ ms, w ≠ object ms) ∨ ∃ e, ofText t = .error e ∧ e.fault ≠ .tooDeep

/-- If the part of a document that is cut off holds a brace, no object is left. -/
theorem isNoObject_of_cut {t rest : Text} {v : Json} (h : ofText (t ++ rest) = .ok v)
    (hrest : ↑ '}' ∈ rest) : IsNoObject t := by
  cases ht : ofText t with
  | ok w =>
    refine .inl ⟨w, ht, ?_⟩
    rintro ms rfl
    obtain ⟨before, u, after, rfl, hbefore, hafter, raw, hraw, hfits, hmerged⟩ :=
      ofText_eq_ok_iff.mp ht
    obtain ⟨ms', rfl⟩ := exists_object_of_merged hmerged
    rw [List.append_assoc, List.append_assoc] at h
    have hblank := isBlank_of_ofText h hbefore hraw hfits _ (List.mem_append_right _ hrest)
    cases hblank
  | error e =>
    refine .inr ⟨e, ht, ?_⟩
    intro hdeep
    obtain ⟨fault, left⟩ := e
    obtain rfl : fault = .tooDeep := hdeep
    have hcut := lt_nesting_of_ofText ht
    have hwhole := nesting_le_of_ofText h
    have hmono := nestingFrom_append .outside 0 t rest
    simp only [nesting] at hcut hwhole
    omega

/-- The same of the bytes of a document, after a mark, if a byte is left of them. -/
theorem isNoObject_of_cut_bytes {t left : Text} {v : Json} {mark bs cut : Bytes} {b : UInt8}
    (hmark : IsMark mark) (h : ofText t = .ok v) (hstart : Utf8.encodeAll t = b :: bs ++ cut)
    (hcut : 0x7D ∈ cut) (hleft : decode (mark ++ b :: bs) = .ok left) : IsNoObject left := by
  obtain ⟨before, u, after, rfl, hbefore, hafter, raw, hraw, hfits, hmerged⟩ :=
    ofText_eq_ok_iff.mp h
  have hnull := hasNoNull_document hbefore hafter hraw
  obtain ⟨c, more, hc, hascii⟩ := document_begins hbefore hraw after
  rw [hc] at hnull hstart h
  rw [decode_of_start hascii hnull hmark ⟨cut, hstart.symm⟩] at hleft
  -- what is left was decoded, so the cut does not go through a sequence
  rw [← Utf8.decode_eq_ok_iff.mp hleft] at hstart
  obtain ⟨rest, hrest, rfl⟩ := Utf8.exists_of_encodeAll_append hstart
  obtain ⟨d, hd, hbrace⟩ := Utf8.exists_of_mem_encodeAll hcut (by decide)
  obtain rfl : d = ↑ '}' := Fin.ext hbrace
  rw [hrest] at h
  exact isNoObject_of_cut h hd

end Json

namespace Manifest

/-! ## Bytes cut short -/

theorem exists_object_of_layers {bs : Bytes} {ds : List Digest} (h : layers bs = .ok ds) :
    ∃ t ms, Json.decode bs = .ok t ∧ Json.ofText t = .ok (.object ms) := by
  unfold layers at h
  split at h
  · cases h
  rename_i v hread
  unfold Json.read at hread
  split at hread
  · cases hread
  rename_i t ht
  split at hread
  · rename_i w hw
    cases hread
    cases v with
    | object ms => exact ⟨t, ms, ht, hw⟩
    | _ => cases h
  · cases hread
  · cases hread

/-- Bytes that come to a text without an object are a parse error, and so are bytes that come to no
text. -/
theorem layers_of_isNoObject {bs : Bytes} (h : ∀ t, Json.decode bs = .ok t → Json.IsNoObject t) :
    ∃ e, layers bs = .error e ∧ e.kind? = some .parse := by
  unfold layers Json.read
  cases hdecode : Json.decode bs with
  | error cause => exact ⟨_, rfl, rfl⟩
  | ok t =>
    dsimp only
    rcases h t hdecode with ⟨w, hw, hobject⟩ | ⟨⟨fault, rest⟩, he, hfault⟩
    · rw [hw]
      cases w with
      | object ms => exact absurd rfl (hobject ms)
      | _ => exact ⟨_, rfl, rfl⟩
    · rw [he]
      cases fault with
      | tooDeep => exact absurd rfl hfault
      | _ => exact ⟨_, rfl, rfl⟩

/-- Nothing, and a part of a byte order mark or the whole of it, is a parse error. -/
theorem layers_of_mark {mark kept cut : Bytes} (hmark : Json.IsMark mark) (h : mark = kept ++ cut) :
    ∃ e, layers kept = .error e ∧ e.kind? = some .parse := by
  have hkept : kept <+: Json.utf8Mark := by
    rcases hmark with rfl | rfl
    · obtain rfl := (List.append_eq_nil_iff.mp h.symm).1
      exact List.nil_prefix
    · exact ⟨cut, h.symm⟩
  have hlength : kept.length ≤ 3 := hkept.length_le
  rw [List.prefix_iff_eq_take.mp hkept]
  obtain hsize | hsize | hsize | hsize : kept.length = 0 ∨ kept.length = 1 ∨ kept.length = 2 ∨
      kept.length = 3 := by omega
  all_goals
    rw [hsize]
    exact ⟨_, rfl, rfl⟩

/-- What is left of a manifest in UTF-8 from which a part with the brace that closes it was cut off
is a parse error. -/
theorem layers_of_cut {kept cut : Bytes} {ds : List Digest}
    (hutf8 : (Json.detect (kept ++ cut)).1 = .utf8) (h : layers (kept ++ cut) = .ok ds)
    (hcut : 0x7D ∈ cut) : ∃ e, layers kept = .error e ∧ e.kind? = some .parse := by
  obtain ⟨t, ms, hdecode, hread⟩ := exists_object_of_layers h
  obtain ⟨mark, rest, hmark, hbytes, hrest⟩ := Json.exists_mark_of_detect hutf8
  rw [hdecode] at hrest
  obtain rfl := Utf8.decode_eq_ok_iff.mp hrest.symm
  -- the cut goes through the mark, or ends it, or goes through the text
  rcases List.append_eq_append_iff.mp hbytes with ⟨more, hkept, -⟩ | ⟨start, rfl, hstart⟩
  · exact layers_of_mark hmark hkept
  cases start with
  | nil =>
    rw [List.append_nil]
    exact layers_of_mark hmark (List.append_nil mark).symm
  | cons b bs =>
    refine layers_of_isNoObject ?_
    intro left hleft
    exact Json.isNoObject_of_cut_bytes hmark hread hstart hcut hleft

/-- A mark, an object with an object in it, and half of a letter of the next name. -/
def halfLetter : Bytes :=
  Json.utf8Mark ++ Utf8.encodeAll (Text.ofString "\x7b\"a\":\x7b\x7d,\"") ++ [0xC3]

/-- The other half, and the rest of the object. -/
def otherHalf : Bytes := 0xA9 :: Utf8.encodeAll (Text.ofString "\":[]\x7d\n")

theorem layers_of_cut_halfLetter :
    layers (halfLetter ++ otherHalf) = .ok [] ∧
      ∃ e, layers halfLetter = .error e ∧ e.kind? = some .parse :=
  ⟨rfl, layers_of_cut rfl rfl (by decide : 0x7D ∈ otherHalf)⟩

end Manifest

end LegacyImage
