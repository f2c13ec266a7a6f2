import LegacyImage.Proofs.Double.Writing
import LegacyImage.Proofs.Json.Detection
import LegacyImage.Proofs.Json.Reordering

/-!
The canonical text of a value is a writing of it, with the members of every object in the order of
their names (`written_canonicalText`). So it is read again as the value in this order
(`read_canonicalText`), and two values with the same canonical text differ in the order of members
only.
-/

namespace LegacyImage.Json

/-! ## Strings -/

theorem hexFrom_ofHexFixed :
    ∀ n : Fin 0x20, hexFrom 0 (Text.ofHexFixed 4 n.val) = some n.val := by decide

/-- A code point is escaped by its letter, by its number, or not at all. -/
theorem escapeOne_cases (c : CodePoint) :
    (∃ l, (l, c) ∈ shortEscapes ∧ escapeOne c = [↑ '\\', l]) ∨
      (c.val < 0x20 ∧ escapeOne c = ↑ '\\' :: ↑ 'u' :: Text.ofHexFixed 4 c.val) ∨
      (c ≠ ↑ '"' ∧ c ≠ ↑ '\\' ∧ ¬ c.val < 0x20 ∧ escapeOne c = [c]) := by
  unfold escapeOne
  iterate 7
    split
    · rename_i h
      refine .inl ⟨_, ?_, rfl⟩
      rw [h]
      decide
  rename_i hquote hslash _ _ _ _ _
  split
  · exact .inr (.inl ⟨‹_›, rfl⟩)
  · exact .inr (.inr ⟨hquote, hslash, ‹_›, rfl⟩)

/-- What a code point is escaped to is the writing of a piece with this code point, and with no half
of a pair if it is written as a number. -/
theorem exists_piece_escapeOne (c : CodePoint) : ∃ p, WrittenPiece p (escapeOne c) ∧
    p.codePoint = c ∧ (p.escaped = true → p.codePoint.isHighSurrogate = false) := by
  rcases escapeOne_cases c with ⟨l, hl, htext⟩ | ⟨hcontrol, htext⟩ | ⟨hquote, hslash, hcontrol, htext⟩
  · rw [htext]
    exact ⟨⟨c, false⟩, .letter hl, rfl, nofun⟩
  · rw [htext]
    have hnumber : Fin.ofNat 0x110000 c.val = c := Fin.ext (Nat.mod_eq_of_lt c.isLt)
    refine ⟨⟨Fin.ofNat 0x110000 c.val, true⟩, .number (by simp [Text.ofHexFixed])
      (hexFrom_ofHexFixed ⟨c.val, hcontrol⟩), hnumber, ?_⟩
    intro _
    simp only [hnumber, CodePoint.isHighSurrogate, Bool.and_eq_false_iff, decide_eq_false_iff_not]
    omega
  · rw [htext]
    exact ⟨⟨c, false⟩, .plain hquote hslash hcontrol, rfl, nofun⟩

theorem exists_pieces_escaped (s : Text) :
    ∃ ps, WrittenPieces ps (s.flatMap escapeOne) ∧ Piece.joined ps = s := by
  induction s with
  | nil => exact ⟨[], .nil, rfl⟩
  | cons c rest ih =>
    obtain ⟨p, hp, hcode, hpair⟩ := exists_piece_escapeOne c
    obtain ⟨ps, hps, hjoined⟩ := ih
    exact ⟨p :: ps, .cons hp hps, by rw [Piece.joined_cons hpair, hcode, hjoined]⟩

theorem written_escaped (s : Text) : Written (.value (.str s)) (escaped s) := by
  obtain ⟨ps, hps, hjoined⟩ := exists_pieces_escaped s
  exact written_str hps hjoined

theorem written_escaped_member (name : Text) {v : Json} {t : Text} (h : Written (.value v) t) :
    Written (.member name v) (escaped name ++ ↑ ':' :: t) := by
  obtain ⟨ps, hps, hjoined⟩ := exists_pieces_escaped name
  have hmember := written_member hps hjoined isBlank_nil isBlank_nil h
  simpa [escaped, Text.ofChars] using hmember

/-! ## Lists and objects -/

theorem commaSeparated_cons (t : Text) {ts : List Text} (h : ts ≠ []) :
    commaSeparated (t :: ts) = t ++ ↑ ',' :: commaSeparated ts := by
  cases ts with
  | nil => exact absurd rfl h
  | cons u us => rfl

theorem written_items {vs : List Json} (hne : vs ≠ [])
    (h : ∀ v ∈ vs, Written (.value v.sorted) v.canonicalText) :
    Written (.items (vs.map sorted)) (commaSeparated (vs.map canonicalText)) := by
  induction vs with
  | nil => exact absurd rfl hne
  | cons v rest ih =>
    obtain ⟨hv, hrest⟩ := List.forall_mem_cons.mp h
    by_cases hlast : rest = []
    · rw [hlast]
      simpa [commaSeparated] using Written.lastItem isBlank_nil hv isBlank_nil
    · have hnext : rest.map canonicalText ≠ [] := by simpa using hlast
      rw [List.map_cons, List.map_cons, commaSeparated_cons _ hnext]
      exact .nextItem isBlank_nil hv isBlank_nil (ih hlast hrest)

theorem written_members {ms : List (Text × Json)} (hne : ms ≠ [])
    (h : ∀ m ∈ ms, Written (.value m.2.sorted) m.2.canonicalText) :
    Written (.members (ms.map fun m => (m.1, m.2.sorted)))
      (commaSeparated (ms.map fun m => escaped m.1 ++ ↑ ':' :: m.2.canonicalText)) := by
  induction ms with
  | nil => exact absurd rfl hne
  | cons m rest ih =>
    obtain ⟨hm, hrest⟩ := List.forall_mem_cons.mp h
    have hmember := written_escaped_member m.1 hm
    by_cases hlast : rest = []
    · rw [hlast]
      simpa [commaSeparated] using Written.lastMember isBlank_nil hmember isBlank_nil
    · have hnext : (rest.map fun m => escaped m.1 ++ ↑ ':' :: m.2.canonicalText) ≠ [] := by
        simpa using hlast
      rw [List.map_cons, List.map_cons, commaSeparated_cons _ hnext]
      exact .nextMember isBlank_nil hmember isBlank_nil (ih hlast hrest)

theorem mem_keywords_null : (['n', 'u', 'l', 'l'], null) ∈ keywords := List.mem_cons_self

theorem exists_keyword_of_bool (b : Bool) :
    ∃ word, (word, bool b) ∈ keywords ∧ (bool b).canonicalText = Text.ofChars word := by
  cases b with
  | false => exact ⟨['f', 'a', 'l', 's', 'e'], by simp [keywords], rfl⟩
  | true => exact ⟨['t', 'r', 'u', 'e'], by simp [keywords], rfl⟩

theorem exists_numeral_of_int (n : Int) :
    ∃ m : Numeral, m.text = Text.ofInt n ∧ m.value = int n := by
  refine ⟨⟨decide (n < 0), n.natAbs, [], none, nofun⟩, ?_, ?_⟩
  · by_cases h : n < 0 <;> simp [Numeral.text, Text.ofInt, minusText, fractionText, exponentText, h]
  · have hvalue : (if decide (n < 0) = true then -(n.natAbs : Int) else n.natAbs) = n := by
      by_cases h : n < 0
      · rw [if_pos (decide_eq_true h)]
        omega
      · rw [if_neg (by simpa using h)]
        omega
    exact congrArg int hvalue

/-- The canonical text is a writing of the value with its members in order. -/
theorem written_canonicalText {v : Json} (h : v.isFinite = true) :
    Written (.value v.sorted) v.canonicalText := by
  induction v using inductionOn with
  | null => exact .keyword mem_keywords_null
  | bool b =>
    obtain ⟨word, hword, htext⟩ := exists_keyword_of_bool b
    rw [htext]
    exact .keyword hword
  | int n =>
    obtain ⟨m, htext, hvalue⟩ := exists_numeral_of_int n
    have hnumber := Written.number m
    rw [htext, hvalue] at hnumber
    exact hnumber
  | float x =>
    obtain ⟨m, htext, hvalue⟩ := Double.exists_numeral_of_isFinite h
    have hnumber := Written.number m
    rw [htext, hvalue] at hnumber
    exact hnumber
  | str s => exact written_escaped s
  | array vs ih =>
    rw [isFinite, isFiniteItems_iff] at h
    rw [sorted_array, canonicalText, canonicalItems_eq]
    by_cases hnone : vs = []
    · rw [hnone]
      exact .noItems isBlank_nil
    · exact .array (written_items hnone fun v hv => ih v hv (h v hv))
  | object ms ih =>
    rw [isFinite, isFiniteMembers_iff] at h
    rw [sorted_object, canonicalText, canonicalMembers_eq, sortByName_map, sortByName_map,
      List.map_map]
    by_cases hnone : sortByName ms = []
    · rw [hnone]
      exact .noMembers isBlank_nil
    · refine .object (written_members hnone ?_)
      intro m hm
      have hm := (perm_sortByName ms).mem_iff.mp hm
      exact ih m hm (h m hm)

/-! ## Texts that can be encoded -/

/-- A string without surrogates, or an object without them in its names. -/
def HasEncodableTexts : Json → Prop
  | str s => s.IsEncodable
  | object ms => ∀ m ∈ ms, m.1.IsEncodable
  | _ => True

theorem isEncodable_escaped {s : Text} (h : s.IsEncodable) : (escaped s).IsEncodable := by
  have hquote : Text.IsEncodable [↑ '"'] := List.forall_mem_singleton.mpr rfl
  refine List.forall_mem_cons.mpr ⟨rfl, List.forall_mem_append.mpr ⟨?_, hquote⟩⟩
  intro c hc
  obtain ⟨d, hd, hc⟩ := List.mem_flatMap.mp hc
  obtain ⟨p, hp, hcode, -⟩ := exists_piece_escapeOne d
  rcases mem_of_writtenPiece hp c hc with hascii | ⟨hplain, -⟩
  · exact Text.isEncodable_of_isAscii (List.forall_mem_singleton.mpr hascii) c
      (List.mem_singleton.mpr rfl)
  · rw [hplain, hcode]
    exact h d hd

theorem isEncodable_commaSeparated {ts : List Text} (h : ∀ t ∈ ts, t.IsEncodable) :
    (commaSeparated ts).IsEncodable := by
  induction ts with
  | nil => exact nofun
  | cons t rest ih =>
    obtain ⟨ht, hrest⟩ := List.forall_mem_cons.mp h
    by_cases hlast : rest = []
    · rw [hlast]
      exact ht
    · rw [commaSeparated_cons t hlast]
      exact List.forall_mem_append.mpr ⟨ht, List.forall_mem_cons.mpr ⟨rfl, ih hrest⟩⟩

theorem isEncodable_enclosed {opening closing : CodePoint} (ho : opening.isSurrogate = false)
    (hc : closing.isSurrogate = false) {t : Text} (h : t.IsEncodable) :
    (enclosed opening t closing).IsEncodable :=
  List.forall_mem_cons.mpr ⟨ho, List.forall_mem_append.mpr ⟨h, List.forall_mem_singleton.mpr hc⟩⟩

/-- Surrogates come into a canonical text from the texts of the value only. -/
theorem isEncodable_canonicalText {v : Json} (hfinite : v.isFinite = true)
    (h : v.Each HasEncodableTexts) : v.canonicalText.IsEncodable := by
  induction v using inductionOn with
  | null =>
    exact Text.isEncodable_of_isAscii (isAscii_of_mem_keywords mem_keywords_null)
  | bool b =>
    obtain ⟨word, hword, htext⟩ := exists_keyword_of_bool b
    rw [htext]
    exact Text.isEncodable_of_isAscii (isAscii_of_mem_keywords hword)
  | int n =>
    obtain ⟨m, htext, -⟩ := exists_numeral_of_int n
    rw [canonicalText, ← htext]
    exact Text.isEncodable_of_isAscii m.isAscii_text
  | float x =>
    obtain ⟨m, htext, -⟩ := Double.exists_numeral_of_isFinite hfinite
    rw [canonicalText, ← htext]
    exact Text.isEncodable_of_isAscii m.isAscii_text
  | str s => exact isEncodable_escaped h.self
  | array vs ih =>
    rw [isFinite, isFiniteItems_iff] at hfinite
    rw [canonicalText, canonicalItems_eq]
    refine isEncodable_enclosed rfl rfl (isEncodable_commaSeparated ?_)
    exact List.forall_mem_map.mpr fun v hv => ih v hv (hfinite v hv) ((each_array.mp h).2 v hv)
  | object ms ih =>
    rw [isFinite, isFiniteMembers_iff] at hfinite
    obtain ⟨hnames, hvalues⟩ := each_object.mp h
    rw [canonicalText, canonicalMembers_eq, sortByName_map, List.map_map]
    refine isEncodable_enclosed rfl rfl (isEncodable_commaSeparated (List.forall_mem_map.mpr ?_))
    intro m hm
    have hm := sortByName_subset ms hm
    exact List.forall_mem_append.mpr ⟨isEncodable_escaped (hnames m hm),
      List.forall_mem_cons.mpr ⟨rfl, ih m hm (hfinite m hm) (hvalues m hm)⟩⟩

/-! ## Reading again -/

/-- A value without names that come twice is what comes of setting its members. -/
theorem merged_of_each {v : Json} (h : v.Each HasDistinctNames) : v.merged = v := by
  induction v using inductionOn with
  | array vs ih =>
    have hitems := (each_array.mp h).2
    rw [merged_array, List.map_congr_left fun v hv => ih v hv (hitems v hv), List.map_id']
  | object ms ih =>
    obtain ⟨hnames, hmembers⟩ := each_object.mp h
    have hsame : ∀ m ∈ ms, (m.1, m.2.merged) = m := fun m hm =>
      Prod.ext rfl (ih m hm (hmembers m hm))
    rw [merged_object, mergedMembers, List.map_congr_left hsame, List.map_id',
      Table.ofEntries_of_nodup hnames]
  | _ => rfl

/-- The canonical text of a value is read as the value with its members in order. -/
theorem read_canonicalText {v : Json} (hfinite : v.isFinite = true) (hfits : v.Fits maxDepth)
    (hdistinct : v.Each HasDistinctNames) :
    read (Utf8.encodeAll v.canonicalText) = .ok v.sorted := by
  have hread := read_of_written (.inl rfl) isBlank_nil isBlank_nil (written_canonicalText hfinite)
    (hfits.rebuild sortByName_subset)
  have hsorted := each_hasDistinctNames_of_reordered (reordered_sorted v) hdistinct
  rw [merged_of_each hsorted] at hread
  simpa using hread

theorem each_hasDistinctNames_merged (v : Json) : v.merged.Each HasDistinctNames := by
  have htrivial : v.Each fun _ => True := fun _ _ => trivial
  refine each_rebuild Table.ofEntries_subset ?_ ?_ ?_ htrivial
  · intro v hv _
    cases v with
    | array vs => cases hv
    | object ms => cases hv
    | _ => trivial
  · exact fun _ => trivial
  · exact fun _ ns _ _ => Table.nodup_keys_ofEntries ns

/-- What is read is within the limits, and no name comes twice in it. -/
theorem fits_of_read {bs : Bytes} {v : Json} (h : read bs = .ok v) :
    v.Fits maxDepth ∧ v.Each HasDistinctNames := by
  unfold read at h
  split at h
  · cases h
  split at h
  · rename_i w hw
    cases h
    obtain ⟨_, _, _, -, -, -, raw, -, hfits, rfl⟩ := ofText_eq_ok_iff.mp hw
    exact ⟨hfits.rebuild Table.ofEntries_subset, each_hasDistinctNames_merged raw⟩
  · cases h
  · cases h

end LegacyImage.Json
