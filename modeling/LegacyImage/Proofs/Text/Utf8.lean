import LegacyImage.Text.Utf8

/-!
Decoding undone. Whatever bytes the decoder takes are the encoding of what it answers
(`decode_eq_ok_iff`), and bytes are cut between two code points if what stands before the cut is
decoded by itself (`exists_of_encodeAll_append`).
-/

namespace LegacyImage

/-- An ASCII character other than the null. -/
def CodePoint.IsAscii (c : CodePoint) : Prop := 0 < c.val ∧ c.val < 0x80

instance (c : CodePoint) : Decidable c.IsAscii := inferInstanceAs (Decidable (_ ∧ _))

/-- A text without surrogates, which has a UTF-8 form. -/
def Text.IsEncodable (t : Text) : Prop := ∀ c ∈ t, c.isSurrogate = false

/-- Whether these are the first surrogates of a text: the one at this place, before which there is none,
and those right after it, up to a code point that is none. -/
def Text.IsFirstRun (t : Text) (position : Nat) (run : Text) : Prop :=
  ∃ before after : Text, t = before ++ run ++ after ∧ before.length = position ∧
    before.IsEncodable ∧ run ≠ [] ∧ (∀ c ∈ run, c.isSurrogate = true) ∧
    ∀ c ∈ after.head?, c.isSurrogate = false

theorem Text.isEncodable_of_isAscii {t : Text} (h : ∀ c ∈ t, c.IsAscii) : t.IsEncodable := by
  intro c hc
  have hascii := (h c hc).2
  simp only [CodePoint.isSurrogate, Bool.and_eq_false_iff, decide_eq_false_iff_not]
  omega

namespace Utf8

/-! ## One code point -/

theorem val_codePoint {n : Nat} (h : n < 0x110000) : (codePoint n).val = n := Nat.mod_eq_of_lt h

theorem ofNat_eq {n : Nat} {b : UInt8} (h : n = b.toNat) : UInt8.ofNat n = b := by
  rw [h, UInt8.ofNat_toNat]

theorem isContinuation_iff {b : UInt8} :
    isContinuation b = true ↔ 0x80 ≤ b.toNat ∧ b.toNat < 0xC0 := by
  simp only [isContinuation, Bool.and_eq_true, decide_eq_true_eq, UInt8.le_iff_toNat_le,
    UInt8.lt_iff_toNat_lt, UInt8.reduceToNat]

section

variable {surrogates : Bool} {b0 : UInt8} {rest : Bytes} {c : CodePoint} {count : Nat}

/-- What a sequence of `count` bytes after the first one leaves: the bytes of its code point first,
and anything after them. -/
def IsTaken (b0 : UInt8) (rest : Bytes) (c : CodePoint) (count : Nat) : Prop :=
  ∃ follow more, rest = follow ++ more ∧ follow.length = count ∧ encodeOne c = b0 :: follow

theorem isTaken_of_one (hb : b0.toNat < 0x80) : IsTaken b0 rest (codePoint b0.toNat) 0 := by
  refine ⟨[], rest, rfl, rfl, ?_⟩
  have hn := val_codePoint (show b0.toNat < 0x110000 by omega)
  unfold encodeOne
  dsimp only
  rw [hn, if_pos hb, UInt8.ofNat_toNat]

theorem isTaken_of_two (hlow : 0xC2 ≤ b0.toNat) (hhigh : b0.toNat < 0xE0)
    (h : two b0 rest = .ok (c, count)) : IsTaken b0 rest c count := by
  unfold two at h
  split at h
  · cases h
  rename_i b1 more
  split at h
  · rename_i h1
    cases h
    rw [isContinuation_iff] at h1
    have hn := val_codePoint (show extend (b0.toNat % 32) b1 < 0x110000 by rw [extend]; omega)
    refine ⟨[b1], more, rfl, rfl, ?_⟩
    unfold encodeOne
    dsimp only
    rw [hn, extend, if_neg (by omega), if_pos (by omega), ofNat_eq (b := b0) (by omega),
      ofNat_eq (b := b1) (by omega)]
  · cases h

theorem isTaken_of_three (hlow : 0xE0 ≤ b0.toNat) (hhigh : b0.toNat < 0xF0)
    (h : three surrogates b0 rest = .ok (c, count)) : IsTaken b0 rest c count := by
  unfold three at h
  split at h
  · cases h
  rename_i b1 more
  split at h
  · cases h
  rename_i hsecond
  split at h
  · split at h <;> cases h
  rename_i b2 more
  split at h
  · rename_i h2
    cases h
    rw [isContinuation_iff] at h2
    simp only [Bool.or_eq_true, not_or, Bool.not_eq_true', Bool.not_eq_false, isSecondOfThree,
      Bool.and_eq_true, isContinuation_iff, bne_iff_ne, ne_eq, ← UInt8.toNat_inj,
      decide_eq_true_eq, UInt8.le_iff_toNat_le, UInt8.reduceToNat] at hsecond
    have hn := val_codePoint
      (show extend (extend (b0.toNat % 16) b1) b2 < 0x110000 by rw [extend, extend]; omega)
    refine ⟨[b1, b2], more, rfl, rfl, ?_⟩
    unfold encodeOne
    dsimp only
    rw [hn, extend, extend, if_neg (by omega), if_neg (by omega), if_pos (by omega),
      ofNat_eq (b := b0) (by omega), ofNat_eq (b := b1) (by omega), ofNat_eq (b := b2) (by omega)]
  · split at h <;> cases h

theorem isTaken_of_four (hlow : 0xF0 ≤ b0.toNat) (hhigh : b0.toNat < 0xF5)
    (h : four b0 rest = .ok (c, count)) : IsTaken b0 rest c count := by
  unfold four at h
  split at h
  · cases h
  rename_i b1 more
  split at h
  · cases h
  rename_i hsecond
  split at h
  · cases h
  rename_i b2 more
  split at h
  · cases h
  rename_i h2
  split at h
  · cases h
  rename_i b3 more
  split at h
  · rename_i h3
    cases h
    rw [Bool.not_eq_true', Bool.not_eq_false, isContinuation_iff] at h2
    rw [isContinuation_iff] at h3
    simp only [Bool.not_eq_true', Bool.not_eq_false, isSecondOfFour, Bool.and_eq_true,
      Bool.or_eq_true, isContinuation_iff, bne_iff_ne, ne_eq, ← UInt8.toNat_inj,
      decide_eq_true_eq, UInt8.le_iff_toNat_le, UInt8.lt_iff_toNat_lt,
      UInt8.reduceToNat] at hsecond
    have hn := val_codePoint (show extend (extend (extend (b0.toNat % 8) b1) b2) b3 < 0x110000 by
      rw [extend, extend, extend]
      omega)
    refine ⟨[b1, b2, b3], more, rfl, rfl, ?_⟩
    unfold encodeOne
    dsimp only
    rw [hn, extend, extend, extend, if_neg (by omega), if_neg (by omega), if_neg (by omega),
      ofNat_eq (b := b0) (by omega), ofNat_eq (b := b1) (by omega), ofNat_eq (b := b2) (by omega),
      ofNat_eq (b := b3) (by omega)]
  · cases h

/-- A sequence that is taken is the encoding of its code point. -/
theorem isTaken_of_sequence (h : sequence surrogates b0 rest = .ok (c, count)) :
    IsTaken b0 rest c count := by
  unfold sequence at h
  simp only [UInt8.lt_iff_toNat_lt, UInt8.reduceToNat] at h
  split at h
  · cases h
    exact isTaken_of_one ‹_›
  split at h
  · cases h
  split at h
  · exact isTaken_of_two (by omega) ‹_› h
  split at h
  · exact isTaken_of_three (by omega) ‹_› h
  split at h
  · exact isTaken_of_four (by omega) ‹_› h
  · cases h

end

/-! ## Texts -/

theorem encodeAll_cons (c : CodePoint) (t : Text) : encodeAll (c :: t) = encodeOne c ++ encodeAll t :=
  List.flatMap_cons

/-- What is decoded after some bytes of the last sequence is the encoding of what was added. -/
theorem encodeAll_of_decodeFrom {surrogates : Bool} {position skip : Nat} {done t : Text} {bs : Bytes}
    (hskip : skip ≤ bs.length) (h : decodeFrom surrogates position done skip bs = .ok t) :
    ∃ u, t = done.reverse ++ u ∧ encodeAll u = bs.drop skip := by
  -- on the bytes; the first `skip` of them went into the code point on top of `done`
  induction bs generalizing position skip done with
  | nil =>
    cases h
    exact ⟨[], by rw [List.append_nil], by rw [List.drop_nil]; rfl⟩
  | cons b rest ih =>
    cases skip with
    | succ skip =>
      rw [decodeFrom] at h
      exact ih (Nat.le_of_succ_le_succ hskip) h
    | zero =>
      rw [decodeFrom] at h
      split at h
      · rename_i c count hsequence
        obtain ⟨follow, more, rfl, rfl, hone⟩ := isTaken_of_sequence hsequence
        obtain ⟨u, rfl, hu⟩ := ih (by rw [List.length_append]; omega) h
        rw [List.drop_left] at hu
        refine ⟨c :: u, by simp, ?_⟩
        rw [encodeAll_cons, hone, hu]
        rfl
      · cases h

/-- With surrogates allowed, exactly the encoding of a text is decoded to it. -/
theorem decode_eq_ok_iff {bs : Bytes} {t : Text} : decode true bs = .ok t ↔ encodeAll t = bs := by
  constructor
  · intro h
    obtain ⟨u, rfl, hu⟩ := encodeAll_of_decodeFrom (Nat.zero_le _) h
    exact hu
  · rintro rfl
    exact decode_encodeAll true t (.inl rfl)

theorem decodeFrom_encodeAll_append (position : Nat) (done t : Text) (rest : Bytes) :
    decodeFrom true position done 0 (encodeAll t ++ rest) =
      decodeFrom true (position + (encodeAll t).length) (t.reverse ++ done) 0 rest := by
  induction t generalizing position done with
  | nil => rfl
  | cons c t ih =>
    rw [encodeAll_cons, List.append_assoc, decodeFrom_encodeOne true _ _ _ _ (.inl rfl), ih,
      List.length_append, Nat.add_assoc, List.reverse_cons, List.append_assoc,
      List.singleton_append]

/-- If the bytes of a text begin with the bytes of another one, the text begins with it. -/
theorem exists_of_encodeAll_append {t u : Text} {rest : Bytes}
    (h : encodeAll t = encodeAll u ++ rest) : ∃ w, t = u ++ w ∧ encodeAll w = rest := by
  have hdecode := decode_eq_ok_iff.mpr h
  rw [decode, decodeFrom_encodeAll_append] at hdecode
  obtain ⟨w, rfl, hw⟩ := encodeAll_of_decodeFrom (Nat.zero_le _) hdecode
  exact ⟨w, by simp, hw⟩

/-- A byte below 0x80 is a code point of its own. -/
theorem val_of_mem_encodeOne {c : CodePoint} {b : UInt8} (h : b ∈ encodeOne c)
    (hb : b.toNat < 0x80) : c.val = b.toNat := by
  have hc := c.isLt
  unfold encodeOne at h
  dsimp only at h
  split at h
  · rw [List.mem_singleton] at h
    rw [h, UInt8.toNat_ofNat']
    omega
  repeat'
    split at h
  all_goals
    simp only [List.mem_cons, List.not_mem_nil, or_false] at h
    rcases h with rfl | rfl | rfl | rfl <;> rw [UInt8.toNat_ofNat'] at hb <;> omega

theorem exists_of_mem_encodeAll {t : Text} {b : UInt8} (h : b ∈ encodeAll t) (hb : b.toNat < 0x80) :
    ∃ c ∈ t, c.val = b.toNat := by
  obtain ⟨c, hc, hmem⟩ := List.mem_flatMap.mp h
  exact ⟨c, hc, val_of_mem_encodeOne hmem hb⟩

/-! ## Texts with surrogates -/

/-- A text with surrogates is refused with the first of them. -/
theorem exists_of_not_isEncodable {t : Text} (h : ¬ t.IsEncodable) :
    ∃ position run, t.IsFirstRun position run ∧ encode t = .error ⟨position, run⟩ := by
  generalize hbefore : t.takeWhile (!·.isSurrogate) = before
  generalize hbeyond : t.dropWhile (!·.isSurrogate) = beyond
  have hwhole : before ++ beyond = t := by
    rw [← hbefore, ← hbeyond]
    exact List.takeWhile_append_dropWhile
  have hsplit : beyond.takeWhile (·.isSurrogate) ++ beyond.dropWhile (·.isSurrogate) = beyond :=
    List.takeWhile_append_dropWhile
  have hencodable : Text.IsEncodable before := by
    intro c hc
    rw [← hbefore] at hc
    simpa using List.all_eq_true.mp List.all_takeWhile c hc
  obtain ⟨first, rest, rfl⟩ : ∃ first rest, beyond = first :: rest := by
    refine List.exists_cons_of_ne_nil ?_
    rintro rfl
    exact h ((dropWhile_surrogates_eq_nil_iff t).mp hbeyond)
  have hfirst : first.isSurrogate = true := by
    have hnot := List.head?_dropWhile_not (fun c : CodePoint => !c.isSurrogate) t
    rw [hbeyond] at hnot
    simpa using hnot
  refine ⟨before.length, (first :: rest).takeWhile (·.isSurrogate),
    ⟨before, (first :: rest).dropWhile (·.isSurrogate), ?_, rfl, hencodable, ?_, ?_, ?_⟩, ?_⟩
  · rw [List.append_assoc, hsplit, hwhole]
  · rw [List.takeWhile_cons_of_pos hfirst]
    exact List.cons_ne_nil _ _
  · exact fun c hc => List.all_eq_true.mp List.all_takeWhile c hc
  · intro c hc
    have hnot := List.head?_dropWhile_not (fun c : CodePoint => c.isSurrogate) (first :: rest)
    rw [Option.mem_def.mp hc] at hnot
    exact hnot
  · have hlength : t.length - (first :: rest).length = before.length := by
      rw [← hwhole, List.length_append, Nat.add_sub_cancel]
    unfold encode
    rw [hbeyond]
    dsimp only
    rw [hlength]

end Utf8

end LegacyImage
