import LegacyImage.Text.Encoding

/-!
UTF-8. The decoder reports the longest start of a sequence that could have become valid. It takes
encoded surrogates only if asked to; the encoder refuses them and names the first run. What was
encoded is decoded again (`decode_encodeAll`).
-/

namespace LegacyImage.Utf8

def isContinuation (b : UInt8) : Bool := 0x80 ≤ b && b < 0xC0

/-- The six bits that a following byte adds to a number. -/
def extend (n : Nat) (b : UInt8) : Nat := 64 * n + b.toNat % 64

/-- Whether the second byte of a sequence of three completes no shorter sequence. -/
def isSecondOfThree (first second : UInt8) : Bool :=
  isContinuation second && (first != 0xE0 || 0xA0 ≤ second)

def beginsSurrogate (first second : UInt8) : Bool :=
  first == 0xED && 0xA0 ≤ second

/-- Whether the second byte of a sequence of four stays within the code space, and completes no
shorter sequence. -/
def isSecondOfFour (first second : UInt8) : Bool :=
  isContinuation second && (first != 0xF0 || 0x90 ≤ second) && (first != 0xF4 || second < 0x90)

/-- A number known to be small as a code point. -/
def codePoint (n : Nat) : CodePoint := Fin.ofNat 0x110000 n

/-- What the start of some bytes spells: a code point and how many bytes follow its first one, or
the bytes at fault and why. -/
abbrev Sequence := Except (Bytes × DecodeReason) (CodePoint × Nat)

def two (b0 : UInt8) : Bytes → Sequence
  | [] => .error ([b0], .unexpectedEnd)
  | b1 :: _ =>
    if isContinuation b1 then .ok (codePoint (extend (b0.toNat % 32) b1), 1)
    else .error ([b0], .invalidContinuation)

/-- A sequence of three, after its first byte. An encoded surrogate that is not complete is at fault
from its second byte on. -/
def three (surrogates : Bool) (b0 : UInt8) : Bytes → Sequence
  | [] => .error ([b0], .unexpectedEnd)
  | b1 :: rest =>
    if !isSecondOfThree b0 b1 || beginsSurrogate b0 b1 && !surrogates then
      .error ([b0], .invalidContinuation)
    else match rest with
      | [] =>
        if beginsSurrogate b0 b1 then .error ([b0], .invalidContinuation)
        else .error ([b0, b1], .unexpectedEnd)
      | b2 :: _ =>
        if isContinuation b2 then .ok (codePoint (extend (extend (b0.toNat % 16) b1) b2), 2)
        else if beginsSurrogate b0 b1 then .error ([b0], .invalidContinuation)
        else .error ([b0, b1], .invalidContinuation)

def four (b0 : UInt8) : Bytes → Sequence
  | [] => .error ([b0], .unexpectedEnd)
  | b1 :: rest =>
    if !isSecondOfFour b0 b1 then .error ([b0], .invalidContinuation)
    else match rest with
      | [] => .error ([b0, b1], .unexpectedEnd)
      | b2 :: rest =>
        if !isContinuation b2 then .error ([b0, b1], .invalidContinuation)
        else match rest with
          | [] => .error ([b0, b1, b2], .unexpectedEnd)
          | b3 :: _ =>
            if isContinuation b3 then
              .ok (codePoint (extend (extend (extend (b0.toNat % 8) b1) b2) b3), 3)
            else .error ([b0, b1, b2], .invalidContinuation)

def sequence (surrogates : Bool) (b0 : UInt8) (rest : Bytes) : Sequence :=
  if b0 < 0x80 then .ok (codePoint b0.toNat, 0)
  else if b0 < 0xC2 then .error ([b0], .invalidStart)
  else if b0 < 0xE0 then two b0 rest
  else if b0 < 0xF0 then three surrogates b0 rest
  else if b0 < 0xF5 then four b0 rest
  else .error ([b0], .invalidStart)

/-- Decodes what follows `position` bytes, whose code points are `done`, the last one first. The
first `skip` bytes belong to the last of these. -/
def decodeFrom (surrogates : Bool) :
    (position : Nat) → (done : Text) → (skip : Nat) → Bytes → Except DecodeError Text
  | _, done, _, [] => .ok done.reverse
  | position, done, skip + 1, _ :: rest => decodeFrom surrogates (position + 1) done skip rest
  | position, done, 0, b :: rest =>
    match sequence surrogates b rest with
    | .ok (c, count) => decodeFrom surrogates (position + 1) (c :: done) count rest
    | .error (bytes, reason) => .error ⟨.utf8, position, bytes, reason⟩

/-- The text of some bytes, which may hold encoded surrogates if `surrogates` is set. -/
def decode (surrogates : Bool) (bs : Bytes) : Except DecodeError Text :=
  decodeFrom surrogates 0 [] 0 bs

/-- The bytes of one code point; a surrogate is written by the same rule as its neighbours. -/
def encodeOne (c : CodePoint) : Bytes :=
  let n := c.val
  let follow (shift : Nat) : UInt8 := UInt8.ofNat (0x80 + n / 2 ^ shift % 64)
  if n < 0x80 then [UInt8.ofNat n]
  else if n < 0x800 then [UInt8.ofNat (0xC0 + n / 2 ^ 6), follow 0]
  else if n < 0x10000 then [UInt8.ofNat (0xE0 + n / 2 ^ 12), follow 6, follow 0]
  else [UInt8.ofNat (0xF0 + n / 2 ^ 18), follow 12, follow 6, follow 0]

def encodeAll (t : Text) : Bytes := t.flatMap encodeOne

/-! ## Decoding what was encoded -/

theorem codePoint_val (c : CodePoint) : codePoint c.val = c := Fin.ext (Nat.mod_eq_of_lt c.isLt)

theorem toNat_ofNat_add {base n : Nat} (h : base + n < 256) :
    (UInt8.ofNat (base + n)).toNat = base + n := by
  rw [UInt8.toNat_ofNat', Nat.mod_eq_of_lt h]

theorem toNat_follow (n : Nat) : (UInt8.ofNat (0x80 + n % 64)).toNat = 0x80 + n % 64 :=
  toNat_ofNat_add (by omega)

theorem isContinuation_follow (n : Nat) : isContinuation (UInt8.ofNat (0x80 + n % 64)) = true := by
  simp only [isContinuation, Bool.and_eq_true, decide_eq_true_eq, UInt8.le_iff_toNat_le,
    UInt8.lt_iff_toNat_lt, toNat_follow, UInt8.reduceToNat]
  omega

theorem extend_follow (m n : Nat) : extend m (UInt8.ofNat (0x80 + n % 64)) = 64 * m + n % 64 := by
  rw [extend, toNat_follow]
  omega

theorem sequence_one (surrogates : Bool) (n : Nat) (rest : Bytes) (h : n < 0x80) :
    sequence surrogates (UInt8.ofNat n) rest = .ok (codePoint n, 0) := by
  have e : (UInt8.ofNat n).toNat = n := by rw [UInt8.toNat_ofNat']; omega
  rw [sequence, if_pos (by rw [UInt8.lt_iff_toNat_lt, e]; exact h), e]

theorem sequence_two (surrogates : Bool) (n : Nat) (rest : Bytes) (h₁ : 0x80 ≤ n) (h₂ : n < 0x800) :
    sequence surrogates (UInt8.ofNat (0xC0 + n / 2 ^ 6))
      (UInt8.ofNat (0x80 + n / 2 ^ 0 % 64) :: rest) = .ok (codePoint n, 1) := by
  have e : (UInt8.ofNat (0xC0 + n / 2 ^ 6)).toNat = 0xC0 + n / 2 ^ 6 := toNat_ofNat_add (by omega)
  rw [sequence, if_neg, if_neg, if_pos, two, if_pos (isContinuation_follow _), extend_follow, e]
  · congr 3
    omega
  all_goals
    simp only [UInt8.lt_iff_toNat_lt, e, UInt8.reduceToNat]
    omega

theorem beginsSurrogate_iff {n : Nat} (h : n < 0x10000) :
    beginsSurrogate (UInt8.ofNat (0xE0 + n / 2 ^ 12)) (UInt8.ofNat (0x80 + n / 2 ^ 6 % 64)) = true ↔
      0xD800 ≤ n ∧ n < 0xE000 := by
  have e : (UInt8.ofNat (0xE0 + n / 2 ^ 12)).toNat = 0xE0 + n / 2 ^ 12 :=
    toNat_ofNat_add (by omega)
  simp only [beginsSurrogate, Bool.and_eq_true, beq_iff_eq, decide_eq_true_eq, ← UInt8.toNat_inj,
    UInt8.le_iff_toNat_le, e, toNat_follow, UInt8.reduceToNat]
  omega

theorem isSecondOfThree_follow {n : Nat} (h₁ : 0x800 ≤ n) (h₂ : n < 0x10000) :
    isSecondOfThree (UInt8.ofNat (0xE0 + n / 2 ^ 12)) (UInt8.ofNat (0x80 + n / 2 ^ 6 % 64)) =
      true := by
  have e : (UInt8.ofNat (0xE0 + n / 2 ^ 12)).toNat = 0xE0 + n / 2 ^ 12 :=
    toNat_ofNat_add (by omega)
  simp only [isSecondOfThree, isContinuation_follow, Bool.true_and, Bool.or_eq_true, bne_iff_ne,
    ne_eq, decide_eq_true_eq, ← UInt8.toNat_inj, UInt8.le_iff_toNat_le, e, toNat_follow,
    UInt8.reduceToNat]
  omega

theorem isSecondOfFour_follow {n : Nat} (h₁ : 0x10000 ≤ n) (h₂ : n < 0x110000) :
    isSecondOfFour (UInt8.ofNat (0xF0 + n / 2 ^ 18)) (UInt8.ofNat (0x80 + n / 2 ^ 12 % 64)) =
      true := by
  have e : (UInt8.ofNat (0xF0 + n / 2 ^ 18)).toNat = 0xF0 + n / 2 ^ 18 :=
    toNat_ofNat_add (by omega)
  simp only [isSecondOfFour, isContinuation_follow, Bool.true_and, Bool.and_eq_true,
    Bool.or_eq_true, bne_iff_ne, ne_eq, decide_eq_true_eq, ← UInt8.toNat_inj,
    UInt8.le_iff_toNat_le, UInt8.lt_iff_toNat_lt, e, toNat_follow, UInt8.reduceToNat]
  omega

theorem sequence_three (surrogates : Bool) (n : Nat) (rest : Bytes) (h₁ : 0x800 ≤ n)
    (h₂ : n < 0x10000) (hs : surrogates = true ∨ ¬(0xD800 ≤ n ∧ n < 0xE000)) :
    sequence surrogates (UInt8.ofNat (0xE0 + n / 2 ^ 12))
      (UInt8.ofNat (0x80 + n / 2 ^ 6 % 64) :: UInt8.ofNat (0x80 + n / 2 ^ 0 % 64) :: rest) =
        .ok (codePoint n, 2) := by
  have e : (UInt8.ofNat (0xE0 + n / 2 ^ 12)).toNat = 0xE0 + n / 2 ^ 12 :=
    toNat_ofNat_add (by omega)
  have hb : ¬(!isSecondOfThree (UInt8.ofNat (0xE0 + n / 2 ^ 12))
      (UInt8.ofNat (0x80 + n / 2 ^ 6 % 64)) || beginsSurrogate (UInt8.ofNat (0xE0 + n / 2 ^ 12))
      (UInt8.ofNat (0x80 + n / 2 ^ 6 % 64)) && !surrogates) = true := by
    rw [isSecondOfThree_follow h₁ h₂]
    rcases hs with hs | hs
    · rw [hs]
      simp only [Bool.not_true, Bool.and_false, Bool.or_false, Bool.false_eq_true,
        not_false_eq_true]
    · rw [← beginsSurrogate_iff h₂, Bool.not_eq_true] at hs
      rw [hs]
      simp
  rw [sequence, if_neg, if_neg, if_neg, if_pos, three, if_neg hb]
  · rw [if_pos (isContinuation_follow _), extend_follow, extend_follow, e]
    congr 3
    omega
  all_goals
    simp only [UInt8.lt_iff_toNat_lt, e, UInt8.reduceToNat]
    omega

theorem sequence_four (surrogates : Bool) (n : Nat) (rest : Bytes) (h₁ : 0x10000 ≤ n)
    (h₂ : n < 0x110000) :
    sequence surrogates (UInt8.ofNat (0xF0 + n / 2 ^ 18))
      (UInt8.ofNat (0x80 + n / 2 ^ 12 % 64) :: UInt8.ofNat (0x80 + n / 2 ^ 6 % 64) ::
        UInt8.ofNat (0x80 + n / 2 ^ 0 % 64) :: rest) = .ok (codePoint n, 3) := by
  have e : (UInt8.ofNat (0xF0 + n / 2 ^ 18)).toNat = 0xF0 + n / 2 ^ 18 :=
    toNat_ofNat_add (by omega)
  rw [sequence, if_neg, if_neg, if_neg, if_neg, if_pos, four,
    if_neg (by rw [isSecondOfFour_follow h₁ h₂]; decide)]
  · rw [if_neg (by rw [isContinuation_follow]; decide), if_pos (isContinuation_follow _), extend_follow,
      extend_follow, extend_follow, e]
    congr 3
    omega
  all_goals
    simp only [UInt8.lt_iff_toNat_lt, e, UInt8.reduceToNat]
    omega

theorem decodeFrom_skip (surrogates : Bool) (position : Nat) (done : Text) (bs rest : Bytes) :
    decodeFrom surrogates position done bs.length (bs ++ rest) =
      decodeFrom surrogates (position + bs.length) done 0 rest := by
  induction bs generalizing position with
  | nil => rfl
  | cons b bs ih =>
    rw [List.length_cons, List.cons_append, decodeFrom, ih, Nat.add_assoc, Nat.add_comm 1]

/-- The decoder takes an encoded code point, a surrogate only if it may. -/
theorem decodeFrom_encodeOne (surrogates : Bool) (position : Nat) (done : Text) (c : CodePoint)
    (rest : Bytes) (h : surrogates = true ∨ c.isSurrogate = false) :
    decodeFrom surrogates position done 0 (encodeOne c ++ rest) =
      decodeFrom surrogates (position + (encodeOne c).length) (c :: done) 0 rest := by
  have take : ∀ (b : UInt8) (follow : Bytes),
      sequence surrogates b (follow ++ rest) = .ok (c, follow.length) →
      decodeFrom surrogates position done 0 (b :: follow ++ rest) =
        decodeFrom surrogates (position + (b :: follow).length) (c :: done) 0 rest := by
    intro b follow hb
    rw [List.cons_append, decodeFrom, hb]
    dsimp only
    rw [decodeFrom_skip, List.length_cons, Nat.add_assoc, Nat.add_comm 1]
  have hc := c.isLt
  have ec := codePoint_val c
  unfold encodeOne
  dsimp only
  split
  · refine take _ [] ?_
    rw [sequence_one _ _ _ ‹_›, ec]
    rfl
  split
  · refine take _ [_] ?_
    rw [List.singleton_append, sequence_two _ _ _ (by omega) ‹_›, ec]
    rfl
  split
  · refine take _ [_, _] ?_
    rw [List.cons_append, List.singleton_append, sequence_three _ _ _ (by omega) ‹_›, ec]
    · rfl
    · refine h.imp_right fun hs => ?_
      simpa [CodePoint.isSurrogate] using hs
  · refine take _ [_, _, _] ?_
    rw [List.cons_append, List.cons_append, List.singleton_append,
      sequence_four _ _ _ (by omega) hc, ec]
    rfl

theorem decodeFrom_encodeAll (surrogates : Bool) (position : Nat) (done t : Text)
    (h : surrogates = true ∨ ∀ c ∈ t, c.isSurrogate = false) :
    decodeFrom surrogates position done 0 (encodeAll t) = .ok (done.reverse ++ t) := by
  induction t generalizing position done with
  | nil => simp [encodeAll, decodeFrom]
  | cons c t ih =>
    rw [encodeAll, List.flatMap_cons, decodeFrom_encodeOne]
    · rw [← encodeAll, ih]
      · simp
      · exact h.imp_right fun hs x hx => hs x (List.mem_cons_of_mem _ hx)
    · exact h.imp_right fun hs => hs c List.mem_cons_self

/-- Decoding what was encoded gives the text, if surrogates are allowed or there is none. -/
theorem decode_encodeAll (surrogates : Bool) (t : Text)
    (h : surrogates = true ∨ ∀ c ∈ t, c.isSurrogate = false) :
    decode surrogates (encodeAll t) = .ok t := by
  rw [decode, decodeFrom_encodeAll _ _ _ _ h, List.reverse_nil, List.nil_append]

/-! ## Text without surrogates -/

/-- A text that has no UTF-8 form: its first surrogate and the surrogates right after it, by the
place of the first. -/
structure EncodeError where
  position : Nat
  run : Text
deriving DecidableEq

def encode (t : Text) : Except EncodeError Bytes :=
  match t.dropWhile (!·.isSurrogate) with
  | [] => .ok (encodeAll t)
  | rest => .error ⟨t.length - rest.length, rest.takeWhile (·.isSurrogate)⟩

theorem dropWhile_surrogates_eq_nil_iff (t : Text) :
    t.dropWhile (!·.isSurrogate) = [] ↔ ∀ c ∈ t, c.isSurrogate = false := by
  constructor
  · intro h c hc
    have e := List.takeWhile_append_dropWhile (p := fun c : CodePoint => !c.isSurrogate) (l := t)
    rw [h, List.append_nil] at e
    have := List.all_eq_true.mp (List.all_takeWhile (p := fun c : CodePoint => !c.isSurrogate)) c
      (e.symm ▸ hc)
    simpa using this
  · intro h
    induction t with
    | nil => rfl
    | cons c t ih =>
      rw [List.dropWhile_cons_of_pos (by simp [h c List.mem_cons_self])]
      exact ih fun x hx => h x (List.mem_cons_of_mem _ hx)

/-- Exactly the texts without surrogates have a UTF-8 form. -/
theorem encode_eq_ok_iff {t : Text} {bs : Bytes} :
    encode t = .ok bs ↔ (∀ c ∈ t, c.isSurrogate = false) ∧ encodeAll t = bs := by
  unfold encode
  split
  · rename_i h
    have := (dropWhile_surrogates_eq_nil_iff t).mp h
    simpa using fun _ => this
  · rename_i h
    simp only [reduceCtorEq, false_iff, not_and]
    exact fun hs => absurd ((dropWhile_surrogates_eq_nil_iff t).mpr hs) h

def EncodeError.message (e : EncodeError) : Text :=
  let place := match e.run with
    | [c] => Text.ofString "character '\\u" ++ Text.ofHexFixed 4 c.val ++
        Text.ofString "' in position " ++ Text.ofNat e.position
    | run => Text.ofString "characters in position " ++ Text.ofNat e.position ++ ↑ '-' ::
        Text.ofNat (e.position + run.length - 1)
  Text.ofString "'utf-8' codec can't encode " ++ place ++ Text.ofString ": surrogates not allowed"

end LegacyImage.Utf8
