import LegacyImage.Json.Reader
import LegacyImage.Proofs.Text.Utf8

/-!
Strings in writing: every code point stands for itself, or is named by a letter or by a hexadecimal
number after a backslash, and two numbers that are halves of a pair name one code point. The reader
of strings takes exactly what is written so, up to the first quote (`string_eq_ok_iff`).
-/

namespace LegacyImage.Json

/-- The code points that have a letter of their own after a backslash. -/
def shortEscapes : List (CodePoint × CodePoint) :=
  [(↑ '"', ↑ '"'), (↑ '\\', ↑ '\\'), (↑ '/', ↑ '/'), (↑ 'b', 0x08), (↑ 'f', 0x0C), (↑ 'n', 0x0A),
   (↑ 'r', 0x0D), (↑ 't', 0x09)]

/-- The number that hexadecimal digits make of a number that they are added to. -/
def hexFrom : Nat → Text → Option Nat
  | n, [] => some n
  | n, c :: rest => c.hexValue?.bind fun d => hexFrom (16 * n + d) rest

/-- How a piece of a string is written. -/
inductive WrittenPiece : Piece → Text → Prop
  | plain {c : CodePoint} (hquote : c ≠ ↑ '"') (hslash : c ≠ ↑ '\\') (hcontrol : ¬ c.val < 0x20) :
      WrittenPiece ⟨c, false⟩ [c]
  | letter {l c : CodePoint} (h : (l, c) ∈ shortEscapes) : WrittenPiece ⟨c, false⟩ [↑ '\\', l]
  | number {digits : Text} {n : Nat} (hlength : digits.length = 4) (h : hexFrom 0 digits = some n) :
      WrittenPiece ⟨Fin.ofNat 0x110000 n, true⟩ (↑ '\\' :: ↑ 'u' :: digits)

/-- How the pieces of a string are written, one after the other. -/
inductive WrittenPieces : List Piece → Text → Prop
  | nil : WrittenPieces [] []
  | cons {p : Piece} {ps : List Piece} {t u : Text} (hp : WrittenPiece p t)
      (hps : WrittenPieces ps u) : WrittenPieces (p :: ps) (t ++ u)

theorem WrittenPieces.append {ps qs : List Piece} {t u : Text} (hps : WrittenPieces ps t)
    (hqs : WrittenPieces qs u) : WrittenPieces (ps ++ qs) (t ++ u) := by
  induction hps with
  | nil => exact hqs
  | cons hp _ ih =>
    rw [List.append_assoc]
    exact .cons hp ih

theorem isAscii_of_hexFrom {digits : Text} {m n : Nat} (h : hexFrom m digits = some n) :
    ∀ c ∈ digits, c.IsAscii := by
  induction digits generalizing m with
  | nil => exact nofun
  | cons c rest ih =>
    obtain ⟨d, hd, h⟩ := Option.bind_eq_some_iff.mp h
    refine List.forall_mem_cons.mpr ⟨?_, ih h⟩
    refine ⟨Nat.pos_of_ne_zero fun hzero => ?_, Nat.lt_of_not_le fun hlarge => ?_⟩
    · simp [CodePoint.hexValue?, hzero] at hd
    · unfold CodePoint.hexValue? at hd
      rw [if_neg (by omega), if_neg (by omega), if_neg (by omega)] at hd
      cases hd

/-- A piece is written in ASCII, or is its code point, which is no control character then. -/
theorem mem_of_writtenPiece {p : Piece} {t : Text} (h : WrittenPiece p t) :
    ∀ c ∈ t, c.IsAscii ∨ c = p.codePoint ∧ 0x20 ≤ c.val := by
  cases h with
  | plain hquote hslash hcontrol =>
    exact List.forall_mem_singleton.mpr (.inr ⟨rfl, Nat.le_of_not_lt hcontrol⟩)
  | @letter l c h =>
    have hall : (shortEscapes.all fun e => decide e.1.IsAscii) = true := by decide
    have hletter : l.IsAscii := of_decide_eq_true (List.all_eq_true.mp hall _ h)
    exact List.forall_mem_cons.mpr ⟨.inl (by decide), List.forall_mem_singleton.mpr (.inl hletter)⟩
  | number hlength h =>
    have hdigits := isAscii_of_hexFrom h
    exact List.forall_mem_cons.mpr ⟨.inl (by decide), List.forall_mem_cons.mpr ⟨.inl (by decide),
      fun d hd => .inl (hdigits d hd)⟩⟩

def mayStand (c : CodePoint) : Bool := c ≠ ↑ '"' && c ≠ ↑ '\\' && !(c.val < 0x20)

theorem writtenPiece_plain {c : CodePoint} (h : mayStand c = true) : WrittenPiece ⟨c, false⟩ [c] := by
  simp only [mayStand, Bool.and_eq_true, Bool.not_eq_true', decide_eq_true_eq,
    decide_eq_false_iff_not] at h
  exact .plain h.1.1 h.1.2 h.2

theorem writtenPieces_plain {t : Text} (h : t.all mayStand = true) :
    WrittenPieces (t.map fun c => ⟨c, false⟩) t := by
  induction t with
  | nil => exact .nil
  | cons c rest ih =>
    rw [List.all_cons, Bool.and_eq_true] at h
    exact .cons (writtenPiece_plain h.1) (ih h.2)

namespace Piece

/-- Whether two pieces are the halves of a pair, both written as numbers. -/
def isPair (p q : Piece) : Bool :=
  q.escaped && q.codePoint.isLowSurrogate && p.escaped && p.codePoint.isHighSurrogate

/-- The text that pieces spell, pairs joined from the first one on. -/
def joined : List Piece → Text
  | [] => []
  | [p] => [p.codePoint]
  | p :: q :: rest =>
    if isPair p q then CodePoint.ofSurrogates p.codePoint q.codePoint :: joined rest
    else p.codePoint :: joined (q :: rest)

/-- What is no high surrogate, or is not written as a number, begins no pair. -/
theorem joined_cons {p : Piece} (h : p.escaped = true → p.codePoint.isHighSurrogate = false)
    (ps : List Piece) : joined (p :: ps) = p.codePoint :: joined ps := by
  cases ps with
  | nil => rfl
  | cons q rest =>
    have hpair : isPair p q = false := by
      cases hescaped : p.escaped with
      | false => simp [isPair, hescaped]
      | true => simp [isPair, h hescaped]
    simp [joined, hpair]

theorem joined_plain (c : CodePoint) (ps : List Piece) : joined (⟨c, false⟩ :: ps) = c :: joined ps :=
  joined_cons (by simp) ps

theorem joined_map_plain (t : Text) : joined (t.map fun c => ⟨c, false⟩) = t := by
  induction t with
  | nil => rfl
  | cons c rest ih => rw [List.map_cons, joined_plain, ih]

theorem text_cons (p : Piece) (done : List Piece) : text (p :: done) = text done ++ [p.codePoint] := by
  simp [text]

theorem push_cons (p q : Piece) (done : List Piece) :
    push (p :: done) q =
      if isPair p q then ⟨CodePoint.ofSurrogates p.codePoint q.codePoint, false⟩ :: done
      else q :: p :: done := rfl

/-- Joining pieces as they come joins the same pairs. -/
theorem text_foldl_push (p : Piece) (done ps : List Piece) :
    text (ps.foldl push (p :: done)) = text done ++ joined (p :: ps) := by
  -- the piece on top is joined with the next one, and then begins no pair, or it is done with
  induction ps generalizing p done with
  | nil => exact text_cons p done
  | cons q rest ih =>
    rw [List.foldl_cons, push_cons]
    split
    · rename_i hpair
      rw [ih, joined_plain, joined, if_pos hpair]
    · rename_i hpair
      rw [ih, text_cons, joined, if_neg hpair, List.append_assoc, List.singleton_append]

theorem text_foldl_push_nil (ps : List Piece) : text (ps.foldl push []) = joined ps := by
  cases ps with
  | nil => rfl
  | cons p rest =>
    rw [List.foldl_cons]
    exact text_foldl_push p [] rest

end Piece

/-! ## What is written is read -/

theorem escapeOf?_eq_some_iff {l c : CodePoint} : escapeOf? l = some c ↔ (l, c) ∈ shortEscapes := by
  simp only [escapeOf?, shortEscapes, List.mem_cons, Prod.mk.injEq, List.not_mem_nil, or_false]
  constructor
  · intro h
    split at h
    · rename_i hl
      obtain rfl := Option.some.inj h
      rcases hl with rfl | rfl | rfl <;> simp
    repeat'
      split at h
      · simp_all
    cases h
  · rintro (⟨rfl, rfl⟩ | ⟨rfl, rfl⟩ | ⟨rfl, rfl⟩ | ⟨rfl, rfl⟩ | ⟨rfl, rfl⟩ | ⟨rfl, rfl⟩ | ⟨rfl, rfl⟩ |
      ⟨rfl, rfl⟩) <;> rfl

theorem ne_u_of_mem_shortEscapes {l c : CodePoint} (h : (l, c) ∈ shortEscapes) : l ≠ ↑ 'u' := by
  intro hl
  rw [hl, ← escapeOf?_eq_some_iff] at h
  cases h

section

variable {opening letter : Text} {done : List Piece}

/-- The digits of a number are read one after the other; something must come after them. -/
theorem stringFrom_digits {digits rest : Text} {count value n : Nat}
    (hlength : count + digits.length = 4) (hcount : count < 4) (h : hexFrom value digits = some n)
    (hrest : rest ≠ []) :
    stringFrom opening (.digits letter count value) done (digits ++ rest) =
      stringFrom opening .between (Piece.push done ⟨Fin.ofNat 0x110000 n, true⟩) rest := by
  induction digits generalizing count value with
  | nil =>
    rw [List.length_nil] at hlength
    omega
  | cons c digits ih =>
    obtain ⟨d, hd, h⟩ := Option.bind_eq_some_iff.mp h
    rw [List.length_cons] at hlength
    rw [List.cons_append, stringFrom, hd]
    dsimp only
    by_cases hlast : count < 3
    · rw [if_pos hlast, ih (by omega) (by omega) h]
    · obtain rfl : digits = [] := List.eq_nil_of_length_eq_zero (by omega)
      obtain rfl := Option.some.inj h
      rw [if_neg hlast, List.nil_append, if_neg (by simpa using hrest)]

theorem stringFrom_piece {p : Piece} {t rest : Text} (h : WrittenPiece p t) (hrest : rest ≠ []) :
    stringFrom opening .between done (t ++ rest) =
      stringFrom opening .between (Piece.push done p) rest := by
  cases h with
  | plain hquote hslash hcontrol =>
    rw [List.singleton_append, stringFrom, if_neg hquote, if_neg hslash, if_neg hcontrol]
  | @letter l c h =>
    have hquote : (↑ '\\' : CodePoint) ≠ ↑ '"' := by decide
    rw [List.cons_append, List.singleton_append, stringFrom, if_neg hquote, if_pos rfl, stringFrom,
      if_neg (ne_u_of_mem_shortEscapes h), escapeOf?_eq_some_iff.mpr h]
  | @number digits n hlength h =>
    have hquote : (↑ '\\' : CodePoint) ≠ ↑ '"' := by decide
    rw [List.cons_append, List.cons_append, stringFrom, if_neg hquote, if_pos rfl, stringFrom,
      if_pos rfl, stringFrom_digits (by omega) (by omega) h hrest]

theorem stringFrom_pieces {ps : List Piece} {t after : Text} (h : WrittenPieces ps t) :
    stringFrom opening .between done (t ++ ↑ '"' :: after) =
      .ok (Piece.text (ps.foldl Piece.push done), after) := by
  induction h generalizing done with
  | nil => rw [List.nil_append, stringFrom, if_pos rfl, List.foldl_nil]
  | cons hp hps ih =>
    rw [List.append_assoc, stringFrom_piece hp (by simp), ih, List.foldl_cons]

end

/-! ## What is read was written -/

/-- In the digits of a number at least one more is to come. -/
def StringState.AwaitsDigit : StringState → Prop
  | .digits _ count _ => count < 4
  | _ => True

/-- What the reader of a string owes from a state on: the rest of the piece that it is in, and more
pieces up to the quote. -/
def StringState.Owes (done : List Piece) (t s after : Text) : StringState → Prop
  | .between => ∃ ps u, t = u ++ ↑ '"' :: after ∧ WrittenPieces ps u ∧
      s = Piece.text (ps.foldl Piece.push done)
  | .escape _ => ∃ p ps w u, t = w ++ (u ++ ↑ '"' :: after) ∧ WrittenPiece p (↑ '\\' :: w) ∧
      WrittenPieces ps u ∧ s = Piece.text (ps.foldl Piece.push (Piece.push done p))
  | .digits _ count value => ∃ n ps digits u, t = digits ++ (u ++ ↑ '"' :: after) ∧
      count + digits.length = 4 ∧ hexFrom value digits = some n ∧ WrittenPieces ps u ∧
      s = Piece.text (ps.foldl Piece.push (Piece.push done ⟨Fin.ofNat 0x110000 n, true⟩))

theorem owes_of_stringFrom {opening : Text} {state : StringState} {done : List Piece}
    {t s after : Text} (h : stringFrom opening state done t = .ok (s, after))
    (hstate : state.AwaitsDigit) : state.Owes done t s after := by
  -- along the reader; the cases that are not named end in a fault
  fun_induction stringFrom opening state done t with
  | case2 done rest =>
    cases h
    exact ⟨[], [], rfl, .nil, rfl⟩
  | case3 done rest hquote ih =>
    obtain ⟨p, ps, w, u, rfl, hp, hps, rfl⟩ := ih h trivial
    exact ⟨p :: ps, ↑ '\\' :: w ++ u, by simp, .cons hp hps, rfl⟩
  | case5 done c rest hquote hslash hcontrol ih =>
    obtain ⟨ps, u, rfl, hps, rfl⟩ := ih h trivial
    exact ⟨⟨c, false⟩ :: ps, c :: u, rfl, .cons (.plain hquote hslash hcontrol) hps, rfl⟩
  | case7 backslash done rest ih =>
    obtain ⟨n, ps, digits, u, rfl, hlength, hn, hps, rfl⟩ := ih h (Nat.zero_lt_succ 3)
    exact ⟨_, ps, ↑ 'u' :: digits, u, rfl, .number (by omega) hn, hps, rfl⟩
  | case8 backslash done c rest hletter e he ih =>
    obtain ⟨ps, u, rfl, hps, rfl⟩ := ih h trivial
    exact ⟨⟨e, false⟩, ps, [c], u, rfl, .letter (escapeOf?_eq_some_iff.mp he), hps, rfl⟩
  | case12 letter count value done c rest d hd hcount ih =>
    obtain ⟨n, ps, digits, u, rfl, hlength, hn, hps, rfl⟩ := ih h (Nat.succ_lt_succ hcount)
    refine ⟨n, ps, c :: digits, u, rfl, by rw [List.length_cons]; omega, ?_, hps, rfl⟩
    rw [hexFrom, hd, Option.bind_some, hn]
  | case14 letter count value done c rest d hd hcount hrest ih =>
    have hlast : count < 4 := hstate
    obtain ⟨ps, u, rfl, hps, rfl⟩ := ih h trivial
    refine ⟨16 * value + d, ps, [c], u, rfl, ?_, ?_, hps, rfl⟩
    · rw [List.length_singleton]
      omega
    · rw [hexFrom, hd, Option.bind_some, hexFrom]
  | _ => cases h

/-- The reader takes exactly the pieces that are written up to the quote. -/
theorem string_eq_ok_iff {t s after : Text} :
    string t = .ok (s, after) ↔
      ∃ ps u, WrittenPieces ps u ∧ t = u ++ ↑ '"' :: after ∧ s = Piece.joined ps := by
  constructor
  · intro h
    obtain ⟨ps, u, rfl, hps, rfl⟩ := owes_of_stringFrom h trivial
    exact ⟨ps, u, hps, rfl, Piece.text_foldl_push_nil ps⟩
  · rintro ⟨ps, u, hps, rfl, rfl⟩
    rw [string, stringFrom_pieces hps, Piece.text_foldl_push_nil]

end LegacyImage.Json
