import LegacyImage.PieceSize
import LegacyImage.Reader.Hashing

/-!
Readers seen from outside. A view says what is still to come from a reader, or what is wrong with
it, and whether anything else can make a read fail. One law for each outcome of a read is enough to
say what reading to the end in pieces of any size comes to (`drain_eq_none_iff`), so that two ways
of reading with the same view agree.
-/

namespace LegacyImage

/-! ## What comes before what is still to come -/

theorem map_nil_append {φ : Type} (e : Except φ Bytes) : e.map ([] ++ ·) = e := by
  cases e <;> rfl

theorem map_append_append {φ : Type} (a b : Bytes) (e : Except φ Bytes) :
    (e.map (b ++ ·)).map (a ++ ·) = e.map ((a ++ b) ++ ·) := by
  cases e with
  | error f => rfl
  | ok bs => exact congrArg Except.ok (List.append_assoc a b bs).symm

namespace Reader

variable {σ ε φ : Type}

/-- A view of a reader. `ahead` is what is still to come, or what is wrong with it; a fault of that
kind is `told` as a fault of the reader. `Sound` says that nothing else makes a read fail. The laws
are about `Valid` states, which reading keeps, and pieces for which there is room. -/
structure View [Room] (r : Reader σ ε) (φ : Type) where
  ahead : σ → Except φ Bytes
  Valid : σ → Prop
  Sound : σ → Prop
  told : φ → ε
  split : ∀ {size : Int} {s s' : σ} {piece : Bytes}, 0 ≤ size → Valid s →
    r.read size s = (.ok piece, s') →
    Valid s' ∧ ahead s = (ahead s').map (piece ++ ·) ∧ (Sound s ↔ Sound s')
  ended : ∀ {size : Int} {s s' : σ}, 0 < size → Valid s → r.read size s = (.ok [], s') →
    ahead s = .ok [] ∧ Sound s
  fault : ∀ {size : Int} {s s' : σ} {e : ε}, 0 ≤ size → size < Room.bound →
    Valid s → Sound s → r.read size s = (.error e, s') → ∃ f, ahead s = .error f ∧ e = told f

/-! ## One step of reading to the end -/

section Steps

variable (r : Reader σ ε) {size : Int} {done : List Bytes} {s s' : σ}

theorem drainFrom_of_error {e : ε} (h : r.read size s = (.error e, s')) :
    r.drainFrom size done s = ⟨done.reverse, some e, s'⟩ := by
  rw [drainFrom]
  split <;> simp_all

theorem drainFrom_of_end (h : r.read size s = (.ok [], s')) :
    r.drainFrom size done s = ⟨done.reverse, none, s'⟩ := by
  rw [drainFrom]
  split <;> simp_all

theorem drainFrom_of_piece {piece : Bytes} (hp : piece ≠ []) (h : r.read size s = (.ok piece, s')) :
    r.drainFrom size done s = r.drainFrom size (piece :: done) s' := by
  rw [drainFrom]
  split <;> simp_all

end Steps

/-! ## Hashing what passes -/

/-- Reading to the end through a hashing reader is reading to the end, and its tally is that of the
pieces. -/
theorem hashing_drainFrom (r : Reader σ ε) (size : Int) (done : List Bytes) (s : σ) (t : Tally)
    (ht : t = Tally.empty.add done.reverse.flatten) :
    (r.hashing.drainFrom size done ⟨s, t⟩).fault = (r.drainFrom size done s).fault ∧
      (r.hashing.drainFrom size done ⟨s, t⟩).state.tally =
        Tally.empty.add (r.drainFrom size done s).pieces.flatten := by
  fun_induction drainFrom r size done s generalizing t with
  | case1 done s e s' hr =>
    have h : r.hashing.read size ⟨s, t⟩ = (.error e, ⟨s', t⟩) := by simp only [hashing, hr]
    rw [drainFrom_of_error _ h]
    exact ⟨rfl, ht⟩
  | case2 done s s' hr =>
    have h : r.hashing.read size ⟨s, t⟩ = (.ok [], ⟨s', t⟩) := by
      simp only [hashing, hr, Tally.add_nil]
    rw [drainFrom_of_end _ h]
    exact ⟨rfl, ht⟩
  | case3 done s b bs s' hr ih =>
    have h : r.hashing.read size ⟨s, t⟩ = (.ok (b :: bs), ⟨s', t.add (b :: bs)⟩) := by
      simp only [hashing, hr]
    rw [drainFrom_of_piece _ (List.cons_ne_nil b bs) h]
    refine ih _ ?_
    rw [ht, ← Tally.add_append, List.reverse_cons, List.flatten_append, List.flatten_singleton]

/-- Reading to the end and hashing gives the digest of what reading to the end gives. -/
theorem hashing_drain (r : Reader σ ε) (size : Int) (s : σ) :
    (r.hashing.drain size (.start s)).fault = (r.drain size s).fault ∧
      (r.hashing.drain size (.start s)).state.tally.digest =
        .ofBytes (r.drain size s).pieces.flatten := by
  obtain ⟨hf, ht⟩ := hashing_drainFrom r size [] s .empty rfl
  exact ⟨hf, by rw [drain, Hashing.start, ht]; rfl⟩

/-! ## Reading to the end -/

namespace View

variable [Room] {r : Reader σ ε} (v : r.View φ)

/-- What was read to the end without a fault was all that was to come. -/
theorem drainFrom_none {size : Int} (hn : 0 < size) {done : List Bytes} {s : σ} (hs : v.Valid s)
    (h : (r.drainFrom size done s).fault = none) :
    v.Sound s ∧ ∃ rest, v.ahead s = .ok rest ∧
      (r.drainFrom size done s).pieces.flatten = done.reverse.flatten ++ rest := by
  fun_induction drainFrom r size done s with
  | case1 => cases h
  | case2 done s s' hr =>
    obtain ⟨hahead, hsound⟩ := v.ended hn hs hr
    exact ⟨hsound, [], hahead, by rw [List.append_nil]⟩
  | case3 done s b bs s' hr ih =>
    obtain ⟨hs', hahead, hsound⟩ := v.split (Int.le_of_lt hn) hs hr
    obtain ⟨hsound', rest, hrest, hpieces⟩ := ih hs' h
    refine ⟨hsound.mpr hsound', b :: bs ++ rest, by rw [hahead, hrest]; rfl, ?_⟩
    rw [hpieces, List.reverse_cons, List.flatten_append, List.flatten_singleton, List.append_assoc]

/-- After reading to the end without a fault nothing is still to come, and nothing can go wrong. -/
theorem ahead_of_drainFrom {size : Int} (hn : 0 < size) {done : List Bytes} {s : σ}
    (hs : v.Valid s) (h : (r.drainFrom size done s).fault = none) :
    v.Valid (r.drainFrom size done s).state ∧ v.Sound (r.drainFrom size done s).state ∧
      v.ahead (r.drainFrom size done s).state = .ok [] := by
  fun_induction drainFrom r size done s with
  | case1 => cases h
  | case2 done s s' hr =>
    obtain ⟨hs', hahead, hiff⟩ := v.split (Int.le_of_lt hn) hs hr
    obtain ⟨hend, hsound⟩ := v.ended hn hs hr
    rw [map_nil_append] at hahead
    exact ⟨hs', hiff.mp hsound, hahead.symm.trans hend⟩
  | case3 done s b bs s' hr ih => exact ih (v.split (Int.le_of_lt hn) hs hr).1 h

/-- If nothing else can go wrong, reading to the end fails with what is wrong. -/
theorem drainFrom_some {size : Int} (hn : 0 ≤ size) (hroom : size < Room.bound)
    {done : List Bytes} {s : σ} (hs : v.Valid s) (hsound : v.Sound s) {e : ε}
    (h : (r.drainFrom size done s).fault = some e) :
    ∃ f, v.ahead s = .error f ∧ e = v.told f := by
  fun_induction drainFrom r size done s with
  | case1 done s e' s' hr =>
    obtain rfl := Option.some.inj h
    exact v.fault hn hroom hs hsound hr
  | case2 => cases h
  | case3 done s b bs s' hr ih =>
    obtain ⟨hs', hahead, hiff⟩ := v.split hn hs hr
    obtain ⟨f, hf, he⟩ := ih hs' (hiff.mp hsound) h
    exact ⟨f, by rw [hahead, hf]; rfl, he⟩

/-- Reading to the end succeeds exactly if nothing is wrong with what is to come and nothing else
can go wrong. -/
theorem drain_eq_none_iff {size : Int} (hn : 0 < size) (hroom : size < Room.bound)
    {s : σ} (hs : v.Valid s) (w : Bytes) :
    (r.drain size s).fault = none ∧ (r.drain size s).pieces.flatten = w ↔
      v.Sound s ∧ v.ahead s = .ok w := by
  constructor
  · rintro ⟨hf, hw⟩
    obtain ⟨hsound, rest, hrest, hpieces⟩ := v.drainFrom_none hn hs hf
    have e : rest = w := hpieces.symm.trans hw
    exact ⟨hsound, e ▸ hrest⟩
  · rintro ⟨hsound, hw⟩
    have hf : (r.drain size s).fault = none := by
      cases h : (r.drain size s).fault with
      | none => rfl
      | some e =>
        obtain ⟨f, hf, -⟩ := v.drainFrom_some (Int.le_of_lt hn) hroom hs hsound h
        rw [hw] at hf
        cases hf
    obtain ⟨-, rest, hrest, hpieces⟩ := v.drainFrom_none hn hs hf
    rw [hw] at hrest
    obtain rfl := Except.ok.inj hrest
    exact ⟨hf, hpieces⟩

theorem readAll_eq_ok_iff {size : Int} (hn : 0 < size) (hroom : size < Room.bound)
    {s : σ} (hs : v.Valid s) (w : Bytes) :
    (r.readAll size s).1 = .ok w ↔ v.Sound s ∧ v.ahead s = .ok w := by
  rw [← v.drain_eq_none_iff hn hroom hs w, readAll]
  cases h : (r.drain size s).fault with
  | none => simp
  | some e => simp

/-- If nothing else can go wrong, reading to the end comes to what is still to come, or to what is
wrong with it. -/
theorem readAll_eq {size : Int} (hn : 0 < size) (hroom : size < Room.bound) {s : σ}
    (hs : v.Valid s) (hsound : v.Sound s) : (r.readAll size s).1 = (v.ahead s).mapError v.told := by
  cases hahead : v.ahead s with
  | ok w => exact (v.readAll_eq_ok_iff hn hroom hs w).mpr ⟨hsound, hahead⟩
  | error f =>
    unfold readAll
    dsimp only
    cases hfault : (r.drain size s).fault with
    | none =>
      obtain ⟨-, rest, hrest, -⟩ := v.drainFrom_none hn hs hfault
      rw [hahead] at hrest
      cases hrest
    | some e =>
      obtain ⟨f', hf', rfl⟩ := v.drainFrom_some (Int.le_of_lt hn) hroom hs hsound hfault
      rw [hahead] at hf'
      obtain rfl := Except.error.inj hf'
      rfl

/-! ## Readers of plain bytes -/

/-- What is still to come from a reader if nothing can be wrong with it. -/
def data (v : r.View Empty) (s : σ) : Bytes :=
  match v.ahead s with
  | .ok bs => bs
  | .error f => f.elim

theorem ahead_eq_data (v : r.View Empty) (s : σ) : v.ahead s = .ok (v.data s) := by
  unfold data
  split
  · assumption
  · rename_i f _
    exact f.elim

variable {size : Int} {s s' : σ} (v : r.View Empty)

theorem data_split {piece : Bytes} (hn : 0 ≤ size) (hs : v.Valid s)
    (h : r.read size s = (.ok piece, s')) :
    v.Valid s' ∧ v.data s = piece ++ v.data s' ∧ (v.Sound s ↔ v.Sound s') := by
  obtain ⟨hs', hahead, hsound⟩ := v.split hn hs h
  rw [v.ahead_eq_data, v.ahead_eq_data] at hahead
  exact ⟨hs', Except.ok.inj hahead, hsound⟩

theorem data_ended (hn : 0 < size) (hs : v.Valid s) (h : r.read size s = (.ok [], s')) :
    v.data s = [] ∧ v.Sound s := by
  obtain ⟨hahead, hsound⟩ := v.ended hn hs h
  rw [v.ahead_eq_data] at hahead
  exact ⟨Except.ok.inj hahead, hsound⟩

theorem not_sound_of_error {e : ε} (hn : 0 ≤ size) (hroom : size < Room.bound)
    (hs : v.Valid s) (h : r.read size s = (.error e, s')) : ¬ v.Sound s := by
  intro hsound
  obtain ⟨f, -, -⟩ := v.fault hn hroom hs hsound h
  exact f.elim

end View

end Reader

end LegacyImage
