import LegacyImage.Bytes

/-!
Readers: anything that hands out its bytes piece by piece, and may fail instead. A reader asked for
a number of bytes gives at most so many, and all it can get if the number is negative; an empty
piece is the end. A reader has a bound on the bytes that are still to come, which every piece lowers
by its length, so reading to the end comes to an end.
-/

namespace LegacyImage

/-- A reader with states `σ` and faults `ε`. -/
structure Reader (σ ε : Type) where
  read : Int → σ → Except ε Bytes × σ
  remaining : σ → Nat
  remaining_read : ∀ {size s piece s'}, read size s = (.ok piece, s') →
    remaining s' + piece.length ≤ remaining s

/-- What came of reading to the end: the pieces in order, the fault that ended it, if any, and the
state after it. -/
structure Drained (σ ε : Type) where
  pieces : List Bytes
  fault : Option ε
  state : σ

namespace Reader

variable {σ ε : Type} (r : Reader σ ε)

/-- Reads pieces of the given size up to the end or a fault, after the pieces in `done`, the last
one first. -/
def drainFrom (size : Int) (done : List Bytes) (s : σ) : Drained σ ε :=
  match _h : r.read size s with
  | (.error e, s') => ⟨done.reverse, some e, s'⟩
  | (.ok [], s') => ⟨done.reverse, none, s'⟩
  | (.ok (b :: bs), s') => drainFrom size ((b :: bs) :: done) s'
termination_by r.remaining s
decreasing_by
  have := r.remaining_read _h
  simp only [List.length_cons] at this
  omega

/-- Reads pieces of the given size up to the end or a fault. -/
def drain (size : Int) (s : σ) : Drained σ ε := r.drainFrom size [] s

def readAll (size : Int) (s : σ) : Except ε Bytes × σ :=
  let d := r.drain size s
  match d.fault with
  | some e => (.error e, d.state)
  | none => (.ok d.pieces.flatten, d.state)

/-- What reading to the end has used up, and what it has given beyond the pieces in `done`. -/
theorem remaining_drainFrom {size : Int} {done : List Bytes} {s : σ} {d : Drained σ ε}
    (h : r.drainFrom size done s = d) (hf : d.fault = none) :
    r.remaining d.state + d.pieces.flatten.length ≤ r.remaining s + done.flatten.length := by
  fun_induction drainFrom r size done s with
  | case1 => subst h; cases hf
  | case2 done s s' hr =>
    subst h
    have := r.remaining_read hr
    simpa [List.length_flatten, List.sum_reverse] using this
  | case3 done s b bs s' hr ih =>
    have h₁ := r.remaining_read hr
    have h₂ := ih h
    simp only [List.flatten_cons, List.length_append] at h₂
    omega

end Reader

end LegacyImage
