import LegacyImage.Gzip.Gunzip
import LegacyImage.PieceSize

/-!
Uncompressed streams: what a gzip file holds, read in pieces of any size. Output is asked for in
whole blocks, and what is beyond the piece at hand is kept for the next. A piece is shorter than
asked for only at the end.
-/

namespace LegacyImage.Gzip

/-- A gzip file being read, the output kept for the next piece, and whether the stream is closed. -/
structure Uncompressed (σ : Type) where
  gunzip : Gunzip σ
  ready : Bytes
  closed : Bool

namespace Uncompressed

inductive Fault (ε : Type)
  | closed
  | size (fault : SizeFault)
  | file (fault : ReadFault ε)

def start {σ : Type} (source : σ) : Uncompressed σ := ⟨.start source, [], false⟩

def blockSize : Nat := 8192

variable {σ ε : Type} (src : Reader σ ε)

/-- Reads of whole pieces, whatever their size. -/
def whole : Reader (Gunzip σ) (ReadFault ε) where
  read _ g := g.read src none
  remaining g := g.potential src
  remaining_read h := Gunzip.potential_read src h

/-- Reads until `wanted` more bytes are there or the end is met: as many whole blocks as fit, then
parts of one more, of which `filled` bytes have come. `done` are the pieces so far, the last one
first. What is left over is kept. -/
def fill (wanted filled : Nat) (done : List Bytes) (g : Gunzip σ) :
    Except (ReadFault ε) Bytes × Gunzip σ × Bytes :=
  let limit := if blockSize ≤ wanted then wanted / blockSize * blockSize else blockSize - filled
  match g.read src (some limit) with
  | (.error e, g) => (.error e, g, [])
  | (.ok [], g) => (.ok done.reverse.flatten, g, [])
  | (.ok (b :: bs), g) =>
    if _h : (b :: bs).length < wanted then
      fill (wanted - (b :: bs).length)
        (if blockSize ≤ wanted then 0 else filled + (b :: bs).length) ((b :: bs) :: done) g
    else
      (.ok ((b :: bs).take wanted :: done).reverse.flatten, g, (b :: bs).drop wanted)
termination_by wanted
decreasing_by
  simp only [List.length_cons] at *
  omega

/-- Reads a piece: of the given size, or all there is if that is -1. -/
def read [Room] (size : Int) (u : Uncompressed σ) : Except (Fault ε) Bytes × Uncompressed σ :=
  if u.closed then (.error .closed, u)
  else match PieceSize.fault? size with
  | some fault => (.error (.size fault), u)
  | none =>
    if size = -1 then
      let d := (whole src).drain 0 u.gunzip
      match d.fault with
      | some e => (.error (.file e), ⟨d.state, [], false⟩)
      | none => (.ok (u.ready ++ d.pieces.flatten), ⟨d.state, [], false⟩)
    else
      let n := size.toNat
      let first := u.ready.take n
      if first.length = n then (.ok first, { u with ready := u.ready.drop n })
      else match PieceSize.roomFault? n with
        | some fault => (.error (.size fault), u)
        | none =>
          match fill src (n - u.ready.length) 0 [] u.gunzip with
          | (.error e, g, ready) => (.error (.file e), ⟨g, ready, false⟩)
          | (.ok bs, g, ready) => (.ok (u.ready ++ bs), ⟨g, ready, false⟩)

/-! ## Reading to the end comes to an end -/

def remaining (u : Uncompressed σ) : Nat := u.gunzip.potential src + u.ready.length

theorem potential_fill {wanted filled : Nat} {done : List Bytes} {g g' : Gunzip σ}
    {out ready : Bytes} (h : fill src wanted filled done g = (.ok out, g', ready)) :
    g'.potential src + ready.length + out.length ≤ g.potential src + done.flatten.length := by
  fun_induction fill src wanted filled done g with
  | case1 => cases h
  | case2 wanted filled done g limit g₁ hr =>
    have := Gunzip.potential_read src hr
    cases h
    simpa [List.length_flatten, List.sum_reverse] using this
  | case3 wanted filled done g limit b bs g₁ hr hlt ih =>
    have h₁ := Gunzip.potential_read src hr
    have h₂ := ih h
    simp only [List.flatten_cons, List.length_append] at h₂
    omega
  | case4 wanted filled done g limit b bs g₁ hr hlt =>
    have h₁ := Gunzip.potential_read src hr
    have h₂ := congrArg List.length (List.take_append_drop wanted (b :: bs))
    have h₃ : done.reverse.flatten.length = done.flatten.length := by
      simp [List.length_flatten, List.sum_reverse]
    cases h
    rw [List.length_append] at h₂
    rw [List.reverse_cons, List.flatten_append, List.length_append, h₃, List.flatten_singleton]
    omega

theorem remaining_read [Room] {size : Int} {u u' : Uncompressed σ} {piece : Bytes}
    (h : read src size u = (.ok piece, u')) :
    u'.remaining src + piece.length ≤ u.remaining src := by
  unfold read at h
  split at h
  · cases h
  split at h
  · cases h
  split at h
  · dsimp only at h
    split at h
    · cases h
    · rename_i hf
      have := (whole src).remaining_drainFrom (d := (whole src).drain 0 u.gunzip) rfl hf
      cases h
      simp only [remaining, whole, List.flatten_nil, List.length_nil, List.length_append] at this ⊢
      omega
  dsimp only at h
  split at h
  · cases h
    simp only [remaining, List.length_drop, List.length_take]
    omega
  split at h
  · cases h
  split at h
  · cases h
  · rename_i hfill
    have := potential_fill src hfill
    cases h
    simp only [remaining, List.flatten_nil, List.length_nil, List.length_append] at this ⊢
    omega

def reader [Room] : Reader (Uncompressed σ) (Fault ε) where
  read size u := u.read src size
  remaining u := u.remaining src
  remaining_read h := remaining_read src h

end Uncompressed

end LegacyImage.Gzip
