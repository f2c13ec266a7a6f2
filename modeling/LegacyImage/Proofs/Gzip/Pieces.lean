import LegacyImage.Proofs.Gzip.StreamView

/-!
The pieces of an uncompressed stream. Output comes in blocks whose ends have nothing to do with the
pieces that are asked for, but no piece is shorter than asked for unless nothing is left
(`length_read`). So a stream from which some content is still to come gives just the beginning of it,
and the remainder is still to come (`Holds.read`).
-/

namespace LegacyImage.Gzip.Uncompressed

variable [Room] {σ ε : Type} {src : Reader σ ε} {v : src.View Empty}

/-! ## The length of a piece -/

/-- What was put together is as long as was wanted, unless nothing is left. -/
theorem length_fill {wanted filled : Nat} {done : List Bytes} {g g' : Gunzip σ}
    {out ready : Bytes} (hw : 0 < wanted) (hfit : FitsBlock wanted filled)
    (hg : Gunzip.Fits v g) (h : fill src wanted filled done g = (.ok out, g', ready)) :
    out.length ≤ done.flatten.length + wanted ∧
      (out.length < done.flatten.length + wanted → ready = [] ∧ Gunzip.ahead v g' = .ok []) := by
  have hreverse : ∀ pieces : List Bytes, pieces.reverse.flatten.length = pieces.flatten.length := by
    intro pieces
    simp only [List.length_flatten, List.map_reverse, List.sum_reverse]
  fun_induction fill src wanted filled done g with
  | case1 => cases h
  | case2 wanted filled done g limit g₁ hr =>
    obtain ⟨-, hahead, -, hend⟩ := Gunzip.read_eq_ok (limit_ne_zero hw hfit) hg hr
    cases h
    rw [hreverse]
    refine ⟨Nat.le_add_right _ _, ?_⟩
    intro _
    rw [(hend rfl).1, map_nil_append] at hahead
    exact ⟨rfl, hahead.symm⟩
  | case3 wanted filled done g limit b bs g₁ hr hlt ih =>
    obtain ⟨hg₁, -⟩ := Gunzip.read_eq_ok (limit_ne_zero hw hfit) hg hr
    have hrest := ih (Nat.sub_pos_of_lt hlt) (fitsBlock_next hfit hlt) hg₁ h
    rw [List.flatten_cons, List.length_append,
      show (b :: bs).length + done.flatten.length + (wanted - (b :: bs).length) =
        done.flatten.length + wanted by omega] at hrest
    exact hrest
  | case4 wanted filled done g limit b bs g₁ hr hlt =>
    cases h
    rw [hreverse, List.flatten_cons, List.length_append, List.length_take]
    omega

/-- A piece is as long as asked for, unless nothing is left after it. -/
theorem length_read {size : Int} (hn : 0 ≤ size) {u u' : Uncompressed σ} {piece : Bytes}
    (hu : Gunzip.Fits v u.gunzip) (h : u.read src size = (.ok piece, u')) :
    piece.length ≤ size.toNat ∧ (piece.length < size.toNat → ahead v u' = .ok []) := by
  obtain ⟨g, ready, closed⟩ := u
  unfold read at h
  split at h
  · cases h
  split at h
  · cases h
  rw [if_neg (by omega)] at h
  dsimp only at h hu
  split at h
  · rename_i hlen
    cases h
    exact ⟨Nat.le_of_eq hlen, fun hlt => absurd hlen (Nat.ne_of_lt hlt)⟩
  rename_i hlen
  have hw : 0 < size.toNat - ready.length := by
    rw [List.length_take] at hlen
    omega
  split at h
  · cases h
  split at h
  · cases h
  · rename_i out g' ready' hfill
    cases h
    obtain ⟨hle, hend⟩ := length_fill hw (Or.inl rfl) hu hfill
    rw [List.flatten_nil, List.length_nil, Nat.zero_add] at hle hend
    rw [List.length_append]
    refine ⟨by omega, ?_⟩
    intro hlt
    obtain ⟨rfl, hahead⟩ := hend (by omega)
    rw [ahead, hahead]
    rfl

/-! ## What is still to come -/

omit [Room] in
/-- Where a beginning ends exactly or nothing is left after it, it is cut off there. -/
theorem take_drop_append {piece rest : Bytes} {n : Nat} (hle : piece.length ≤ n)
    (hend : piece.length < n → rest = []) :
    (piece ++ rest).take n = piece ∧ (piece ++ rest).drop n = rest := by
  rcases Nat.lt_or_eq_of_le hle with hlt | rfl
  · rw [hend hlt, List.append_nil]
    exact ⟨List.take_of_length_le hle, List.drop_eq_nil_of_le hle⟩
  · exact ⟨List.take_left, List.drop_left⟩

/-- Whether just this content is still to come from a stream, and nothing can go wrong. -/
structure Holds (v : src.View Empty) (content : Bytes) (u : Uncompressed σ) : Prop where
  fits : Gunzip.Fits v u.gunzip
  sound : IsSound v u
  ahead : ahead v u = .ok content

variable {content : Bytes} {u : Uncompressed σ}

/-- A piece for which there is room is the beginning of what is still to come. -/
theorem Holds.read (h : Holds v content u) {size : Int} (hn : 0 ≤ size)
    (hroom : size < Room.bound) :
    ∃ u', u.read src size = (.ok (content.take size.toNat), u') ∧
      Holds v (content.drop size.toNat) u' := by
  cases hr : u.read src size with
  | mk result u' =>
    cases result with
    | error e =>
      obtain ⟨f, hf, -⟩ := read_eq_error hn hroom h.fits h.sound hr
      rw [h.ahead] at hf
      cases hf
    | ok piece =>
      obtain ⟨hfits, hahead, hsound, -⟩ := read_eq_ok hn h.fits hr
      obtain ⟨hle, hend⟩ := length_read hn h.fits hr
      rw [h.ahead] at hahead
      cases hrest : Uncompressed.ahead v u' with
      | error f =>
        rw [hrest] at hahead
        cases hahead
      | ok rest =>
        rw [hrest] at hahead
        obtain rfl := Except.ok.inj hahead
        have hnil : piece.length < size.toNat → rest = [] :=
          fun hlt => Except.ok.inj (hrest.symm.trans (hend hlt))
        obtain ⟨htake, hdrop⟩ := take_drop_append hle hnil
        rw [htake, hdrop]
        exact ⟨u', rfl, hfits, hsound.mp h.sound, hrest⟩

/-- All there is is what is still to come. -/
theorem Holds.read_all (h : Holds v content u) :
    ∃ u', u.read src (-1) = (.ok content, u') ∧ Holds v [] u' := by
  have hall := (read_all_eq_ok_iff h.fits content).mpr ⟨h.sound, h.ahead⟩
  obtain ⟨hfits, hsound, -, hend⟩ := ahead_of_read_all h.fits (Prod.ext hall rfl)
  exact ⟨_, Prod.ext hall rfl, hfits, hsound, hend⟩

end LegacyImage.Gzip.Uncompressed
