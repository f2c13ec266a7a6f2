import LegacyImage.Double

/-!
Rounding depends on the decimal number and not on how it is split into coefficient and exponent
(`ofDecimal_scale`). The bounds past which no power is computed agree with rounding: what they answer
is what rounding would.
-/

namespace LegacyImage.Double

/-! ## Ranks below a magnitude -/

theorem magnitude_le_of_le {r s : Nat} (h : r ≤ s) : magnitude r ≤ magnitude s := by
  induction h with
  | refl => exact Nat.le_refl _
  | step _ ih => exact Nat.le_trans ih (Nat.le_of_lt (magnitude_lt_succ _))

/-- A leading one and fifty-two bits after it, or the power of two that follows on these. -/
theorem magnitude_leading {q : Nat} (e : Nat) (hlow : 2 ^ 52 ≤ q) (hhigh : q ≤ 2 ^ 53) :
    magnitude (e * 2 ^ 52 + q) = q * 2 ^ e := by
  by_cases hq : q = 2 ^ 53
  · have hrank : e * 2 ^ 52 + q = (e + 1 + 1) * 2 ^ 52 + 0 := by omega
    have htwo : 2 ^ (e + 1) = 2 * 2 ^ e := Nat.pow_succ'
    rw [hrank, magnitude_normal (e + 1) 0 (by decide), htwo, hq]
    omega
  · have hrank : e * 2 ^ 52 + q = (e + 1) * 2 ^ 52 + (q - 2 ^ 52) := by omega
    rw [hrank, magnitude_normal e (q - 2 ^ 52) (by omega), Nat.add_sub_cancel' hlow]

theorem lt_magnitude_rankBelow (units : Nat) : units < magnitude (rankBelow units + 1) := by
  by_cases hsmall : units < 2 ^ 52
  · have hself : rankBelow units = units := by
      have := rankBelow_magnitude units
      rwa [magnitude_of_lt hsmall] at this
    have hlt := magnitude_lt_succ units
    rw [magnitude_of_lt hsmall] at hlt
    rwa [hself]
  · have hne : units ≠ 0 := by omega
    have hlog : 52 ≤ units.log2 := (Nat.le_log2 hne).mpr (by omega)
    obtain ⟨e, he⟩ : ∃ e, units.log2 = 52 + e := ⟨units.log2 - 52, by omega⟩
    have hpos := Nat.two_pow_pos e
    have hlow : 2 ^ 52 ≤ units / 2 ^ e := by
      rw [Nat.le_div_iff_mul_le hpos, ← Nat.pow_add, ← he]
      exact Nat.log2_self_le hne
    have hhigh : units / 2 ^ e < 2 ^ 53 := by
      rw [Nat.div_lt_iff_lt_mul hpos, ← Nat.pow_add]
      have hlt := Nat.lt_log2_self (n := units)
      rwa [he, show 52 + e + 1 = 53 + e by omega] at hlt
    rw [rankBelow, he, Nat.add_sub_cancel_left, Nat.shiftRight_eq_div_pow, Nat.add_assoc,
      magnitude_leading e (by omega) (by omega), Nat.mul_comm]
    exact Nat.lt_mul_div_succ units hpos

theorem le_rankBelow {rank units : Nat} (h : magnitude rank ≤ units) : rank ≤ rankBelow units := by
  refine Nat.le_of_not_lt ?_
  intro hlt
  have hle := magnitude_le_of_le (show rankBelow units + 1 ≤ rank by omega)
  have habove := lt_magnitude_rankBelow units
  omega

/-! ## The nearest rank -/

/-- What is at least the magnitude of a rank is nearest to that one or a later one. -/
theorem le_nearestRank {rank num den : Nat} (hden : 0 < den) (h : magnitude rank * den ≤ num) :
    rank ≤ nearestRank num den := by
  have hbelow : rank ≤ rankBelow (num / den) :=
    le_rankBelow ((Nat.le_div_iff_mul_le hden).mpr h)
  unfold nearestRank
  dsimp only
  split
  · exact hbelow
  split
  · omega
  split <;> omega

/-- What is less than half of the smallest magnitude is nearest to zero. -/
theorem nearestRank_eq_zero {num den : Nat} (h : 2 * num < den) : nearestRank num den = 0 := by
  have hzero : num / den = 0 := Nat.div_eq_of_lt (by omega)
  have hbelow : rankBelow 0 = 0 := rankBelow_magnitude 0
  have hhalfway : magnitude 0 + magnitude 1 = 1 := rfl
  rw [nearestRank, hzero, hbelow, Nat.zero_add, hhalfway, Nat.mul_one, if_pos h]

theorem nearestRank_mul {num den s : Nat} (hs : 0 < s) :
    nearestRank (num * s) (den * s) = nearestRank num den := by
  have hlt : ∀ a b : Nat, a * s < b * s ↔ a < b := fun a b => Nat.mul_lt_mul_right hs
  unfold nearestRank
  dsimp only
  rw [Nat.mul_div_mul_right _ _ hs, ← Nat.mul_assoc 2, Nat.mul_right_comm den s]
  simp only [hlt]

theorem nearestRank_congr {num den num' den' : Nat} (hden : 0 < den) (hden' : 0 < den')
    (h : num * den' = num' * den) : nearestRank num den = nearestRank num' den' := by
  rw [← nearestRank_mul hden', h, Nat.mul_comm den, nearestRank_mul hden]

/-! ## Decimal numbers -/

theorem two_pow_le_ten_pow (k : Nat) : 2 ^ (3 * k) ≤ 10 ^ k := by
  rw [Nat.pow_mul]
  exact Nat.pow_le_pow_left (by decide) k

/-- A decimal number so small that its power is not computed is less than half of the smallest
magnitude. -/
theorem small_lt {coefficient k bits : Nat} (h : coefficient.log2 + bits + 7 < 3 * k) :
    2 * (coefficient * 2 ^ bits) < 10 ^ k := by
  have hcoefficient : coefficient < 2 ^ (coefficient.log2 + 1) := Nat.lt_log2_self
  calc 2 * (coefficient * 2 ^ bits) = coefficient * 2 ^ (bits + 1) := by
        rw [Nat.pow_succ', Nat.mul_left_comm]
    _ < 2 ^ (coefficient.log2 + 1) * 2 ^ (bits + 1) :=
        Nat.mul_lt_mul_of_pos_right hcoefficient (Nat.two_pow_pos _)
    _ = 2 ^ (coefficient.log2 + 1 + (bits + 1)) := (Nat.pow_add ..).symm
    _ ≤ 2 ^ (3 * k) := Nat.pow_le_pow_right (by decide) (by omega)
    _ ≤ 10 ^ k := two_pow_le_ten_pow k

theorem rankOfDecimal_zero (exponent : Int) : rankOfDecimal 0 exponent = 0 := if_pos rfl

/-- Unless the exponent is past all finite doubles, the rank is the nearest one. -/
theorem rankOfDecimal_eq (coefficient : Nat) {exponent : Int} (h : exponent ≤ 400) :
    rankOfDecimal coefficient exponent =
      nearestRank (coefficient * 10 ^ exponent.toNat * 2 ^ 1074) (10 ^ (-exponent).toNat) := by
  unfold rankOfDecimal
  split
  · rename_i hzero
    have hden : 0 < 10 ^ (-exponent).toNat := Nat.pow_pos (by decide)
    generalize 2 ^ 1074 = units
    rw [hzero, Nat.zero_mul, Nat.zero_mul, nearestRank_eq_zero (by omega)]
  split
  · omega
  split
  · rename_i hsmall
    have hexponent : exponent.toNat = 0 := by omega
    rw [hexponent, Nat.pow_zero, Nat.mul_one, nearestRank_eq_zero (small_lt hsmall)]
  · rfl

/-- The rank after the last one stands for two to the power of 1024. -/
theorem magnitude_infinite : magnitude (2047 * 2 ^ 52) = 2 ^ 1024 * 2 ^ 1074 := by
  have hrank : 2047 * 2 ^ 52 = 2046 * 2 ^ 52 + 2 ^ 52 := by decide
  have hsplit : ∀ a b c d : Nat, a + b = c + d → 2 ^ a * 2 ^ b = 2 ^ c * 2 ^ d := by
    intro a b c d h
    rw [← Nat.pow_add, ← Nat.pow_add, h]
  rw [hrank, magnitude_leading 2046 (Nat.le_refl _) (by decide)]
  exact hsplit 52 2046 1024 1074 rfl

/-- A number that is past all finite doubles by its exponent and the zeros of its coefficient. -/
theorem le_rankOfDecimal {coefficient : Nat} (hc : 0 < coefficient) {j : Nat} {exponent : Int}
    (h : 400 < exponent + j) : 2047 * 2 ^ 52 ≤ rankOfDecimal (coefficient * 10 ^ j) exponent := by
  have htens : ∀ n : Nat, 0 < 10 ^ n := fun _ => Nat.pow_pos (by decide)
  by_cases hlarge : 400 < exponent
  · have hne : coefficient * 10 ^ j ≠ 0 := Nat.ne_of_gt (Nat.mul_pos hc (htens j))
    have hrank : rankOfDecimal (coefficient * 10 ^ j) exponent = 2047 * 2 ^ 52 := by
      unfold rankOfDecimal
      rw [if_neg hne, if_pos hlarge]
    exact Nat.le_of_eq hrank.symm
  · rw [rankOfDecimal_eq _ (by omega)]
    refine le_nearestRank (htens _) ?_
    have hpowers : 401 + (-exponent).toNat ≤ j + exponent.toNat := by omega
    have hpower : ∀ bits : Nat, bits ≤ 3 * 401 → 2 ^ bits ≤ 10 ^ 401 := fun bits hbits =>
      Nat.le_trans (Nat.pow_le_pow_right (by decide) hbits) (two_pow_le_ten_pow 401)
    have hinfinite := hpower 1024 (by decide)
    rw [magnitude_infinite]
    generalize 2 ^ 1074 = units
    generalize 2 ^ 1024 = infinite at hinfinite
    calc infinite * units * 10 ^ (-exponent).toNat
        = infinite * 10 ^ (-exponent).toNat * units := Nat.mul_right_comm ..
      _ ≤ 10 ^ 401 * 10 ^ (-exponent).toNat * units :=
          Nat.mul_le_mul_right _ (Nat.mul_le_mul_right _ hinfinite)
      _ = 10 ^ (401 + (-exponent).toNat) * units := by rw [Nat.pow_add]
      _ ≤ 10 ^ (j + exponent.toNat) * units :=
          Nat.mul_le_mul_right _ (Nat.pow_le_pow_right (by decide) hpowers)
      _ = 1 * 10 ^ j * 10 ^ exponent.toNat * units := by rw [Nat.pow_add, Nat.one_mul]
      _ ≤ coefficient * 10 ^ j * 10 ^ exponent.toNat * units :=
          Nat.mul_le_mul_right _ (Nat.mul_le_mul_right _ (Nat.mul_le_mul_right _ hc))

theorem rankOfDecimal_scale (coefficient j : Nat) {exponent : Int} (h : exponent + j ≤ 400) :
    rankOfDecimal (coefficient * 10 ^ j) exponent = rankOfDecimal coefficient (exponent + j) := by
  have htens : ∀ n : Nat, 0 < 10 ^ n := fun _ => Nat.pow_pos (by decide)
  have hpowers : j + exponent.toNat + (-(exponent + j)).toNat =
      (exponent + j).toNat + (-exponent).toNat := by omega
  rw [rankOfDecimal_eq _ (by omega), rankOfDecimal_eq _ h]
  refine nearestRank_congr (htens _) (htens _) ?_
  generalize 2 ^ 1074 = units
  calc coefficient * 10 ^ j * 10 ^ exponent.toNat * units * 10 ^ (-(exponent + j)).toNat
      = coefficient * 10 ^ (j + exponent.toNat + (-(exponent + j)).toNat) * units := by
        simp only [Nat.pow_add, Nat.mul_assoc, Nat.mul_comm units]
    _ = coefficient * 10 ^ ((exponent + j).toNat + (-exponent).toNat) * units := by rw [hpowers]
    _ = coefficient * 10 ^ (exponent + j).toNat * units * 10 ^ (-exponent).toNat := by
        simp only [Nat.pow_add, Nat.mul_assoc, Nat.mul_comm units]

/-- Zeros at the end of the coefficient count as the exponent does. -/
theorem ofDecimal_scale (negative : Bool) (coefficient j : Nat) (exponent : Int) :
    ofDecimal negative (coefficient * 10 ^ j) exponent =
      ofDecimal negative coefficient (exponent + j) := by
  by_cases hzero : coefficient = 0
  · unfold ofDecimal
    rw [hzero, Nat.zero_mul, rankOfDecimal_zero, rankOfDecimal_zero]
  by_cases hlarge : exponent + j ≤ 400
  · unfold ofDecimal
    rw [rankOfDecimal_scale coefficient j hlarge]
  · have hpast : 400 < exponent + j := by omega
    have hleft := le_rankOfDecimal (Nat.pos_of_ne_zero hzero) hpast
    have hright : rankOfDecimal coefficient (exponent + j) = 2047 * 2 ^ 52 := by
      unfold rankOfDecimal
      rw [if_neg hzero, if_pos hpast]
    unfold ofDecimal
    dsimp only
    rw [dif_neg (Nat.not_lt.mpr hleft), dif_neg (Nat.not_lt.mpr (Nat.le_of_eq hright.symm))]

end LegacyImage.Double
