import LegacyImage.Text

/-!
Double precision numbers as exact values. A finite double is a sign and a rank: the place of its
magnitude among all finite magnitudes, zero first. Every magnitude is a whole number of the
smallest one, `2 ^ -1074`, so rounding a fraction to the nearest double is comparing natural
numbers.
-/

namespace LegacyImage

/-- A double precision number, or none. -/
inductive Double
  | nan
  | infinite (negative : Bool)
  | finite (negative : Bool) (rank : Fin (2047 * 2 ^ 52))
deriving DecidableEq

namespace Double

/-- The magnitude of a rank, in units of `2 ^ -1074`. -/
def magnitude (rank : Nat) : Nat :=
  if rank < 2 ^ 52 then rank else (2 ^ 52 + rank % 2 ^ 52) * 2 ^ (rank / 2 ^ 52 - 1)

/-- The last rank whose magnitude is at most `units`. -/
def rankBelow (units : Nat) : Nat :=
  let dropped := units.log2 - 52
  dropped * 2 ^ 52 + units >>> dropped

/-- The rank nearest to the fraction `num / den` of a unit; halfway between two ranks, the even
one. The rank may be the one after the last, which stands for infinity. -/
def nearestRank (num den : Nat) : Nat :=
  let below := rankBelow (num / den)
  let halfway := den * (magnitude below + magnitude (below + 1))
  if 2 * num < halfway then below
  else if halfway < 2 * num then below + 1
  else if below % 2 = 0 then below else below + 1

/-- The rank nearest to `coefficient * 10 ^ exponent`. Exponents so large, or so small for the
coefficient, that the number is past all finite doubles, or nearer to zero than to any other, are
answered without computing the power. -/
def rankOfDecimal (coefficient : Nat) (exponent : Int) : Nat :=
  if coefficient = 0 then 0
  else if 400 < exponent then 2047 * 2 ^ 52
  else if coefficient.log2 + 1081 < 3 * (-exponent).toNat then 0
  else nearestRank (coefficient * 10 ^ exponent.toNat * 2 ^ 1074) (10 ^ (-exponent).toNat)

def ofDecimal (negative : Bool) (coefficient : Nat) (exponent : Int) : Double :=
  let rank := rankOfDecimal coefficient exponent
  if h : rank < 2047 * 2 ^ 52 then finite negative ⟨rank, h⟩ else infinite negative

/-- Whether the double is a number that decimal notation can write. -/
def isFinite : Double → Bool
  | finite _ _ => true
  | _ => false

/-! ## Ranks and magnitudes -/

theorem magnitude_of_lt {rank : Nat} (h : rank < 2 ^ 52) : magnitude rank = rank := if_pos h

/-- Past the first magnitudes a rank is an exponent and fifty-two bits after a leading one. -/
theorem magnitude_normal (e m : Nat) (h : m < 2 ^ 52) :
    magnitude ((e + 1) * 2 ^ 52 + m) = (2 ^ 52 + m) * 2 ^ e := by
  have hd : ((e + 1) * 2 ^ 52 + m) / 2 ^ 52 = e + 1 := by omega
  have hm : ((e + 1) * 2 ^ 52 + m) % 2 ^ 52 = m := by omega
  rw [magnitude, if_neg (by omega), hd, hm, Nat.add_sub_cancel]

theorem exists_normal {rank : Nat} (h : ¬rank < 2 ^ 52) :
    ∃ e m, m < 2 ^ 52 ∧ rank = (e + 1) * 2 ^ 52 + m :=
  ⟨rank / 2 ^ 52 - 1, rank % 2 ^ 52, Nat.mod_lt _ (by decide), by omega⟩

theorem magnitude_lt_succ (rank : Nat) : magnitude rank < magnitude (rank + 1) := by
  by_cases h : rank < 2 ^ 52
  · rw [magnitude_of_lt h]
    by_cases h' : rank + 1 < 2 ^ 52
    · rw [magnitude_of_lt h']
      exact Nat.lt_succ_self rank
    · have e : rank + 1 = (0 + 1) * 2 ^ 52 + 0 := by omega
      rw [e, magnitude_normal 0 0 (by decide)]
      omega
  · obtain ⟨e, m, hm, rfl⟩ := exists_normal h
    have hpos := Nat.two_pow_pos e
    rw [magnitude_normal e m hm]
    by_cases h' : m + 1 < 2 ^ 52
    · rw [Nat.add_assoc, magnitude_normal e (m + 1) h']
      exact Nat.mul_lt_mul_of_pos_right (by omega) hpos
    · have e' : (e + 1) * 2 ^ 52 + m + 1 = (e + 1 + 1) * 2 ^ 52 + 0 := by omega
      have two : 2 ^ (e + 1) = 2 * 2 ^ e := Nat.pow_succ'
      rw [e', magnitude_normal (e + 1) 0 (by decide), two, ← Nat.mul_assoc]
      exact Nat.mul_lt_mul_of_pos_right (by omega) hpos

theorem log2_mul_two_pow {m : Nat} (e : Nat) (h₁ : 2 ^ 52 ≤ m) (h₂ : m < 2 ^ 53) :
    (m * 2 ^ e).log2 = 52 + e := by
  have hne : m * 2 ^ e ≠ 0 := by
    have := Nat.two_pow_pos e
    have : 0 < m * 2 ^ e := Nat.mul_pos (by omega) this
    omega
  apply Nat.le_antisymm
  · have : (m * 2 ^ e).log2 < 53 + e := by
      rw [Nat.log2_lt hne, Nat.pow_add]
      exact Nat.mul_lt_mul_of_pos_right h₂ (Nat.two_pow_pos e)
    omega
  · rw [Nat.le_log2 hne, Nat.pow_add]
    exact Nat.mul_le_mul_right _ h₁

theorem rankBelow_magnitude (rank : Nat) : rankBelow (magnitude rank) = rank := by
  by_cases h : rank < 2 ^ 52
  · have hlog : rank.log2 - 52 = 0 := by
      by_cases hz : rank = 0
      · subst hz
        decide
      · have := (Nat.log2_lt hz).mpr h
        omega
    rw [magnitude_of_lt h, rankBelow, hlog]
    simp
  · obtain ⟨e, m, hm, rfl⟩ := exists_normal h
    rw [magnitude_normal e m hm, rankBelow, log2_mul_two_pow e (by omega) (by omega),
      Nat.add_sub_cancel_left, Nat.shiftRight_eq_div_pow, Nat.mul_div_cancel _ (Nat.two_pow_pos e)]
    omega

theorem nearestRank_magnitude (rank : Nat) {den : Nat} (h : 0 < den) :
    nearestRank (magnitude rank * den) den = rank := by
  have hlt : 2 * (magnitude rank * den) < den * (magnitude rank + magnitude (rank + 1)) := by
    have := Nat.mul_lt_mul_of_pos_left (magnitude_lt_succ rank) h
    rw [Nat.mul_comm (magnitude rank), Nat.mul_add]
    omega
  rw [nearestRank, Nat.mul_div_cancel _ h, rankBelow_magnitude, if_pos hlt]

theorem magnitude_pos {rank : Nat} (h : 0 < rank) : 0 < magnitude rank := by
  cases rank with
  | zero => omega
  | succ rank => exact Nat.lt_of_le_of_lt (Nat.zero_le _) (magnitude_lt_succ rank)

end Double

end LegacyImage
