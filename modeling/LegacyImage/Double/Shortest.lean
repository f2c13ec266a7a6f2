import LegacyImage.Double

/-!
The shortest decimal number that reads back as a given double. All is done on one grid of eighteen
digits, on which the double lies between the first and the last number that are read as it. For one
digit, two, and so on, the two numbers of so many digits on either side of the double are tried, the
nearer one first and of two equally near ones the even one. What is found is read back once more; if
nothing were found, the exact value would be taken, and that reads back as well. So the shortest
number always reads back (`ofDecimal_shortest`).
-/

namespace LegacyImage.Double

/-- A decimal number `coefficient * 10 ^ exponent`. -/
structure Decimal where
  coefficient : Nat
  exponent : Int
deriving DecidableEq, Repr

/-- Whether the decimal number is read as the double of this rank. -/
def readsAs (rank : Nat) (d : Decimal) : Bool := rankOfDecimal d.coefficient d.exponent = rank

/-- The exponent of the leading decimal digit of a magnitude other than zero. That of the leading
binary digit leaves two to choose from. -/
def leadingExponent (units : Nat) : Int :=
  let lower := ((units.log2 : Int) - 1074) * 30103 / 100000
  let upper := lower + 1
  if 2 ^ 1074 * 10 ^ upper.toNat ≤ units * 10 ^ (-upper).toNat then upper else lower

/-- The whole multiples of a power of ten around a double: the last one that is not above it,
whether that is the double itself, and the first and the last one that are read as the double. -/
structure Grid where
  exponent : Int
  below : Nat
  exact : Bool
  first : Nat
  last : Nat

/-- The multiples of `10 ^ exponent` around the double of a rank. What is halfway to the double next
to it is read as the one whose rank is even. -/
def Grid.around (rank : Nat) (exponent : Int) : Grid :=
  let scale := 10 ^ (-exponent).toNat
  let step := 2 ^ 1074 * 10 ^ exponent.toNat
  let value := magnitude rank * scale
  let lower := (magnitude (rank - 1) + magnitude rank) * scale
  let upper := (magnitude rank + magnitude (rank + 1)) * scale
  let below := value / step
  ⟨exponent, below, below * step = value, (lower + rank % 2 + (2 * step - 1)) / (2 * step),
    (upper - rank % 2) / (2 * step)⟩

/-- The multiples of `10 ^ dropped` steps of a grid next to the double, the preferred one first. At
least one digit is dropped, so that half of such a multiple is on the grid. -/
def Grid.neighbours (g : Grid) (dropped : Nat) : List Nat :=
  let below := g.below / 10 ^ dropped
  let twice := 2 * (g.below % 10 ^ dropped)
  if twice < 10 ^ dropped ∨ twice = 10 ^ dropped ∧ g.exact ∧ below % 2 = 0 then
    [below, below + 1]
  else [below + 1, below]

/-- The decimal number without the last `dropped` digits of a grid that is read as the double. -/
def Grid.nearest? (g : Grid) (dropped : Nat) : Option Decimal :=
  ((g.neighbours dropped).find? fun n =>
    g.first ≤ n * 10 ^ dropped && n * 10 ^ dropped ≤ g.last).map (⟨·, g.exponent + dropped⟩)

def exactDecimal (units : Nat) : Decimal := ⟨units * 5 ^ 1074, -1074⟩

/-- The shortest decimal number that is read as the double of this rank. -/
def shortest (rank : Nat) : Decimal :=
  let g := Grid.around rank (leadingExponent (magnitude rank) - 17)
  let found := (List.range 17).findSome? fun (i : Nat) => g.nearest? (17 - i)
  (found.filter (readsAs rank)).getD (exactDecimal (magnitude rank))

/-! ## What is read back -/

theorem two_pow_le_five_pow (k : Nat) : 2 ^ (2 * k) ≤ 5 ^ k := by
  rw [Nat.pow_mul]
  exact Nat.pow_le_pow_left (by decide) k

theorem rankOfDecimal_neg {coefficient k : Nat} (hc : coefficient ≠ 0)
    (hl : 3 * k ≤ coefficient.log2 + 1081) :
    rankOfDecimal coefficient (-k) = nearestRank (coefficient * 2 ^ 1074) (10 ^ k) := by
  have h₁ : (-(k : Int)).toNat = 0 := by omega
  have h₂ : (- -(k : Int)).toNat = k := by omega
  unfold rankOfDecimal
  rw [if_neg hc, if_neg (by omega), h₂, if_neg (by omega), h₁, Nat.pow_zero, Nat.mul_one]

theorem readsAs_exactDecimal {rank : Nat} (h : 0 < rank) :
    readsAs rank (exactDecimal (magnitude rank)) = true := by
  have hpos := magnitude_pos h
  have h5 : ∀ k : Nat, 0 < 5 ^ k := fun _ => Nat.pow_pos (by decide)
  have h10 : ∀ k : Nat, 0 < 10 ^ k := fun _ => Nat.pow_pos (by decide)
  have hne : magnitude rank * 5 ^ 1074 ≠ 0 := Nat.ne_of_gt (Nat.mul_pos hpos (h5 1074))
  have hlog : 2 * 1074 ≤ (magnitude rank * 5 ^ 1074).log2 := by
    rw [Nat.le_log2 hne]
    exact Nat.le_trans (two_pow_le_five_pow 1074) (Nat.le_mul_of_pos_left _ hpos)
  have e : magnitude rank * 5 ^ 1074 * 2 ^ 1074 = magnitude rank * 10 ^ 1074 := by
    have tens : ∀ k : Nat, 5 ^ k * 2 ^ k = 10 ^ k := fun k => (Nat.mul_pow 5 2 k).symm
    rw [Nat.mul_assoc]
    exact congrArg _ (tens 1074)
  have r := rankOfDecimal_neg hne (by omega : 3 * 1074 ≤ _)
  rw [e, nearestRank_magnitude rank (h10 1074)] at r
  exact decide_eq_true r

theorem readsAs_filter {rank : Nat} (h : 0 < rank) (found : Option Decimal) :
    readsAs rank ((found.filter (readsAs rank)).getD (exactDecimal (magnitude rank))) = true := by
  cases hf : found.filter (readsAs rank) with
  | none => exact readsAs_exactDecimal h
  | some d => exact (Option.filter_eq_some_iff.mp hf).2

/-- The shortest decimal number is read as the double that it was made from. -/
theorem readsAs_shortest {rank : Nat} (h : 0 < rank) : readsAs rank (shortest rank) = true :=
  readsAs_filter h _

theorem ofDecimal_shortest (negative : Bool) {rank : Fin (2047 * 2 ^ 52)} (h : 0 < rank.val) :
    ofDecimal negative (shortest rank).coefficient (shortest rank).exponent =
      finite negative rank := by
  have hr : rankOfDecimal (shortest rank).coefficient (shortest rank).exponent = rank :=
    of_decide_eq_true (readsAs_shortest h)
  unfold ofDecimal
  simp only [hr, dif_pos rank.isLt]

end LegacyImage.Double
