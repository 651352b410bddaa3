import OffchainStorage.Arithmetic.PerThing
import Mathlib

/-!
# `Fixed64`

A `Fixed64` is an `i64` count of billionths.  `from_rational` multiplies the
numerator by the accuracy in `i128`, divides toward zero by the denominator,
at least one, and converts back, with `max_value()` for a quotient that does
not fit; `Div` hands the signs to `from_rational`, negating both sides for a
negative divisor.  `saturated_multiply_accumulate` adds `x * int` to an
unsigned `int`: the whole part of `|x|` times `int`, saturated, and its
fraction as a `Perbill` times `int`, added to `int` or taken from it.

A quotient below `i64::MIN` becomes `max_value()`, of the other sign, and
`Div` overflows on `i64::MIN` (`fixed64_saturation_loses_sign`); quotients in
range are the truncated ones (`fromRational_of_within`, `div_of_within`).
`saturated_multiply_accumulate` never panics and is within one half of the
exact `int + x * int` clamped to `N` (`accumulate_scaled`).

Panics are `none`, as in a debug build.
-/

namespace OffchainStorage.Arithmetic

open RustInt Rounding

/-- `Fixed64(i64)`: parts of a billionth. -/
structure Fixed64 where
  parts : Int
  lower : -2 ^ 63 ≤ parts
  upper : parts < 2 ^ 63
  deriving DecidableEq

namespace Fixed64

/-- `DIV`, the parts of one. -/
def accuracy : Int :=
  1_000_000_000

/-- `Bounded::max_value()`. -/
def maxValue : Fixed64 :=
  ⟨2 ^ 63 - 1, by decide, by decide⟩

/-- `value.try_into()` from `i128`. -/
def tryInto (value : Int) : Option Fixed64 :=
  if fits : -2 ^ 63 ≤ value ∧ value < 2 ^ 63 then some ⟨value, fits.1, fits.2⟩ else none

/-- `from_rational(n, d)`: the quotient toward zero, in `i128`, with
`max_value()` when it does not fit `i64`. -/
def fromRational (n : Int) (d : Nat) : Fixed64 :=
  (tryInto ((saturatingMulSigned 128 n accuracy).tdiv (max (d : Int) 1))).getD maxValue

/-- `impl Div`: a zero divisor panics, and for a negative one `-self.0` and
`rhs.0.abs()` overflow at `i64::MIN`. -/
def div (self rhs : Fixed64) : Option Fixed64 :=
  if rhs.parts = 0 then none
  else do
    let (n, d) ← if rhs.parts < 0 then do
        let n ← checkedNeg 64 self.parts
        let d ← checkedAbs 64 rhs.parts
        pure (n, d.toNat)
      else pure (self.parts, rhs.parts.toNat)
    pure (fromRational n d)

/-- `saturated_multiply_accumulate::<N>` for an unsigned `N` of `bits` bits. -/
def saturatedMultiplyAccumulate (bits : Nat) (self : Fixed64) (int : Nat) : Option Nat := do
  let div := accuracy.toNat
  let positive := self.parts > 0
  -- `checked_abs` fails only at `i64::MIN`, whose absolute value is `2 ^ 63`
  let parts := ((checkedAbs 64 self.parts).map Int.toNat).getD (2 ^ 63 - 1 + 1)
  let naturalParts := parts / div
  let naturalParts := saturatedInto bits naturalParts
  let perbillParts := cast 32 (parts % div)
  let n := saturatingMul bits int naturalParts
  let p ← (PerThing.fromParts PerThingType.perbill perbillParts).mul bits int
  let excess := saturatingAdd bits n p
  pure (if positive then saturatingAdd bits int excess else int - excess)

/-! ## `from_rational` and `Div` -/

section Rational

/-- An `i64` numerator times the accuracy never saturates in `i128`. -/
theorem saturatingMulSigned_accuracy {n : Int} (lower : -2 ^ 63 ≤ n) (upper : n < 2 ^ 63) :
    saturatingMulSigned 128 n accuracy = n * 1_000_000_000 := by
  rw [accuracy]
  exact saturatingMulSigned_of_within (by omega) (by omega)

theorem fromRational_of_within {n : Int} (lower : -2 ^ 63 ≤ n) (upper : n < 2 ^ 63) {d : Nat}
    (above : -2 ^ 63 ≤ (n * 1_000_000_000).tdiv (max (d : Int) 1))
    (below : (n * 1_000_000_000).tdiv (max (d : Int) 1) < 2 ^ 63) :
    (fromRational n d).parts = (n * 1_000_000_000).tdiv (max (d : Int) 1) := by
  rw [fromRational, saturatingMulSigned_accuracy lower upper, tryInto, dif_pos ⟨above, below⟩]
  rfl

/-- Out of range on either side, the quotient becomes `max_value()`. -/
theorem fromRational_of_not_within {n : Int} (lower : -2 ^ 63 ≤ n) (upper : n < 2 ^ 63) {d : Nat}
    (outside : ¬ (-2 ^ 63 ≤ (n * 1_000_000_000).tdiv (max (d : Int) 1) ∧
      (n * 1_000_000_000).tdiv (max (d : Int) 1) < 2 ^ 63)) :
    fromRational n d = maxValue := by
  rw [fromRational, saturatingMulSigned_accuracy lower upper, tryInto, dif_neg outside]
  rfl

theorem div_of_pos (a : Fixed64) {b : Fixed64} (positive : 0 < b.parts) :
    a.div b = some (fromRational a.parts b.parts.toNat) := by
  rw [div, if_neg (by omega), if_neg (by omega)]
  rfl

theorem div_of_neg {a b : Fixed64} (negative : b.parts < 0) (aAbove : a.parts ≠ -2 ^ 63)
    (bAbove : b.parts ≠ -2 ^ 63) :
    a.div b = some (fromRational (-a.parts) b.parts.natAbs) := by
  rw [div, if_neg (by omega), if_pos negative, checkedNeg_of_ne aAbove, checkedAbs_of_ne bAbove]
  -- `|b| as u64` is the absolute value
  have absolute : |b.parts|.toNat = b.parts.natAbs := by
    rw [abs_of_neg negative]
    omega
  simp only [Option.bind_eq_bind, Option.bind_some, absolute]
  rfl

/-- Where no `i64` overflows, `a / b` is the quotient of the parts times the
accuracy, toward zero, or `max_value()` when that does not fit. -/
theorem div_of_within {a b : Fixed64} (nonzero : b.parts ≠ 0)
    (aAbove : b.parts < 0 → a.parts ≠ -2 ^ 63) (bAbove : b.parts ≠ -2 ^ 63) :
    a.div b = some (fromRational (if b.parts < 0 then -a.parts else a.parts) b.parts.natAbs) ∧
      (a.parts * 1_000_000_000).tdiv b.parts =
        ((if b.parts < 0 then -a.parts else a.parts) * 1_000_000_000).tdiv (max (b.parts.natAbs : Int) 1) := by
  by_cases negative : b.parts < 0
  · rw [if_pos negative, div_of_neg negative (aAbove negative) bAbove]
    -- both sides negated: the quotient toward zero is the same
    have absolute : max (b.parts.natAbs : Int) 1 = -b.parts := by omega
    rw [absolute, Int.neg_mul, Int.neg_tdiv_neg]
    exact ⟨rfl, rfl⟩
  · have positive : 0 < b.parts := by omega
    rw [if_neg negative, div_of_pos a positive]
    have absolute : max (b.parts.natAbs : Int) 1 = b.parts := by omega
    have toNat : b.parts.toNat = b.parts.natAbs := by omega
    rw [absolute, toNat]
    exact ⟨rfl, rfl⟩

theorem fixed64_saturation_loses_sign :
    (∀ (n : Int) (d : Nat), -2 ^ 63 ≤ n → n < 2 ^ 63 →
        (n * 1_000_000_000).tdiv (max (d : Int) 1) < -2 ^ 63 → (fromRational n d).parts = 2 ^ 63 - 1) ∧
      (∀ a b : Fixed64, a.parts = -2 ^ 63 → b.parts < 0 → a.div b = none) ∧
      ∀ a b : Fixed64, b.parts = -2 ^ 63 → a.div b = none := by
  refine ⟨fun n d lower upper negative => ?_, fun a b least negative => ?_, fun a b least => ?_⟩
  · rw [fromRational_of_not_within lower upper (by omega)]
    rfl
  · -- `-self.0` overflows
    have noNeg : checkedNeg 64 a.parts = none := if_pos least
    rw [div, if_neg (by omega), if_pos negative, noNeg]
    rfl
  · -- `rhs.0.abs()` overflows, or `-self.0` before it
    have noAbs : checkedAbs 64 b.parts = none := if_pos least
    rw [div, if_neg (by omega), if_pos (by omega)]
    cases checkedNeg 64 a.parts with
    | none => rfl
    | some n => simp [noAbs]

/-- `i64::MIN` divided by `1`: its quotient is below `i64::MIN` and becomes
`max_value()`; divided by `-1` it overflows, and so does `1` divided by
`i64::MIN`. -/
theorem fixed64_min_loses_sign :
    (fromRational (-2 ^ 63) 1).parts = 2 ^ 63 - 1 ∧
      (⟨-2 ^ 63, by decide, by decide⟩ : Fixed64).div ⟨-1_000_000_000, by decide, by decide⟩ = none ∧
      (⟨1_000_000_000, by decide, by decide⟩ : Fixed64).div ⟨-2 ^ 63, by decide, by decide⟩ = none :=
  ⟨fixed64_saturation_loses_sign.1 _ _ (by decide) (by decide) (by decide),
    fixed64_saturation_loses_sign.2.1 _ _ rfl (by decide), fixed64_saturation_loses_sign.2.2 _ _ rfl⟩

end Rational

/-! ## `saturated_multiply_accumulate` -/

section Accumulate

/-- `checked_abs`, with `i64::MIN` mapped to `2 ^ 63`: the absolute value of
the parts. -/
theorem absParts_eq (x : Fixed64) :
    ((checkedAbs 64 x.parts).map Int.toNat).getD (2 ^ 63 - 1 + 1) = x.parts.natAbs := by
  by_cases least : x.parts = -2 ^ 63
  · rw [show checkedAbs 64 x.parts = none from if_pos least, least]
    rfl
  · rw [checkedAbs_of_ne least, Option.map_some, Option.getD_some, ← Int.natCast_natAbs, Int.toNat_natCast]

/-- What `saturated_multiply_accumulate` computes: the whole part of `|x|`
times `int` and the `Perbill` product of its fraction, a rounding of the
fraction's exact share, added with saturation to `int` or taken from it. -/
theorem saturatedMultiplyAccumulate_eq (x : Fixed64) {bits int : Nat} (fits : int < 2 ^ bits) :
    ∃ p excess, NearestTiesDown (x.parts.natAbs % 1_000_000_000 * int) 1_000_000_000 p ∧ p ≤ int ∧
      excess = min (min (int * min (x.parts.natAbs / 1_000_000_000) (2 ^ bits - 1)) (2 ^ bits - 1) + p)
        (2 ^ bits - 1) ∧
      x.saturatedMultiplyAccumulate bits int =
        some (if 0 < x.parts then min (int + excess) (2 ^ bits - 1) else int - excess) := by
  have valid : PerThingType.perbill.Valid := PerThingType.valid_of_mem (by decide)
  have fraction : x.parts.natAbs % 1_000_000_000 < 1_000_000_000 := Nat.mod_lt _ (by decide)
  -- the fraction is a `Perbill` as it is, below the accuracy
  have perbill : (PerThing.fromParts PerThingType.perbill (x.parts.natAbs % 1_000_000_000)).parts =
      x.parts.natAbs % 1_000_000_000 := by
    rw [PerThing.fromParts_parts valid]
    exact min_eq_left (Nat.le_of_lt fraction)
  obtain ⟨p, product, nearest, pLe⟩ := PerThing.mul_spec valid (perbill ▸ Nat.le_of_lt fraction) fits
  rw [perbill] at nearest
  refine ⟨p, _, nearest, pLe, rfl, ?_⟩
  have small : x.parts.natAbs % 1_000_000_000 < 2 ^ 32 := by omega
  simp only [saturatedMultiplyAccumulate, absParts_eq, show accuracy.toNat = 1_000_000_000 from rfl,
    cast_of_lt small, product, Option.bind_eq_bind, Option.bind_some]
  rfl

/-- Adding to `int`: the saturated sum, scaled by twice the accuracy, is
within one accuracy of the exact sum clamped to `M`. -/
theorem accumulate_up {M int a f p : Nat} (intLe : int ≤ M)
    (nearest : NearestTiesDown (f * int) 1_000_000_000 p) (pLe : p ≤ int) :
    2 * min (1_000_000_000 * int + (1_000_000_000 * a + f) * int) (1_000_000_000 * M) ≤
        2 * 1_000_000_000 * min (int + min (min (int * min a M) M + p) M) M + 1_000_000_000 ∧
      2 * 1_000_000_000 * min (int + min (min (int * min a M) M + p) M) M ≤
        2 * min (1_000_000_000 * int + (1_000_000_000 * a + f) * int) (1_000_000_000 * M) + 1_000_000_000 := by
  obtain ⟨below, above⟩ := nearest
  have expand : (1_000_000_000 * a + f) * int = 1_000_000_000 * (a * int) + f * int := by ring
  rw [expand]
  rcases Nat.eq_zero_or_pos int with rfl | positive
  · have none : p = 0 := by omega
    subst none
    simp
  · by_cases small : a ≤ M
    · rw [min_eq_left small, Nat.mul_comm int a]
      omega
    · have atLeast : M ≤ int * M := Nat.le_mul_of_pos_left M positive
      have larger : int * M ≤ a * int := by
        rw [Nat.mul_comm a]
        exact Nat.mul_le_mul_left _ (by omega)
      rw [min_eq_right (by omega : M ≤ a)]
      omega

/-- Taking from `int`: the same for the difference, clamped at zero. -/
theorem accumulate_down {M int a f p : Nat} (intLe : int ≤ M)
    (nearest : NearestTiesDown (f * int) 1_000_000_000 p) (pLe : p ≤ int) :
    2 * max 0 (1_000_000_000 * (int : Int) - ((1_000_000_000 * a + f) * int : Nat)) ≤
        2 * 1_000_000_000 * ((int - min (min (int * min a M) M + p) M : Nat) : Int) + 1_000_000_000 ∧
      2 * 1_000_000_000 * ((int - min (min (int * min a M) M + p) M : Nat) : Int) ≤
        2 * max 0 (1_000_000_000 * (int : Int) - ((1_000_000_000 * a + f) * int : Nat)) + 1_000_000_000 := by
  obtain ⟨below, above⟩ := nearest
  have expand : (1_000_000_000 * a + f) * int = 1_000_000_000 * (a * int) + f * int := by ring
  rw [expand]
  rcases Nat.eq_zero_or_pos int with rfl | positive
  · have none : p = 0 := by omega
    subst none
    simp
  · by_cases small : a ≤ M
    · rw [min_eq_left small, Nat.mul_comm int a]
      omega
    · have atLeast : M ≤ int * M := Nat.le_mul_of_pos_left M positive
      have larger : int * M ≤ a * int := by
        rw [Nat.mul_comm a]
        exact Nat.mul_le_mul_left _ (by omega)
      rw [min_eq_right (by omega : M ≤ a)]
      omega

theorem saturated_multiply_accumulate_close (x : Fixed64) {bits int : Nat} (fits : int < 2 ^ bits) :
    ∃ result, x.saturatedMultiplyAccumulate bits int = some result ∧
      |(result : ℝ) - max 0 (min ((int : ℝ) + (x.parts : ℝ) / 1_000_000_000 * int) (2 ^ bits - 1))| ≤ 1 := by
  obtain ⟨p, excess, nearest, pLe, rfl, computed⟩ := saturatedMultiplyAccumulate_eq x fits
  have intLe : int ≤ 2 ^ bits - 1 := by omega
  refine ⟨_, computed, ?_⟩
  have whole := Nat.div_add_mod x.parts.natAbs 1_000_000_000
  have maximum : ((2 : ℝ) ^ bits - 1) = ((2 ^ bits - 1 : Nat) : ℝ) := by
    rw [Nat.cast_sub Nat.one_le_two_pow, Nat.cast_pow]
    norm_num
  rw [maximum]
  generalize 2 ^ bits - 1 = M at intLe ⊢
  generalize x.parts.natAbs / 1_000_000_000 = a at whole ⊢
  generalize x.parts.natAbs % 1_000_000_000 = f at whole nearest ⊢
  refine le_trans ?_ (by norm_num : (1 / 2 : ℝ) ≤ 1)
  by_cases positive : 0 < x.parts
  · obtain ⟨above, below⟩ := accumulate_up intLe nearest pLe
    have parts : (x.parts : ℝ) = ((1_000_000_000 * a + f : Nat) : ℝ) := by
      rw [whole, ← Int.cast_natCast, Int.natAbs_of_nonneg positive.le]
    -- the clamped exact value is the scaled bound over the accuracy
    have clamped : max 0 (min ((int : ℝ) + (x.parts : ℝ) / 1_000_000_000 * int) (M : ℝ)) =
        ((min (1_000_000_000 * int + (1_000_000_000 * a + f) * int) (1_000_000_000 * M) : Nat) : ℝ) /
          1_000_000_000 := by
      rw [parts, max_eq_right (by positivity)]
      push_cast
      rw [← min_div_div_right (by norm_num)]
      congr 1
      · field_simp
      · field_simp
    rw [if_pos positive, clamped]
    exact abs_sub_div_le_half (by norm_num) (by exact_mod_cast above) (by exact_mod_cast below)
  · obtain ⟨above, below⟩ := accumulate_down intLe nearest pLe
    have parts : (x.parts : ℝ) = -((1_000_000_000 * a + f : Nat) : ℝ) := by
      rw [whole, ← Int.cast_natCast, Int.ofNat_natAbs_of_nonpos (not_lt.mp positive), Int.cast_neg,
        neg_neg]
    have clamped : max 0 (min ((int : ℝ) + (x.parts : ℝ) / 1_000_000_000 * int) (M : ℝ)) =
        ((max 0 (1_000_000_000 * (int : Int) - ((1_000_000_000 * a + f) * int : Nat)) : Int) : ℝ) /
          1_000_000_000 := by
      have atMost : (int : ℝ) + (x.parts : ℝ) / 1_000_000_000 * int ≤ M := by
        rw [parts]
        have : (int : ℝ) ≤ M := by exact_mod_cast intLe
        have : (0 : ℝ) ≤ ((1_000_000_000 * a + f : Nat) : ℝ) / 1_000_000_000 * int := by positivity
        linarith
      rw [min_eq_left atMost, parts]
      push_cast
      rw [← max_div_div_right (by norm_num), zero_div]
      congr 1
      field_simp
      ring
    rw [if_neg positive, clamped]
    exact abs_sub_div_le_half (by norm_num) (by exact_mod_cast above) (by exact_mod_cast below)

/-- `from_rational(100, 2).saturated_multiply_accumulate(10u32)` of the
source's test. -/
theorem saturated_multiply_accumulate_fifty :
    (10 : Nat) < 2 ^ 32 ∧
      ∃ result, (fromRational 100 2).saturatedMultiplyAccumulate 32 10 = some result ∧
        |(result : ℝ) - max 0 (min (((10 : Nat) : ℝ) + ((fromRational 100 2).parts : ℝ) / 1_000_000_000 * (10 : Nat))
          (2 ^ 32 - 1))| ≤ 1 :=
  ⟨by decide, saturated_multiply_accumulate_close (fromRational 100 2) (by decide)⟩

example : (fromRational 100 2).saturatedMultiplyAccumulate 32 10 = some 510 := by
  decide

end Accumulate

end Fixed64

end OffchainStorage.Arithmetic
