import OffchainStorage.Lib.RustInt
import OffchainStorage.Lib.Rounding

/-!
# `multiply_by_rational` and `Rational128`

`multiply_by_rational(a, b, c)` computes `a * b / c` in `u128`.  When the
product overflows it goes through big numbers, and there the quotient is
truncated when `c` fits one 32-bit limb and rounded to the nearest integer,
ties toward zero, otherwise.

`Rational128` is a pair of `u128`s.  Its lazy additions and subtractions act on
the numerators alone and keep the left denominator; its comparisons
cross-multiply exactly.  `checked_add` and `checked_sub` scale both sides to
the least common denominator, which `lcm` computes from the binary `gcd`
through `multiply_by_rational`: every divisor there divides the product, so
nothing is rounded and the results are exact (`arithmetic_exact`).

`BigUint` is modelled by `Nat`: its product, `div_unit` and `div` are the
natural-number product, quotient and remainder, and `div` always succeeds here
because the product has more limbs than `c`.  The conversion of the remainder
back to `u128` is taken to succeed; `Helpers128bit` follows the limbs and shows
where it does not.
-/

namespace OffchainStorage.Arithmetic

open Rounding

namespace Helpers128bit

/-- `helpers_128bit::gcd`: Stein's binary algorithm on two `u128`s.  The
shift left of the case of two even numbers drops what leaves `u128`. -/
def gcd (a b : Nat) : Nat :=
  if a = b then b
  else if a = 0 then b
  else if b = 0 then a
  else if a % 2 = 0 ∧ b % 2 = 1 then gcd (a / 2) b
  else if a % 2 = 1 ∧ b % 2 = 0 then gcd (b / 2) a
  else if a % 2 = 0 ∧ b % 2 = 0 then gcd (a / 2) (b / 2) * 2 % 2 ^ 128
  else gcd ((max a b - min a b) / 2) (min a b)
termination_by a + b
decreasing_by all_goals omega

/-- Halving an even number keeps its gcd with an odd one. -/
theorem gcd_half_of_odd {a b : Nat} (even : a % 2 = 0) (odd : b % 2 = 1) :
    Nat.gcd (a / 2) b = Nat.gcd a b := by
  have double : 2 * (a / 2) = a := by omega
  have coprime : Nat.Coprime 2 b := Nat.coprime_two_left.mpr (Nat.odd_iff.mpr odd)
  rw [← Nat.Coprime.gcd_mul_left_cancel (a / 2) coprime, double]

/-- The binary recursion computes the greatest common divisor of two `u128`s. -/
theorem gcd_eq (a b : Nat) (aFits : a < 2 ^ 128) (bFits : b < 2 ^ 128) : gcd a b = Nat.gcd a b := by
  induction a, b using gcd.induct with
  | case1 a => rw [gcd, if_pos rfl, Nat.gcd_self]
  | case2 b different => rw [gcd, if_neg different, if_pos rfl, Nat.gcd_zero_left]
  | case3 a different nonzero => rw [gcd, if_neg different, if_neg nonzero, if_pos rfl, Nat.gcd_zero_right]
  | case4 a b different nonzero bNonzero parities ih =>
    rw [gcd, if_neg different, if_neg nonzero, if_neg bNonzero, if_pos parities,
      ih (by omega) bFits, gcd_half_of_odd parities.1 parities.2]
  | case5 a b different nonzero bNonzero notFirst parities ih =>
    rw [gcd, if_neg different, if_neg nonzero, if_neg bNonzero, if_neg notFirst, if_pos parities,
      ih (by omega) aFits, gcd_half_of_odd parities.2 parities.1, Nat.gcd_comm]
  | case6 a b different nonzero bNonzero notFirst notSecond parities ih =>
    rw [gcd, if_neg different, if_neg nonzero, if_neg bNonzero, if_neg notFirst, if_neg notSecond,
      if_pos parities, ih (by omega) (by omega)]
    -- both halves share the factor two, and the gcd is at most `a`, below `2 ^ 128`
    have doubled : Nat.gcd (a / 2) (b / 2) * 2 = Nat.gcd a b := by
      rw [← Nat.gcd_mul_right, Nat.div_mul_cancel (Nat.dvd_of_mod_eq_zero parities.1),
        Nat.div_mul_cancel (Nat.dvd_of_mod_eq_zero parities.2)]
    have bounded : Nat.gcd a b ≤ a := Nat.gcd_le_left b (by omega)
    rw [doubled, Nat.mod_eq_of_lt (by omega)]
  | case7 a b different nonzero bNonzero notFirst notSecond notBoth ih =>
    rw [gcd, if_neg different, if_neg nonzero, if_neg bNonzero, if_neg notFirst, if_neg notSecond,
      if_neg notBoth, ih (by omega) (by omega)]
    -- both odd: the halved difference keeps the gcd with the smaller one
    have odd : min a b % 2 = 1 := by omega
    have evenDifference : (max a b - min a b) % 2 = 0 := by omega
    rw [gcd_half_of_odd evenDifference odd, Nat.gcd_sub_self_left (min_le_max)]
    rcases le_total a b with ordered | ordered
    · rw [min_eq_left ordered, max_eq_right ordered]
      exact Nat.gcd_comm b a
    · rw [min_eq_right ordered, max_eq_left ordered]

end Helpers128bit

/-- Two comparisons agree when their strict orders agree both ways. -/
theorem compare_eq_of_lt_iff {α β : Type} [LinearOrder α] [LinearOrder β] {a b : α} {c d : β}
    (lt : a < b ↔ c < d) (gt : b < a ↔ d < c) : compare a b = compare c d := by
  rcases lt_trichotomy a b with smaller | same | larger
  · rw [compare_lt_iff_lt.mpr smaller, compare_lt_iff_lt.mpr (lt.mp smaller)]
  · subst same
    have equal : c = d :=
      le_antisymm (not_lt.mp fun above => lt_irrefl a (gt.mpr above))
        (not_lt.mp fun below => lt_irrefl a (lt.mpr below))
    rw [compare_eq_iff_eq.mpr rfl, compare_eq_iff_eq.mpr equal]
  · rw [compare_gt_iff_gt.mpr larger, compare_gt_iff_gt.mpr (gt.mp larger)]

/-- `u128::max_value()`, also `DEN` of the Phragmén loads. -/
def u128Max : Nat :=
  2 ^ 128 - 1

def multiplyByRational (a b c : Nat) : Except String Nat :=
  if a = 0 ∨ b = 0 then .ok 0 else
    let c := max c 1
    -- the bigger factor first
    let (a, b) := if b > a then (b, a) else (a, b)
    -- divide first where `c` divides a factor
    let (a, b, c) :=
      if a % c = 0 then (a / c, b, 1) else if b % c = 0 then (a, b / c, 1) else (a, b, c)
    match RustInt.checkedMul 128 a b with
    | some x => .ok (x / c)
    | none =>
      -- `div_unit` for a one-limb `c`; otherwise `div`, then one more when `r > c / 2`
      let q := if c < 2 ^ 32 then a * b / c else roundTiesDown (a * b) c
      if q < 2 ^ 128 then .ok q else .error "result cannot fit in u128"

/-- The quotient `multiply_by_rational` rounds to: exact when the product fits,
the divisor fits one limb or divides a factor, and otherwise rounded to the
nearest integer, ties toward zero. -/
def multiplyQuotient (a b c : Nat) : Nat :=
  if a * b < 2 ^ 128 ∨ c < 2 ^ 32 ∨ c ∣ a ∨ c ∣ b then a * b / c else roundTiesDown (a * b) c

theorem multiplyQuotient_comm (a b c : Nat) : multiplyQuotient a b c = multiplyQuotient b a c := by
  unfold multiplyQuotient
  rw [Nat.mul_comm b a]
  have swapped : (a * b < 2 ^ 128 ∨ c < 2 ^ 32 ∨ c ∣ a ∨ c ∣ b) ↔
      (a * b < 2 ^ 128 ∨ c < 2 ^ 32 ∨ c ∣ b ∨ c ∣ a) := by
    tauto
  exact if_congr swapped rfl rfl

/-- `multiply_by_rational` after the factors are ordered: dividing a factor
first when `c` divides it, then the product in `u128` or in big numbers. -/
theorem multiplyByRational_ordered (a b c : Nat) :
    (let (a, b, c) :=
      if a % c = 0 then (a / c, b, 1) else if b % c = 0 then (a, b / c, 1) else (a, b, c)
    match RustInt.checkedMul 128 a b with
    | some x => (.ok (x / c) : Except String Nat)
    | none =>
      let q := if c < 2 ^ 32 then a * b / c else roundTiesDown (a * b) c
      if q < 2 ^ 128 then .ok q else .error "result cannot fit in u128") =
      if multiplyQuotient a b c < 2 ^ 128 then .ok (multiplyQuotient a b c)
      else .error "result cannot fit in u128" := by
  have oneLimb : (1 : Nat) < 2 ^ 32 := Nat.one_lt_two_pow (by decide)
  by_cases dividesFirst : a % c = 0
  · -- `a /= c`: the quotient of the product is exact
    have exact : a / c * b = a * b / c :=
      Nat.div_mul_right_comm (Nat.dvd_of_mod_eq_zero dividesFirst) b
    have quotient : multiplyQuotient a b c = a * b / c :=
      if_pos (Or.inr (Or.inr (Or.inl (Nat.dvd_of_mod_eq_zero dividesFirst))))
    rw [quotient, if_pos dividesFirst]
    dsimp only
    by_cases fits : a / c * b < 2 ^ 128
    · rw [RustInt.checkedMul_of_lt fits]
      dsimp only
      rw [Nat.div_one, exact, if_pos (exact ▸ fits)]
    · rw [RustInt.checkedMul_of_le (Nat.not_lt.mp fits)]
      dsimp only
      rw [if_pos oneLimb, Nat.div_one, exact]
  · by_cases dividesSecond : b % c = 0
    · -- `b /= c`
      have exact : a * (b / c) = a * b / c :=
        (Nat.mul_div_assoc a (Nat.dvd_of_mod_eq_zero dividesSecond)).symm
      have quotient : multiplyQuotient a b c = a * b / c :=
        if_pos (Or.inr (Or.inr (Or.inr (Nat.dvd_of_mod_eq_zero dividesSecond))))
      rw [quotient, if_neg dividesFirst, if_pos dividesSecond]
      dsimp only
      by_cases fits : a * (b / c) < 2 ^ 128
      · rw [RustInt.checkedMul_of_lt fits]
        dsimp only
        rw [Nat.div_one, exact, if_pos (exact ▸ fits)]
      · rw [RustInt.checkedMul_of_le (Nat.not_lt.mp fits)]
        dsimp only
        rw [if_pos oneLimb, Nat.div_one, exact]
    · rw [if_neg dividesFirst, if_neg dividesSecond]
      dsimp only
      by_cases fits : a * b < 2 ^ 128
      · -- the product fits, and so does its quotient
        have quotient : multiplyQuotient a b c = a * b / c := if_pos (Or.inl fits)
        have quotientFits : a * b / c < 2 ^ 128 := Nat.lt_of_le_of_lt (Nat.div_le_self _ _) fits
        rw [quotient, RustInt.checkedMul_of_lt fits, if_pos quotientFits]
      · -- big numbers: `div_unit` for one limb, `div` with rounding otherwise
        have notDividing : ¬(c ∣ a ∨ c ∣ b) := by
          rw [Nat.dvd_iff_mod_eq_zero, Nat.dvd_iff_mod_eq_zero]
          tauto
        have quotient : multiplyQuotient a b c =
            if c < 2 ^ 32 then a * b / c else roundTiesDown (a * b) c := by
          unfold multiplyQuotient
          by_cases small : c < 2 ^ 32
          · rw [if_pos (Or.inr (Or.inl small)), if_pos small]
          · rw [if_neg (by tauto), if_neg small]
        rw [quotient, RustInt.checkedMul_of_le (Nat.not_lt.mp fits)]

/-- What `multiply_by_rational` computes: `multiplyQuotient` of the factors
and the divisor read as at least one, and `Err` when it does not fit `u128`. -/
theorem multiplyByRational_eq (a b c : Nat) :
    multiplyByRational a b c =
      if multiplyQuotient a b (max c 1) < 2 ^ 128 then .ok (multiplyQuotient a b (max c 1))
      else .error "result cannot fit in u128" := by
  unfold multiplyByRational
  by_cases zero : a = 0 ∨ b = 0
  · -- a zero factor: the quotient is zero
    have product : a * b = 0 := by rcases zero with rfl | rfl <;> simp
    have quotient : multiplyQuotient a b (max c 1) = 0 := by
      unfold multiplyQuotient
      rw [product, Nat.zero_div, if_pos (Or.inl (by positivity))]
    rw [if_pos zero, quotient, if_pos (by positivity)]
  · rw [if_neg zero]
    dsimp only
    -- the bigger factor goes first; the quotient does not depend on the order
    by_cases swap : b > a
    · rw [if_pos swap]
      exact (multiplyByRational_ordered b a (max c 1)).trans
        (by rw [multiplyQuotient_comm])
    · rw [if_neg swap]
      exact multiplyByRational_ordered a b (max c 1)

/-- `multiply_by_rational` is exact when the divisor divides the product. -/
theorem multiplyByRational_of_dvd {a b c : Nat} (positive : 0 < c) (divides : c ∣ a * b) :
    multiplyByRational a b c =
      if a * b / c < 2 ^ 128 then .ok (a * b / c) else .error "result cannot fit in u128" := by
  have exact : multiplyQuotient a b c = a * b / c := by
    unfold multiplyQuotient roundTiesDown
    split
    · rfl
    · rw [Nat.mod_eq_zero_of_dvd divides, if_neg (Nat.not_lt_zero _), Nat.add_zero]
  rw [multiplyByRational_eq, Nat.max_eq_left positive, exact]

/-- `multiply_by_rational(..).unwrap_or(Bounded::max_value())`. -/
def multiplyByRationalOrMax (a b c : Nat) : Nat :=
  match multiplyByRational a b c with
  | .ok value => value
  | .error _ => u128Max

/-- A rational with a 128-bit numerator and denominator. -/
structure Rational128 where
  n : Nat
  d : Nat
  deriving DecidableEq, Repr

namespace Rational128

def zero : Rational128 :=
  ⟨0, 1⟩

/-- `Rational128::default()`, the derived default of the two `u128`s. -/
def default : Rational128 :=
  ⟨0, 0⟩

def isZero (x : Rational128) : Bool :=
  x.n == 0

def «from» (n d : Nat) : Rational128 :=
  ⟨n, max d 1⟩

def fromUnchecked (n d : Nat) : Rational128 :=
  ⟨n, d⟩

/-- `lazy_saturating_add`: assumes the denominators are equal. -/
def lazySaturatingAdd (x other : Rational128) : Rational128 :=
  if other.isZero then x else ⟨RustInt.saturatingAdd 128 x.n other.n, x.d⟩

/-- `lazy_saturating_sub`: assumes the denominators are equal. -/
def lazySaturatingSub (x other : Rational128) : Rational128 :=
  if other.isZero then x else ⟨x.n - other.n, x.d⟩

/-- `Ord::cmp`: numerators alone for equal denominators, a zero denominator
above everything else, and otherwise the exact cross products. -/
def cmp (x other : Rational128) : Ordering :=
  if x.d = other.d then compare x.n other.n
  else if x.d = 0 then .gt
  else if other.d = 0 then .lt
  else compare (x.n * other.d) (other.n * x.d)

/-- `PartialEq::eq`: numerators alone for equal denominators, and otherwise
the exact cross products. -/
def eq (x other : Rational128) : Bool :=
  if x.d = other.d then x.n == other.n else x.n * other.d == other.n * x.d

/-- `to_den`: the same rational over the denominator `den`, through
`multiply_by_rational`. -/
def toDen (x : Rational128) (den : Nat) : Except String Rational128 :=
  if den = x.d then .ok x else (multiplyByRational x.n den x.d).map fun n => ⟨n, den⟩

/-- `lcm` of the denominators: `d1 * d2 / gcd` through `multiply_by_rational`. -/
def lcm (x other : Rational128) : Except String Nat :=
  if x.d = other.d then .ok x.d
  else multiplyByRational x.d other.d (Helpers128bit.gcd x.d other.d)

/-- `checked_add`: both scaled to the least common denominator, then the
numerators added in `u128`. -/
def checkedAdd (x other : Rational128) : Except String Rational128 := do
  let lcm ← (x.lcm other).mapError fun _ => "failed to scale to denominator"
  let selfScaled ← (x.toDen lcm).mapError fun _ => "failed to scale to denominator"
  let otherScaled ← (other.toDen lcm).mapError fun _ => "failed to scale to denominator"
  let n ← match RustInt.checkedAdd 128 selfScaled.n otherScaled.n with
    | some n => .ok n
    | none => .error "overflow while adding numerators"
  pure ⟨n, selfScaled.d⟩

/-- `checked_sub`: both scaled to the least common denominator, then the
numerators subtracted in `u128`. -/
def checkedSub (x other : Rational128) : Except String Rational128 := do
  let lcm ← (x.lcm other).mapError fun _ => "failed to scale to denominator"
  let selfScaled ← (x.toDen lcm).mapError fun _ => "failed to scale to denominator"
  let otherScaled ← (other.toDen lcm).mapError fun _ => "failed to scale to denominator"
  let n ← match RustInt.checkedSub selfScaled.n otherScaled.n with
    | some n => .ok n
    | none => .error "overflow while subtracting numerators"
  pure ⟨n, selfScaled.d⟩

/-! ## The arithmetic is exact -/

/-- The rational number a pair stands for. -/
def value (x : Rational128) : ℚ :=
  x.n / x.d

/-- The least common denominator of two rationals. -/
def commonDen (x other : Rational128) : Nat :=
  Nat.lcm x.d other.d

/-- The numerator of `x` over the denominator `den`. -/
def scaledTo (x : Rational128) (den : Nat) : Nat :=
  x.n * (den / x.d)

/-- `?` after `map_err` on a step that succeeds. -/
theorem mapError_ok_bind {α β : Type} (value : α) (message : String → String)
    (rest : α → Except String β) :
    ((Except.ok value : Except String α).mapError message >>= rest) = rest value :=
  rfl

/-- `?` after `map_err` on a step that fails. -/
theorem mapError_error_bind {α β : Type} (failure : String) (message : String → String)
    (rest : α → Except String β) :
    ((Except.error failure : Except String α).mapError message >>= rest) = .error (message failure) :=
  rfl

section Exact

variable {x other : Rational128}

theorem lcm_eq (xFits : x.d < 2 ^ 128) (otherFits : other.d < 2 ^ 128) (xPositive : 0 < x.d) :
    x.lcm other =
      if commonDen x other < 2 ^ 128 then .ok (commonDen x other)
      else .error "result cannot fit in u128" := by
  unfold lcm commonDen
  split
  · rename_i same
    rw [same, Nat.lcm_self, if_pos otherFits]
  · -- the gcd divides the product, so nothing is rounded
    have gcdPositive : 0 < Nat.gcd x.d other.d := Nat.gcd_pos_of_pos_left _ xPositive
    rw [Helpers128bit.gcd_eq _ _ xFits otherFits,
      multiplyByRational_of_dvd gcdPositive (Dvd.dvd.mul_right (Nat.gcd_dvd_left _ _) _)]
    rfl

theorem toDen_eq (xFits : x.n < 2 ^ 128) (positive : 0 < x.d) {den : Nat} (divides : x.d ∣ den) :
    x.toDen den =
      if scaledTo x den < 2 ^ 128 then .ok ⟨scaledTo x den, den⟩
      else .error "result cannot fit in u128" := by
  unfold toDen scaledTo
  split
  · rename_i same
    subst same
    rw [Nat.div_self positive, Nat.mul_one, if_pos xFits]
  · -- the denominator divides the scaled numerator, so nothing is rounded
    rw [multiplyByRational_of_dvd positive (Dvd.dvd.mul_left divides _), Nat.mul_div_assoc _ divides]
    split <;> rfl

variable (xFits : x.n < 2 ^ 128) (otherFits : other.n < 2 ^ 128) (xDenFits : x.d < 2 ^ 128)
  (otherDenFits : other.d < 2 ^ 128) (xPositive : 0 < x.d) (otherPositive : 0 < other.d)
include xFits otherFits xDenFits otherDenFits xPositive otherPositive

/-- `checked_add` scales both numerators to the least common denominator and
adds them; each step that leaves `u128` is an error. -/
theorem checkedAdd_eq :
    x.checkedAdd other =
      if commonDen x other < 2 ^ 128 ∧ scaledTo x (commonDen x other) < 2 ^ 128 ∧
          scaledTo other (commonDen x other) < 2 ^ 128 then
        if scaledTo x (commonDen x other) + scaledTo other (commonDen x other) < 2 ^ 128 then
          .ok ⟨scaledTo x (commonDen x other) + scaledTo other (commonDen x other), commonDen x other⟩
        else .error "overflow while adding numerators"
      else .error "failed to scale to denominator" := by
  unfold checkedAdd
  rw [lcm_eq xDenFits otherDenFits xPositive]
  by_cases lcmFits : commonDen x other < 2 ^ 128
  · rw [if_pos lcmFits, mapError_ok_bind, toDen_eq xFits xPositive (show x.d ∣ commonDen x other from Nat.dvd_lcm_left _ _),
      toDen_eq otherFits otherPositive (show other.d ∣ commonDen x other from Nat.dvd_lcm_right _ _)]
    by_cases selfFits : scaledTo x (commonDen x other) < 2 ^ 128
    · rw [if_pos selfFits, mapError_ok_bind]
      by_cases otherScaledFits : scaledTo other (commonDen x other) < 2 ^ 128
      · rw [if_pos otherScaledFits, mapError_ok_bind, if_pos ⟨lcmFits, selfFits, otherScaledFits⟩]
        by_cases sumFits : scaledTo x (commonDen x other) + scaledTo other (commonDen x other) < 2 ^ 128
        · rw [RustInt.checkedAdd_of_lt sumFits, if_pos sumFits]
          rfl
        · rw [RustInt.checkedAdd_of_le (Nat.not_lt.mp sumFits), if_neg sumFits]
          rfl
      · rw [if_neg otherScaledFits, mapError_error_bind, if_neg (fun fits => otherScaledFits fits.2.2)]
    · rw [if_neg selfFits, mapError_error_bind, if_neg (fun fits => selfFits fits.2.1)]
  · rw [if_neg lcmFits, mapError_error_bind, if_neg (fun fits => lcmFits fits.1)]

/-- `checked_sub` scales both numerators to the least common denominator and
subtracts them; each step that leaves `u128` is an error, a negative
difference among them. -/
theorem checkedSub_eq :
    x.checkedSub other =
      if commonDen x other < 2 ^ 128 ∧ scaledTo x (commonDen x other) < 2 ^ 128 ∧
          scaledTo other (commonDen x other) < 2 ^ 128 then
        if scaledTo other (commonDen x other) ≤ scaledTo x (commonDen x other) then
          .ok ⟨scaledTo x (commonDen x other) - scaledTo other (commonDen x other), commonDen x other⟩
        else .error "overflow while subtracting numerators"
      else .error "failed to scale to denominator" := by
  unfold checkedSub
  rw [lcm_eq xDenFits otherDenFits xPositive]
  by_cases lcmFits : commonDen x other < 2 ^ 128
  · rw [if_pos lcmFits, mapError_ok_bind, toDen_eq xFits xPositive (show x.d ∣ commonDen x other from Nat.dvd_lcm_left _ _),
      toDen_eq otherFits otherPositive (show other.d ∣ commonDen x other from Nat.dvd_lcm_right _ _)]
    by_cases selfFits : scaledTo x (commonDen x other) < 2 ^ 128
    · rw [if_pos selfFits, mapError_ok_bind]
      by_cases otherScaledFits : scaledTo other (commonDen x other) < 2 ^ 128
      · rw [if_pos otherScaledFits, mapError_ok_bind, if_pos ⟨lcmFits, selfFits, otherScaledFits⟩]
        by_cases ordered : scaledTo other (commonDen x other) ≤ scaledTo x (commonDen x other)
        · rw [RustInt.checkedSub_of_le ordered, if_pos ordered]
          rfl
        · rw [if_neg ordered]
          unfold RustInt.checkedSub
          rw [if_neg ordered]
          rfl
      · rw [if_neg otherScaledFits, mapError_error_bind, if_neg (fun fits => otherScaledFits fits.2.2)]
    · rw [if_neg selfFits, mapError_error_bind, if_neg (fun fits => selfFits fits.2.1)]
  · rw [if_neg lcmFits, mapError_error_bind, if_neg (fun fits => lcmFits fits.1)]

end Exact

section Values

variable {x other : Rational128} (xPositive : 0 < x.d) (otherPositive : 0 < other.d)
include xPositive otherPositive

/-- A numerator scaled to the common denominator stands for the same
rational. -/
theorem scaledTo_div_commonDen :
    (scaledTo x (commonDen x other) : ℚ) / commonDen x other = x.value := by
  have xCast : (x.d : ℚ) ≠ 0 := by exact_mod_cast xPositive.ne'
  have commonCast : (commonDen x other : ℚ) ≠ 0 := by
    exact_mod_cast (Nat.lcm_pos xPositive otherPositive).ne'
  unfold scaledTo value commonDen at *
  rw [Nat.cast_mul, Nat.cast_div (Nat.dvd_lcm_left x.d other.d) xCast]
  field_simp

theorem value_add :
    (⟨scaledTo x (commonDen x other) + scaledTo other (commonDen x other), commonDen x other⟩ :
      Rational128).value = x.value + other.value := by
  have otherScaled : (scaledTo other (commonDen x other) : ℚ) / commonDen x other = other.value := by
    rw [show commonDen x other = commonDen other x from Nat.lcm_comm _ _]
    exact scaledTo_div_commonDen otherPositive xPositive
  rw [← scaledTo_div_commonDen xPositive otherPositive, ← otherScaled, value, Nat.cast_add, add_div]

theorem value_sub (ordered : scaledTo other (commonDen x other) ≤ scaledTo x (commonDen x other)) :
    (⟨scaledTo x (commonDen x other) - scaledTo other (commonDen x other), commonDen x other⟩ :
      Rational128).value = x.value - other.value := by
  have otherScaled : (scaledTo other (commonDen x other) : ℚ) / commonDen x other = other.value := by
    rw [show commonDen x other = commonDen other x from Nat.lcm_comm _ _]
    exact scaledTo_div_commonDen otherPositive xPositive
  rw [← scaledTo_div_commonDen xPositive otherPositive, ← otherScaled, value, Nat.cast_sub ordered, sub_div]

/-- `Ord::cmp` follows the order of the rationals. -/
theorem cmp_eq_compare : x.cmp other = compare x.value other.value := by
  have xCast : (0 : ℚ) < x.d := by exact_mod_cast xPositive
  have otherCast : (0 : ℚ) < other.d := by exact_mod_cast otherPositive
  unfold cmp value
  split
  · -- equal denominators: the numerators alone
    rename_i same
    rw [same]
    apply compare_eq_of_lt_iff <;> rw [div_lt_div_iff_of_pos_right otherCast, Nat.cast_lt]
  · -- otherwise the cross products, neither denominator being zero
    rw [if_neg xPositive.ne', if_neg otherPositive.ne']
    apply compare_eq_of_lt_iff
    · rw [div_lt_div_iff₀ xCast otherCast]
      norm_cast
    · rw [div_lt_div_iff₀ otherCast xCast]
      norm_cast

/-- `PartialEq::eq` is the equality of the rationals. -/
theorem eq_iff_value : x.eq other = true ↔ x.value = other.value := by
  have xCast : (x.d : ℚ) ≠ 0 := by exact_mod_cast xPositive.ne'
  have otherCast : (other.d : ℚ) ≠ 0 := by exact_mod_cast otherPositive.ne'
  unfold eq value
  split
  · rename_i same
    rw [same, beq_iff_eq, div_left_inj' otherCast, Nat.cast_inj]
  · rw [beq_iff_eq, div_eq_div_iff xCast otherCast]
    norm_cast

end Values

/-- For `u128` numerators and positive `u128` denominators: the binary gcd is
the greatest common divisor, `lcm` is the least common multiple exactly when it
fits, `checked_add` and `checked_sub` are exact and fail only when the common
denominator, a scaled numerator or the result leaves `u128`, and `cmp` and `eq`
follow the rational values. -/
theorem arithmetic_exact (x other : Rational128) (xFits : x.n < 2 ^ 128) (otherFits : other.n < 2 ^ 128)
    (xDenFits : x.d < 2 ^ 128) (otherDenFits : other.d < 2 ^ 128) (xPositive : 0 < x.d)
    (otherPositive : 0 < other.d) :
    Helpers128bit.gcd x.d other.d = Nat.gcd x.d other.d ∧
      (x.lcm other = .ok (Nat.lcm x.d other.d) ↔ Nat.lcm x.d other.d < 2 ^ 128) ∧
      (∀ sum, x.checkedAdd other = .ok sum → sum.value = x.value + other.value) ∧
      ((∃ sum, x.checkedAdd other = .ok sum) ↔
        commonDen x other < 2 ^ 128 ∧ scaledTo x (commonDen x other) < 2 ^ 128 ∧
          scaledTo other (commonDen x other) < 2 ^ 128 ∧
          scaledTo x (commonDen x other) + scaledTo other (commonDen x other) < 2 ^ 128) ∧
      (∀ difference, x.checkedSub other = .ok difference →
        difference.value = x.value - other.value) ∧
      ((∃ difference, x.checkedSub other = .ok difference) ↔
        commonDen x other < 2 ^ 128 ∧ scaledTo x (commonDen x other) < 2 ^ 128 ∧
          scaledTo other (commonDen x other) < 2 ^ 128 ∧
          scaledTo other (commonDen x other) ≤ scaledTo x (commonDen x other)) ∧
      x.cmp other = compare x.value other.value ∧ (x.eq other = true ↔ x.value = other.value) := by
  have added := checkedAdd_eq xFits otherFits xDenFits otherDenFits xPositive otherPositive
  have subtracted := checkedSub_eq xFits otherFits xDenFits otherDenFits xPositive otherPositive
  refine ⟨Helpers128bit.gcd_eq _ _ xDenFits otherDenFits, ?_, ?_, ?_, ?_, ?_,
    cmp_eq_compare xPositive otherPositive, eq_iff_value xPositive otherPositive⟩
  · rw [lcm_eq xDenFits otherDenFits xPositive]
    unfold commonDen
    split_ifs with fits
    · exact ⟨fun _ => fits, fun _ => rfl⟩
    · exact ⟨fun failed => (by cases failed), fun fitting => absurd fitting fits⟩
  · intro sum computed
    rw [added] at computed
    split_ifs at computed
    cases computed
    exact value_add xPositive otherPositive
  · rw [added]
    split_ifs with fits sumFits
    · exact ⟨fun _ => ⟨fits.1, fits.2.1, fits.2.2, sumFits⟩, fun _ => ⟨_, rfl⟩⟩
    · exact ⟨fun ⟨_, failed⟩ => (by cases failed), fun all => absurd all.2.2.2 sumFits⟩
    · exact ⟨fun ⟨_, failed⟩ => (by cases failed), fun all => absurd ⟨all.1, all.2.1, all.2.2.1⟩ fits⟩
  · intro difference computed
    rw [subtracted] at computed
    split_ifs at computed with fits ordered
    cases computed
    exact value_sub xPositive otherPositive ordered
  · rw [subtracted]
    split_ifs with fits ordered
    · exact ⟨fun _ => ⟨fits.1, fits.2.1, fits.2.2, ordered⟩, fun _ => ⟨_, rfl⟩⟩
    · exact ⟨fun ⟨_, failed⟩ => (by cases failed), fun all => absurd all.2.2.2 ordered⟩
    · exact ⟨fun ⟨_, failed⟩ => (by cases failed), fun all => absurd ⟨all.1, all.2.1, all.2.2.1⟩ fits⟩

theorem arithmetic_exact_half_third :
    Helpers128bit.gcd 2 3 = Nat.gcd 2 3 ∧
      (⟨1, 2⟩ : Rational128).cmp ⟨1, 3⟩ = compare (⟨1, 2⟩ : Rational128).value (⟨1, 3⟩ : Rational128).value :=
  have exact := arithmetic_exact ⟨1, 2⟩ ⟨1, 3⟩ (by decide) (by decide) (by decide) (by decide) (by decide)
    (by decide)
  ⟨exact.1, exact.2.2.2.2.2.2.1⟩

end Rational128

end OffchainStorage.Arithmetic
