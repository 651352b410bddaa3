import Mathlib
import OffchainStorage.Arithmetic.Helpers128bit

/-!
# `Rational128` on limbs

The model of `Rational128` compares by the natural-number cross products and
scales through the model of `multiply_by_rational`.  The code builds the cross
products with `to_big_uint` and the `BigUint` product and compares them limb by
limb, and it scales through `multiply_by_rational` on limbs, which panics on
some inputs (`Helpers128bit.Panics`).

Here the methods follow the limbs, `none` standing for a panic.  Every divisor
the methods hand to `multiply_by_rational` divides one of its factors: the gcd
divides both denominators in `lcm`, and in the `to_den` calls of `checked_add`
and `checked_sub` each denominator divides the common one (`lcm_spec`).  So none
of them panics, and on `u128` fields each computes what the model computes
(`onLimbs_refines`).  `to_den` on its own, with a denominator that is not a
multiple, can still reach the panic.
-/

namespace OffchainStorage.Arithmetic

/-! ## `?` over `map_err` in `ExceptT String Option` -/

section Lifting

variable {ε ε' α β : Type}

theorem adapt_mk_some (e : Except ε α) (f : ε → ε') :
    (ExceptT.mk (some e) : ExceptT ε Option α).adapt f = ExceptT.mk (some (e.mapError f)) := by
  cases e <;> rfl

/-- A step that cannot panic, followed by steps that agree with a plain
`Except` computation wherever the step succeeds, agrees with it as a whole. -/
theorem mk_some_bind {e : Except ε α} {rest : α → ExceptT ε Option β} {model : α → Except ε β}
    (each : ∀ answer, e = .ok answer → rest answer = ExceptT.mk (some (model answer))) :
    ExceptT.mk (some e) >>= rest = ExceptT.mk (some (e >>= model)) := by
  cases e with
  | error failure => rfl
  | ok answer => exact each answer rfl

theorem mapError_eq_ok {e : Except ε α} {f : ε → ε'} {answer : α} (succeeded : e.mapError f = .ok answer) :
    e = .ok answer := by
  cases e with
  | error failure => cases succeeded
  | ok found =>
    cases succeeded
    rfl

end Lifting

namespace Rational128

/-- Both fields are `u128`s. -/
structure Fits (x : Rational128) : Prop where
  numerator : x.n < 2 ^ 128
  denominator : x.d < 2 ^ 128

namespace Limbs

/-- `to_big_uint(a) * to_big_uint(b)`. -/
def crossProduct (a b : Nat) : Option BigUint :=
  (Helpers128bit.toBigUint a).mul (Helpers128bit.toBigUint b)

/-- `Ord::cmp`, the cross products compared as `BigUint`s. -/
def cmp (x other : Rational128) : Option Ordering :=
  if x.d = other.d then some (compare x.n other.n)
  else if x.d = 0 then some .gt
  else if other.d = 0 then some .lt
  else do
    let selfN ← crossProduct x.n other.d
    let otherN ← crossProduct other.n x.d
    pure (selfN.cmp otherN)

/-- `PartialEq::eq`, the cross products compared as `BigUint`s. -/
def eq (x other : Rational128) : Option Bool :=
  if x.d = other.d then some (x.n == other.n)
  else do
    let selfN ← crossProduct x.n other.d
    let otherN ← crossProduct other.n x.d
    pure (selfN.eq otherN)

/-- `to_den` through `multiply_by_rational` on limbs. -/
def toDen (x : Rational128) (den : Nat) : Option (Except String Rational128) :=
  if den = x.d then some (.ok x)
  else (Helpers128bit.multiplyByRational x.n den x.d).map fun result => result.map fun n => ⟨n, den⟩

/-- `lcm` through `multiply_by_rational` on limbs. -/
def lcm (x other : Rational128) : Option (Except String Nat) :=
  if x.d = other.d then some (.ok x.d)
  else Helpers128bit.multiplyByRational x.d other.d (Helpers128bit.gcd x.d other.d)

/-- `checked_add` on limbs: an error is `Err`, a panic is `none`. -/
def checkedAdd (x other : Rational128) : ExceptT String Option Rational128 := do
  let lcm ← (ExceptT.mk (lcm x other)).adapt fun _ => "failed to scale to denominator"
  let selfScaled ← (ExceptT.mk (toDen x lcm)).adapt fun _ => "failed to scale to denominator"
  let otherScaled ← (ExceptT.mk (toDen other lcm)).adapt fun _ => "failed to scale to denominator"
  let n ← match RustInt.checkedAdd 128 selfScaled.n otherScaled.n with
    | some n => pure n
    | none => throw "overflow while adding numerators"
  pure ⟨n, selfScaled.d⟩

/-- `checked_sub` on limbs: an error is `Err`, a panic is `none`. -/
def checkedSub (x other : Rational128) : ExceptT String Option Rational128 := do
  let lcm ← (ExceptT.mk (lcm x other)).adapt fun _ => "failed to scale to denominator"
  let selfScaled ← (ExceptT.mk (toDen x lcm)).adapt fun _ => "failed to scale to denominator"
  let otherScaled ← (ExceptT.mk (toDen other lcm)).adapt fun _ => "failed to scale to denominator"
  let n ← match RustInt.checkedSub selfScaled.n otherScaled.n with
    | some n => pure n
    | none => throw "overflow while subtracting numerators"
  pure ⟨n, selfScaled.d⟩

end Limbs

/-! ## The limbs compute the model -/

section Refinement

variable {x other : Rational128}

theorem crossProduct_spec {a b : Nat} (aFits : a < 2 ^ 128) (bFits : b < 2 ^ 128) :
    ∃ product, Limbs.crossProduct a b = some product ∧ product.value = a * b := by
  obtain ⟨product, ran, value, -⟩ := BigUint.mul_spec (Helpers128bit.toBigUint a) (Helpers128bit.toBigUint b)
  refine ⟨product, ran, ?_⟩
  rw [value, Helpers128bit.value_toBigUint aFits, Helpers128bit.value_toBigUint bFits]

variable (xFits : x.Fits) (otherFits : other.Fits)
include xFits otherFits

theorem cmp_eq_some : Limbs.cmp x other = some (x.cmp other) := by
  unfold Limbs.cmp cmp
  by_cases same : x.d = other.d
  · rw [if_pos same, if_pos same]
  rw [if_neg same, if_neg same]
  by_cases xZero : x.d = 0
  · rw [if_pos xZero, if_pos xZero]
  rw [if_neg xZero, if_neg xZero]
  by_cases otherZero : other.d = 0
  · rw [if_pos otherZero, if_pos otherZero]
  rw [if_neg otherZero, if_neg otherZero]
  -- both denominators positive: the cross products, compared limb by limb
  obtain ⟨selfN, selfRan, selfValue⟩ := crossProduct_spec xFits.numerator otherFits.denominator
  obtain ⟨otherN, otherRan, otherValue⟩ := crossProduct_spec otherFits.numerator xFits.denominator
  rw [selfRan, otherRan]
  change some (selfN.cmp otherN) = _
  rw [BigUint.cmp_eq_compare, selfValue, otherValue]

theorem eq_eq_some : Limbs.eq x other = some (x.eq other) := by
  unfold Limbs.eq eq
  by_cases same : x.d = other.d
  · rw [if_pos same, if_pos same]
  rw [if_neg same, if_neg same]
  obtain ⟨selfN, selfRan, selfValue⟩ := crossProduct_spec xFits.numerator otherFits.denominator
  obtain ⟨otherN, otherRan, otherValue⟩ := crossProduct_spec otherFits.numerator xFits.denominator
  rw [selfRan, otherRan]
  change some (selfN.eq otherN) = _
  congr 1
  rw [Bool.eq_iff_iff, BigUint.eq_iff_value, selfValue, otherValue, beq_iff_eq]

/-- The gcd of two denominators that differ is positive and divides the first,
so `lcm` never panics. -/
theorem lcm_eq_some : Limbs.lcm x other = some (x.lcm other) := by
  unfold Limbs.lcm lcm
  by_cases same : x.d = other.d
  · rw [if_pos same, if_pos same]
  rw [if_neg same, if_neg same, Helpers128bit.gcd_eq _ _ xFits.denominator otherFits.denominator]
  have gcdPositive : 0 < Nat.gcd x.d other.d := Nat.gcd_pos_iff.mpr (by omega)
  have gcdFits : Nat.gcd x.d other.d < 2 ^ 128 := by
    rcases Nat.eq_zero_or_pos x.d with zero | positive
    · rw [zero, Nat.gcd_zero_left]
      exact otherFits.denominator
    · exact lt_of_le_of_lt (Nat.gcd_le_left _ positive) xFits.denominator
  apply Helpers128bit.multiplyByRational_of_not_panics xFits.denominator otherFits.denominator gcdFits
  rw [Nat.max_eq_left gcdPositive]
  exact fun panics => panics.1 (Nat.gcd_dvd_left _ _)

omit otherFits in
/-- `to_den` never panics when the denominator of `x` divides the new one. -/
theorem toDen_eq_some {den : Nat} (denFits : den < 2 ^ 128) (divides : x.d ∣ den) :
    Limbs.toDen x den = some (x.toDen den) := by
  unfold Limbs.toDen toDen
  by_cases same : den = x.d
  · rw [if_pos same, if_pos same]
  rw [if_neg same, if_neg same]
  -- the divisor, read as at least one, divides the second factor
  have notPanics : ¬Helpers128bit.Panics x.n den (max x.d 1) := by
    intro panics
    apply panics.2.1
    rcases Nat.eq_zero_or_pos x.d with zero | positive
    · rw [zero, Nat.max_eq_right (Nat.zero_le 1)]
      exact Nat.one_dvd den
    · rw [Nat.max_eq_left positive]
      exact divides
  rw [Helpers128bit.multiplyByRational_of_not_panics xFits.numerator denFits xFits.denominator notPanics]
  rfl

/-- A common denominator that `lcm` computes is a `u128` and a multiple of both
denominators. -/
theorem lcm_spec {common : Nat} (computed : x.lcm other = .ok common) :
    common < 2 ^ 128 ∧ x.d ∣ common ∧ other.d ∣ common := by
  unfold lcm at computed
  split at computed
  · rename_i same
    cases computed
    exact ⟨xFits.denominator, dvd_refl _, same ▸ dvd_refl _⟩
  · rename_i different
    have gcdPositive : 0 < Nat.gcd x.d other.d := Nat.gcd_pos_iff.mpr (by omega)
    rw [Helpers128bit.gcd_eq _ _ xFits.denominator otherFits.denominator,
      multiplyByRational_of_dvd gcdPositive (Dvd.dvd.mul_right (Nat.gcd_dvd_left _ _) _)] at computed
    split at computed
    · rename_i fits
      cases computed
      -- `d1 * d2 / gcd` is the least common multiple
      exact ⟨fits, Nat.dvd_lcm_left x.d other.d, Nat.dvd_lcm_right x.d other.d⟩
    · cases computed

theorem checkedAdd_eq_mk : Limbs.checkedAdd x other = ExceptT.mk (some (x.checkedAdd other)) := by
  unfold Limbs.checkedAdd checkedAdd
  rw [lcm_eq_some xFits otherFits, adapt_mk_some]
  apply mk_some_bind
  intro common computed
  obtain ⟨commonFits, xDivides, otherDivides⟩ := lcm_spec xFits otherFits (mapError_eq_ok computed)
  rw [toDen_eq_some xFits commonFits xDivides, adapt_mk_some]
  apply mk_some_bind
  intro selfScaled _
  rw [toDen_eq_some otherFits commonFits otherDivides, adapt_mk_some]
  apply mk_some_bind
  intro otherScaled _
  -- the numerators added in `u128`, as in the model
  generalize RustInt.checkedAdd 128 selfScaled.n otherScaled.n = sum
  cases sum <;> rfl

theorem checkedSub_eq_mk : Limbs.checkedSub x other = ExceptT.mk (some (x.checkedSub other)) := by
  unfold Limbs.checkedSub checkedSub
  rw [lcm_eq_some xFits otherFits, adapt_mk_some]
  apply mk_some_bind
  intro common computed
  obtain ⟨commonFits, xDivides, otherDivides⟩ := lcm_spec xFits otherFits (mapError_eq_ok computed)
  rw [toDen_eq_some xFits commonFits xDivides, adapt_mk_some]
  apply mk_some_bind
  intro selfScaled _
  rw [toDen_eq_some otherFits commonFits otherDivides, adapt_mk_some]
  apply mk_some_bind
  intro otherScaled _
  generalize RustInt.checkedSub selfScaled.n otherScaled.n = difference
  cases difference <;> rfl

end Refinement

/-- On `u128` fields the methods of `Rational128` computed on limbs never panic
and give what the model gives: `cmp` and `eq` through the `BigUint` cross
products, and `lcm`, `checked_add` and `checked_sub` through
`multiply_by_rational`, whose divisor there always divides a factor. -/
theorem onLimbs_refines (x other : Rational128) (xFits : x.Fits) (otherFits : other.Fits) :
    Limbs.cmp x other = some (x.cmp other) ∧ Limbs.eq x other = some (x.eq other) ∧
      Limbs.lcm x other = some (x.lcm other) ∧
      (Limbs.checkedAdd x other).run = some (x.checkedAdd other) ∧
      (Limbs.checkedSub x other).run = some (x.checkedSub other) :=
  ⟨cmp_eq_some xFits otherFits, eq_eq_some xFits otherFits, lcm_eq_some xFits otherFits,
    congrArg ExceptT.run (checkedAdd_eq_mk xFits otherFits), congrArg ExceptT.run (checkedSub_eq_mk xFits otherFits)⟩

theorem onLimbs_refines_of_ratios :
    ((⟨2 ^ 100, 3⟩ : Rational128).Fits ∧ (⟨2 ^ 90, 2 ^ 127⟩ : Rational128).Fits) ∧
      Limbs.cmp ⟨2 ^ 100, 3⟩ ⟨2 ^ 90, 2 ^ 127⟩ = some (cmp ⟨2 ^ 100, 3⟩ ⟨2 ^ 90, 2 ^ 127⟩) ∧
      Limbs.eq ⟨2 ^ 100, 3⟩ ⟨2 ^ 90, 2 ^ 127⟩ = some (eq ⟨2 ^ 100, 3⟩ ⟨2 ^ 90, 2 ^ 127⟩) ∧
      Limbs.lcm ⟨2 ^ 100, 3⟩ ⟨2 ^ 90, 2 ^ 127⟩ = some (lcm ⟨2 ^ 100, 3⟩ ⟨2 ^ 90, 2 ^ 127⟩) ∧
      (Limbs.checkedAdd ⟨2 ^ 100, 3⟩ ⟨2 ^ 90, 2 ^ 127⟩).run = some (checkedAdd ⟨2 ^ 100, 3⟩ ⟨2 ^ 90, 2 ^ 127⟩) ∧
      (Limbs.checkedSub ⟨2 ^ 100, 3⟩ ⟨2 ^ 90, 2 ^ 127⟩).run = some (checkedSub ⟨2 ^ 100, 3⟩ ⟨2 ^ 90, 2 ^ 127⟩) :=
  ⟨⟨⟨by norm_num, by norm_num⟩, ⟨by norm_num, by norm_num⟩⟩,
    onLimbs_refines ⟨2 ^ 100, 3⟩ ⟨2 ^ 90, 2 ^ 127⟩ ⟨by norm_num, by norm_num⟩ ⟨by norm_num, by norm_num⟩⟩

end Rational128

end OffchainStorage.Arithmetic
