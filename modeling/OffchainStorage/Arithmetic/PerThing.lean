import OffchainStorage.Lib.RustInt
import OffchainStorage.Lib.Rounding

/-!
# Per-things

`implement_per_thing!` defines `Percent`, `Permill`, `Perbill` and
`Perquintill`: a number of parts of an accuracy `$max`, stored in an unsigned
`$type`, with products taken in a wider `$upper_type`.  The model is one
family over the macro's arguments (`PerThingType`), and the four types are its
instances.

Every constructor and operation clamps what it builds to the accuracy, and
`x * b` is `parts * b / accuracy` rounded to the nearest integer, ties toward
zero, when `x` is within the accuracy.  The derived `Decode` builds a
per-thing from any raw `$type`.

Panics are `none`: an `expect` on a failed conversion and, as in a debug
build, an arithmetic overflow.
-/

namespace OffchainStorage.Arithmetic

open Rounding

/-- The arguments of `implement_per_thing!` that the arithmetic reads: the
sizes in bytes of `$type` and `$upper_type`, and `$max`. -/
structure PerThingType where
  bytes : Nat
  upperBytes : Nat
  max : Nat
  deriving DecidableEq, Repr

/-- The bits of `$type`. -/
def PerThingType.width (T : PerThingType) : Nat :=
  8 * T.bytes

/-- The bits of `$upper_type`. -/
def PerThingType.upperWidth (T : PerThingType) : Nat :=
  8 * T.upperBytes

/-- `Percent`: `u8` parts of `100`, products in `u16`. -/
def PerThingType.percent : PerThingType :=
  ⟨1, 2, 100⟩

/-- `Permill`: `u32` parts of `1_000_000`, products in `u64`. -/
def PerThingType.permill : PerThingType :=
  ⟨4, 8, 1_000_000⟩

/-- `Perbill`: `u32` parts of `1_000_000_000`, products in `u64`. -/
def PerThingType.perbill : PerThingType :=
  ⟨4, 8, 1_000_000_000⟩

/-- `Perquintill`: `u64` parts of `1_000_000_000_000_000_000`, products in
`u128`. -/
def PerThingType.perquintill : PerThingType :=
  ⟨8, 16, 1_000_000_000_000_000_000⟩

/-- What the macro's test `macro_expanded_correctly` asserts of its arguments,
and that `$upper_type` holds the product of two `$type` values. -/
structure PerThingType.Valid (T : PerThingType) : Prop where
  hundred_le : 100 ≤ T.max
  hundred_dvd : T.max % 100 = 0
  double_lt : 2 * T.max < 2 ^ T.width
  upper : 2 * T.bytes ≤ T.upperBytes

/-- A value of a per-thing type: the raw `$type` it wraps, which nothing but the
constructors keeps within the accuracy. -/
structure PerThing (T : PerThingType) where
  parts : Nat
  fits : parts < 2 ^ T.width
  deriving DecidableEq

namespace PerThing

variable {T : PerThingType}

/-- `Self(value as $type)`. -/
def ofCast (T : PerThingType) (value : Nat) : PerThing T :=
  ⟨RustInt.cast T.width value, RustInt.cast_lt _ _⟩

def deconstruct (x : PerThing T) : Nat :=
  x.parts

def accuracy (T : PerThingType) : Nat :=
  T.max

def zero (T : PerThingType) : PerThing T :=
  ofCast T 0

def one (T : PerThingType) : PerThing T :=
  ofCast T T.max

/-- `from_parts`: `Self([parts, $max][(parts > $max) as usize])`. -/
def fromParts (T : PerThingType) (parts : Nat) : PerThing T :=
  ofCast T (if parts > T.max then T.max else parts)

/-- `from_percent`: `Self([x, 100][(x > 100) as usize] * ($max / 100))`. -/
def fromPercent (T : PerThingType) (x : Nat) : PerThing T :=
  ofCast T ((if x > 100 then 100 else x) * (T.max / 100))

/-- `from_rational_approximation::<N>`: the values of `N` never overflow, as
its operations are `max`, `min` and division. -/
def fromRationalApproximation (T : PerThingType) (p q : Nat) : Option (PerThing T) := do
  let q := max q 1
  let p := min p q
  let factor := max (q / T.max) 1
  let qReduce ← RustInt.tryInto T.width (q / factor)
  let pReduce ← RustInt.tryInto T.width (p / factor)
  let product ← RustInt.checkedMul T.upperWidth pReduce T.max
  pure (ofCast T (product / qReduce))

def saturatingAdd (x y : PerThing T) : PerThing T :=
  fromParts T (RustInt.saturatingAdd T.width x.parts y.parts)

def saturatingMul (x y : PerThing T) : Option (PerThing T) := do
  let product ← RustInt.checkedMul T.upperWidth x.parts y.parts
  pure (fromParts T (RustInt.cast T.width (product / T.max)))

/-- `impl Div`. -/
def div (x y : PerThing T) : Option (PerThing T) :=
  fromRationalApproximation T x.parts y.parts

/-- `impl Mul<N>`: `x * b` for `b` of an unsigned `N` of `bits` bits, as the
whole multiples of the accuracy in `b` times the parts plus the rounded share
of the remainder. -/
def mul (bits : Nat) (x : PerThing T) (b : Nat) : Option Nat := do
  let maximum := T.max
  let rem := b % maximum
  let remSized := RustInt.saturatedInto T.width rem
  let remMultipliedUpper ← RustInt.checkedMul T.upperWidth remSized x.parts
  let sized := RustInt.cast T.width (remMultipliedUpper / T.max)
  -- "fix a tiny rounding error": a remainder above one half rounds up
  let sized ← if remMultipliedUpper % T.max > T.max / 2 then
      RustInt.checkedAdd T.width sized 1
    else
      pure sized
  let scaled ← RustInt.checkedMul bits (b / maximum) x.parts
  RustInt.checkedAdd bits scaled sized

/-- The derived `Decode`: the raw `$type`, little-endian. -/
def decode (T : PerThingType) (input : List UInt8) : Option (PerThing T × List UInt8) :=
  match decoded : RustInt.decodeLE T.bytes input with
  | some (parts, rest) => some (⟨parts, RustInt.decodeLE_lt T.bytes decoded⟩, rest)
  | none => none

end PerThing

/-! ## The macro's arguments -/

namespace PerThingType.Valid

variable {T : PerThingType}

theorem max_lt (valid : T.Valid) : T.max < 2 ^ T.width := by
  have := valid.double_lt
  omega

theorem max_pos (valid : T.Valid) : 0 < T.max := by
  have := valid.hundred_le
  omega

/-- `$upper_type` holds the product of two `$type` values. -/
theorem mul_lt_upper (valid : T.Valid) {a b : Nat} (aFits : a < 2 ^ T.width)
    (bFits : b < 2 ^ T.width) : a * b < 2 ^ T.upperWidth := by
  have wide : 2 * T.width ≤ T.upperWidth := by
    have := valid.upper
    unfold PerThingType.width PerThingType.upperWidth
    omega
  calc a * b < 2 ^ T.width * 2 ^ T.width := Nat.mul_lt_mul'' aFits bFits
    _ = 2 ^ (2 * T.width) := by rw [← Nat.pow_add, Nat.two_mul]
    _ ≤ 2 ^ T.upperWidth := Nat.pow_le_pow_right (by decide) wide

end PerThingType.Valid

/-- The four instances of the macro pass its assertions. -/
theorem PerThingType.valid_of_mem {T : PerThingType}
    (instance_ : T ∈ [PerThingType.percent, PerThingType.permill, PerThingType.perbill,
      PerThingType.perquintill]) : T.Valid := by
  simp only [List.mem_cons, List.not_mem_nil, or_false] at instance_
  rcases instance_ with rfl | rfl | rfl | rfl <;>
    exact ⟨by decide, by decide, by decide, by decide⟩

/-! ## Constructors and operations stay within the accuracy -/

namespace PerThing

variable {T : PerThingType}

theorem ofCast_parts (valid : T.Valid) {value : Nat} (within : value ≤ T.max) :
    (ofCast T value).parts = value :=
  RustInt.cast_of_lt (Nat.lt_of_le_of_lt within valid.max_lt)

theorem fromParts_parts (valid : T.Valid) (parts : Nat) :
    (fromParts T parts).parts = min parts T.max := by
  unfold fromParts
  split
  · rw [ofCast_parts valid (Nat.le_refl _)]
    omega
  · rename_i within
    rw [ofCast_parts valid (Nat.not_lt.mp within)]
    omega

/-- Dividing a positive `q` by `max(q / m, 1)` leaves less than `2 * m`: the
reduced denominator of `from_rational_approximation` fits `$type`. -/
theorem reduce_lt_double {q m : Nat} (accuracy : 0 < m) : q / max (q / m) 1 < 2 * m := by
  by_cases small : q < m
  · rw [Nat.div_eq_of_lt small, Nat.max_eq_right (Nat.zero_le 1), Nat.div_one]
    omega
  · -- with the factor `f = q / m ≥ 1`, `q < (f + 1) * m ≤ 2 * m * f`
    have factorPositive : 0 < q / m := Nat.div_pos (Nat.not_lt.mp small) accuracy
    rw [Nat.max_eq_left factorPositive, Nat.div_lt_iff_lt_mul factorPositive]
    have split := Nat.div_add_mod q m
    have remainder := Nat.mod_lt q accuracy
    have atLeast : m ≤ m * (q / m) := Nat.le_mul_of_pos_right m factorPositive
    rw [Nat.mul_assoc]
    omega

/-- `from_rational_approximation` never panics: its parts are the clamped
numerator and denominator divided by the factor, the first scaled by the
accuracy in `$upper_type`. -/
theorem fromRationalApproximation_parts (valid : T.Valid) (p q : Nat) :
    ∃ x, fromRationalApproximation T p q = some x ∧
      x.parts = min p (max q 1) / max (max q 1 / T.max) 1 * T.max /
        (max q 1 / max (max q 1 / T.max) 1) := by
  simp only [fromRationalApproximation]
  -- name the clamped denominator and numerator and the factor they are divided by
  have denominatorPositive : 0 < max q 1 := by omega
  generalize max q 1 = denominator at denominatorPositive ⊢
  have numeratorLe : min p denominator ≤ denominator := Nat.min_le_right _ _
  generalize min p denominator = numerator at numeratorLe ⊢
  have factorPositive : 0 < max (denominator / T.max) 1 := by omega
  have factorLe : max (denominator / T.max) 1 ≤ denominator :=
    Nat.max_le.mpr ⟨Nat.div_le_self _ _, denominatorPositive⟩
  have reducedLt := reduce_lt_double (q := denominator) valid.max_pos
  generalize max (denominator / T.max) 1 = factor at factorPositive factorLe reducedLt ⊢
  have reducedPositive : 0 < denominator / factor := Nat.div_pos factorLe factorPositive
  have numeratorReduced : numerator / factor ≤ denominator / factor :=
    Nat.div_le_div_right numeratorLe
  -- both reductions fit `$type`, and their product with the accuracy `$upper_type`
  have reducedFits : denominator / factor < 2 ^ T.width := by
    have := valid.double_lt
    omega
  have numeratorFits : numerator / factor < 2 ^ T.width := by omega
  have productFits := valid.mul_lt_upper numeratorFits valid.max_lt
  simp only [RustInt.tryInto_of_lt reducedFits, RustInt.tryInto_of_lt numeratorFits,
    RustInt.checkedMul_of_lt productFits, Option.bind_eq_bind, Option.bind_some]
  refine ⟨_, rfl, ?_⟩
  have share : numerator / factor * T.max / (denominator / factor) ≤ T.max :=
    Nat.div_le_of_le_mul (Nat.mul_le_mul_right _ numeratorReduced)
  exact ofCast_parts valid share

/-- `from_rational_approximation` never panics, and its parts are at most the
accuracy. -/
theorem fromRationalApproximation_spec (valid : T.Valid) (p q : Nat) :
    ∃ x, fromRationalApproximation T p q = some x ∧ x.parts ≤ T.max := by
  obtain ⟨x, built, parts⟩ := fromRationalApproximation_parts valid p q
  refine ⟨x, built, ?_⟩
  rw [parts]
  -- the reduced numerator is at most the reduced denominator
  have numeratorLe : min p (max q 1) ≤ max q 1 := Nat.min_le_right _ _
  exact Nat.div_le_of_le_mul (Nat.mul_le_mul_right _ (Nat.div_le_div_right numeratorLe))

theorem div_spec (valid : T.Valid) (x y : PerThing T) :
    ∃ z, x.div y = some z ∧ z.parts ≤ T.max :=
  fromRationalApproximation_spec valid _ _

end PerThing

/-! ## Multiplication rounds to the nearest integer -/

namespace PerThing

variable {T : PerThingType}

/-- `x * b` for a per-thing within the accuracy and any `b` of `N`: no
overflow, the product of the parts and `b` over the accuracy rounded to the
nearest integer, ties toward zero, and at most `b`. -/
theorem mul_spec (valid : T.Valid) {x : PerThing T} (within : x.parts ≤ T.max) {bits b : Nat}
    (fits : b < 2 ^ bits) :
    ∃ result, x.mul bits b = some result ∧
      NearestTiesDown (x.parts * b) T.max result ∧ result ≤ b := by
  have positive := valid.max_pos
  have remLt : b % T.max < T.max := Nat.mod_lt b positive
  have remFits : b % T.max < 2 ^ T.width := Nat.lt_trans remLt valid.max_lt
  have productFits := valid.mul_lt_upper remFits x.fits
  -- the rounded share of the remainder is at most the remainder, below the accuracy
  have share := roundTiesDown_le (b % T.max) within
  have shareFits : roundTiesDown (b % T.max * x.parts) T.max < 2 ^ T.width := by omega
  have quotientFits : b % T.max * x.parts / T.max < 2 ^ T.width :=
    Nat.lt_of_le_of_lt (Nat.le_add_right _ _) shareFits
  -- the whole multiples of the accuracy in `b` times the parts stay within `b`
  have scaledLe : b / T.max * x.parts ≤ b / T.max * T.max := Nat.mul_le_mul_left _ within
  have wholeLe : b / T.max * T.max ≤ b := Nat.div_mul_le_self b T.max
  have split := Nat.div_add_mod b T.max
  have scaledFits : b / T.max * x.parts < 2 ^ bits := by omega
  have sumLe : b / T.max * x.parts + roundTiesDown (b % T.max * x.parts) T.max ≤ b := by
    rw [Nat.mul_comm T.max] at split
    omega
  simp only [mul, RustInt.saturatedInto_of_lt remFits, RustInt.checkedMul_of_lt productFits,
    Option.bind_eq_bind, Option.bind_some, RustInt.cast_of_lt quotientFits,
    RustInt.checkedMul_of_lt scaledFits]
  refine ⟨_, ?_, ?_, sumLe⟩
  · -- the branch that fixes the rounding adds the one of `roundTiesDown`
    have total := Nat.lt_of_le_of_lt sumLe fits
    unfold roundTiesDown at shareFits total ⊢
    split
    · rename_i above
      rw [if_pos above] at shareFits total
      rw [RustInt.checkedAdd_of_lt shareFits, Option.bind_some, RustInt.checkedAdd_of_lt total]
    · rename_i notAbove
      rw [if_neg notAbove, Nat.add_zero] at total
      rw [Nat.add_zero, Option.pure_def, Option.bind_some, RustInt.checkedAdd_of_lt total]
  -- `parts * b` is `max * (b / max * parts) + rem * parts`
  have regroup : x.parts * b = T.max * (b / T.max * x.parts) + b % T.max * x.parts := by
    calc x.parts * b = x.parts * (T.max * (b / T.max) + b % T.max) := by rw [split]
      _ = T.max * (b / T.max * x.parts) + b % T.max * x.parts := by
        rw [Nat.mul_add, Nat.mul_comm x.parts, Nat.mul_comm x.parts, Nat.mul_assoc]
  rw [regroup, ← roundTiesDown_mul_add _ _ positive]
  exact nearest_roundTiesDown _ positive

/-- For the four per-thing types, `x * b` of a value within the accuracy and
any unsigned `b` (`u32`, `u64`, `u128` among them) never overflows, rounds `parts * b / accuracy` to the
nearest integer, ties toward zero, and is at most `b`. -/
theorem mul_rounds_to_nearest
    (instance_ : T ∈ [PerThingType.percent, PerThingType.permill, PerThingType.perbill,
      PerThingType.perquintill]) {x : PerThing T} (within : x.deconstruct ≤ accuracy T)
    {bits b : Nat} (fits : b < 2 ^ bits) :
    ∃ result, x.mul bits b = some result ∧
      NearestTiesDown (x.deconstruct * b) (accuracy T) result ∧ result ≤ b :=
  mul_spec (PerThingType.valid_of_mem instance_) within fits

theorem mul_rounds_to_nearest_perbill :
    PerThingType.perbill ∈ [PerThingType.percent, PerThingType.permill, PerThingType.perbill,
      PerThingType.perquintill] ∧
      (fromPercent PerThingType.perbill 35).deconstruct ≤ accuracy PerThingType.perbill ∧
      10 < 2 ^ 64 ∧
      ∃ result, (fromPercent PerThingType.perbill 35).mul 64 10 = some result ∧
        NearestTiesDown ((fromPercent PerThingType.perbill 35).deconstruct * 10)
          (accuracy PerThingType.perbill) result ∧ result ≤ 10 :=
  ⟨by decide, by decide, by decide, mul_rounds_to_nearest (by decide) (by decide) (by decide)⟩

end PerThing

/-! ## Decoding -/

/-- The derived `Decode` of `Percent` takes the byte `200` to a per-cent of two
hundred parts of one hundred, and multiplying it by `u32::MAX` overflows:
`(u32::MAX / 100) * 200` exceeds `u32::MAX`. -/
theorem percent_decode_exceeds_accuracy :
    (PerThing.decode PerThingType.percent [200]).map (fun decoded => decoded.1.deconstruct) =
        some 200 ∧
      PerThing.accuracy PerThingType.percent < 200 ∧
      ((PerThing.decode PerThingType.percent [200]).bind fun decoded =>
        decoded.1.mul 32 (2 ^ 32 - 1)) = none := by
  decide

end OffchainStorage.Arithmetic
