import Mathlib
import OffchainStorage.Arithmetic.Rational128
import OffchainStorage.Arithmetic.LongDivision

/-!
# `multiply_by_rational` on limbs

`Rational128` reads the big-number branch of `multiply_by_rational` as the
natural-number quotient.  Here the branch is followed limb by limb:
`to_big_uint` of the operands, their `BigUint` product stripped, `div_unit` for
a one-limb divisor and otherwise Knuth's `div` with its remainder, which goes
through `u128::try_from` and an `expect` before the rounding.

When the leading limb of the divisor already has its top bit set, `div` hands
back the normalized dividend itself as the remainder, with every limb of the
dividend.  A remainder of zero then has at least six limbs, none of which
`lstrip` removes, so `try_from` refuses it and the `expect` panics
(`multiplyByRational_panics_on_exact_quotient`).  Everywhere else the limbs
compute what `Rational128` says (`multiplyByRational_refines`).
-/

namespace OffchainStorage.Arithmetic

open Biguint Rounding

namespace Helpers128bit

/-- `split`: the high and the low `u64` of a `u128`. -/
def split (a : Nat) : Nat × Nat :=
  (RustInt.cast 64 (a >>> 64), RustInt.cast 64 a)

/-- `to_big_uint`: the four limbs of a `u128`, stripped. -/
def toBigUint (x : Nat) : BigUint :=
  let (xh, xl) := split x
  let (xhh, xhl) := Biguint.split xh
  let (xlh, xll) := Biguint.split xl
  (BigUint.fromLimbs [xhh, xhl, xlh, xll]).lstrip

/-- `let mut q = if c_num.len() == 1 { .. } else { .. }`: the quotient of the
stripped product by `c`, from `div_unit` when `c` has one limb and otherwise
from `div`, increased when the remainder is above `c / 2`.  `none` is a panic:
the `expect` on the conversion of the remainder, or one inside the `BigUint`
operations. -/
def roundedQuotient (ab cNum : BigUint) (c : Nat) : Option BigUint :=
  if cNum.len = 1 then ab.divUnit (asSingle c) else do
    let (q, r) := (← ab.div cNum true).getD (BigUint.zero, BigUint.zero)
    -- `expect("reminder of div by c is always less than c; qed")`
    let r ← (← BigUint.tryIntoU128 r).toOption
    if r > c / 2 then q.add (toBigUint 1) else pure q

/-- The `else` branch of `multiply_by_rational`: the product in big numbers,
divided by `c`, and the quotient converted back to `u128`. -/
def multiplyInBigNumbers (a b c : Nat) : Option (Except String Nat) := do
  let aNum := toBigUint a
  let bNum := toBigUint b
  let cNum := toBigUint c
  let ab ← aNum.mul bNum
  let q ← roundedQuotient ab.lstrip cNum c
  match ← BigUint.tryIntoU128 q.lstrip with
  | .ok q => pure (.ok q)
  | .error _ => pure (.error "result cannot fit in u128")

/-- `multiply_by_rational` with the big numbers as the code has them; `none` is
a panic. -/
def multiplyByRational (a b c : Nat) : Option (Except String Nat) :=
  if a = 0 ∨ b = 0 then some (.ok 0) else
    let c := max c 1
    -- the bigger factor first
    let (a, b) := if b > a then (b, a) else (a, b)
    -- divide first where `c` divides a factor
    let (a, b, c) :=
      if a % c = 0 then (a / c, b, 1) else if b % c = 0 then (a, b / c, 1) else (a, b, c)
    match RustInt.checkedMul 128 a b with
    | some x => some (.ok (x / c))
    | none => multiplyInBigNumbers a b c

open BigUint

/-! ## `u128` in limbs and back -/

section Conversion

theorem fromLimbs_cons (a : Single) (rest : List Single) :
    BigUint.fromLimbs (a :: rest) = ⟨a :: rest, List.cons_ne_nil a rest⟩ :=
  dif_pos (List.cons_ne_nil a rest)

/-- The four limbs of `to_big_uint`, before they are stripped. -/
theorem value_toBigUint_limbs {x : Nat} (fits : x < 2 ^ 128) :
    (BigUint.fromLimbs [(Biguint.split (split x).1).1, (Biguint.split (split x).1).2,
      (Biguint.split (split x).2).1, (Biguint.split (split x).2).2]).value = x := by
  rw [fromLimbs_cons]
  simp only [value, limbs, split, Biguint.split, List.map_cons, List.map_nil, List.reverse_cons, List.reverse_nil,
    List.nil_append, List.cons_append, Nat.ofDigits_cons, Nat.ofDigits_nil, asSingle_val, RustInt.cast,
    Nat.shiftRight_eq_div_pow]
  unfold B
  omega

theorem toBigUint_eq (x : Nat) :
    toBigUint x = (BigUint.fromLimbs [(Biguint.split (split x).1).1, (Biguint.split (split x).1).2,
      (Biguint.split (split x).2).1, (Biguint.split (split x).2).2]).lstrip :=
  rfl

theorem value_toBigUint {x : Nat} (fits : x < 2 ^ 128) : (toBigUint x).value = x := by
  rw [toBigUint_eq, value_lstrip, value_toBigUint_limbs fits]

/-- A stripped number with a positive value has a leading limb that is not
zero. -/
theorem msb_lstrip_ne_zero {x : BigUint} (positive : 0 < x.value) : x.lstrip.msb ≠ 0 := by
  intro zero
  have top := msb_val_eq x.lstrip
  have lower := pow_le_value_lstrip positive
  rw [zero, value_lstrip] at top
  have atLeastOne : 1 ≤ x.value / B ^ (x.lstrip.len - 1) :=
    (Nat.le_div_iff_mul_le (by unfold B; positivity)).mpr (by rwa [Nat.one_mul])
  rw [← top] at atLeastOne
  exact absurd atLeastOne (by decide)

theorem msb_toBigUint {x : Nat} (fits : x < 2 ^ 128) (positive : 0 < x) : (toBigUint x).msb ≠ 0 := by
  rw [toBigUint_eq]
  apply msb_lstrip_ne_zero
  rwa [value_toBigUint_limbs fits]

/-- A number whose leading limb is not zero has no more limbs than its value
needs. -/
theorem len_le_of_value_lt {x : BigUint} (nonzero : x.msb ≠ 0) {k : Nat} (below : x.value < B ^ k) : x.len ≤ k := by
  have lower := pow_le_value_of_msb nonzero
  have := (Nat.pow_lt_pow_iff_right one_lt_B).mp (lt_of_le_of_lt lower below)
  omega

theorem lt_len_of_pow_le {x : BigUint} {k : Nat} (above : B ^ k ≤ x.value) : k < x.len :=
  (Nat.pow_lt_pow_iff_right one_lt_B).mp (lt_of_le_of_lt above (value_lt x))

/-- The leading limb of a number between `B ^ k` and `B ^ (k + 1)` is its
digit at place `k`. -/
theorem msb_val_of_between {x : BigUint} (nonzero : x.msb ≠ 0) {k : Nat} (lower : B ^ k ≤ x.value)
    (upper : x.value < B ^ (k + 1)) : x.msb.val = x.value / B ^ k := by
  have longEnough := lt_len_of_pow_le lower
  have shortEnough := len_le_of_value_lt nonzero upper
  rw [msb_val_eq, show x.len - 1 = k by omega]

theorem zeros_of_value_eq_zero {x : BigUint} (zero : x.value = 0) : ∀ d ∈ x.digits, d = 0 := by
  intro d member
  have inLimbs : d.val ∈ x.limbs := List.mem_reverse.mpr (List.mem_map_of_mem member)
  rw [limbs_eq_map, zero] at inLimbs
  obtain ⟨p, -, limb⟩ := List.mem_map.mp inLimbs
  rw [Nat.zero_div, Nat.zero_mod] at limb
  exact Fin.ext limb.symm

/-- `u128::try_from` of a positive number: `Ok` exactly when it fits. -/
theorem tryIntoU128_of_pos {x : BigUint} (positive : 0 < x.value) :
    tryIntoU128 x = some (if x.value < 2 ^ 128 then .ok x.value else .error "cannot fit a number into u128") :=
  tryFrom_of_pos 4 _ positive

/-- `u128::try_from` of zero: `lstrip` leaves an all-zero number as it is, so
more than four limbs are refused. -/
theorem tryIntoU128_of_zero {x : BigUint} (zero : x.value = 0) :
    tryIntoU128 x = some (if 4 < x.len then .error "cannot fit a number into u128" else .ok 0) := by
  unfold tryIntoU128
  rw [tryFrom_eq, lstrip_of_zeros (zeros_of_value_eq_zero zero), zero]
  by_cases long : 4 < x.len
  · rw [if_pos (by omega), if_pos long]
  · rw [if_neg (by omega), if_neg long]

end Conversion

/-! ## The branch in big numbers -/

section BigNumbers

/-- A 32-bit number has no leading zeros exactly when its top bit is set. -/
theorem leadingZeros_eq_zero_iff {n : Nat} (positive : 0 < n) (fits : n < 2 ^ 32) :
    RustInt.leadingZeros 32 n = 0 ↔ 2 ^ 31 ≤ n := by
  obtain ⟨-, topBit, below⟩ := RustInt.leadingZeros_spec positive fits
  constructor
  · intro zero
    rw [zero, pow_zero, Nat.mul_one] at topBit
    exact topBit
  · intro top
    by_contra shifted
    have doubled : n * 2 ≤ n * 2 ^ RustInt.leadingZeros 32 n := Nat.mul_le_mul_left n (Nat.le_self_pow shifted 2)
    omega

variable {ab : BigUint} {c : Nat}

/-- What `div` leaves to the rounding: the product has more limbs than the
divisor, and both have a leading limb that is not zero. -/
structure Operands (ab : BigUint) (c : Nat) : Prop where
  productTop : ab.msb ≠ 0
  overflows : 2 ^ 128 ≤ ab.value
  positive : 0 < c
  fits : c < 2 ^ 128

namespace Operands

theorem divisor_lt_product (operands : Operands ab c) : c < ab.value :=
  lt_of_lt_of_le operands.fits operands.overflows

theorem quotient_pos (operands : Operands ab c) : 0 < ab.value / c :=
  Nat.div_pos (le_of_lt operands.divisor_lt_product) operands.positive

/-- The product has at least five limbs. -/
theorem long (operands : Operands ab c) : 4 < ab.len :=
  lt_len_of_pow_le operands.overflows

theorem longer (operands : Operands ab c) : (toBigUint c).len < ab.len := by
  have short : (toBigUint c).len ≤ 4 :=
    len_le_of_value_lt (msb_toBigUint operands.fits operands.positive)
      (by rw [value_toBigUint operands.fits]; exact operands.fits)
  have long := operands.long
  omega

end Operands

/-- The rounding panics when `c` has more than one limb, divides the product,
and has the top bit of its leading limb set: `div` then returns the normalized
dividend as the remainder, zero in every one of its limbs. -/
theorem roundedQuotient_of_exact (operands : Operands ab c) (wide : B ≤ c) (divides : c ∣ ab.value)
    (topBit : 2 ^ 31 ≤ (toBigUint c).msb.val) : roundedQuotient ab (toBigUint c) c = none := by
  have divisorTop := msb_toBigUint operands.fits operands.positive
  have twoLimbs : 2 ≤ (toBigUint c).len := lt_len_of_pow_le (by rw [value_toBigUint operands.fits, pow_one]; exact wide)
  obtain ⟨q, r, divided, -, rValue, rLength⟩ :=
    div_spec ab (toBigUint c) true twoLimbs divisorTop operands.productTop operands.longer
  rw [value_toBigUint operands.fits, Nat.mod_eq_zero_of_dvd divides] at rValue
  rw [(leadingZeros_eq_zero_iff (Nat.pos_of_ne_zero (fun zero => divisorTop (Fin.ext zero)))
    (toBigUint c).msb.isLt).mpr topBit, if_pos rfl] at rLength
  unfold roundedQuotient
  rw [if_neg (by omega), divided, Option.bind_eq_bind, Option.bind_some, Option.getD_some]
  dsimp only
  rw [tryIntoU128_of_zero (rValue rfl), if_pos (by rw [rLength rfl]; have := operands.long; omega),
    Option.bind_eq_bind, Option.bind_some]
  rfl

/-- Everywhere else the rounding gives the quotient, truncated for a one-limb
`c` and rounded to the nearest, ties toward zero, otherwise. -/
theorem roundedQuotient_spec (operands : Operands ab c)
    (inexact : ¬(B ≤ c ∧ c ∣ ab.value ∧ 2 ^ 31 ≤ (toBigUint c).msb.val)) :
    ∃ q, roundedQuotient ab (toBigUint c) c = some q ∧
      q.value = if c < B then ab.value / c else roundTiesDown ab.value c := by
  have divisorTop := msb_toBigUint operands.fits operands.positive
  have divisorValue := value_toBigUint operands.fits
  unfold roundedQuotient
  by_cases small : c < B
  · -- `div_unit` by the one limb of `c`
    have oneLimb : (toBigUint c).len = 1 :=
      le_antisymm (len_le_of_value_lt divisorTop (by rw [divisorValue, pow_one]; exact small)) (len_pos _)
    obtain ⟨w, divided, wValue, -⟩ := divUnit_spec ab (asSingle c)
    rw [asSingle_val_of_lt small, Nat.max_eq_left operands.positive] at wValue
    rw [if_pos oneLimb, if_pos small]
    exact ⟨w, divided, wValue⟩
  · have twoLimbs : 2 ≤ (toBigUint c).len := lt_len_of_pow_le (by rw [divisorValue, pow_one]; omega)
    obtain ⟨q, r, divided, qValue, rValue, rLength⟩ :=
      div_spec ab (toBigUint c) true twoLimbs divisorTop operands.productTop operands.longer
    rw [divisorValue] at qValue rValue
    rw [if_neg (by omega), if_neg small, divided, Option.bind_eq_bind, Option.bind_some, Option.getD_some]
    dsimp only
    -- the remainder converts: a positive one is below `c`, and a zero one has
    -- the limbs of `c` once the normalization shifted it
    have converted : BigUint.tryIntoU128 r = some (.ok (ab.value % c)) := by
      by_cases exact : ab.value % c = 0
      · have shifted : RustInt.leadingZeros 32 (toBigUint c).msb.val ≠ 0 := by
          intro unshifted
          have topBit := (leadingZeros_eq_zero_iff (Nat.pos_of_ne_zero (fun zero => divisorTop (Fin.ext zero)))
            (toBigUint c).msb.isLt).mp unshifted
          exact inexact ⟨by omega, Nat.dvd_of_mod_eq_zero exact, topBit⟩
        rw [if_neg shifted] at rLength
        have short : (toBigUint c).len ≤ 4 :=
          len_le_of_value_lt divisorTop (by rw [divisorValue]; exact operands.fits)
        rw [tryIntoU128_of_zero (by rw [rValue rfl, exact]), if_neg (by rw [rLength rfl]; omega), exact]
      · rw [tryIntoU128_of_pos (by rw [rValue rfl]; omega), rValue rfl,
          if_pos (lt_trans (Nat.mod_lt _ operands.positive) operands.fits)]
    rw [converted, Option.bind_eq_bind, Option.bind_some]
    dsimp only [Except.toOption]
    rw [Option.bind_eq_bind, Option.bind_some]
    unfold roundTiesDown
    by_cases up : ab.value % c > c / 2
    · obtain ⟨w, added, wValue, -⟩ := add_spec q (toBigUint 1)
      rw [if_pos up, if_pos up, added]
      exact ⟨w, rfl, by rw [wValue, qValue, value_toBigUint (by norm_num)]⟩
    · rw [if_neg up, if_neg up, Nat.add_zero]
      exact ⟨q, rfl, qValue⟩

/-- The quotient `Rational128` gives when the product overflows: truncated for
a one-limb `c`, and rounded otherwise, which is exact when `c` divides a
factor. -/
theorem multiplyQuotient_of_overflow {a b c : Nat} (overflows : 2 ^ 128 ≤ a * b) :
    multiplyQuotient a b c = if c < B then a * b / c else roundTiesDown (a * b) c := by
  unfold multiplyQuotient
  by_cases small : c < B
  · rw [if_pos (Or.inr (Or.inl (show c < 2 ^ 32 from small))), if_pos small]
  · rw [if_neg small]
    split
    · next exact =>
      have divides : c ∣ a * b := by
        rcases exact with fits | oneLimb | first | second
        · omega
        · exact absurd oneLimb small
        · exact Dvd.dvd.mul_right first b
        · exact Dvd.dvd.mul_left second a
      unfold roundTiesDown
      rw [Nat.mod_eq_zero_of_dvd divides, if_neg (Nat.not_lt_zero _), Nat.add_zero]
    · rfl

variable {a b c : Nat}

/-- The branch in big numbers, when the product overflows `u128`: it panics
exactly when `c` has more than one limb, divides the product and has the top
bit of its leading limb set; otherwise it gives what `Rational128` says. -/
theorem multiplyInBigNumbers_eq (aFits : a < 2 ^ 128) (bFits : b < 2 ^ 128) (cFits : c < 2 ^ 128)
    (positive : 0 < c) (overflows : 2 ^ 128 ≤ a * b) :
    multiplyInBigNumbers a b c =
      if B ≤ c ∧ c ∣ a * b ∧ 2 ^ 31 ≤ (toBigUint c).msb.val then none
      else some (if multiplyQuotient a b c < 2 ^ 128 then .ok (multiplyQuotient a b c)
        else .error "result cannot fit in u128") := by
  obtain ⟨ab, product, abValue, -⟩ := mul_spec (toBigUint a) (toBigUint b)
  rw [value_toBigUint aFits, value_toBigUint bFits] at abValue
  have strippedValue : ab.lstrip.value = a * b := by rw [value_lstrip, abValue]
  have operands : Operands ab.lstrip c :=
    ⟨msb_lstrip_ne_zero (by rw [abValue]; omega), by rw [strippedValue]; exact overflows, positive, cFits⟩
  unfold multiplyInBigNumbers
  dsimp only
  rw [product, Option.bind_eq_bind, Option.bind_some]
  by_cases exact : B ≤ c ∧ c ∣ a * b ∧ 2 ^ 31 ≤ (toBigUint c).msb.val
  · rw [roundedQuotient_of_exact operands exact.1 (by rw [strippedValue]; exact exact.2.1) exact.2.2, if_pos exact]
    rfl
  · obtain ⟨q, rounded, qValue⟩ := roundedQuotient_spec operands (by rwa [strippedValue])
    rw [strippedValue, ← multiplyQuotient_of_overflow overflows] at qValue
    have quotientPos : 0 < q.lstrip.value := by
      rw [value_lstrip, qValue, multiplyQuotient_of_overflow overflows, ← strippedValue]
      split
      · exact operands.quotient_pos
      · unfold roundTiesDown
        exact Nat.add_pos_left operands.quotient_pos _
    rw [rounded, Option.bind_eq_bind, Option.bind_some, tryIntoU128_of_pos quotientPos, Option.bind_some,
      value_lstrip, qValue, if_neg exact]
    by_cases fits : multiplyQuotient a b c < 2 ^ 128
    · rw [if_pos fits, if_pos fits]
      rfl
    · rw [if_neg fits, if_neg fits]
      rfl

/-- After a division first, the branch in big numbers divides by one. -/
theorem multiplyInBigNumbers_one (aFits : a < 2 ^ 128) (bFits : b < 2 ^ 128) (overflows : 2 ^ 128 ≤ a * b) :
    multiplyInBigNumbers a b 1 = some (.error "result cannot fit in u128") := by
  have quotient : multiplyQuotient a b 1 = a * b := by
    rw [multiplyQuotient_of_overflow overflows, if_pos (by unfold B; norm_num), Nat.div_one]
  rw [multiplyInBigNumbers_eq aFits bFits (by norm_num) Nat.one_pos overflows,
    if_neg (fun exact => absurd exact.1 (by unfold B; norm_num)), quotient, if_neg (by omega)]

end BigNumbers

/-! ## `multiply_by_rational` -/

section Whole

/-- The leading 32-bit limb of `c` has its top bit set. -/
def TopBitSet (c : Nat) : Prop :=
  ∃ k, 2 ^ 31 * B ^ k ≤ c ∧ c < B ^ (k + 1)

/-- Where `multiply_by_rational` panics, with `c` already read as at least one:
`c` divides neither factor but divides their product, which overflows `u128`,
and `c` has more than one limb, with the top bit of its leading limb set. -/
def Panics (a b c : Nat) : Prop :=
  ¬c ∣ a ∧ ¬c ∣ b ∧ 2 ^ 128 ≤ a * b ∧ c ∣ a * b ∧ B ≤ c ∧ TopBitSet c

theorem topBitSet_iff {c : Nat} (fits : c < 2 ^ 128) (positive : 0 < c) :
    TopBitSet c ↔ 2 ^ 31 ≤ (toBigUint c).msb.val := by
  have nonzero := msb_toBigUint fits positive
  have divisorValue := value_toBigUint fits
  constructor
  · rintro ⟨k, lower, upper⟩
    have atLeast : B ^ k ≤ (toBigUint c).value := by
      rw [divisorValue]
      exact le_trans (Nat.le_mul_of_pos_left _ (by positivity)) lower
    rw [msb_val_of_between nonzero atLeast (by rwa [divisorValue]), divisorValue]
    exact (Nat.le_div_iff_mul_le (by unfold B; positivity)).mpr lower
  · intro topBit
    refine ⟨(toBigUint c).len - 1, ?_, ?_⟩
    · rw [msb_val_eq, divisorValue] at topBit
      exact (Nat.le_div_iff_mul_le (by unfold B; positivity)).mp topBit
    · rw [Nat.sub_add_cancel (len_pos _)]
      calc c = (toBigUint c).value := divisorValue.symm
        _ < B ^ (toBigUint c).len := value_lt _

theorem panics_comm {a b c : Nat} : Panics a b c ↔ Panics b a c := by
  unfold Panics
  rw [Nat.mul_comm a b]
  tauto

/-- The factors are interchangeable: the code orders them itself. -/
theorem multiplyByRational_comm (a b c : Nat) : multiplyByRational a b c = multiplyByRational b a c := by
  unfold multiplyByRational
  by_cases zero : a = 0 ∨ b = 0
  · rw [if_pos zero, if_pos zero.symm]
  · rw [if_neg zero, if_neg (show ¬(b = 0 ∨ a = 0) from fun swapped => zero swapped.symm)]
    rcases lt_trichotomy a b with less | same | greater
    · rw [if_pos less, if_neg (Nat.lt_asymm less)]
    · rw [same]
    · rw [if_neg (Nat.lt_asymm greater), if_pos greater]

variable {a b c : Nat}

/-- `multiply_by_rational` on ordered factors: it panics where `Panics` says,
and gives what `Rational128` does everywhere else. -/
theorem multiplyByRational_of_le (ordered : b ≤ a) (aFits : a < 2 ^ 128) (bFits : b < 2 ^ 128)
    (cFits : c < 2 ^ 128) :
    (Panics a b (max c 1) → multiplyByRational a b c = none) ∧
      (¬Panics a b (max c 1) → multiplyByRational a b c = some (Arithmetic.multiplyByRational a b c)) := by
  rw [Arithmetic.multiplyByRational_eq]
  have positive : 0 < max c 1 := lt_of_lt_of_le Nat.one_pos (le_max_right c 1)
  have divisorFits : max c 1 < 2 ^ 128 := max_lt cFits (by norm_num)
  unfold multiplyByRational
  by_cases zero : a = 0 ∨ b = 0
  · -- a zero factor: nothing overflows, and the quotient is zero
    have product : a * b = 0 := by rcases zero with rfl | rfl <;> simp
    have quotient : multiplyQuotient a b (max c 1) = 0 := by
      unfold multiplyQuotient
      rw [product, Nat.zero_div, if_pos (Or.inl (by positivity))]
    rw [if_pos zero, quotient, if_pos (by positivity)]
    exact ⟨fun panics => absurd panics.2.2.1 (by omega), fun _ => rfl⟩
  · rw [if_neg zero]
    dsimp only
    rw [if_neg (Nat.not_lt.mpr ordered)]
    dsimp only
    generalize max c 1 = d at positive divisorFits ⊢
    by_cases first : a % d = 0
    · -- `a /= c`: the product is exact, in `u128` or in big numbers
      have exact : a / d * b = a * b / d := Nat.div_mul_right_comm (Nat.dvd_of_mod_eq_zero first) b
      have quotient : multiplyQuotient a b d = a * b / d :=
        if_pos (Or.inr (Or.inr (Or.inl (Nat.dvd_of_mod_eq_zero first))))
      rw [if_pos first]
      dsimp only
      refine ⟨fun panics => absurd (Nat.dvd_of_mod_eq_zero first) panics.1, fun _ => ?_⟩
      rw [quotient, ← exact]
      by_cases fits : a / d * b < 2 ^ 128
      · rw [RustInt.checkedMul_of_lt fits]
        dsimp only
        rw [Nat.div_one, if_pos fits]
      · rw [RustInt.checkedMul_of_le (Nat.not_lt.mp fits)]
        dsimp only
        rw [multiplyInBigNumbers_one (lt_of_le_of_lt (Nat.div_le_self _ _) aFits) bFits (Nat.not_lt.mp fits),
          if_neg fits]
    by_cases second : b % d = 0
    · -- `b /= c`
      have exact : a * (b / d) = a * b / d := (Nat.mul_div_assoc a (Nat.dvd_of_mod_eq_zero second)).symm
      have quotient : multiplyQuotient a b d = a * b / d :=
        if_pos (Or.inr (Or.inr (Or.inr (Nat.dvd_of_mod_eq_zero second))))
      rw [if_neg first, if_pos second]
      dsimp only
      refine ⟨fun panics => absurd (Nat.dvd_of_mod_eq_zero second) panics.2.1, fun _ => ?_⟩
      rw [quotient, ← exact]
      by_cases fits : a * (b / d) < 2 ^ 128
      · rw [RustInt.checkedMul_of_lt fits]
        dsimp only
        rw [Nat.div_one, if_pos fits]
      · rw [RustInt.checkedMul_of_le (Nat.not_lt.mp fits)]
        dsimp only
        rw [multiplyInBigNumbers_one aFits (lt_of_le_of_lt (Nat.div_le_self _ _) bFits) (Nat.not_lt.mp fits),
          if_neg fits]
    rw [if_neg first, if_neg second]
    dsimp only
    by_cases fits : a * b < 2 ^ 128
    · -- the product fits, and so does its quotient
      have quotient : multiplyQuotient a b d = a * b / d := if_pos (Or.inl fits)
      rw [RustInt.checkedMul_of_lt fits]
      dsimp only
      refine ⟨fun panics => absurd panics.2.2.1 (by omega), fun _ => ?_⟩
      rw [quotient, if_pos (lt_of_le_of_lt (Nat.div_le_self _ _) fits)]
    · -- big numbers
      have overflows := Nat.not_lt.mp fits
      have panicking : Panics a b d ↔ B ≤ d ∧ d ∣ a * b ∧ 2 ^ 31 ≤ (toBigUint d).msb.val := by
        unfold Panics
        rw [← topBitSet_iff divisorFits positive]
        have aApart : ¬d ∣ a := fun divides => first (Nat.mod_eq_zero_of_dvd divides)
        have bApart : ¬d ∣ b := fun divides => second (Nat.mod_eq_zero_of_dvd divides)
        tauto
      rw [RustInt.checkedMul_of_le overflows]
      dsimp only
      rw [multiplyInBigNumbers_eq aFits bFits divisorFits positive overflows]
      exact ⟨fun panics => if_pos (panicking.mp panics), fun notPanics => if_neg (fun exact => notPanics (panicking.mpr exact))⟩

section Unordered

variable (aFits : a < 2 ^ 128) (bFits : b < 2 ^ 128) (cFits : c < 2 ^ 128)
include aFits bFits cFits

/-- Where `Panics` holds the limbs panic, whichever factor is the bigger. -/
theorem multiplyByRational_of_panics (panics : Panics a b (max c 1)) : multiplyByRational a b c = none := by
  rcases le_total b a with le | ge
  · exact (multiplyByRational_of_le le aFits bFits cFits).1 panics
  · rw [multiplyByRational_comm]
    exact (multiplyByRational_of_le ge bFits aFits cFits).1 (panics_comm.mp panics)

/-- Everywhere else they compute what the model of `Rational128` computes. -/
theorem multiplyByRational_of_not_panics (notPanics : ¬Panics a b (max c 1)) :
    multiplyByRational a b c = some (Arithmetic.multiplyByRational a b c) := by
  rcases le_total b a with le | ge
  · exact (multiplyByRational_of_le le aFits bFits cFits).2 notPanics
  · -- the code orders the factors itself, and the model's quotient does not depend on the order
    have modelComm : Arithmetic.multiplyByRational a b c = Arithmetic.multiplyByRational b a c := by
      rw [Arithmetic.multiplyByRational_eq, Arithmetic.multiplyByRational_eq, multiplyQuotient_comm]
    rw [multiplyByRational_comm, modelComm]
    exact (multiplyByRational_of_le ge bFits aFits cFits).2 (fun panics => notPanics (panics_comm.mp panics))

end Unordered

/-- `multiply_by_rational` on the limbs panics exactly where `Panics` says, and
everywhere else it computes what the model of `Rational128` computes. -/
theorem multiplyByRational_refines (a b c : Nat) (aFits : a < 2 ^ 128) (bFits : b < 2 ^ 128) (cFits : c < 2 ^ 128) :
    (multiplyByRational a b c = none ↔ Panics a b (max c 1)) ∧
      (¬Panics a b (max c 1) → multiplyByRational a b c = some (Arithmetic.multiplyByRational a b c)) := by
  refine ⟨⟨fun panicked => ?_, multiplyByRational_of_panics aFits bFits cFits⟩,
    multiplyByRational_of_not_panics aFits bFits cFits⟩
  by_contra notPanics
  rw [multiplyByRational_of_not_panics aFits bFits cFits notPanics] at panicked
  cases panicked

theorem multiplyByRational_refines_of_overflow :
    (2 ^ 100 < 2 ^ 128 ∧ 3 < 2 ^ 128 ∧ 7 < 2 ^ 128) ∧
      ((multiplyByRational (2 ^ 100) 3 7 = none ↔ Panics (2 ^ 100) 3 (max 7 1)) ∧
        (¬Panics (2 ^ 100) 3 (max 7 1) →
          multiplyByRational (2 ^ 100) 3 7 = some (Arithmetic.multiplyByRational (2 ^ 100) 3 7))) :=
  ⟨by norm_num, multiplyByRational_refines (2 ^ 100) 3 7 (by norm_num) (by norm_num) (by norm_num)⟩

/-- `multiply_by_rational` panics on the `expect` of the remainder's conversion
when `c` divides the overflowing product but neither factor, and the leading
limb of `c` (one of several) already has its top bit set: the remainder of
`div` is then zero in every limb of the dividend and `try_from` refuses it. -/
theorem multiplyByRational_panics_on_exact_quotient (a b c k : Nat) (aFits : a < 2 ^ 128) (bFits : b < 2 ^ 128)
    (cFits : c < 2 ^ 128) (aApart : ¬c ∣ a) (bApart : ¬c ∣ b) (overflows : 2 ^ 128 ≤ a * b) (divides : c ∣ a * b)
    (wide : 1 ≤ k) (topBit : 2 ^ 31 * B ^ k ≤ c) (topLimb : c < B ^ (k + 1)) :
    multiplyByRational a b c = none := by
  have severalLimbs : B ≤ c :=
    calc B ≤ B ^ k := Nat.le_self_pow (by omega) B
      _ ≤ 2 ^ 31 * B ^ k := Nat.le_mul_of_pos_left _ (by positivity)
      _ ≤ c := topBit
  have panics : Panics a b (max c 1) := by
    rw [Nat.max_eq_left (le_trans (by unfold B; norm_num) severalLimbs)]
    exact ⟨aApart, bApart, overflows, divides, severalLimbs, k, topBit, topLimb⟩
  rcases le_total b a with le | ge
  · exact (multiplyByRational_of_le le aFits bFits cFits).1 panics
  · rw [multiplyByRational_comm]
    exact (multiplyByRational_of_le ge bFits aFits cFits).1 (panics_comm.mp panics)

theorem multiplyByRational_panics_at_five_halves :
    (5 * 2 ^ 62 < 2 ^ 128 ∧ 2 ^ 63 < 2 ^ 128 ∧ ¬2 ^ 63 ∣ 5 * 2 ^ 62 ∧ 2 ^ 128 ≤ 5 * 2 ^ 62 * (5 * 2 ^ 62) ∧
      2 ^ 63 ∣ 5 * 2 ^ 62 * (5 * 2 ^ 62) ∧ 1 ≤ 1 ∧ 2 ^ 31 * B ^ 1 ≤ 2 ^ 63 ∧ 2 ^ 63 < B ^ (1 + 1)) ∧
    multiplyByRational (5 * 2 ^ 62) (5 * 2 ^ 62) (2 ^ 63) = none :=
  ⟨by unfold B; decide,
    multiplyByRational_panics_on_exact_quotient (5 * 2 ^ 62) (5 * 2 ^ 62) (2 ^ 63) 1 (by norm_num) (by norm_num)
      (by norm_num) (by decide) (by decide) (by norm_num) (by decide) (le_refl 1) (by unfold B; norm_num)
      (by unfold B; norm_num)⟩

end Whole

end Helpers128bit

end OffchainStorage.Arithmetic
