import Mathlib

/-!
# Unsigned integers of Rust

A Rust integer of `bits` bits is a natural number below `2 ^ bits`.  The
operations the models use, as a debug build runs them:

* `checkedMul` and `checkedAdd`: the exact result, or `none` where the build
  panics on overflow, and `checkedSum`, `Iterator::sum` of such additions;
* `checkedSub`: the difference, or `none` where the subtraction underflows
  (a panic, or the `None` of `checked_sub`);
* `checkedDiv`: the quotient, or `none` where a zero divisor panics;
* `saturatingAdd`, `saturatingMul` and `saturatedInto`: the result clamped
  to the type, and their signed forms;
* `checkedNeg` and `checkedAbs` of a signed integer: `none` at its least
  value;
* `cast`, `x as uN`: the low `bits` bits;
* `tryInto`, `TryInto<uN>`: `none` when the value does not fit;
* `decodeLE` and `encodeLE`: SCALE decoding of a fixed-width integer,
  little-endian, and `to_le_bytes`;
* `checkedShl`, `<<` of a debug build;
* `checkedShr`, `>>` of a debug build, and `overflowingShl`, the shifted
  value of `overflowing_shl`;
* `checkedPow`, `pow` of a debug build;
* `nextPowerOfTwo`, `trailingZeros` and `leadingZeros`, the bit searches of `uN`.

Each comes with the lemma that computes it on arguments in range, so that a
proof never unfolds it.
-/

namespace RustInt

/-- `a * b` in a debug build: `none` is the overflow panic. -/
def checkedMul (bits a b : Nat) : Option Nat :=
  if a * b < 2 ^ bits then some (a * b) else none

/-- `a + b` in a debug build: `none` is the overflow panic. -/
def checkedAdd (bits a b : Nat) : Option Nat :=
  if a + b < 2 ^ bits then some (a + b) else none

/-- `a - b`: `none` when it underflows, the panic of a debug build or the
`None` of `checked_sub`. -/
def checkedSub (a b : Nat) : Option Nat :=
  if b ≤ a then some (a - b) else none

/-- `a / b`: `none` is the panic on a zero divisor. -/
def checkedDiv (a b : Nat) : Option Nat :=
  if b = 0 then none else some (a / b)

/-- `values.sum::<uN>()` in a debug build: the additions from zero, in order,
each of which may panic. -/
def checkedSum (bits : Nat) (values : List Nat) : Option Nat :=
  values.foldlM (checkedAdd bits) 0

/-- `a.saturating_add(b)`. -/
def saturatingAdd (bits a b : Nat) : Nat :=
  min (a + b) (2 ^ bits - 1)

/-- `a.saturating_add(b)` for the signed `iN`: the sum clamped to
`[-2 ^ (bits - 1), 2 ^ (bits - 1) - 1]`. -/
def saturatingAddSigned (bits : Nat) (a b : Int) : Int :=
  max (-2 ^ (bits - 1)) (min (a + b) (2 ^ (bits - 1) - 1))

/-- `a.saturating_mul(b)`. -/
def saturatingMul (bits a b : Nat) : Nat :=
  min (a * b) (2 ^ bits - 1)

/-- `a.saturating_mul(b)` for the signed `iN`. -/
def saturatingMulSigned (bits : Nat) (a b : Int) : Int :=
  max (-2 ^ (bits - 1)) (min (a * b) (2 ^ (bits - 1) - 1))

/-- `-a` for the signed `iN` in a debug build: `none` is the overflow panic
at the least value. -/
def checkedNeg (bits : Nat) (a : Int) : Option Int :=
  if a = -2 ^ (bits - 1) then none else some (-a)

/-- `a.checked_abs()` for the signed `iN`, and `a.abs()` in a debug build:
`none` at the least value, whose absolute value does not fit. -/
def checkedAbs (bits : Nat) (a : Int) : Option Int :=
  if a = -2 ^ (bits - 1) then none else some |a|

/-- `value << shift` for `uN` in a debug build: the bits shifted past the top
are lost, and `none` is the panic of a shift by `bits` or more. -/
def checkedShl (bits value shift : Nat) : Option Nat :=
  if shift < bits then some ((value <<< shift) % 2 ^ bits) else none

/-- `value >> shift` for `uN` in a debug build: `none` is the panic of a shift
by `bits` or more. -/
def checkedShr (bits value shift : Nat) : Option Nat :=
  if shift < bits then some (value >>> shift) else none

/-- `value.overflowing_shl(shift).0` for `uN`: the shift is taken modulo
`bits` and the bits shifted past the top are lost. -/
def overflowingShl (bits value shift : Nat) : Nat :=
  (value <<< (shift % bits)) % 2 ^ bits

/-- `base.pow(exponent)` for `uN` in a debug build: `none` is the overflow
panic. -/
def checkedPow (bits base exponent : Nat) : Option Nat :=
  if base ^ exponent < 2 ^ bits then some (base ^ exponent) else none

/-- `n.leading_zeros()` for `uN`: the number of zero bits above the highest
set bit, and `bits` for zero. -/
def leadingZeros (bits n : Nat) : Nat :=
  ((List.range bits).find? fun position => n / 2 ^ (bits - 1 - position) % 2 = 1).getD bits

/-- `value as uN`: the low bits. -/
def cast (bits value : Nat) : Nat :=
  value % 2 ^ bits

/-- `value.try_into()`: `none` when the value does not fit. -/
def tryInto (bits value : Nat) : Option Nat :=
  if value < 2 ^ bits then some value else none

/-- `value.saturated_into()`: the value clamped to the type. -/
def saturatedInto (bits value : Nat) : Nat :=
  min value (2 ^ bits - 1)

/-- SCALE decoding of an integer of `bytes` bytes, least significant first:
the value and the rest of the input, or `none` when the input is too short. -/
def decodeLE : (bytes : Nat) → List UInt8 → Option (Nat × List UInt8)
  | 0, input => some (0, input)
  | _ + 1, [] => none
  | bytes + 1, byte :: rest =>
      (decodeLE bytes rest).map fun decoded => (byte.toNat + 256 * decoded.1, decoded.2)

/-- `value.to_le_bytes()` for an integer of `bytes` bytes. -/
def encodeLE : (bytes : Nat) → Nat → List UInt8
  | 0, _ => []
  | bytes + 1, value => UInt8.ofNat (value % 256) :: encodeLE bytes (value / 256)

/-- `n.next_power_of_two()` for `uN`: the least power of two not below `n`;
`none` is the overflow panic when there is none below `2 ^ bits`. -/
def nextPowerOfTwo (bits n : Nat) : Option Nat :=
  ((List.range bits).find? fun exponent => n ≤ 2 ^ exponent).map (2 ^ ·)

/-- `n.trailing_zeros()` for `uN`: the position of the lowest set bit, and
`bits` for zero. -/
def trailingZeros (bits n : Nat) : Nat :=
  ((List.range bits).find? fun position => n / 2 ^ position % 2 = 1).getD bits

theorem checkedMul_of_lt {bits a b : Nat} (fits : a * b < 2 ^ bits) :
    checkedMul bits a b = some (a * b) :=
  if_pos fits

theorem checkedMul_of_le {bits a b : Nat} (overflows : 2 ^ bits ≤ a * b) :
    checkedMul bits a b = none :=
  if_neg (Nat.not_lt.mpr overflows)

theorem checkedAdd_of_lt {bits a b : Nat} (fits : a + b < 2 ^ bits) :
    checkedAdd bits a b = some (a + b) :=
  if_pos fits

theorem checkedAdd_of_le {bits a b : Nat} (overflows : 2 ^ bits ≤ a + b) :
    checkedAdd bits a b = none :=
  if_neg (Nat.not_lt.mpr overflows)

/-- The running sums only grow, so a sum from a start within the type panics
exactly when the total does not fit. -/
theorem foldlM_checkedAdd (bits : Nat) :
    ∀ (values : List Nat) {start : Nat}, start < 2 ^ bits →
      values.foldlM (checkedAdd bits) start =
        if start + values.sum < 2 ^ bits then some (start + values.sum) else none
  | [], start, fits => by
      rw [List.foldlM_nil, List.sum_nil, Nat.add_zero, if_pos fits]
      rfl
  | value :: rest, start, _ => by
      rw [List.foldlM_cons, List.sum_cons, ← Nat.add_assoc]
      by_cases firstFits : start + value < 2 ^ bits
      · rw [checkedAdd_of_lt firstFits, Option.bind_eq_bind, Option.bind_some]
        exact foldlM_checkedAdd bits rest firstFits
      · -- the first addition that overflows panics, and so does the total
        have total : ¬start + value + rest.sum < 2 ^ bits := by omega
        rw [checkedAdd_of_le (Nat.not_lt.mp firstFits), if_neg total]
        rfl

theorem checkedSum_eq (bits : Nat) (values : List Nat) :
    checkedSum bits values = if values.sum < 2 ^ bits then some values.sum else none := by
  rw [checkedSum, foldlM_checkedAdd bits values (Nat.two_pow_pos bits), Nat.zero_add]

theorem checkedSub_of_le {a b : Nat} (fits : b ≤ a) : checkedSub a b = some (a - b) :=
  if_pos fits

theorem checkedSub_of_lt {a b : Nat} (underflows : a < b) : checkedSub a b = none :=
  if_neg (Nat.not_le.mpr underflows)

/-- `a.checked_sub(b).unwrap_or_else(Zero::zero)` is the truncated difference. -/
theorem checkedSub_getD_zero (a b : Nat) : (checkedSub a b).getD 0 = a - b := by
  by_cases fits : b ≤ a
  · rw [checkedSub_of_le fits]
    rfl
  · rw [checkedSub, if_neg fits, Option.getD_none]
    omega

theorem checkedDiv_of_pos (a : Nat) {b : Nat} (positive : 0 < b) : checkedDiv a b = some (a / b) :=
  if_neg (Nat.pos_iff_ne_zero.mp positive)

theorem saturatingMulSigned_of_within {bits : Nat} {a b : Int} (lower : -2 ^ (bits - 1) ≤ a * b)
    (upper : a * b < 2 ^ (bits - 1)) : saturatingMulSigned bits a b = a * b := by
  unfold saturatingMulSigned
  omega

theorem checkedNeg_of_ne {bits : Nat} {a : Int} (above : a ≠ -2 ^ (bits - 1)) : checkedNeg bits a = some (-a) :=
  if_neg above

theorem checkedAbs_of_ne {bits : Nat} {a : Int} (above : a ≠ -2 ^ (bits - 1)) : checkedAbs bits a = some |a| :=
  if_neg above

theorem checkedShr_of_lt {bits value shift : Nat} (within : shift < bits) :
    checkedShr bits value shift = some (value >>> shift) :=
  if_pos within

theorem checkedPow_of_lt {bits base exponent : Nat} (fits : base ^ exponent < 2 ^ bits) :
    checkedPow bits base exponent = some (base ^ exponent) :=
  if_pos fits

theorem tryInto_of_lt {bits value : Nat} (fits : value < 2 ^ bits) :
    tryInto bits value = some value :=
  if_pos fits

theorem cast_of_lt {bits value : Nat} (fits : value < 2 ^ bits) : cast bits value = value :=
  Nat.mod_eq_of_lt fits

theorem cast_lt (bits value : Nat) : cast bits value < 2 ^ bits :=
  Nat.mod_lt _ (Nat.two_pow_pos bits)

theorem saturatedInto_of_lt {bits value : Nat} (fits : value < 2 ^ bits) :
    saturatedInto bits value = value := by
  unfold saturatedInto
  omega

/-- A decoded integer fits its width. -/
theorem decodeLE_lt :
    ∀ (bytes : Nat) {input rest : List UInt8} {value : Nat},
      decodeLE bytes input = some (value, rest) → value < 2 ^ (8 * bytes)
  | 0, _, _, _, decoded => by
      simp only [decodeLE, Option.some.injEq, Prod.mk.injEq] at decoded
      rw [← decoded.1]
      exact Nat.two_pow_pos _
  | _ + 1, [], _, _, decoded => by
      cases decoded
  | bytes + 1, byte :: input, rest, value, decoded => by
      rw [decodeLE] at decoded
      obtain ⟨⟨higher, remaining⟩, inner, outer⟩ := Option.map_eq_some_iff.mp decoded
      simp only [Prod.mk.injEq] at outer
      have higherFits := decodeLE_lt bytes inner
      have byteFits := byte.toNat_lt
      -- one more byte multiplies the bound by 256
      have wider : 2 ^ (8 * (bytes + 1)) = 256 * 2 ^ (8 * bytes) := by
        rw [Nat.mul_succ, Nat.pow_add, Nat.mul_comm]
      have room : 256 * higher + 256 ≤ 256 * 2 ^ (8 * bytes) := by
        rw [← Nat.mul_succ]
        exact Nat.mul_le_mul_left _ higherFits
      rw [← outer.1, wider]
      omega

/-- Decoding reads back what encoding wrote, modulo the width. -/
theorem decodeLE_encodeLE :
    ∀ (bytes value : Nat) (rest : List UInt8),
      decodeLE bytes (encodeLE bytes value ++ rest) = some (value % 2 ^ (8 * bytes), rest)
  | 0, value, rest => by
      simp [decodeLE, encodeLE, Nat.mod_one]
  | bytes + 1, value, rest => by
      rw [encodeLE, List.cons_append, decodeLE, decodeLE_encodeLE bytes (value / 256) rest]
      simp only [Option.map_some, Option.some.injEq, Prod.mk.injEq, and_true]
      -- the low byte, then the higher bytes: `Nat.mod_mul` splits the modulus the same way
      have wider : 2 ^ (8 * (bytes + 1)) = 256 * 2 ^ (8 * bytes) := by
        rw [Nat.mul_succ, Nat.pow_add, Nat.mul_comm]
      rw [wider, Nat.mod_mul]
      simp

/-- The bytes a decoding leaves are the end of its input. -/
theorem decodeLE_suffix :
    ∀ (bytes : Nat) {input rest : List UInt8} {value : Nat},
      decodeLE bytes input = some (value, rest) → rest <:+ input
  | 0, input, rest, value, decoded => by
      simp only [decodeLE, Option.some.injEq, Prod.mk.injEq] at decoded
      exact decoded.2 ▸ List.suffix_refl input
  | _ + 1, [], _, _, decoded => by
      cases decoded
  | bytes + 1, byte :: input, rest, value, decoded => by
      rw [decodeLE] at decoded
      obtain ⟨⟨higher, remaining⟩, inner, outer⟩ := Option.map_eq_some_iff.mp decoded
      simp only [Prod.mk.injEq] at outer
      rw [← outer.2]
      exact (decodeLE_suffix bytes inner).trans (List.suffix_cons byte input)

/-- A decoder that succeeds reads a prefix: bytes appended after its input
come back after what it leaves. -/
theorem decodeLE_append (extra : List UInt8) :
    ∀ (bytes : Nat) {input rest : List UInt8} {value : Nat},
      decodeLE bytes input = some (value, rest) → decodeLE bytes (input ++ extra) = some (value, rest ++ extra)
  | 0, input, rest, value, decoded => by
      simp only [decodeLE, Option.some.injEq, Prod.mk.injEq] at decoded ⊢
      rw [decoded.1, decoded.2]
      exact ⟨rfl, rfl⟩
  | _ + 1, [], _, _, decoded => by
      cases decoded
  | bytes + 1, byte :: input, rest, value, decoded => by
      rw [decodeLE] at decoded
      obtain ⟨⟨higher, remaining⟩, inner, outer⟩ := Option.map_eq_some_iff.mp decoded
      simp only [Prod.mk.injEq] at outer
      rw [List.cons_append, decodeLE, decodeLE_append extra bytes inner, Option.map_some, ← outer.1, ← outer.2]

/-- Below the overflow, the least power of two not below `n`. -/
theorem nextPowerOfTwo_of_le {bits n : Nat} (wide : 0 < bits) (fits : n ≤ 2 ^ (bits - 1)) :
    nextPowerOfTwo bits n = some (2 ^ Nat.clog 2 n) := by
  have least : Nat.clog 2 n ≤ bits - 1 := (Nat.clog_le_iff_le_pow (by decide)).mpr fits
  have found : (List.range bits).find? (fun exponent => decide (n ≤ 2 ^ exponent)) = some (Nat.clog 2 n) := by
    rw [List.find?_range_eq_some]
    refine ⟨decide_eq_true (Nat.le_pow_clog (by decide) n), List.mem_range.mpr (by omega), ?_⟩
    intro j below
    have short : ¬ n ≤ 2 ^ j := fun le => absurd ((Nat.clog_le_iff_le_pow (by decide)).mpr le) (by omega)
    simp [short]
  rw [nextPowerOfTwo, found]
  rfl

theorem nextPowerOfTwo_of_lt {bits n : Nat} (overflows : 2 ^ (bits - 1) < n) :
    nextPowerOfTwo bits n = none := by
  have missing : (List.range bits).find? (fun exponent => decide (n ≤ 2 ^ exponent)) = none := by
    rw [List.find?_range_eq_none]
    intro exponent below
    have smaller : 2 ^ exponent ≤ 2 ^ (bits - 1) := Nat.pow_le_pow_right (by decide) (by omega)
    simp only [Bool.not_eq_eq_eq_not, Bool.not_true, decide_eq_false_iff_not, Nat.not_le]
    omega
  rw [nextPowerOfTwo, missing]
  rfl

theorem trailingZeros_two_pow {bits k : Nat} (within : k < bits) : trailingZeros bits (2 ^ k) = k := by
  have found : (List.range bits).find? (fun position => decide (2 ^ k / 2 ^ position % 2 = 1)) = some k := by
    rw [List.find?_range_eq_some]
    refine ⟨by simp, List.mem_range.mpr within, ?_⟩
    intro j below
    have bit : (2 ^ k).testBit j = decide (k = j) := Nat.testBit_two_pow
    rw [Nat.testBit_eq_decide_div_mod_eq] at bit
    simp only [bit, Bool.not_eq_eq_eq_not, Bool.not_true, decide_eq_false_iff_not]
    omega
  rw [trailingZeros, found]
  rfl

theorem length_encodeLE : ∀ (bytes value : Nat), (encodeLE bytes value).length = bytes
  | 0, _ => rfl
  | bytes + 1, value => by
      rw [encodeLE, List.length_cons, length_encodeLE bytes (value / 256)]

/-- Below `2 ^ bits`, zero bits at the top `count` positions leave the number
below `2 ^ (bits - count)`. -/
theorem lt_two_pow_of_high_bits_zero {bits n : Nat} (fits : n < 2 ^ bits) :
    ∀ count, count ≤ bits → (∀ position < count, n / 2 ^ (bits - 1 - position) % 2 ≠ 1) → n < 2 ^ (bits - count) := by
  intro count
  induction count with
  | zero => intro _ _; simpa using fits
  | succ count ih =>
    intro within zeros
    have above := ih (by omega) fun position below => zeros position (by omega)
    have bit := zeros count (Nat.lt_succ_self count)
    rw [show bits - count = bits - 1 - count + 1 by omega, Nat.pow_succ] at above
    -- the quotient by the top remaining place is below two and even, so zero
    have quotient : n / 2 ^ (bits - 1 - count) < 2 := Nat.div_lt_of_lt_mul above
    have vanishes : n / 2 ^ (bits - 1 - count) = 0 := by
      generalize n / 2 ^ (bits - 1 - count) = quotient at quotient bit ⊢
      omega
    rw [Nat.div_eq_zero_iff_lt (Nat.two_pow_pos _)] at vanishes
    rwa [show bits - (count + 1) = bits - 1 - count by omega]

/-- A number below `2 ^ bits` fits the bits below its leading zeros. -/
theorem lt_two_pow_sub_leadingZeros {bits n : Nat} (fits : n < 2 ^ bits) :
    n < 2 ^ (bits - leadingZeros bits n) := by
  unfold leadingZeros
  cases found : (List.range bits).find? (fun position => decide (n / 2 ^ (bits - 1 - position) % 2 = 1)) with
  | none =>
    rw [List.find?_range_eq_none] at found
    apply lt_two_pow_of_high_bits_zero fits bits (Nat.le_refl bits)
    intro position below
    simpa using found position below
  | some leading =>
    rw [List.find?_range_eq_some] at found
    obtain ⟨-, member, before⟩ := found
    apply lt_two_pow_of_high_bits_zero fits leading (Nat.le_of_lt (List.mem_range.mp member))
    intro position below
    simpa using before position below

/-- A nonzero number below `2 ^ bits` has fewer than `bits` leading zeros,
and shifted left by them it reaches the top bit without passing it. -/
theorem leadingZeros_spec {bits n : Nat} (positive : 0 < n) (fits : n < 2 ^ bits) :
    leadingZeros bits n < bits ∧ 2 ^ (bits - 1) ≤ n * 2 ^ leadingZeros bits n ∧
      n * 2 ^ leadingZeros bits n < 2 ^ bits := by
  have upper := lt_two_pow_sub_leadingZeros fits
  unfold leadingZeros at upper ⊢
  cases found : (List.range bits).find? (fun position => decide (n / 2 ^ (bits - 1 - position) % 2 = 1)) with
  | none =>
    -- no bit is set, so the number is zero
    rw [found, Option.getD_none, Nat.sub_self, pow_zero] at upper
    omega
  | some leading =>
    rw [found, Option.getD_some] at upper
    rw [Option.getD_some]
    obtain ⟨bit, member, -⟩ := List.find?_range_eq_some.mp found
    have below : leading < bits := List.mem_range.mp member
    have bitSet : n / 2 ^ (bits - 1 - leading) % 2 = 1 := by simpa using bit
    -- the set bit puts the number at or above its place
    have atLeast : 2 ^ (bits - 1 - leading) ≤ n := by
      by_contra small
      rw [Nat.div_eq_of_lt (Nat.lt_of_not_le small)] at bitSet
      exact absurd bitSet (by decide)
    have topPlace : 2 ^ (bits - 1) = 2 ^ (bits - 1 - leading) * 2 ^ leading := by
      rw [← pow_add, Nat.sub_add_cancel (by omega)]
    have fullPlace : 2 ^ bits = 2 ^ (bits - leading) * 2 ^ leading := by
      rw [← pow_add, Nat.sub_add_cancel (by omega)]
    refine ⟨below, ?_, ?_⟩
    · rw [topPlace]
      exact Nat.mul_le_mul_right _ atLeast
    · rw [fullPlace]
      exact Nat.mul_lt_mul_of_pos_right upper (Nat.two_pow_pos _)

end RustInt
