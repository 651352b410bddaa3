import Mathlib
import OffchainStorage.Arithmetic.BigUint

/-!
# `BigUint::div`: Knuth's long division

`div` divides an `n + m` limb number by an `n` limb one with Algorithm D of
Knuth: both are multiplied by the power of two that sets the top bit of the
divisor's leading limb (D1), each limb of the quotient is estimated from the
top two limbs of the current window and corrected by the test of D3, the
divisor times the estimate is subtracted from the window (D4), and when that
goes negative the divisor is added back and the limb decreased (D6).  The
remainder is shifted back by the same power of two.

`div_exact` states that for operands meeting the four preconditions the
division returns the quotient and remainder of the values, with every limb
operation of the loops inside `u64`, and that it returns `None` exactly when a
precondition fails.
-/

namespace OffchainStorage.Arithmetic

open Transition Biguint

namespace BigUint

/-- `Self { digits: (j..=j+n).rev().map(|d| x.get(d)).collect() }`: the limbs
`j` to `j + n` of `x`. -/
def window (x : BigUint) (j n : Nat) : BigUint :=
  ⟨(List.range' j (n + 1)).reverse.map x.get, by simp⟩

/-- `places.for_each(|d| x.set(d, source.get(d - j)))`: the limbs of `source`
written at the places, counted from `j`. -/
def writeAt (x : BigUint) (j : Nat) (places : List Nat) (source : BigUint) : BigUint :=
  places.foldl (fun written d => written.set d (source.get (d - j))) x

/-- Steps D3.1 and the loop after it: `test()`, then `while rhat < B { if !test() { break } }`.
A test that decreases `qhat` is repeated while `rhat < B`; one that does not
ends the loop, since the `while` would repeat the same test.  `none` is an
overflow panic, and `qhat -= 1` at zero is one. -/
def estimate (vTop vNext uNext : Nat) : (qhat rhat : Nat) → Option Nat
  | qhat, rhat => do
    let lhs ← RustInt.checkedMul 64 qhat vNext
    let rhs ← RustInt.checkedMul 64 B rhat >>= (RustInt.checkedAdd 64 · uNext)
    if qhat ≥ B ∨ lhs > rhs then
      match qhat with
      | 0 => none
      | qhat + 1 => do
        let rhat ← RustInt.checkedAdd 64 rhat vTop
        if rhat < B then estimate vTop vNext uNext qhat rhat else pure qhat
    else pure qhat

/-- Step D3: the estimate of the limb `j` of the quotient from the top two
limbs of the window and the top limb of the divisor, then corrected. -/
def estimateLimb (n : Nat) (otherNorm selfNorm : BigUint) (j : Nat) : Option Nat := do
  let dividend ← RustInt.checkedMul 64 (selfNorm.get (j + n)).val B >>=
    (RustInt.checkedAdd 64 · (selfNorm.get (j + n - 1)).val)
  let divisor := otherNorm.get (n - 1)
  let estimated ← divSingle dividend divisor
  estimate divisor.val (otherNorm.get (n - 2)).val (selfNorm.get (j + n - 2)).val estimated.1 estimated.2.val

/-- Step D6: the limb `j` of the quotient decreased and the divisor added back
to the window. -/
def addBack (n : Nat) (otherNorm selfNorm q : BigUint) (j : Nat) : Option (BigUint × BigUint) := do
  let decreased ← RustInt.checkedSub (q.get j).val 1
  let q := q.set j (asSingle decreased)
  let u := selfNorm.window j n
  let r ← otherNorm.add u
  pure (selfNorm.writeAt j (List.range' j (n + 1)).reverse r, q)

/-- Steps D4 to D6 with the estimate `qhat`: the divisor times `qhat`
subtracted from the window, the limb `j` of the quotient, and the add back
when the window went negative. -/
def subtractLimb (n : Nat) (otherNorm : BigUint) (state : BigUint × BigUint) (j qhat : Nat) :
    Option (BigUint × BigUint) := do
  let lhs := state.1.window j n
  let rhs ← otherNorm.mul (ofDouble qhat)
  let maybeSub ← lhs.sub rhs
  let sub := match maybeSub with
    | .ok t => t
    | .error t => t
  let selfNorm := state.1.writeAt j (List.range' j (n + 1)) sub
  let q := state.2.set j (asSingle qhat)
  -- `negative`
  match maybeSub with
  | .ok _ => pure (selfNorm, q)
  | .error _ => addBack n otherNorm selfNorm q j

/-- One round `j` of step D2. -/
def divStep (n : Nat) (otherNorm : BigUint) (state : BigUint × BigUint) (j : Nat) :
    Option (BigUint × BigUint) := do
  let qhat ← estimateLimb n otherNorm state.1 j
  subtractLimb n otherNorm state j qhat

/-- One limb of the remainder shifted back: `get(d) >> nb | get(d + 1).overflowing_shl(s - nb).0`. -/
def unnormalizeStep (selfNorm : BigUint) (normalizerBits : Nat) (r : BigUint) (d : Nat) : Option BigUint := do
  let low ← RustInt.checkedShr 32 (selfNorm.get d).val normalizerBits
  let shiftBack ← RustInt.checkedSub 32 normalizerBits
  pure (r.set d (asSingle (low ||| RustInt.overflowingShl 32 (selfNorm.get (d + 1)).val shiftBack)))

/-- The remainder: the normalization undone on the `n` low limbs. -/
def unnormalize (n normalizerBits : Nat) (selfNorm : BigUint) : Option BigUint :=
  if normalizerBits > 0 then do
    let r ← (List.range (n - 1)).foldlM (unnormalizeStep selfNorm normalizerBits) (withCapacity n)
    let top ← RustInt.checkedShr 32 (selfNorm.get (n - 1)).val normalizerBits
    pure (r.set (n - 1) (asSingle top))
  else pure selfNorm

/-- `div`: `none` is a panic, `some none` the refusal of operands that break a
precondition, and `some (some (q, r))` the quotient and, when `rem` is set,
the remainder. -/
def div (x other : BigUint) (rem : Bool) : Option (Option (BigUint × BigUint)) :=
  if other.len ≤ 1 ∨ other.msb.val = 0 ∨ x.msb.val = 0 ∨ x.len ≤ other.len then some none
  else do
    let n := other.len
    let m := x.len - n
    let normalizerBits := RustInt.leadingZeros 32 other.msb.val
    let normalizer ← RustInt.checkedPow 32 2 normalizerBits
    -- step D1
    let selfNorm ← x.mul (ofSingle (asSingle normalizer))
    let otherNorm ← other.mul (ofSingle (asSingle normalizer))
    let selfNorm := selfNorm.lpad (n + m + 1)
    let otherNorm := otherNorm.lstrip
    -- step D2
    let result ← (List.range (m + 1)).reverse.foldlM (divStep n otherNorm) (selfNorm, withCapacity (m + 1))
    let r ← if rem then unnormalize n normalizerBits result.1 else pure (withCapacity n)
    pure (some (result.2, r))

/-! ## Windows of limbs -/

section Window

theorem len_window (x : BigUint) (j n : Nat) : (x.window j n).len = n + 1 := by
  simp [window, len]

theorem limbs_window (x : BigUint) (j n : Nat) :
    (x.window j n).limbs = (List.range' j (n + 1)).map fun d => (x.get d).val := by
  simp [window, limbs, List.map_reverse]

/-- A window reads the value from place `j`, below place `j + n + 1`. -/
theorem value_window (x : BigUint) (j n : Nat) : (x.window j n).value = x.value / B ^ j % B ^ (n + 1) := by
  rw [value, limbs_window, ← ofDigits_map_digits]
  congr 1
  apply List.map_congr_left
  intro d _
  exact get_val_eq x d

theorem writeAt_nil (x : BigUint) (j : Nat) (source : BigUint) : x.writeAt j [] source = x :=
  rfl

theorem writeAt_cons (x : BigUint) (j d : Nat) (places : List Nat) (source : BigUint) :
    x.writeAt j (d :: places) source = (x.set d (source.get (d - j))).writeAt j places source :=
  rfl

theorem writeAt_append (x : BigUint) (j : Nat) (places later : List Nat) (source : BigUint) :
    x.writeAt j (places ++ later) source = (x.writeAt j places source).writeAt j later source :=
  List.foldl_append

theorem len_writeAt (x : BigUint) (j : Nat) (places : List Nat) (source : BigUint) :
    (x.writeAt j places source).len = x.len := by
  induction places generalizing x with
  | nil => rfl
  | cons d places ih =>
    rw [writeAt_cons, ih, len_set]

theorem get_writeAt_of_not_mem (x : BigUint) (j : Nat) {places : List Nat} (source : BigUint) {p : Nat}
    (away : p ∉ places) : (x.writeAt j places source).get p = x.get p := by
  induction places generalizing x with
  | nil => rfl
  | cons d places ih =>
    rw [List.mem_cons, not_or] at away
    rw [writeAt_cons, ih _ away.2, get_set_of_ne _ away.1]

/-- Writing at a place the list does not visit commutes with the writes. -/
theorem writeAt_set_comm (x : BigUint) (j : Nat) {places : List Nat} (source : BigUint) {d : Nat}
    (away : d ∉ places) (v : Single) :
    (x.set d v).writeAt j places source = (x.writeAt j places source).set d v := by
  induction places generalizing x with
  | nil => rfl
  | cons e places ih =>
    rw [List.mem_cons, not_or] at away
    rw [writeAt_cons, writeAt_cons, set_comm _ away.1, ih _ away.2]

/-- Writes at distinct places may be made in either order. -/
theorem writeAt_reverse (x : BigUint) (j : Nat) {places : List Nat} (source : BigUint) (distinct : places.Nodup) :
    x.writeAt j places.reverse source = x.writeAt j places source := by
  induction places generalizing x with
  | nil => rfl
  | cons d places ih =>
    rw [List.nodup_cons] at distinct
    rw [List.reverse_cons, writeAt_append, ih _ distinct.2, writeAt_cons, writeAt_nil, writeAt_cons,
      writeAt_set_comm _ _ _ distinct.1]

/-- Writing the `k` low limbs of `source` from place `j` replaces the digits of
the value there. -/
theorem value_writeAt_range (x : BigUint) (j : Nat) (source : BigUint) (k : Nat) (fits : j + k ≤ x.len) :
    (x.writeAt j (List.range' j k) source).value + x.value / B ^ j % B ^ k * B ^ j =
      x.value + source.value % B ^ k * B ^ j := by
  induction k with
  | zero => rw [List.range'_zero, writeAt_nil, pow_zero, Nat.mod_one, Nat.mod_one]
  | succ k ih =>
    have before := ih (by omega)
    have inRange : j + k < (x.writeAt j (List.range' j k) source).len := by
      rw [len_writeAt]
      omega
    have untouched : (x.writeAt j (List.range' j k) source).get (j + k) = x.get (j + k) :=
      get_writeAt_of_not_mem _ _ _ (by simp)
    have written := value_set _ inRange (source.get k)
    rw [untouched] at written
    rw [List.range'_concat, writeAt_append, Nat.one_mul, writeAt_cons, writeAt_nil, Nat.add_sub_cancel_left]
    have limbHere := get_val_eq x (j + k)
    have sourceLimb := get_val_eq source k
    have xDigits : x.value / B ^ j % B ^ (k + 1) * B ^ j =
        x.value / B ^ j % B ^ k * B ^ j + (x.get (j + k)).val * B ^ (j + k) := by
      rw [Nat.mod_pow_succ, Nat.div_div_eq_div_mul, ← pow_add, limbHere, pow_add]
      ring
    have sourceDigits : source.value % B ^ (k + 1) * B ^ j =
        source.value % B ^ k * B ^ j + (source.get k).val * B ^ (j + k) := by
      rw [Nat.mod_pow_succ, sourceLimb, pow_add]
      ring
    omega

/-- Writing a window below the top of a number: the low places stay and the
window is replaced. -/
theorem value_writeAt_window (x : BigUint) (j n : Nat) (source : BigUint) (fits : j + n + 1 ≤ x.len)
    (below : x.value < B ^ (j + n + 1)) :
    (x.writeAt j (List.range' j (n + 1)) source).value = x.value % B ^ j + source.value % B ^ (n + 1) * B ^ j := by
  have written := value_writeAt_range x j source (n + 1) (by omega)
  have whole : x.value / B ^ j < B ^ (n + 1) := by
    apply Nat.div_lt_of_lt_mul
    rwa [← pow_add, ← Nat.add_assoc]
  have split := Nat.mod_add_div x.value (B ^ j)
  rw [Nat.mod_eq_of_lt whole] at written
  have commuted : B ^ j * (x.value / B ^ j) = x.value / B ^ j * B ^ j := Nat.mul_comm _ _
  omega

end Window

/-! ## The estimate of a limb -/

section Estimate

/-- What the correction of step D3 works with: the top two limbs of the
normalized divisor, the third limb of the window, the top two limbs of the
window as `dividend`, below the divisor's top limb plus one at the base, and
the true limb `target` of the quotient, which the test only ever passes from
above. -/
structure EstimateBounds (vTop vNext uNext dividend target : Nat) : Prop where
  normalized : 2 ^ 31 ≤ vTop
  topBound : vTop < B
  nextBound : vNext < B
  lowBound : uNext < B
  window : dividend < (vTop + 1) * B
  targetBound : target < B
  sharp : ∀ q, dividend * B + uNext < q * (vTop * B + vNext) → target < q

/-- When the test fires on its second predicate, `qhat` times the top two
limbs of the divisor passes the top three limbs of the window. -/
theorem above_of_fired {q r d v1 v2 u : Nat} (conserved : q * v1 + r = d) (fired : B * r + u < q * v2) :
    d * B + u < q * (v1 * B + v2) := by
  have expand : q * (v1 * B + v2) = q * v1 * B + q * v2 := by ring
  have shifted : d * B = q * v1 * B + B * r := by rw [← conserved]; ring
  omega

/-- When the test passes, `qhat` times the top two limbs of the divisor stays
within the top three limbs of the window. -/
theorem le_of_passed {q r d v1 v2 u : Nat} (conserved : q * v1 + r = d) (passed : q * v2 ≤ B * r + u) :
    q * (v1 * B + v2) ≤ d * B + u := by
  have expand : q * (v1 * B + v2) = q * v1 * B + q * v2 := by ring
  have shifted : d * B = q * v1 * B + B * r := by rw [← conserved]; ring
  omega

/-- A remainder that reached the base leaves the estimate below the base. -/
theorem lt_base_of_large_rhat {q r d v1 : Nat} (conserved : q * v1 + r = d) (window : d < (v1 + 1) * B)
    (large : B ≤ r) : q < B := by
  by_contra tooLarge
  have scaled : B * v1 ≤ q * v1 := Nat.mul_le_mul_right v1 (Nat.le_of_not_lt tooLarge)
  have expand : (v1 + 1) * B = B * v1 + B := by ring
  omega

/-- A remainder that reached the base leaves `qhat` times the top two limbs of
the divisor within the top three limbs of the window. -/
theorem le_of_large_rhat {q r d v1 v2 u : Nat} (conserved : q * v1 + r = d) (large : B ≤ r) (small : q < B)
    (next : v2 < B) : q * (v1 * B + v2) ≤ d * B + u := by
  have product : q * v2 < B * B := Nat.mul_lt_mul'' small next
  have raised : B * B ≤ r * B := Nat.mul_le_mul_right B large
  have expand : q * (v1 * B + v2) = q * v1 * B + q * v2 := by ring
  have shifted : d * B = q * v1 * B + r * B := by rw [← conserved]; ring
  omega

/-- The correction loop returns a limb below the base, never below the true
limb, whose product with the top two limbs of the divisor stays within the top
three limbs of the window; none of its operations overflows. -/
theorem estimate_spec {vTop vNext uNext dividend target : Nat}
    (bounds : EstimateBounds vTop vNext uNext dividend target) :
    ∀ qhat rhat, qhat * vTop + rhat = dividend → rhat < B → qhat ≤ B + 1 → target ≤ qhat →
      ∃ result, estimate vTop vNext uNext qhat rhat = some result ∧ target ≤ result ∧ result < B ∧
        result * (vTop * B + vNext) ≤ dividend * B + uNext := by
  have top := bounds.topBound
  have next := bounds.nextBound
  have low := bounds.lowBound
  intro qhat
  -- the recursion of the loop decreases `qhat` by one
  induction qhat with
  | zero =>
    intro rhat conserved rhatBound _ atLeast
    have rhsFits : B * rhat + uNext < 2 ^ 64 := by unfold B at *; omega
    rw [estimate, RustInt.checkedMul_of_lt (by omega), Option.bind_eq_bind, Option.bind_some,
      RustInt.checkedMul_of_lt (by unfold B at *; omega), Option.bind_some,
      RustInt.checkedAdd_of_lt rhsFits, Option.bind_some, if_neg (by unfold B; omega)]
    exact ⟨0, rfl, atLeast, by unfold B; omega, by simp⟩
  | succ q ih =>
    intro rhat conserved rhatBound estimateBound atLeast
    have lhsBound : (q + 1) * vNext ≤ (2 ^ 32 + 1) * (2 ^ 32 - 1) :=
      Nat.mul_le_mul (by unfold B at *; omega) (by unfold B at *; omega)
    have rhsFits : B * rhat + uNext < 2 ^ 64 := by unfold B at *; omega
    rw [estimate, Nat.succ_eq_add_one, RustInt.checkedMul_of_lt (by omega), Option.bind_eq_bind,
      Option.bind_some, RustInt.checkedMul_of_lt (by unfold B at *; omega), Option.bind_some,
      RustInt.checkedAdd_of_lt rhsFits, Option.bind_some]
    by_cases fired : q + 1 ≥ B ∨ (q + 1) * vNext > B * rhat + uNext
    · -- the test fires only above the true limb
      have above : target < q + 1 := by
        rcases fired with large | larger
        · exact lt_of_lt_of_le bounds.targetBound large
        · exact bounds.sharp (q + 1) (above_of_fired conserved larger)
      have sumFits : rhat + vTop < 2 ^ 64 := by unfold B at *; omega
      rw [if_pos fired, RustInt.checkedAdd_of_lt sumFits, Option.bind_some]
      have kept : q * vTop + (rhat + vTop) = dividend := by rw [← conserved]; ring
      by_cases stays : rhat + vTop < B
      · rw [if_pos stays]
        exact ih (rhat + vTop) kept stays (by omega) (by omega)
      · rw [if_neg stays]
        have small := lt_base_of_large_rhat kept bounds.window (by omega)
        exact ⟨q, rfl, by omega, small, le_of_large_rhat kept (by omega) small next⟩
    · rw [if_neg fired]
      have passed : (q + 1) * vNext ≤ B * rhat + uNext := by omega
      exact ⟨q + 1, rfl, atLeast, by omega, le_of_passed conserved passed⟩

end Estimate

/-! ## One round of step D2 -/

section Round

/-- A number below `B ^ (k + 1)` read from place `k` is a single digit. -/
theorem div_pow_mod_of_lt {X k : Nat} (below : X < B ^ (k + 1)) : X / B ^ k % B = X / B ^ k := by
  apply Nat.mod_eq_of_lt
  apply Nat.div_lt_of_lt_mul
  rwa [← pow_succ]

/-- Read from place `k`, a number is its digit there and the rest from `k + 1`
on. -/
theorem div_pow_eq_digit_add {X : Nat} (k : Nat) : X / B ^ k = X / B ^ k % B + B * (X / B ^ (k + 1)) := by
  rw [pow_succ, ← Nat.div_div_eq_div_mul]
  exact (Nat.mod_add_div _ _).symm

/-- The divisor after step D1: `n` limbs, at least two, and the top bit of the
leading limb set. -/
structure Normalized (n : Nat) (otherNorm : BigUint) : Prop where
  length : otherNorm.len = n
  wide : 2 ≤ n
  topBit : 2 ^ 31 ≤ (otherNorm.get (n - 1)).val

namespace Normalized

variable {n : Nat} {otherNorm : BigUint}

theorem value_lt (normalized : Normalized n otherNorm) : otherNorm.value < B ^ n := by
  have bounded := BigUint.value_lt otherNorm
  rwa [normalized.length] at bounded

/-- The leading limb is the value read from the top place. -/
theorem top_eq (normalized : Normalized n otherNorm) :
    (otherNorm.get (n - 1)).val = otherNorm.value / B ^ (n - 1) := by
  rw [get_val_eq, div_pow_mod_of_lt]
  rw [Nat.sub_add_cancel (by have := normalized.wide; omega)]
  exact normalized.value_lt

/-- The top two limbs are the value read from place `n - 2`. -/
theorem top_two_eq (normalized : Normalized n otherNorm) :
    otherNorm.value / B ^ (n - 2) =
      (otherNorm.get (n - 1)).val * B + (otherNorm.get (n - 2)).val := by
  have wide := normalized.wide
  rw [div_pow_eq_digit_add (n - 2), ← get_val_eq, show n - 2 + 1 = n - 1 by omega, ← normalized.top_eq]
  ring

theorem lower (normalized : Normalized n otherNorm) :
    (otherNorm.get (n - 1)).val * B ^ (n - 1) ≤ otherNorm.value := by
  rw [normalized.top_eq]
  exact Nat.div_mul_le_self _ _

theorem upper (normalized : Normalized n otherNorm) :
    otherNorm.value < ((otherNorm.get (n - 1)).val + 1) * B ^ (n - 1) := by
  rw [normalized.top_eq, Nat.add_mul, Nat.one_mul]
  exact Nat.lt_div_mul_add (by unfold B; positivity)

theorem value_pos (normalized : Normalized n otherNorm) : 0 < otherNorm.value := by
  have lower := normalized.lower
  have topBit := normalized.topBit
  have positive : 0 < B ^ (n - 1) := by unfold B; positivity
  have : 0 < (otherNorm.get (n - 1)).val * B ^ (n - 1) := Nat.mul_pos (by omega) positive
  omega

end Normalized

/-- What the rounds of step D2 keep with the limbs of the quotient from `k` on
written: the lengths, the lower limbs of the quotient still zero, the
remainder so far and the quotient times the divisor making the normalized
dividend, and the remainder below the divisor at place `k`. -/
structure DivInvariant (n m : Nat) (otherNorm : BigUint) (total k : Nat) (state : BigUint × BigUint) : Prop where
  selfLength : state.1.len = n + m + 1
  quotientLength : state.2.len = m + 1
  quotientZero : ∀ p, p < k → state.2.get p = 0
  conserved : state.1.value + state.2.value * otherNorm.value = total
  bounded : state.1.value < otherNorm.value * B ^ k

section Estimating

variable {n m : Nat} {otherNorm : BigUint} {total j : Nat} {state : BigUint × BigUint}

/-- The window of round `j` is below the divisor at the base. -/
theorem DivInvariant.window_lt (kept : DivInvariant n m otherNorm total (j + 1) state) :
    state.1.value / B ^ j < otherNorm.value * B := by
  apply Nat.div_lt_of_lt_mul
  calc state.1.value < otherNorm.value * B ^ (j + 1) := kept.bounded
    _ = B ^ j * (otherNorm.value * B) := by ring

/-- Step D3 gives the true limb of the quotient or one more, below the base,
and none of its operations overflows. -/
theorem estimateLimb_spec (normalized : Normalized n otherNorm)
    (kept : DivInvariant n m otherNorm total (j + 1) state) :
    ∃ qhat, estimateLimb n otherNorm state.1 j = some qhat ∧
      state.1.value / B ^ j / otherNorm.value ≤ qhat ∧ qhat ≤ state.1.value / B ^ j / otherNorm.value + 1 ∧
        qhat < B := by
  have wide := normalized.wide
  have positive := normalized.value_pos
  have divisorBelow := normalized.value_lt
  have window := kept.window_lt
  generalize windowDef : state.1.value / B ^ j = W at window ⊢
  generalize divisorDef : otherNorm.value = V at positive divisorBelow window ⊢
  generalize topDef : (otherNorm.get (n - 1)).val = v1
  generalize nextDef : (otherNorm.get (n - 2)).val = v2
  have topBit : 2 ^ 31 ≤ v1 := topDef ▸ normalized.topBit
  have topBound : v1 < B := topDef ▸ (otherNorm.get (n - 1)).isLt
  have nextBound : v2 < B := nextDef ▸ (otherNorm.get (n - 2)).isLt
  have lower : v1 * B ^ (n - 1) ≤ V := topDef ▸ divisorDef ▸ normalized.lower
  have upper : V < (v1 + 1) * B ^ (n - 1) := topDef ▸ divisorDef ▸ normalized.upper
  have topTwo : V / B ^ (n - 2) = v1 * B + v2 := topDef ▸ nextDef ▸ divisorDef ▸ normalized.top_two_eq
  -- the places of the window
  have placeTop : B ^ (n - 1) = B ^ (n - 2) * B := by rw [← pow_succ]; congr 1; omega
  have placeFull : B ^ n = B ^ (n - 1) * B := by rw [← pow_succ]; congr 1; omega
  have windowBelow : W < B ^ (n + 1) := by
    rw [pow_succ]
    exact lt_of_lt_of_le window (Nat.mul_le_mul_right B (Nat.le_of_lt divisorBelow))
  have readAt : ∀ i, (state.1.get (j + i)).val = W / B ^ i % B := fun i => by
    rw [get_val_eq, ← windowDef, Nat.div_div_eq_div_mul, ← pow_add]
  have uTop : (state.1.get (j + n)).val = W / B ^ n := by
    rw [readAt, div_pow_mod_of_lt windowBelow]
  have uNextEq : (state.1.get (j + n - 1)).val = W / B ^ (n - 1) % B := by
    rw [show j + n - 1 = j + (n - 1) by omega, readAt]
  have uLowEq : (state.1.get (j + n - 2)).val = W / B ^ (n - 2) % B := by
    rw [show j + n - 2 = j + (n - 2) by omega, readAt]
  -- the top two limbs of the window, and the top three
  have dividendEq : (state.1.get (j + n)).val * B + (state.1.get (j + n - 1)).val = W / B ^ (n - 1) := by
    have digits := div_pow_eq_digit_add (X := W) (n - 1)
    rw [show n - 1 + 1 = n by omega] at digits
    rw [uTop, uNextEq]
    linarith
  generalize dividendDef : W / B ^ (n - 1) = dividend at dividendEq
  generalize lowDef : (state.1.get (j + n - 2)).val = u2 at uLowEq
  have lowBound : u2 < B := lowDef ▸ (state.1.get (j + n - 2)).isLt
  have threeEq : W / B ^ (n - 2) = dividend * B + u2 := by
    rw [div_pow_eq_digit_add (n - 2), ← uLowEq, show n - 2 + 1 = n - 1 by omega, dividendDef]
    ring
  have dividendFits : dividend < B * B := by
    rw [← dividendDef]
    apply Nat.div_lt_of_lt_mul
    calc W < B ^ (n + 1) := windowBelow
      _ = B ^ (n - 1) * (B * B) := by rw [← pow_two, ← pow_add]; congr 1; omega
  -- the window is below the divisor's top limb plus one at the base
  have windowTop : dividend < (v1 + 1) * B := by
    rw [← dividendDef]
    apply Nat.div_lt_of_lt_mul
    calc W < V * B := window
      _ ≤ (v1 + 1) * B ^ (n - 1) * B := Nat.mul_le_mul_right B (Nat.le_of_lt upper)
      _ = B ^ (n - 1) * ((v1 + 1) * B) := by ring
  have bounds : EstimateBounds v1 v2 u2 dividend (W / V) := by
    refine ⟨topBit, topBound, nextBound, lowBound, windowTop, Nat.div_lt_of_lt_mul window, ?_⟩
    intro q passes
    apply Nat.div_lt_of_lt_mul
    rw [← threeEq, ← topTwo] at passes
    calc W < (W / B ^ (n - 2) + 1) * B ^ (n - 2) := by
          rw [Nat.add_mul, Nat.one_mul]
          exact Nat.lt_div_mul_add (by unfold B; positivity)
      _ ≤ q * (V / B ^ (n - 2)) * B ^ (n - 2) := Nat.mul_le_mul_right _ passes
      _ ≤ q * V := by
          rw [Nat.mul_assoc]
          exact Nat.mul_le_mul_left q (Nat.div_mul_le_self V _)
      _ = V * q := Nat.mul_comm _ _
  -- the first estimate, from the top two limbs
  have divisorPos : 0 < v1 := by omega
  have dividendFitsWord : (state.1.get (j + n)).val * B < 2 ^ 64 := by
    have := (state.1.get (j + n)).isLt
    unfold B at *
    omega
  have sumFitsWord : (state.1.get (j + n)).val * B + (state.1.get (j + n - 1)).val < 2 ^ 64 := by
    rw [dividendEq]
    unfold B at dividendFits
    omega
  have initialBound : dividend / v1 ≤ B + 1 := by
    have : dividend < (B + 2) * v1 := by
      calc dividend < (v1 + 1) * B := windowTop
        _ ≤ (B + 2) * v1 := by unfold B at *; nlinarith
    have := Nat.div_lt_of_lt_mul (by rwa [Nat.mul_comm] at this)
    omega
  have initialAbove : W / V ≤ dividend / v1 := by
    rw [← dividendDef, Nat.div_div_eq_div_mul]
    apply Nat.div_le_div_left _ (Nat.mul_pos (by unfold B; positivity) divisorPos)
    rw [Nat.mul_comm]
    exact lower
  obtain ⟨qhat, corrected, atLeast, below, within⟩ :=
    estimate_spec bounds (dividend / v1) (dividend % v1) (Nat.div_add_mod' dividend v1)
      (lt_trans (Nat.mod_lt _ divisorPos) topBound) initialBound initialAbove
  refine ⟨qhat, ?_, atLeast, ?_, below⟩
  · unfold estimateLimb divSingle
    rw [RustInt.checkedMul_of_lt dividendFitsWord, Option.bind_eq_bind, Option.bind_some,
      RustInt.checkedAdd_of_lt sumFitsWord, Option.bind_some, dividendEq]
    dsimp only
    rw [topDef, RustInt.checkedDiv_of_pos _ divisorPos, Option.map_some, Option.bind_eq_bind, Option.bind_some,
      nextDef, lowDef]
    rwa [asSingle_val_of_lt (lt_trans (Nat.mod_lt _ divisorPos) topBound)]
  · -- the corrected estimate overshoots by at most one
    rw [← threeEq, ← topTwo] at within
    by_cases zero : qhat = 0
    · rw [zero]
      exact Nat.zero_le _
    have wideTop : B ≤ V / B ^ (n - 2) := by rw [topTwo]; nlinarith
    have decreased : (qhat - 1) * (V / B ^ (n - 2) + 1) ≤ W / B ^ (n - 2) := by
      have expand : (qhat - 1) * (V / B ^ (n - 2) + 1) + V / B ^ (n - 2) + 1 =
          qhat * (V / B ^ (n - 2)) + qhat := by
        cases qhat with
        | zero => omega
        | succ q => simp only [Nat.add_sub_cancel]; ring
      omega
    have scaled : (qhat - 1) * V ≤ W := by
      calc (qhat - 1) * V ≤ (qhat - 1) * ((V / B ^ (n - 2) + 1) * B ^ (n - 2)) := by
            apply Nat.mul_le_mul_left
            rw [Nat.add_mul, Nat.one_mul]
            exact Nat.le_of_lt (Nat.lt_div_mul_add (by unfold B; positivity))
        _ = (qhat - 1) * (V / B ^ (n - 2) + 1) * B ^ (n - 2) := by ring
        _ ≤ W / B ^ (n - 2) * B ^ (n - 2) := Nat.mul_le_mul_right _ decreased
        _ ≤ W := Nat.div_mul_le_self W _
    have := (Nat.le_div_iff_mul_le positive).mpr scaled
    omega

end Estimating

/-- Read from place `j`, a number with `low` below that place is its digits
from there. -/
theorem add_mul_pow_div {low j : Nat} (Z : Nat) (lowBound : low < B ^ j) : (low + Z * B ^ j) / B ^ j = Z := by
  rw [Nat.add_mul_div_right _ _ (by unfold B; positivity), Nat.div_eq_of_lt lowBound, Nat.zero_add]

theorem add_mul_pow_mod {low j : Nat} (Z : Nat) (lowBound : low < B ^ j) : (low + Z * B ^ j) % B ^ j = low := by
  rw [Nat.add_mul_mod_self_right, Nat.mod_eq_of_lt lowBound]

/-- What one round leaves: the window replaced by its remainder modulo the
divisor, and the limb `j` of the quotient written with the quotient of the
window. -/
structure RoundResult (otherNorm : BigUint) (j : Nat) (state next : BigUint × BigUint) : Prop where
  selfLength : next.1.len = state.1.len
  quotientLength : next.2.len = state.2.len
  quotientOther : ∀ p, p ≠ j → next.2.get p = state.2.get p
  selfValue : next.1.value = state.1.value % B ^ j + state.1.value / B ^ j % otherNorm.value * B ^ j
  quotientValue : next.2.value = state.2.value + state.1.value / B ^ j / otherNorm.value * B ^ j

section Subtracting

variable {n m : Nat} {otherNorm : BigUint} {total j : Nat} {state : BigUint × BigUint}

/-- A round keeps the invariant, one place lower. -/
theorem DivInvariant.advance (positive : 0 < otherNorm.value) (kept : DivInvariant n m otherNorm total (j + 1) state)
    {next : BigUint × BigUint} (round : RoundResult otherNorm j state next) :
    DivInvariant n m otherNorm total j next := by
  have lowBound : state.1.value % B ^ j < B ^ j := Nat.mod_lt _ (by unfold B; positivity)
  have remainder : state.1.value / B ^ j % otherNorm.value < otherNorm.value := Nat.mod_lt _ positive
  refine ⟨round.selfLength ▸ kept.selfLength, round.quotientLength ▸ kept.quotientLength, ?_, ?_, ?_⟩
  · intro p before
    rw [round.quotientOther p (by omega)]
    exact kept.quotientZero p (by omega)
  · rw [round.selfValue, round.quotientValue, ← kept.conserved]
    have window := Nat.mod_add_div (state.1.value / B ^ j) otherNorm.value
    have places := Nat.mod_add_div state.1.value (B ^ j)
    calc state.1.value % B ^ j + state.1.value / B ^ j % otherNorm.value * B ^ j +
          (state.2.value + state.1.value / B ^ j / otherNorm.value * B ^ j) * otherNorm.value
        = state.1.value % B ^ j + B ^ j * (state.1.value / B ^ j % otherNorm.value +
            otherNorm.value * (state.1.value / B ^ j / otherNorm.value)) + state.2.value * otherNorm.value := by ring
      _ = state.1.value + state.2.value * otherNorm.value := by rw [window, places]
  · rw [round.selfValue]
    calc state.1.value % B ^ j + state.1.value / B ^ j % otherNorm.value * B ^ j
        < B ^ j + state.1.value / B ^ j % otherNorm.value * B ^ j := Nat.add_lt_add_right lowBound _
      _ = (state.1.value / B ^ j % otherNorm.value + 1) * B ^ j := by ring
      _ ≤ otherNorm.value * B ^ j := Nat.mul_le_mul_right _ remainder

/-- The window of round `j` is below the base at place `n + 1`. -/
theorem DivInvariant.window_lt_pow (normalized : Normalized n otherNorm)
    (kept : DivInvariant n m otherNorm total (j + 1) state) : state.1.value / B ^ j < B ^ (n + 1) :=
  calc state.1.value / B ^ j < otherNorm.value * B := kept.window_lt
    _ ≤ B ^ n * B := Nat.mul_le_mul_right B (Nat.le_of_lt normalized.value_lt)
    _ = B ^ (n + 1) := (pow_succ B n).symm

theorem DivInvariant.value_lt_top (normalized : Normalized n otherNorm)
    (kept : DivInvariant n m otherNorm total (j + 1) state) : state.1.value < B ^ (j + n + 1) := by
  have window := kept.window_lt_pow normalized
  calc state.1.value < (state.1.value / B ^ j + 1) * B ^ j := by
        rw [Nat.add_mul, Nat.one_mul]
        exact Nat.lt_div_mul_add (by unfold B; positivity)
    _ ≤ B ^ (n + 1) * B ^ j := Nat.mul_le_mul_right _ window
    _ = B ^ (j + n + 1) := by rw [← pow_add]; congr 1; omega

/-- The window of round `j` holds the whole remainder from place `j`. -/
theorem DivInvariant.value_window (normalized : Normalized n otherNorm)
    (kept : DivInvariant n m otherNorm total (j + 1) state) :
    (state.1.window j n).value = state.1.value / B ^ j := by
  rw [BigUint.value_window, Nat.mod_eq_of_lt (kept.window_lt_pow normalized)]

/-- Writing the limb `j` of the quotient, still zero, adds it at its place. -/
theorem DivInvariant.value_set_quotient (kept : DivInvariant n m otherNorm total (j + 1) state) (within : j ≤ m)
    {qhat : Nat} (below : qhat < B) :
    (state.2.set j (asSingle qhat)).value = state.2.value + qhat * B ^ j := by
  rw [value_set_of_zero _ (by rw [kept.quotientLength]; omega) (kept.quotientZero j (Nat.lt_succ_self j)),
    asSingle_val_of_lt below]

/-- Step D4 without a borrow: the estimate is the true limb, and the window is
replaced by its remainder. -/
theorem subtractLimb_of_exact (normalized : Normalized n otherNorm)
    (kept : DivInvariant n m otherNorm total (j + 1) state) (within : j ≤ m) {qhat : Nat}
    (exact : qhat = state.1.value / B ^ j / otherNorm.value) (below : qhat < B) :
    ∃ next, subtractLimb n otherNorm state j qhat = some next ∧ RoundResult otherNorm j state next := by
  have wide := normalized.wide
  have positive := normalized.value_pos
  have windowValue := kept.value_window normalized
  generalize windowDef : state.1.value / B ^ j = W at exact windowValue
  obtain ⟨rhs, product, rhsValue, rhsLength⟩ := mul_spec otherNorm (ofDouble qhat)
  rw [value_ofDouble (by unfold B at below; omega)] at rhsValue
  have fits : rhs.value ≤ (state.1.window j n).value := by
    rw [rhsValue, windowValue, exact]
    exact Nat.mul_div_le W _
  obtain ⟨w, difference, -, wValue⟩ := sub_spec (state.1.window j n) rhs
  rw [if_pos fits, Nat.add_zero] at wValue
  rw [if_pos fits] at difference
  have remainder : w.value = W % otherNorm.value := by
    have split := Nat.mod_add_div W otherNorm.value
    rw [rhsValue, windowValue, exact] at wValue
    omega
  refine ⟨(state.1.writeAt j (List.range' j (n + 1)) w, state.2.set j (asSingle qhat)), ?_, ?_⟩
  · unfold subtractLimb
    rw [product, Option.bind_eq_bind, Option.bind_some, difference, Option.bind_eq_bind, Option.bind_some]
    rfl
  · have remainderBound : W % otherNorm.value < B ^ (n + 1) :=
      lt_trans (Nat.mod_lt _ positive) (lt_trans normalized.value_lt (Nat.pow_lt_pow_right one_lt_B (by omega)))
    refine ⟨len_writeAt _ _ _ _, len_set _ _ _, fun p apart => get_set_of_ne _ apart _, ?_, ?_⟩
    · rw [value_writeAt_window _ _ _ _ (by rw [kept.selfLength]; omega) (kept.value_lt_top normalized), remainder,
        Nat.mod_eq_of_lt remainderBound, windowDef]
    · rw [kept.value_set_quotient within below, exact, windowDef]

/-- The quotient limb written with the estimate and then decreased by one. -/
theorem DivInvariant.value_set_decreased (kept : DivInvariant n m otherNorm total (j + 1) state) (within : j ≤ m)
    {qhat : Nat} (below : qhat < B) :
    ((state.2.set j (asSingle qhat)).set j (asSingle (qhat - 1))).value = state.2.value + (qhat - 1) * B ^ j := by
  have place : j < (state.2.set j (asSingle qhat)).len := by rw [len_set, kept.quotientLength]; omega
  have replaced := value_set _ place (asSingle (qhat - 1))
  rw [get_set_self _ (by rwa [len_set] at place), asSingle_val_of_lt below, asSingle_val_of_lt (by omega),
    kept.value_set_quotient within below] at replaced
  omega

/-- Steps D4 to D6 with a borrow: the estimate is one too large, the window
went negative by at most the divisor, and adding the divisor back restores its
remainder. -/
theorem subtractLimb_of_over (normalized : Normalized n otherNorm)
    (kept : DivInvariant n m otherNorm total (j + 1) state) (within : j ≤ m) {qhat : Nat}
    (tooLarge : qhat = state.1.value / B ^ j / otherNorm.value + 1) (below : qhat < B) :
    ∃ next, subtractLimb n otherNorm state j qhat = some next ∧ RoundResult otherNorm j state next := by
  have wide := normalized.wide
  have positive := normalized.value_pos
  have windowValue := kept.value_window normalized
  have windowBound := kept.window_lt_pow normalized
  have fitsSelf : j + n + 1 ≤ state.1.len := by rw [kept.selfLength]; omega
  have lowBound : state.1.value % B ^ j < B ^ j := Nat.mod_lt _ (by unfold B; positivity)
  have divisorBound : otherNorm.value < B ^ (n + 1) :=
    lt_trans normalized.value_lt (Nat.pow_lt_pow_right one_lt_B (by omega))
  generalize windowDef : state.1.value / B ^ j = W at tooLarge windowValue windowBound
  have split := Nat.mod_add_div W otherNorm.value
  have remainderBound : W % otherNorm.value < otherNorm.value := Nat.mod_lt _ positive
  generalize quotientDef : W / otherNorm.value = Q at tooLarge split
  generalize remainderDef : W % otherNorm.value = R at split remainderBound
  obtain ⟨rhs, product, rhsValue, rhsLength⟩ := mul_spec otherNorm (ofDouble qhat)
  rw [value_ofDouble (by unfold B at below; omega), tooLarge, Nat.mul_add_one] at rhsValue
  rw [len_ofDouble, normalized.length] at rhsLength
  have notFits : ¬ rhs.value ≤ (state.1.window j n).value := by rw [rhsValue, windowValue]; omega
  -- the borrow of `sub` is the base at place `n + 2`
  obtain ⟨w, difference, -, wValue⟩ := sub_spec (state.1.window j n) rhs
  rw [if_neg notFits] at difference wValue
  have widest : max (state.1.window j n).len rhs.len = n + 2 := by rw [len_window, rhsLength]; omega
  have top : B ^ (n + 2) = (B - 1) * B ^ (n + 1) + B ^ (n + 1) := by
    rw [← Nat.succ_mul, Nat.succ_eq_add_one, Nat.sub_add_cancel (Nat.le_of_lt one_lt_B), ← pow_succ']
  rw [widest, top, rhsValue, windowValue] at wValue
  have borrowed : w.value = (B ^ (n + 1) + R - otherNorm.value) + (B - 1) * B ^ (n + 1) := by omega
  generalize depthDef : B ^ (n + 1) + R - otherNorm.value = Z at borrowed
  have ZBound : Z < B ^ (n + 1) := by omega
  have wMod : w.value % B ^ (n + 1) = Z := by
    rw [borrowed, Nat.add_mul_mod_self_right, Nat.mod_eq_of_lt ZBound]
  -- the window after the subtraction, and after the add back
  have subtracted : (state.1.writeAt j (List.range' j (n + 1)) w).value = state.1.value % B ^ j + Z * B ^ j := by
    rw [value_writeAt_window _ _ _ _ fitsSelf (kept.value_lt_top normalized), wMod]
  have negativeWindow : ((state.1.writeAt j (List.range' j (n + 1)) w).window j n).value = Z := by
    rw [BigUint.value_window, subtracted, add_mul_pow_div Z lowBound, Nat.mod_eq_of_lt ZBound]
  obtain ⟨r, sum, rValue, -⟩ := add_spec otherNorm ((state.1.writeAt j (List.range' j (n + 1)) w).window j n)
  rw [negativeWindow] at rValue
  have restored : r.value % B ^ (n + 1) = R := by
    have wrapped : r.value = R + 1 * B ^ (n + 1) := by omega
    rw [wrapped, Nat.add_mul_mod_self_right, Nat.mod_eq_of_lt (by omega)]
  have subtractedBound : (state.1.writeAt j (List.range' j (n + 1)) w).value < B ^ (j + n + 1) := by
    rw [subtracted]
    calc state.1.value % B ^ j + Z * B ^ j < (Z + 1) * B ^ j := by rw [Nat.add_mul, Nat.one_mul]; omega
      _ ≤ B ^ (n + 1) * B ^ j := Nat.mul_le_mul_right _ ZBound
      _ = B ^ (j + n + 1) := by rw [← pow_add]; congr 1; omega
  refine ⟨((state.1.writeAt j (List.range' j (n + 1)) w).writeAt j (List.range' j (n + 1)).reverse r,
    (state.2.set j (asSingle qhat)).set j (asSingle (qhat - 1))), ?_, ?_⟩
  · unfold subtractLimb
    rw [product, Option.bind_eq_bind, Option.bind_some, difference, Option.bind_eq_bind, Option.bind_some]
    show addBack n otherNorm (state.1.writeAt j (List.range' j (n + 1)) w) (state.2.set j (asSingle qhat)) j = _
    unfold addBack
    rw [get_set_self _ (by rw [kept.quotientLength]; omega), asSingle_val_of_lt below,
      RustInt.checkedSub_of_le (show 1 ≤ qhat by omega), Option.bind_eq_bind, Option.bind_some]
    dsimp only
    rw [sum, Option.bind_eq_bind, Option.bind_some]
    rfl
  · refine ⟨by rw [len_writeAt, len_writeAt], by rw [len_set, len_set],
      fun p apart => by rw [get_set_of_ne _ apart, get_set_of_ne _ apart], ?_, ?_⟩
    · rw [writeAt_reverse _ _ _ List.nodup_range',
        value_writeAt_window _ _ _ _ (by rwa [len_writeAt]) subtractedBound, restored, subtracted,
        add_mul_pow_mod Z lowBound, windowDef, remainderDef]
    · rw [kept.value_set_decreased within below, tooLarge, Nat.add_sub_cancel, windowDef, quotientDef]

/-- One round of step D2 keeps the invariant one place lower, and none of its
operations panics. -/
theorem divStep_spec (normalized : Normalized n otherNorm) (within : j ≤ m)
    (kept : DivInvariant n m otherNorm total (j + 1) state) :
    ∃ next, divStep n otherNorm state j = some next ∧ DivInvariant n m otherNorm total j next := by
  obtain ⟨qhat, estimated, atLeast, atMost, below⟩ := estimateLimb_spec normalized kept
  -- the estimate is the true limb or one more, which decides whether `sub` borrows
  have round : ∃ next, subtractLimb n otherNorm state j qhat = some next ∧ RoundResult otherNorm j state next := by
    rcases Nat.eq_or_lt_of_le atLeast with onTarget | tooLarge
    · exact subtractLimb_of_exact normalized kept within onTarget.symm below
    · exact subtractLimb_of_over normalized kept within (by omega) below
  obtain ⟨next, subtracted, result⟩ := round
  refine ⟨next, ?_, kept.advance normalized.value_pos result⟩
  unfold divStep
  rw [estimated, Option.bind_eq_bind, Option.bind_some, subtracted]

/-- The rounds of step D2, from limb `m` of the quotient down to limb `0`. -/
theorem divLoop_spec (normalized : Normalized n otherNorm) {start : BigUint × BigUint}
    (initially : DivInvariant n m otherNorm total (m + 1) start) :
    ∃ final, (List.range (m + 1)).reverse.foldlM (divStep n otherNorm) start = some final ∧
      DivInvariant n m otherNorm total 0 final :=
  foldlM_range_reverse_invariant (fun k current => DivInvariant n m otherNorm total k current)
    (fun _ _ within kept => divStep_spec normalized (by omega) kept) initially

end Subtracting

end Round

/-! ## The remainder shifted back -/

section Unnormalize

/-- A limb of a number shifted right by `s` bits: the limb shifted, with the
low `s` bits of the next limb above it; the two parts do not overlap, so the
`|` of the code adds them. -/
theorem shiftedLimb_eq {s : Nat} (positive : 0 < s) (small : s < 32) (X : Nat) :
    (X % B) >>> s ||| RustInt.overflowingShl 32 (X / B % B) (32 - s) = X / 2 ^ s % B := by
  have base : B = 2 ^ s * 2 ^ (32 - s) := by rw [← pow_add, Nat.add_sub_cancel' (Nat.le_of_lt small)]; rfl
  have lowBits : (X % B) >>> s < 2 ^ (32 - s) := by
    rw [Nat.shiftRight_eq_div_pow, Nat.div_lt_iff_lt_mul (Nat.two_pow_pos s), Nat.mul_comm, ← base]
    exact Nat.mod_lt _ (by unfold B; positivity)
  -- the bits of the next limb that `overflowing_shl` keeps
  have highBits : RustInt.overflowingShl 32 (X / B % B) (32 - s) = X / B % 2 ^ s * 2 ^ (32 - s) := by
    unfold RustInt.overflowingShl
    rw [Nat.mod_eq_of_lt (show 32 - s < 32 by omega), Nat.shiftLeft_eq, show (2 : Nat) ^ 32 = 2 ^ s * 2 ^ (32 - s) from base,
      Nat.mul_mod_mul_right, Nat.mod_mod_of_dvd _ (by rw [base]; exact Dvd.intro _ rfl)]
  rw [highBits, Nat.lor_comm, ← Nat.shiftLeft_eq, ← Nat.shiftLeft_add_eq_or_of_lt lowBits, Nat.shiftLeft_eq,
    Nat.shiftRight_eq_div_pow, ← Nat.mod_mul_right_div_self X (2 ^ s) B, Nat.mul_comm (2 ^ s) B, Nat.mod_mul,
    show B * (X / B % 2 ^ s) = 2 ^ s * (X / B % 2 ^ s * 2 ^ (32 - s)) by rw [base]; ring,
    Nat.add_mul_div_left _ _ (Nat.two_pow_pos s), Nat.add_comm]

/-- What the loop of `unnormalize` keeps: the limbs below `i` of the remainder
hold the shifted number. -/
structure ShiftInvariant (n s : Nat) (selfNorm : BigUint) (i : Nat) (r : BigUint) : Prop where
  length : r.len = n
  shifted : ∀ d, d < i → (r.get d).val = selfNorm.value / 2 ^ s / B ^ d % B

variable {n s : Nat} {selfNorm : BigUint}

/-- Writing the shifted limb `i` extends what the loop keeps by one limb. -/
theorem ShiftInvariant.step {i : Nat} {r : BigUint} (kept : ShiftInvariant n s selfNorm i r) (within : i < n) :
    ShiftInvariant n s selfNorm (i + 1) (r.set i (asSingle (selfNorm.value / 2 ^ s / B ^ i % B))) := by
  refine ⟨by rw [len_set, kept.length], fun d before => ?_⟩
  by_cases here : d = i
  · rw [here, get_set_self _ (by rw [kept.length]; exact within), asSingle_val_of_lt (Nat.mod_lt _ (by unfold B; positivity))]
  · rw [get_set_of_ne _ here]
    exact kept.shifted d (by omega)

theorem unnormalizeStep_eq (selfNorm : BigUint) (positive : 0 < s) (small : s < 32) (r : BigUint) (d : Nat) :
    unnormalizeStep selfNorm s r d = some (r.set d (asSingle (selfNorm.value / 2 ^ s / B ^ d % B))) := by
  unfold unnormalizeStep
  rw [RustInt.checkedShr_of_lt small, Option.bind_eq_bind, Option.bind_some,
    RustInt.checkedSub_of_le (Nat.le_of_lt small), Option.bind_some, get_val_eq, get_val_eq,
    pow_succ B d, ← Nat.div_div_eq_div_mul selfNorm.value (B ^ d) B, shiftedLimb_eq positive small,
    Nat.div_right_comm]
  rfl

theorem unnormalize_zero (n : Nat) (selfNorm : BigUint) : unnormalize n 0 selfNorm = some selfNorm :=
  if_neg (Nat.lt_irrefl 0)

/-- `unnormalize` divides a remainder of `n` limbs by the normalizer; with a
shift the result is built in `n` limbs. -/
theorem unnormalize_spec (wide : 1 ≤ n) (small : s < 32) (below : selfNorm.value < B ^ n) :
    ∃ r, unnormalize n s selfNorm = some r ∧ r.value = selfNorm.value / 2 ^ s ∧ (0 < s → r.len = n) := by
  unfold unnormalize
  by_cases positive : s > 0
  · rw [if_pos positive]
    have initially : ShiftInvariant n s selfNorm 0 (withCapacity n) :=
      ⟨by rw [len_withCapacity]; omega, fun d before => absurd before (Nat.not_lt_zero d)⟩
    obtain ⟨r, ran, kept⟩ : ∃ r, (List.range (n - 1)).foldlM (unnormalizeStep selfNorm s) (withCapacity n) = some r ∧
        ShiftInvariant n s selfNorm (n - 1) r :=
      foldlM_range_invariant (ShiftInvariant n s selfNorm)
        (fun d current within kept => ⟨_, unnormalizeStep_eq selfNorm positive small current d, kept.step (by omega)⟩)
        initially
    -- the top limb has no limb above it: `U < B ^ n`
    have topLimb : (selfNorm.get (n - 1)).val >>> s = selfNorm.value / 2 ^ s / B ^ (n - 1) % B := by
      have topBelow : selfNorm.value / B ^ (n - 1) < B :=
        Nat.div_lt_of_lt_mul (by rwa [← pow_succ, Nat.sub_add_cancel wide])
      have shiftedBelow : selfNorm.value / 2 ^ s / B ^ (n - 1) < B := by
        rw [Nat.div_right_comm]
        exact lt_of_le_of_lt (Nat.div_le_self _ _) topBelow
      rw [get_val_eq, Nat.mod_eq_of_lt topBelow, Nat.shiftRight_eq_div_pow, Nat.div_right_comm,
        Nat.mod_eq_of_lt shiftedBelow]
    have final := kept.step (show n - 1 < n by omega)
    rw [Nat.sub_add_cancel wide] at final
    refine ⟨_, ?_, value_eq_of_get (fun d within => final.shifted d (by rwa [final.length] at within)) ?_,
      fun _ => final.length⟩
    · rw [ran, Option.bind_eq_bind, Option.bind_some, RustInt.checkedShr_of_lt small, Option.bind_eq_bind,
        Option.bind_some, topLimb]
      rfl
    · rw [final.length]
      exact lt_of_le_of_lt (Nat.div_le_self _ _) below
  · rw [if_neg positive, show s = 0 by omega, pow_zero]
    exact ⟨selfNorm, rfl, (Nat.div_one _).symm, fun shifted => absurd shifted (Nat.lt_irrefl 0)⟩

end Unnormalize

/-! ## Step D1 and the whole division -/

section Division

/-- The leading limb is the limb at the top place. -/
theorem get_pred_len (x : BigUint) : x.get (x.len - 1) = x.msb := by
  unfold get msb
  rw [if_pos (Nat.sub_lt (len_pos x) Nat.one_pos), Nat.sub_self]
  cases x with
  | mk digits nonempty =>
    cases digits with
    | nil => exact absurd rfl nonempty
    | cons a rest => rfl

/-- The leading limb is the value read from the top place. -/
theorem msb_val_eq (x : BigUint) : x.msb.val = x.value / B ^ (x.len - 1) := by
  rw [← get_pred_len, get_val_eq, div_pow_mod_of_lt]
  rw [Nat.sub_add_cancel (len_pos x)]
  exact value_lt x

/-- A leading limb that is not zero puts the value at or above the top place. -/
theorem pow_le_value_of_msb {x : BigUint} (nonzero : x.msb ≠ 0) : B ^ (x.len - 1) ≤ x.value := by
  by_contra small
  have top := msb_val_eq x
  rw [Nat.div_eq_of_lt (Nat.lt_of_not_le small)] at top
  exact nonzero (Fin.ext top)

/-- Step D1 on the divisor: times `2 ^ leading_zeros(msb)` and stripped, it has
as many limbs as before and the top bit of its leading limb set. -/
theorem normalized_of_msb {other : BigUint} (wide : 2 ≤ other.len) (nonzero : other.msb ≠ 0) {scaled : BigUint}
    (scaledValue : scaled.value = other.value * 2 ^ RustInt.leadingZeros 32 other.msb.val) :
    Normalized other.len scaled.lstrip := by
  have topPos : 0 < other.msb.val := Nat.pos_of_ne_zero (fun zero => nonzero (Fin.ext zero))
  obtain ⟨small, topBit, topFits⟩ := RustInt.leadingZeros_spec topPos other.msb.isLt
  generalize RustInt.leadingZeros 32 other.msb.val = s at scaledValue small topBit topFits
  have digits := Nat.div_add_mod other.value (B ^ (other.len - 1))
  rw [← msb_val_eq] at digits
  have low := Nat.mod_lt other.value (show 0 < B ^ (other.len - 1) by unfold B; positivity)
  -- the leading limb shifted stays below the base, and so does one more
  have roundUp : (other.msb.val + 1) * 2 ^ s ≤ B := by
    have split : (2 : Nat) ^ 32 = 2 ^ (32 - s) * 2 ^ s := by rw [← pow_add, Nat.sub_add_cancel (by omega)]
    calc (other.msb.val + 1) * 2 ^ s ≤ 2 ^ (32 - s) * 2 ^ s :=
          Nat.mul_le_mul_right _ (Nat.lt_of_mul_lt_mul_right (lt_of_lt_of_eq topFits split))
      _ = B := split.symm
  have lower : 2 ^ 31 * B ^ (other.len - 1) ≤ scaled.lstrip.value := by
    rw [value_lstrip, scaledValue]
    calc 2 ^ 31 * B ^ (other.len - 1) ≤ other.msb.val * 2 ^ s * B ^ (other.len - 1) := Nat.mul_le_mul_right _ topBit
      _ = B ^ (other.len - 1) * other.msb.val * 2 ^ s := by ring
      _ ≤ other.value * 2 ^ s := Nat.mul_le_mul_right _ (Nat.le.intro digits)
  have upper : scaled.lstrip.value < B ^ other.len := by
    rw [value_lstrip, scaledValue]
    calc other.value * 2 ^ s < B ^ (other.len - 1) * (other.msb.val + 1) * 2 ^ s :=
          Nat.mul_lt_mul_of_pos_right (by rw [Nat.mul_add_one]; omega) (Nat.two_pow_pos s)
      _ = B ^ (other.len - 1) * ((other.msb.val + 1) * 2 ^ s) := by ring
      _ ≤ B ^ (other.len - 1) * B := Nat.mul_le_mul_left _ roundUp
      _ = B ^ other.len := by rw [← pow_succ]; congr 1; omega
  -- the stripped length is read off the value: at least the top place, below the next
  have positive : 0 < scaled.value := by
    rw [← value_lstrip]
    exact lt_of_lt_of_le (by unfold B; positivity) lower
  have notLonger : scaled.lstrip.len - 1 < other.len := by
    apply (Nat.pow_lt_pow_iff_right one_lt_B).mp
    rw [value_lstrip] at upper
    exact lt_of_le_of_lt (pow_le_value_lstrip positive) upper
  have notShorter : other.len - 1 < scaled.lstrip.len := by
    apply (Nat.pow_lt_pow_iff_right one_lt_B).mp
    calc B ^ (other.len - 1) ≤ 2 ^ 31 * B ^ (other.len - 1) := Nat.le_mul_of_pos_left _ (by positivity)
      _ ≤ scaled.lstrip.value := lower
      _ < B ^ scaled.lstrip.len := value_lt _
  have length : scaled.lstrip.len = other.len := by
    have := len_pos scaled.lstrip
    omega
  refine ⟨length, wide, ?_⟩
  rw [get_val_eq, div_pow_mod_of_lt (by rwa [Nat.sub_add_cancel (by omega)])]
  exact (Nat.le_div_iff_mul_le (by unfold B; positivity)).mpr lower

/-- The remainder of the normalized operands divided by the normalizer is the
remainder of the operands, and the quotients agree. -/
theorem unscaled_of_scaled {U q v x P : Nat} (positive : 0 < P) (conserved : U + q * (v * P) = x * P)
    (bounded : U < v * P) : x / v = q ∧ x % v = U / P := by
  have divisorPos : 0 < v := Nat.pos_of_ne_zero (by rintro rfl; rw [Nat.zero_mul] at bounded; omega)
  have productLe : q * v ≤ x := Nat.le_of_mul_le_mul_right (by rw [Nat.mul_assoc]; omega) positive
  have exactly : U = (x - q * v) * P := by rw [Nat.sub_mul, Nat.mul_assoc]; omega
  have small : x - q * v < v := by
    rw [exactly] at bounded
    exact Nat.lt_of_mul_lt_mul_right bounded
  have split : x = x - q * v + v * q := by rw [Nat.mul_comm v q]; omega
  constructor
  · calc x / v = (x - q * v + v * q) / v := by rw [← split]
      _ = q := by rw [Nat.add_mul_div_left _ _ divisorPos, Nat.div_eq_of_lt small, Nat.zero_add]
  · calc x % v = (x - q * v + v * q) % v := by rw [← split]
      _ = U / P := by rw [Nat.add_mul_mod_self_left, Nat.mod_eq_of_lt small, exactly, Nat.mul_div_cancel _ positive]

/-- `div` on operands that meet its preconditions: no operation panics, the
quotient is the quotient of the values and, when asked for, the remainder is
the remainder of the values. -/
theorem div_spec (x other : BigUint) (rem : Bool) (wide : 2 ≤ other.len) (divisorTop : other.msb ≠ 0)
    (dividendTop : x.msb ≠ 0) (longer : other.len < x.len) :
    ∃ q r, x.div other rem = some (some (q, r)) ∧ q.value = x.value / other.value ∧
      (rem = true → r.value = x.value % other.value) ∧
      (rem = true → r.len = if RustInt.leadingZeros 32 other.msb.val = 0 then x.len + 1 else other.len) := by
  have accepted : ¬(other.len ≤ 1 ∨ other.msb.val = 0 ∨ x.msb.val = 0 ∨ x.len ≤ other.len) := by
    rintro (short | zero | zero | short)
    · omega
    · exact divisorTop (Fin.ext zero)
    · exact dividendTop (Fin.ext zero)
    · omega
  have topPos : 0 < other.msb.val := Nat.pos_of_ne_zero (fun zero => divisorTop (Fin.ext zero))
  obtain ⟨small, -, -⟩ := RustInt.leadingZeros_spec topPos other.msb.isLt
  have normalizerFits : 2 ^ RustInt.leadingZeros 32 other.msb.val < 2 ^ 32 := Nat.pow_lt_pow_right (by norm_num) small
  have normalizerVal : (asSingle (2 ^ RustInt.leadingZeros 32 other.msb.val)).val = 2 ^ RustInt.leadingZeros 32 other.msb.val :=
    asSingle_val_of_lt normalizerFits
  -- step D1
  obtain ⟨selfScaled, selfMul, selfValue, selfLength⟩ :=
    mul_spec x (ofSingle (asSingle (2 ^ RustInt.leadingZeros 32 other.msb.val)))
  obtain ⟨otherScaled, otherMul, otherValue, otherLength⟩ :=
    mul_spec other (ofSingle (asSingle (2 ^ RustInt.leadingZeros 32 other.msb.val)))
  rw [value_ofSingle, normalizerVal] at selfValue otherValue
  rw [len_ofSingle] at selfLength
  have normalized := normalized_of_msb wide divisorTop otherValue
  have padded : selfScaled.lpad (other.len + (x.len - other.len) + 1) = selfScaled := lpad_of_le (by omega)
  unfold div
  rw [if_neg accepted]
  dsimp only
  generalize RustInt.leadingZeros 32 other.msb.val = s at selfValue otherValue selfMul otherMul normalizerFits small ⊢
  -- step D2 from the normalized dividend and an empty quotient
  have initially : DivInvariant other.len (x.len - other.len) otherScaled.lstrip (x.value * 2 ^ s) (x.len - other.len + 1)
      (selfScaled, withCapacity (x.len - other.len + 1)) := by
    refine ⟨by dsimp only; omega, by rw [len_withCapacity]; omega, fun p _ => get_withCapacity _ p,
      by rw [value_withCapacity, Nat.zero_mul, Nat.add_zero, selfValue], ?_⟩
    rw [value_lstrip, otherValue, selfValue, Nat.mul_right_comm]
    apply Nat.mul_lt_mul_of_pos_right _ (Nat.two_pow_pos s)
    calc x.value < B ^ x.len := value_lt x
      _ = B ^ (other.len - 1) * B ^ (x.len - other.len + 1) := by rw [← pow_add]; congr 1; omega
      _ ≤ other.value * B ^ (x.len - other.len + 1) := Nat.mul_le_mul_right _ (pow_le_value_of_msb divisorTop)
  obtain ⟨final, ran, kept⟩ := divLoop_spec normalized initially
  -- the remainder and quotient of the normalized operands
  have conserved : final.1.value + final.2.value * (other.value * 2 ^ s) = x.value * 2 ^ s := by
    rw [← otherValue, ← value_lstrip otherScaled]
    exact kept.conserved
  have bounded : final.1.value < other.value * 2 ^ s := by
    have below := kept.bounded
    rwa [pow_zero, Nat.mul_one, value_lstrip, otherValue] at below
  have quotient := unscaled_of_scaled (Nat.two_pow_pos s) conserved bounded
  have remainderBelow : final.1.value < B ^ other.len :=
    lt_trans (by rw [value_lstrip, otherValue]; exact bounded) normalized.value_lt
  rw [RustInt.checkedPow_of_lt normalizerFits, Option.bind_eq_bind, Option.bind_some, selfMul, Option.bind_eq_bind,
    Option.bind_some, otherMul, Option.bind_eq_bind, Option.bind_some, padded, ran, Option.bind_some]
  -- the remainder is computed only when asked for
  cases rem with
  | false =>
    exact ⟨final.2, withCapacity other.len, rfl, quotient.1.symm, fun asked => absurd asked Bool.false_ne_true,
      fun asked => absurd asked Bool.false_ne_true⟩
  | true =>
    obtain ⟨r, unnormalized, rValue, rLength⟩ := unnormalize_spec (by omega) small remainderBelow
    rw [if_pos rfl, unnormalized, Option.bind_some]
    refine ⟨final.2, r, rfl, quotient.1.symm, fun _ => by rw [rValue, quotient.2], fun _ => ?_⟩
    by_cases unshifted : s = 0
    · -- without a shift the remainder is the normalized dividend's limbs, all of them
      rw [if_pos unshifted]
      rw [unshifted, unnormalize_zero] at unnormalized
      rw [← Option.some.inj unnormalized, kept.selfLength]
      omega
    · rw [if_neg unshifted]
      exact rLength (Nat.pos_of_ne_zero unshifted)

/-- Knuth's division is exact on operands that meet its preconditions, with
no limb operation overflowing, and it refuses exactly the operands that break
one of them. -/
theorem div_exact (x other : BigUint) :
    (2 ≤ other.len → other.msb ≠ 0 → x.msb ≠ 0 → other.len < x.len →
      ∃ q r, x.div other true = some (some (q, r)) ∧ x.value = q.value * other.value + r.value ∧
        r.value < other.value) ∧
    ∀ rem, (x.div other rem = some none ↔ ¬(2 ≤ other.len ∧ other.msb ≠ 0 ∧ x.msb ≠ 0 ∧ other.len < x.len)) := by
  constructor
  · intro wide divisorTop dividendTop longer
    obtain ⟨q, r, divided, qValue, rValue, -⟩ := div_spec x other true wide divisorTop dividendTop longer
    have divisorPos : 0 < other.value := lt_of_lt_of_le (by unfold B; positivity) (pow_le_value_of_msb divisorTop)
    refine ⟨q, r, divided, ?_, ?_⟩
    · rw [qValue, rValue rfl, Nat.mul_comm]
      exact (Nat.div_add_mod _ _).symm
    · rw [rValue rfl]
      exact Nat.mod_lt _ divisorPos
  · intro rem
    constructor
    · rintro refused ⟨wide, divisorTop, dividendTop, longer⟩
      obtain ⟨q, r, divided, -⟩ := div_spec x other rem wide divisorTop dividendTop longer
      rw [divided] at refused
      cases refused
    · intro broken
      have refused : other.len ≤ 1 ∨ other.msb.val = 0 ∨ x.msb.val = 0 ∨ x.len ≤ other.len := by
        by_contra accepted
        simp only [not_or] at accepted
        obtain ⟨notShort, divisorTop, dividendTop, notLonger⟩ := accepted
        exact broken ⟨by omega, fun zero => divisorTop (congrArg Fin.val zero),
          fun zero => dividendTop (congrArg Fin.val zero), by omega⟩
      unfold div
      rw [if_pos refused]

theorem div_exact_three_by_two :
    2 ≤ (BigUint.mk [1, 0] (List.cons_ne_nil _ _)).len ∧ (BigUint.mk [1, 0] (List.cons_ne_nil _ _)).msb ≠ 0 ∧
      (BigUint.mk [1, 0, 0] (List.cons_ne_nil _ _)).msb ≠ 0 ∧
        (BigUint.mk [1, 0] (List.cons_ne_nil _ _)).len < (BigUint.mk [1, 0, 0] (List.cons_ne_nil _ _)).len ∧
    ∃ q r, (BigUint.mk [1, 0, 0] (List.cons_ne_nil _ _)).div ⟨[1, 0], List.cons_ne_nil _ _⟩ true = some (some (q, r)) ∧
      (BigUint.mk [1, 0, 0] (List.cons_ne_nil _ _)).value =
        q.value * (BigUint.mk [1, 0] (List.cons_ne_nil _ _)).value + r.value ∧
      r.value < (BigUint.mk [1, 0] (List.cons_ne_nil _ _)).value :=
  ⟨by decide, by decide, by decide, by decide,
    (div_exact ⟨[1, 0, 0], List.cons_ne_nil _ _⟩ ⟨[1, 0], List.cons_ne_nil _ _⟩).1
      (by decide) (by decide) (by decide) (by decide)⟩

end Division

end BigUint

end OffchainStorage.Arithmetic
