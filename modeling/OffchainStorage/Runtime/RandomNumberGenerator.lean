import Mathlib
import OffchainStorage.Lib.RustInt

/-!
# The random number generator of the runtime

`RandomNumberGenerator` reads its numbers from a hash, `offset` bytes in, and
rehashes when the hash runs out.  `pick_u32(max)` reads the fewest bytes that
hold `max`, rejects the windows above the largest multiple of `max + 1` they
can hold, and reduces the accepted one modulo `max + 1`.  Every value of
`0..=max` then has the same number of accepted windows (`count_accepted`).

The bound is computed from `max + 1` in `u32`, so `pick_u32(u32::MAX)`
overflows before its special case for that value is reached.
-/

namespace OffchainStorage.Runtime

open RustInt

/-- `RandomNumberGenerator`: the current hash and the offset into it. -/
structure RandomNumberGenerator where
  current : List UInt8
  offset : Nat

namespace RandomNumberGenerator

def new (seed : List UInt8) : RandomNumberGenerator :=
  ⟨seed, 0⟩

/-- The bytes `pick_u32` reads for `max` and the largest window it accepts,
`top`; `none` is a panic. -/
def pickBound (max : Nat) : Option (Nat × Nat) := do
  let needed := 4 - leadingZeros 32 max / 8
  let windows ← checkedShl 64 1 (needed * 8)
  let range ← checkedAdd 32 max 1
  let quotient ← checkedDiv windows range
  let product ← checkedMul 64 quotient range
  let top ← checkedSub product 1
  pure (needed, cast 32 top)

/-- `u32::decode(&mut TrailingZeroInput::new(data)).unwrap_or(0)`: the bytes
little endian, padded with zeros. -/
def decodeWindow (data : List UInt8) : Nat :=
  ((decodeLE 4 (data ++ List.replicate 4 0)).map Prod.fst).getD 0

/-- The rehash when the window would run past the end of the hash. -/
def refresh (hash : List UInt8 → List UInt8) (needed : Nat) (generator : RandomNumberGenerator) :
    RandomNumberGenerator :=
  if generator.offset + needed > generator.current.length then ⟨hash generator.current, 0⟩ else generator

/-- One read of the loop of `pick_u32`: the window after the rehash check and
the generator past it; `none` is a panic of the slice or of the offset. -/
def readWindow (hash : List UInt8 → List UInt8) (needed : Nat) (generator : RandomNumberGenerator) :
    Option (Nat × RandomNumberGenerator) :=
  let generator := refresh hash needed generator
  if generator.offset + needed > generator.current.length then none
  else do
    let offset ← checkedAdd 32 generator.offset needed
    pure (decodeWindow ((generator.current.drop generator.offset).take needed), ⟨generator.current, offset⟩)

/-- The loop of `pick_u32`; `none` is a panic, `some none` too little fuel. -/
def pickLoop (hash : List UInt8 → List UInt8) (max needed top : Nat) :
    Nat → RandomNumberGenerator → Option (Option (Nat × RandomNumberGenerator))
  | 0, _ => some none
  | fuel + 1, generator => do
    let (raw, generator) ← readWindow hash needed generator
    if raw ≤ top then pure (some (if max < 2 ^ 32 - 1 then raw % (max + 1) else raw, generator))
    else pickLoop hash max needed top fuel generator

/-- `pick_u32(max)`. -/
def pickU32 (hash : List UInt8 → List UInt8) (max fuel : Nat) (generator : RandomNumberGenerator) :
    Option (Option (Nat × RandomNumberGenerator)) := do
  let (needed, top) ← pickBound max
  pickLoop hash max needed top fuel generator

/-- `pick_usize(max)`, through `u32`. -/
def pickUsize (hash : List UInt8 → List UInt8) (max fuel : Nat) (generator : RandomNumberGenerator) :
    Option (Option (Nat × RandomNumberGenerator)) :=
  pickU32 hash (cast 32 max) fuel generator

/-- `pick_item(items)`. -/
def pickItem {α : Type} (hash : List UInt8 → List UInt8) (items : List α) (fuel : Nat)
    (generator : RandomNumberGenerator) : Option (Option (Option α × RandomNumberGenerator)) :=
  if items.isEmpty then pure (some (none, generator))
  else do
    match ← pickUsize hash (items.length - 1) fuel generator with
    | none => pure none
    | some (index, generator) =>
      -- the index of a slice panics past its end
      match items[index]? with
      | some item => pure (some (some item, generator))
      | none => none

theorem pick_u32_panics_at_u32_max (hash : List UInt8 → List UInt8) (fuel : Nat) (generator : RandomNumberGenerator) :
    pickU32 hash (2 ^ 32 - 1) fuel generator = none := by
  -- `max + 1` overflows `u32` before the bound is divided
  have overflows : pickBound (2 ^ 32 - 1) = none := by decide
  rw [pickU32, overflows]
  rfl

/-! ## The bound -/

theorem needed_le (max : Nat) : 4 - leadingZeros 32 max / 8 ≤ 4 :=
  Nat.sub_le _ _

/-- The bytes read hold `max`. -/
theorem lt_window {max : Nat} (fits : max < 2 ^ 32) : max < 2 ^ ((4 - leadingZeros 32 max / 8) * 8) := by
  have below := lt_two_pow_sub_leadingZeros fits
  have rounded : 32 - leadingZeros 32 max ≤ (4 - leadingZeros 32 max / 8) * 8 := by omega
  exact lt_of_lt_of_le below (Nat.pow_le_pow_right (by decide) rounded)

/-- Below `u32::MAX`, the bound is the last window of the largest multiple of
`max + 1` the windows hold, and it fits them. -/
theorem pickBound_eq {max : Nat} (below : max < 2 ^ 32 - 1) :
    pickBound max = some (4 - leadingZeros 32 max / 8,
      2 ^ ((4 - leadingZeros 32 max / 8) * 8) / (max + 1) * (max + 1) - 1) := by
  have within := lt_window (show max < 2 ^ 32 by omega)
  have neededBits : (4 - leadingZeros 32 max / 8) * 8 ≤ 32 := by omega
  have windowsFit : 2 ^ ((4 - leadingZeros 32 max / 8) * 8) ≤ 2 ^ 32 := Nat.pow_le_pow_right (by decide) neededBits
  have shift : checkedShl 64 1 ((4 - leadingZeros 32 max / 8) * 8) = some (2 ^ ((4 - leadingZeros 32 max / 8) * 8)) := by
    rw [checkedShl, if_pos (by omega), Nat.one_shiftLeft, Nat.mod_eq_of_lt (by omega)]
  have multiple := Nat.div_mul_le_self (2 ^ ((4 - leadingZeros 32 max / 8) * 8)) (max + 1)
  have atLeastOne : max + 1 ≤ 2 ^ ((4 - leadingZeros 32 max / 8) * 8) / (max + 1) * (max + 1) := by
    apply Nat.le_mul_of_pos_left
    exact Nat.div_pos (by omega) (by omega)
  have product : checkedMul 64 (2 ^ ((4 - leadingZeros 32 max / 8) * 8) / (max + 1)) (max + 1) =
      some (2 ^ ((4 - leadingZeros 32 max / 8) * 8) / (max + 1) * (max + 1)) :=
    checkedMul_of_lt (by omega)
  have subtracted : checkedSub (2 ^ ((4 - leadingZeros 32 max / 8) * 8) / (max + 1) * (max + 1)) 1 =
      some (2 ^ ((4 - leadingZeros 32 max / 8) * 8) / (max + 1) * (max + 1) - 1) :=
    checkedSub_of_le (by omega)
  have truncated : cast 32 (2 ^ ((4 - leadingZeros 32 max / 8) * 8) / (max + 1) * (max + 1) - 1) =
      2 ^ ((4 - leadingZeros 32 max / 8) * 8) / (max + 1) * (max + 1) - 1 :=
    cast_of_lt (by omega)
  simp only [pickBound, shift, checkedAdd_of_lt (show max + 1 < 2 ^ 32 by omega),
    checkedDiv_of_pos _ (show 0 < max + 1 by omega), product, subtracted, Option.bind_eq_bind,
    Option.bind_some, Option.pure_def, truncated]

/-- The windows accepted are a whole number `k ≥ 1` of runs of `max + 1`. -/
theorem pickBound_spec {max : Nat} (below : max < 2 ^ 32 - 1) :
    ∃ needed top k, pickBound max = some (needed, top) ∧ needed ≤ 4 ∧ max < 2 ^ (8 * needed) ∧
      top < 2 ^ (8 * needed) ∧ 1 ≤ k ∧ top + 1 = k * (max + 1) := by
  have within := lt_window (show max < 2 ^ 32 by omega)
  have atLeastOne : 1 ≤ 2 ^ ((4 - leadingZeros 32 max / 8) * 8) / (max + 1) := Nat.div_pos (by omega) (by omega)
  have multiple := Nat.div_mul_le_self (2 ^ ((4 - leadingZeros 32 max / 8) * 8)) (max + 1)
  have positive : 1 ≤ 2 ^ ((4 - leadingZeros 32 max / 8) * 8) / (max + 1) * (max + 1) :=
    Nat.mul_pos atLeastOne (Nat.succ_pos max)
  refine ⟨_, _, 2 ^ ((4 - leadingZeros 32 max / 8) * 8) / (max + 1), pickBound_eq below, needed_le max, ?_, ?_,
    atLeastOne, by omega⟩
  · rwa [Nat.mul_comm]
  · rw [Nat.mul_comm 8]
    omega

/-- Among the windows below `2 ^ (8 * needed)`, exactly `k` are accepted and
reduce to each value up to `max`. -/
theorem count_accepted {max top k windows : Nat} (sized : top + 1 = k * (max + 1)) (fits : top < windows)
    {value : Nat} (within : value ≤ max) :
    Nat.count (fun raw => raw ≤ top ∧ raw % (max + 1) = value) windows = k := by
  have split : windows = k * (max + 1) + (windows - k * (max + 1)) := by omega
  have rest : Nat.count (fun raw => k * (max + 1) + raw ≤ top ∧ (k * (max + 1) + raw) % (max + 1) = value)
      (windows - k * (max + 1)) = 0 := by
    rw [Nat.count_iff_forall_not]
    intro raw _ accepted
    omega
  -- below the last accepted window, acceptance is the congruence alone
  have agree : ∀ raw < k * (max + 1), (raw ≤ top ∧ raw % (max + 1) = value) ↔ raw ≡ value [MOD max + 1] := by
    intro raw below
    rw [Nat.ModEq, Nat.mod_eq_of_lt (show value < max + 1 by omega)]
    omega
  have congruent : Nat.count (fun raw => raw ≤ top ∧ raw % (max + 1) = value) (k * (max + 1)) =
      Nat.count (· ≡ value [MOD max + 1]) (k * (max + 1)) :=
    le_antisymm (Nat.count_mono_left fun raw below accepted => (agree raw below).mp accepted)
      (Nat.count_mono_left fun raw below congruent => (agree raw below).mpr congruent)
  rw [split, Nat.count_add, rest, Nat.add_zero, congruent, Nat.count_modEq_card _ (Nat.succ_pos max),
    Nat.mul_div_cancel _ (Nat.succ_pos max), Nat.mul_mod_left]
  simp

/-! ## The loop -/

section Loop

variable {hash : List UInt8 → List UInt8} {max needed top : Nat}

/-- Below `u32::MAX`, whatever the loop returns is at most `max`. -/
theorem pickLoop_le (below : max < 2 ^ 32 - 1) :
    ∀ (fuel : Nat) (generator : RandomNumberGenerator) {picked : Nat} {next : RandomNumberGenerator},
      pickLoop hash max needed top fuel generator = some (some (picked, next)) → picked ≤ max := by
  intro fuel
  induction fuel with
  | zero =>
    intro generator picked next returned
    simp [pickLoop] at returned
  | succ fuel ih =>
    intro generator picked next returned
    cases read : readWindow hash needed generator with
    | none => simp [pickLoop, read] at returned
    | some window =>
      obtain ⟨raw, after⟩ := window
      simp only [pickLoop, read, Option.bind_eq_bind, Option.bind_some] at returned
      split at returned
      · simp only [Option.pure_def, Option.some.injEq, Prod.mk.injEq] at returned
        rw [← returned.1]
        exact Nat.le_of_lt_succ (Nat.mod_lt _ (Nat.succ_pos max))
      · exact ih _ returned

/-- The hash outputs: at least four bytes, and fewer than `2 ^ 32`, so the
offset never overflows its `u32`. -/
structure HashFits (hash : List UInt8 → List UInt8) : Prop where
  long : ∀ input, 4 ≤ (hash input).length
  short : ∀ input, (hash input).length < 2 ^ 32

/-- A window of at most four bytes is always read from a hash shorter than
`2 ^ 32` bytes, and the generator after it keeps such a hash. -/
theorem readWindow_eq_some (fits : HashFits hash) (small : needed ≤ 4) {generator : RandomNumberGenerator}
    (short : generator.current.length < 2 ^ 32) :
    ∃ raw next, readWindow hash needed generator = some (raw, next) ∧ next.current.length < 2 ^ 32 := by
  -- after the rehash check the window lies inside a hash shorter than 2 ^ 32
  obtain ⟨current, offset, inside, currentShort, rehashed⟩ : ∃ current offset,
      offset + needed ≤ current.length ∧ current.length < 2 ^ 32 ∧
        refresh hash needed generator = ⟨current, offset⟩ := by
    unfold refresh
    by_cases past : generator.offset + needed > generator.current.length
    · exact ⟨hash generator.current, 0, by have := fits.long generator.current; omega, fits.short _,
        if_pos past⟩
    · exact ⟨generator.current, generator.offset, by omega, short, if_neg past⟩
  refine ⟨decodeWindow ((current.drop offset).take needed), ⟨current, offset + needed⟩, ?_, currentShort⟩
  simp only [readWindow, rehashed, gt_iff_lt, Nat.not_lt.mpr inside, if_false,
    checkedAdd_of_lt (show offset + needed < 2 ^ 32 by omega), Option.bind_eq_bind, Option.bind_some,
    Option.pure_def]

/-- With at most four bytes a window, the loop never panics on a generator
whose hash is shorter than `2 ^ 32` bytes. -/
theorem pickLoop_ne_none (fits : HashFits hash) (small : needed ≤ 4) :
    ∀ (fuel : Nat) (generator : RandomNumberGenerator), generator.current.length < 2 ^ 32 →
      pickLoop hash max needed top fuel generator ≠ none := by
  intro fuel
  induction fuel with
  | zero =>
    intro generator _
    simp [pickLoop]
  | succ fuel ih =>
    intro generator short
    obtain ⟨raw, after, read, afterShort⟩ := readWindow_eq_some fits small short
    simp only [pickLoop, read, Option.bind_eq_bind, Option.bind_some]
    split
    · simp
    · exact ih _ afterShort

end Loop

/-- Below `u32::MAX`, `pick_u32` never panics, and what it returns is at most
`max`. -/
theorem pickU32_spec {hash : List UInt8 → List UInt8} (fits : HashFits hash) {max : Nat} (below : max < 2 ^ 32 - 1)
    (fuel : Nat) {generator : RandomNumberGenerator} (short : generator.current.length < 2 ^ 32) :
    pickU32 hash max fuel generator ≠ none ∧
      ∀ picked next, pickU32 hash max fuel generator = some (some (picked, next)) → picked ≤ max := by
  have bounded := pickBound_eq below
  simp only [pickU32, bounded, Option.bind_eq_bind, Option.bind_some]
  exact ⟨pickLoop_ne_none fits (needed_le max) fuel generator short,
    fun picked next returned => pickLoop_le below fuel generator returned⟩

/-- `pick_item` on a non-empty slice shorter than `2 ^ 32` never panics and
returns one of its items. -/
theorem pickItem_spec {α : Type} {hash : List UInt8 → List UInt8} (fits : HashFits hash) {items : List α}
    (nonempty : items ≠ []) (short : items.length < 2 ^ 32) (fuel : Nat) {generator : RandomNumberGenerator}
    (hashShort : generator.current.length < 2 ^ 32) :
    pickItem hash items fuel generator ≠ none ∧
      ∀ picked next, pickItem hash items fuel generator = some (some (picked, next)) → ∃ item ∈ items, picked = some item := by
  have positive : 0 < items.length := List.length_pos_of_ne_nil nonempty
  have below : items.length - 1 < 2 ^ 32 - 1 := by omega
  have truncated : cast 32 (items.length - 1) = items.length - 1 := cast_of_lt (by omega)
  obtain ⟨noPanic, atMost⟩ := pickU32_spec fits below fuel hashShort
  have notEmpty : items.isEmpty = false := List.isEmpty_eq_false_iff.mpr nonempty
  simp only [pickItem, pickUsize, truncated, notEmpty, Bool.false_eq_true, if_false]
  cases picked : pickU32 hash (items.length - 1) fuel generator with
  | none => exact absurd picked noPanic
  | some result =>
    cases result with
    | none => simp
    | some pair =>
      obtain ⟨index, next⟩ := pair
      have inside : index < items.length := by
        have := atMost index next picked
        omega
      simp only [Option.bind_eq_bind, Option.bind_some, List.getElem?_eq_getElem inside]
      refine ⟨by simp, ?_⟩
      intro item after returned
      simp only [Option.pure_def, Option.some.injEq, Prod.mk.injEq] at returned
      exact ⟨items[index], List.getElem_mem inside, returned.1.symm⟩

end RandomNumberGenerator

end OffchainStorage.Runtime
