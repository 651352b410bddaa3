import OffchainStorage.Lib.RustInt
import Mathlib

/-!
# Transaction mortality

An `Era` is `Immortal`, or `Mortal period phase`: the blocks are cut into
windows of `period` blocks starting at the blocks equal to `phase` modulo
`period`, and a transaction lives from `birth`, the start of the window of
the block it names, to `death`, the first block after that window.
`mortal` rounds a period up to a power of two between `4` and `1 << 16` and
takes the phase of the current block, rounded down to a multiple of the
`quantizeFactor` of long periods.  On the wire an era is one zero byte, or
two bytes holding the exponent of the period in their low four bits and the
quantized phase above them.

The eras `mortal` builds are `WellFormed`, the codec reads back exactly
those and `Immortal`, and it reads nothing else (`decode_encode`,
`encode_decode`, `wellFormed_of_decode`).  `birth` is the last start of a
window up to the current block (`birth_isGreatest`), so that every block of
its window has the same birth; `death` adds the period, an addition that
overflows in the last window below `2 ^ 64`.
-/

namespace OffchainStorage.Runtime

open RustInt

/-- `Era`, with the names of its variants. -/
inductive Era where
  | Immortal
  | Mortal (period phase : Nat)
  deriving DecidableEq, Repr

/-- Why `Era::decode` fails: the input ends before a byte it reads, or the
two bytes give a period and phase out of range, the error
`Invalid period and phase`. -/
inductive EraError where
  | notEnoughData
  | invalidPeriodAndPhase
  deriving DecidableEq, Repr

namespace Era

/-- `(period >> 12).max(1)`, the step of a stored phase, as `mortal`,
`encode` and `decode` compute it. -/
def quantizeFactor (period : Nat) : Nat :=
  max (period >>> 12) 1

def mortal (period current : Nat) : Era :=
  let period := min (max ((nextPowerOfTwo 64 period).getD (1 <<< 16)) 4) (1 <<< 16)
  let phase := current % period
  let quantizedPhase := phase / quantizeFactor period * quantizeFactor period
  Mortal period quantizedPhase

/-- `birth`: the division panics on a zero period; the product and the sum
stay below `current.max(phase)`. -/
def birth : Era → Nat → Option Nat
  | Immortal, _ => some 0
  | Mortal period phase, current =>
    (checkedDiv (max current phase - phase) period).map fun windows => windows * period + phase

def death (era : Era) (current : Nat) : Option Nat :=
  match era with
  | Immortal => some (2 ^ 64 - 1)
  | Mortal period _ => (era.birth current).bind fun birth => checkedAdd 64 birth period

/-- `Encode for Era`: the `u16` written little-endian.  `trailing_zeros() - 1`
underflows, a panic, on an odd period; the bits the `u64` shift of the
phase loses are lost again by the cast to `u16`. -/
def encode : Era → Option (List UInt8)
  | Immortal => some [0]
  | Mortal period phase =>
    (checkedSub (trailingZeros 64 period) 1).map fun exponent =>
      let encoded := cast 16 (min (max exponent 1) 15) ||| cast 16 ((phase / quantizeFactor period) <<< 4)
      encodeLE 2 encoded

def decode : List UInt8 → Except EraError (Era × List UInt8)
  | [] => .error .notEnoughData
  | first :: rest =>
    if first = 0 then .ok (Immortal, rest)
    else
      match rest with
      | [] => .error .notEnoughData
      | second :: rest =>
        let encoded := first.toNat + (second.toNat <<< 8)
        let period := 2 <<< (encoded % (1 <<< 4))
        let phase := (encoded >>> 4) * quantizeFactor period
        if 4 ≤ period ∧ phase < period then .ok (Mortal period phase, rest)
        else .error .invalidPeriodAndPhase

/-! ## Windows -/

section Window

/-- The blocks up to `current` at which a window of the era starts. -/
def Starts (period phase current : Nat) : Set Nat :=
  {start | start ≤ current ∧ start ≡ phase [MOD period]}

variable {period phase : Nat}

/-- The start of the window holding `current` is the last start up to it. -/
theorem isGreatest_starts {current start : Nat} (starts : start ≡ phase [MOD period])
    (reached : start ≤ current) (within : current < start + period) :
    IsGreatest (Starts period phase current) start := by
  refine ⟨⟨reached, starts⟩, ?_⟩
  rintro later ⟨upTo, laterStarts⟩
  by_contra past
  -- two starts less than a period apart are the same block
  have apart : period ∣ later - start :=
    (Nat.modEq_iff_dvd' (by omega)).mp (starts.trans laterStarts.symm)
  have close : later - start < period := by omega
  have same : later - start = 0 := Nat.eq_zero_of_dvd_of_lt apart close
  omega

theorem birth_mortal (positive : 0 < period) (current : Nat) :
    (Mortal period phase).birth current = some ((max current phase - phase) / period * period + phase) := by
  rw [birth, checkedDiv_of_pos _ positive]
  rfl

/-- From a block past the phase, `birth` is the start of its window. -/
theorem birth_window (positive : 0 < period) {current : Nat} (reached : phase ≤ current) :
    ∃ start, (Mortal period phase).birth current = some start ∧ start ≡ phase [MOD period] ∧
      start ≤ current ∧ current < start + period := by
  rw [birth_mortal positive current, max_eq_left reached]
  refine ⟨_, rfl, ?_, ?_, ?_⟩
  · simp [Nat.ModEq]
  · have below := Nat.div_mul_le_self (current - phase) period
    omega
  · have above : current - phase < (current - phase) / period * period + period :=
      Nat.lt_div_mul_add positive
    omega

theorem birth_isGreatest (positive : 0 < period) {current : Nat} (reached : phase ≤ current) :
    ∃ start, (Mortal period phase).birth current = some start ∧
      IsGreatest (Starts period phase current) start := by
  obtain ⟨start, born, starts, upTo, within⟩ := birth_window positive reached
  exact ⟨start, born, isGreatest_starts starts upTo within⟩

/-- Every block of the window of `current` has its birth. -/
theorem birth_eq_of_window (positive : 0 < period) {current start n : Nat} (reached : phase ≤ current)
    (born : (Mortal period phase).birth current = some start) (after : start ≤ n) (before : n < start + period) :
    (Mortal period phase).birth n = some start := by
  obtain ⟨first, firstBorn, starts, -, -⟩ := birth_window positive reached
  rw [born, Option.some.injEq] at firstBorn
  subst firstBorn
  have fromPhase : phase ≤ start := by
    rw [birth_mortal positive, Option.some.injEq] at born
    omega
  obtain ⟨later, laterBorn, greatest⟩ := birth_isGreatest positive (le_trans fromPhase after)
  rw [laterBorn, greatest.unique (isGreatest_starts starts after before)]

theorem death_mortal {current start : Nat} (born : (Mortal period phase).birth current = some start) :
    (Mortal period phase).death current = checkedAdd 64 start period := by
  rw [death, born, Option.bind_some]

/-- From a phase up to the block's own place in its period, the birth is the
block rounded down to the period, plus the phase. -/
theorem birth_of_le_mod (positive : 0 < period) {current : Nat} (below : phase ≤ current % period) :
    (Mortal period phase).birth current = some (current / period * period + phase) := by
  have reached : phase ≤ current := le_trans below (Nat.mod_le current period)
  have within := Nat.mod_lt current positive
  have decompose := Nat.div_add_mod current period
  -- the phase is taken from the remainder, which stays below the period
  have rounded : (current - phase) / period = current / period := by
    generalize current / period = q at decompose ⊢
    generalize current % period = r at below within decompose
    subst decompose
    rw [show period * q + r - phase = period * q + (r - phase) by omega, Nat.mul_add_div positive,
      Nat.div_eq_of_lt (by omega : r - phase < period), Nat.add_zero]
  rw [birth_mortal positive, max_eq_left reached, rounded]

/-- `death` of a power-of-two period overflows exactly in the last window
below `2 ^ 64`. -/
theorem death_eq_ite {k : Nat} (small : k ≤ 64) {current : Nat} (below : phase ≤ current % 2 ^ k) :
    (Mortal (2 ^ k) phase).death current =
      if current + 2 ^ k < 2 ^ 64 then some (current / 2 ^ k * 2 ^ k + phase + 2 ^ k) else none := by
  rw [death_mortal (birth_of_le_mod (Nat.two_pow_pos k) below)]
  have upTo : current / 2 ^ k * 2 ^ k + phase ≤ current := by
    have := Nat.div_add_mod' current (2 ^ k)
    omega
  split_ifs with room
  · exact checkedAdd_of_lt (by omega)
  · apply checkedAdd_of_le
    -- the next window starts at a multiple of the period, and so does `2 ^ 64`
    by_contra fits
    have next : 2 ^ k ∣ 2 ^ 64 - (current / 2 ^ k * 2 ^ k + 2 ^ k) :=
      Nat.dvd_sub (Nat.pow_dvd_pow 2 small) (Nat.dvd_add (Nat.dvd_mul_left _ _) (dvd_refl _))
    have gap : 2 ^ k ≤ 2 ^ 64 - (current / 2 ^ k * 2 ^ k + 2 ^ k) := Nat.le_of_dvd (by omega) next
    have above : current < current / 2 ^ k * 2 ^ k + 2 ^ k := Nat.lt_div_mul_add (Nat.two_pow_pos k)
    omega

end Window

/-! ## The eras on the wire -/

section Codec

/-- The mortal eras `decode` accepts: a period `2 ^ k` with `2 ≤ k ≤ 16`, and
a phase below it that is a multiple of the period's quantize factor. -/
structure WellFormed (period phase : Nat) : Prop where
  exponent : ∃ k, 2 ≤ k ∧ k ≤ 16 ∧ period = 2 ^ k
  phase_lt : phase < period
  quantized : quantizeFactor period ∣ phase

theorem quantizeFactor_pos (period : Nat) : 0 < quantizeFactor period :=
  lt_max_of_lt_right Nat.one_pos

/-- A period up to `1 << 16` is at most `4096` steps of its quantize factor,
so a quantized phase fits the twelve bits above the exponent. -/
theorem le_quantizeFactor {k : Nat} (small : k ≤ 16) : 2 ^ k ≤ 4096 * quantizeFactor (2 ^ k) := by
  rw [quantizeFactor, Nat.shiftRight_eq_div_pow]
  by_cases short : k ≤ 12
  · have within : 2 ^ k ≤ 2 ^ 12 := Nat.pow_le_pow_right (by decide) short
    have one : 1 ≤ max (2 ^ k / 2 ^ 12) 1 := le_max_right _ _
    omega
  · have split : 2 ^ k = 2 ^ (k - 12) * 2 ^ 12 := by rw [← Nat.pow_add, Nat.sub_add_cancel (by omega)]
    rw [split, Nat.mul_div_cancel _ (Nat.two_pow_pos 12)]
    have step : 2 ^ (k - 12) ≤ max (2 ^ (k - 12)) 1 := le_max_left _ _
    calc 2 ^ (k - 12) * 2 ^ 12 = 4096 * 2 ^ (k - 12) := by rw [Nat.mul_comm]; rfl
      _ ≤ 4096 * max (2 ^ (k - 12)) 1 := Nat.mul_le_mul_left _ step

theorem quantized_lt {k phase : Nat} (small : k ≤ 16) (phaseLt : phase < 2 ^ k) :
    phase / quantizeFactor (2 ^ k) < 4096 :=
  (Nat.div_lt_iff_lt_mul (quantizeFactor_pos _)).mpr
    (lt_of_lt_of_le phaseLt (le_quantizeFactor small))

/-- The two bytes of a `u16`, as `decode` reads them back. -/
theorem encodeLE_two {word : Nat} (fits : word < 2 ^ 16) :
    ∃ first second : UInt8, encodeLE 2 word = [first, second] ∧ first.toNat = word % 256 ∧
      first.toNat + (second.toNat <<< 8) = word := by
  refine ⟨_, _, rfl, ?_, ?_⟩
  · simp [UInt8.toNat_ofNat']
  · simp only [UInt8.toNat_ofNat', Nat.shiftLeft_eq]
    omega

/-- The `u16` of a well-formed era: the exponent less one, and the quantized
phase above it. -/
theorem encode_wellFormed {period phase : Nat} (wellFormed : WellFormed period phase) :
    ∃ k, 2 ≤ k ∧ k ≤ 16 ∧ period = 2 ^ k ∧
      encode (Mortal period phase) = some (encodeLE 2 (k - 1 + 16 * (phase / quantizeFactor period))) := by
  obtain ⟨⟨k, large, small, rfl⟩, phaseLt, -⟩ := wellFormed
  refine ⟨k, large, small, rfl, ?_⟩
  have quantized := quantized_lt small phaseLt
  have exponentFits : k - 1 < 2 ^ 4 := by omega
  rw [encode, trailingZeros_two_pow (by omega : k < 64), checkedSub_of_le (by omega), Option.map_some]
  -- the exponent is already within `1..=15`, and the shifted phase within sixteen bits
  have clamped : min (max (k - 1) 1) 15 = k - 1 := by omega
  rw [clamped, cast_of_lt (by omega), Nat.shiftLeft_eq,
    cast_of_lt (by omega : phase / quantizeFactor (2 ^ k) * 2 ^ 4 < 2 ^ 16), Nat.lor_comm,
    Nat.mul_comm, ← Nat.two_pow_add_eq_or_of_lt exponentFits]
  dsimp only
  congr 2
  omega

/-- What `decode` makes of the two bytes of a `u16` whose low byte is not
zero. -/
theorem decode_two {word : Nat} (fits : word < 2 ^ 16) (marked : word % 256 ≠ 0) (rest : List UInt8) :
    decode (encodeLE 2 word ++ rest) =
      let period := 2 <<< (word % 16)
      let phase := word / 16 * quantizeFactor period
      if 4 ≤ period ∧ phase < period then .ok (Mortal period phase, rest) else .error .invalidPeriodAndPhase := by
  obtain ⟨first, second, bytes, low, read⟩ := encodeLE_two fits
  have nonzero : first ≠ 0 := fun zero => marked (by rw [← low, zero]; rfl)
  rw [bytes, List.cons_append, List.cons_append, List.nil_append, decode, if_neg nonzero]
  simp only [read, Nat.shiftRight_eq_div_pow]
  rfl

/-- Decoding the encoding of a well-formed era gives it back and leaves the
bytes after it. -/
theorem decode_encode {period phase : Nat} (wellFormed : WellFormed period phase) (rest : List UInt8) :
    ∃ bytes, encode (Mortal period phase) = some bytes ∧ decode (bytes ++ rest) = .ok (Mortal period phase, rest) := by
  obtain ⟨k, large, small, rfl, encoded⟩ := encode_wellFormed wellFormed
  refine ⟨_, encoded, ?_⟩
  have quantized := quantized_lt small wellFormed.phase_lt
  rw [decode_two (by omega) (by omega)]
  -- the low four bits give the period back, the rest the quantized phase
  have low : (k - 1 + 16 * (phase / quantizeFactor (2 ^ k))) % 16 = k - 1 := by omega
  have high : (k - 1 + 16 * (phase / quantizeFactor (2 ^ k))) / 16 = phase / quantizeFactor (2 ^ k) := by omega
  have period : 2 <<< (k - 1) = 2 ^ k := by
    obtain ⟨j, rfl⟩ : ∃ j, k = j + 1 := ⟨k - 1, by omega⟩
    rw [Nat.shiftLeft_eq, Nat.add_sub_cancel, Nat.pow_succ, Nat.mul_comm]
  have atLeast : 4 ≤ 2 ^ k := le_trans (by decide) (Nat.pow_le_pow_right (by decide) large)
  simp only [low, high, period, Nat.div_mul_cancel wellFormed.quantized, if_pos (And.intro atLeast wellFormed.phase_lt)]

theorem decode_encode_immortal (rest : List UInt8) :
    encode Immortal = some [0] ∧ decode ([0] ++ rest) = .ok (Immortal, rest) :=
  ⟨rfl, rfl⟩

/-- The `u16` that two bytes hold, written back. -/
theorem encodeLE_two_bytes (first second : UInt8) :
    encodeLE 2 (first.toNat + (second.toNat <<< 8)) = [first, second] := by
  have firstFits := first.toNat_lt
  have secondFits := second.toNat_lt
  simp only [encodeLE, Nat.shiftLeft_eq, List.cons.injEq, and_true]
  constructor
  · apply UInt8.toNat_inj.mp
    rw [UInt8.toNat_ofNat']
    omega
  · apply UInt8.toNat_inj.mp
    rw [UInt8.toNat_ofNat']
    omega

/-- A mortal era comes from the two bytes of a `u16` with a low byte that is
not zero, read as the exponent and the quantized phase, when the checks
pass. -/
theorem decode_mortal {bytes rest : List UInt8} {period phase : Nat}
    (decoded : decode bytes = .ok (Mortal period phase, rest)) :
    ∃ word, word < 2 ^ 16 ∧ word % 256 ≠ 0 ∧ bytes = encodeLE 2 word ++ rest ∧
      period = 2 <<< (word % 16) ∧ phase = word / 16 * quantizeFactor period ∧ 4 ≤ period ∧ phase < period := by
  rcases bytes with _ | ⟨first, _ | ⟨second, bytes⟩⟩
  · cases decoded
  · rw [decode] at decoded
    split at decoded <;> cases decoded
  · rw [decode] at decoded
    split at decoded
    · cases decoded
    · rename_i nonzero
      dsimp only at decoded
      split at decoded
      · rename_i checks
        simp only [Except.ok.injEq, Prod.mk.injEq, Mortal.injEq] at decoded
        obtain ⟨⟨rfl, rfl⟩, rfl⟩ := decoded
        have firstFits := first.toNat_lt
        have secondFits := second.toNat_lt
        have firstNonzero : first.toNat ≠ 0 := fun zero => nonzero (UInt8.toNat_inj.mp zero)
        refine ⟨first.toNat + (second.toNat <<< 8), ?_, ?_, ?_, rfl, ?_, checks⟩
        · rw [Nat.shiftLeft_eq]
          omega
        · rw [Nat.shiftLeft_eq]
          omega
        · rw [encodeLE_two_bytes]
          rfl
        · rw [Nat.shiftRight_eq_div_pow]
      · cases decoded

theorem decode_immortal {bytes rest : List UInt8} (decoded : decode bytes = .ok (Immortal, rest)) :
    bytes = 0 :: rest := by
  rcases bytes with _ | ⟨first, _ | ⟨second, bytes⟩⟩
  · cases decoded
  · rw [decode] at decoded
    split at decoded
    · rename_i zero
      cases decoded
      rw [zero]
    · cases decoded
  · rw [decode] at decoded
    split at decoded
    · rename_i zero
      cases decoded
      rw [zero]
    · dsimp only at decoded
      split at decoded <;> cases decoded

/-- What `decode` accepts as a mortal era is well formed. -/
theorem wellFormed_of_decode {bytes rest : List UInt8} {period phase : Nat}
    (decoded : decode bytes = .ok (Mortal period phase, rest)) : WellFormed period phase := by
  obtain ⟨word, -, -, -, rfl, rfl, atLeast, phaseLt⟩ := decode_mortal decoded
  refine ⟨⟨word % 16 + 1, ?_, by omega, ?_⟩, phaseLt, Nat.dvd_mul_left _ _⟩
  · -- `2 << 0` is the one period below `4`
    by_contra tooSmall
    have zero : word % 16 = 0 := by omega
    rw [zero] at atLeast
    exact absurd atLeast (by decide)
  · rw [Nat.shiftLeft_eq, Nat.pow_succ, Nat.mul_comm]

/-- Every input `decode` accepts is the encoding of what it read, followed by
the bytes it left: an era has one encoding. -/
theorem encode_decode {bytes rest : List UInt8} {era : Era} (decoded : decode bytes = .ok (era, rest)) :
    ∃ written, encode era = some written ∧ bytes = written ++ rest := by
  cases era with
  | Immortal => exact ⟨[0], rfl, decode_immortal decoded⟩
  | Mortal period phase =>
    obtain ⟨k, -, -, rfl, encoded⟩ := encode_wellFormed (wellFormed_of_decode decoded)
    obtain ⟨word, fits, -, rfl, periodIs, rfl, -, -⟩ := decode_mortal decoded
    refine ⟨_, encoded, ?_⟩
    -- the exponent and the quantized phase are the low four bits and the rest of the word
    have exponent : k - 1 = word % 16 := by
      rw [Nat.shiftLeft_eq, ← Nat.pow_succ'] at periodIs
      have := Nat.pow_right_injective (le_refl 2) periodIs
      omega
    rw [Nat.mul_div_cancel _ (quantizeFactor_pos _), exponent, Nat.mod_add_div]

/-- The codec is a bijection between `Immortal` with the well-formed mortal
eras and the inputs `decode` accepts: it accepts exactly the encodings of
those eras, followed by anything. -/
theorem era_decode_iff_encoding {bytes rest : List UInt8} {era : Era} :
    decode bytes = .ok (era, rest) ↔
      (era = Immortal ∨ ∃ period phase, era = Mortal period phase ∧ WellFormed period phase) ∧
        ∃ written, encode era = some written ∧ bytes = written ++ rest := by
  constructor
  · intro decoded
    refine ⟨?_, encode_decode decoded⟩
    cases era with
    | Immortal => exact .inl rfl
    | Mortal period phase => exact .inr ⟨period, phase, rfl, wellFormed_of_decode decoded⟩
  · rintro ⟨accepted, written, encoded, rfl⟩
    rcases accepted with rfl | ⟨period, phase, rfl, wellFormed⟩
    · cases encoded
      exact (decode_encode_immortal rest).2
    · obtain ⟨bytes, again, decoded⟩ := decode_encode wellFormed rest
      rw [encoded, Option.some.injEq] at again
      rw [again]
      exact decoded

end Codec

/-! ## The eras `mortal` builds -/

section Mortal

/-- The period `mortal` picks: the next power of two, clamped to
`4..=1 << 16`; past `2 ^ 63` there is none, and the default is the upper
clamp. -/
theorem mortal_period (period : Nat) :
    min (max ((nextPowerOfTwo 64 period).getD (1 <<< 16)) 4) (1 <<< 16) =
      min (max (2 ^ Nat.clog 2 period) 4) (2 ^ 16) := by
  by_cases fits : period ≤ 2 ^ 63
  · rw [nextPowerOfTwo_of_le (by decide) fits]
    rfl
  · rw [nextPowerOfTwo_of_lt (by omega)]
    have large : 2 ^ 16 ≤ 2 ^ Nat.clog 2 period := le_trans (by omega) (Nat.le_pow_clog (by decide) period)
    have clamped : min (max (2 ^ Nat.clog 2 period) 4) (2 ^ 16) = 2 ^ 16 := by omega
    rw [clamped]
    rfl

/-- A clamped power of two is the power of the clamped exponent. -/
theorem clamp_two_pow (c : Nat) : min (max (2 ^ c) 4) (2 ^ 16) = 2 ^ min (max c 2) 16 := by
  have monotone : Monotone (fun k : Nat => 2 ^ k) := pow_right_mono₀ (by norm_num)
  rw [monotone.map_min, monotone.map_max]
  rfl

theorem mortal_eq (period current : Nat) :
    mortal period current =
      let period := min (max (2 ^ Nat.clog 2 period) 4) (2 ^ 16)
      Mortal period (current % period / quantizeFactor period * quantizeFactor period) := by
  simp only [mortal, mortal_period]

/-- `mortal` builds a well-formed era, with a phase up to the current block's
place in the period. -/
theorem mortal_wellFormed (period current : Nat) :
    ∃ k phase, 2 ≤ k ∧ k ≤ 16 ∧ mortal period current = Mortal (2 ^ k) phase ∧
      2 ^ k = min (max (2 ^ Nat.clog 2 period) 4) (2 ^ 16) ∧ phase ≤ current % 2 ^ k ∧
      WellFormed (2 ^ k) phase := by
  have exponent := clamp_two_pow (Nat.clog 2 period)
  generalize kIs : min (max (Nat.clog 2 period) 2) 16 = k at exponent
  have large : 2 ≤ k := kIs ▸ le_min (le_max_right _ _) (by decide)
  have small : k ≤ 16 := kIs ▸ min_le_right _ _
  have phaseLt : current % 2 ^ k / quantizeFactor (2 ^ k) * quantizeFactor (2 ^ k) < 2 ^ k :=
    lt_of_le_of_lt (Nat.div_mul_le_self _ _) (Nat.mod_lt _ (Nat.two_pow_pos _))
  refine ⟨k, current % 2 ^ k / quantizeFactor (2 ^ k) * quantizeFactor (2 ^ k), large, small, ?_,
    exponent.symm, Nat.div_mul_le_self _ _, ⟨⟨k, large, small, rfl⟩, phaseLt, Nat.dvd_mul_left _ _⟩⟩
  rw [mortal_eq, exponent]

theorem mortal_era_window (period current : Nat) :
    ∃ p ph, mortal period current = Mortal p ph ∧
      p = min (max (2 ^ Nat.clog 2 period) 4) (2 ^ 16) ∧ ph ≤ current % p ∧ max (p >>> 12) 1 ∣ ph ∧
      (∀ rest, ∃ bytes, (Mortal p ph).encode = some bytes ∧ decode (bytes ++ rest) = .ok (Mortal p ph, rest)) ∧
      (∀ rest, ∃ bytes, Immortal.encode = some bytes ∧ decode (bytes ++ rest) = .ok (Immortal, rest)) ∧
      ∃ b, (Mortal p ph).birth current = some b ∧ b ≤ current ∧ current < b + p ∧
        (Mortal p ph).death current = (if current + p < 2 ^ 64 then some (b + p) else none) ∧
        ∀ n, b ≤ n → n < b + p → (Mortal p ph).birth n = some b := by
  obtain ⟨k, phase, -, small, made, periodIs, below, wellFormed⟩ := mortal_wellFormed period current
  have positive := Nat.two_pow_pos k
  have reached : phase ≤ current := le_trans below (Nat.mod_le _ _)
  obtain ⟨b, born, -, upTo, within⟩ := birth_window positive reached
  have death := death_eq_ite (by omega : k ≤ 64) below
  rw [birth_of_le_mod positive below, Option.some.injEq] at born
  refine ⟨_, _, made, periodIs, below, wellFormed.quantized, decode_encode wellFormed,
    fun rest => ⟨_, (decode_encode_immortal rest).1, (decode_encode_immortal rest).2⟩, b, ?_, upTo, within, ?_,
    fun n after before => birth_eq_of_window positive reached ?_ after before⟩
  · rw [birth_of_le_mod positive below, born]
  · rw [death, born]
  · rw [birth_of_le_mod positive below, born]

/-- The era of the block `2 ^ 64 - 1` for a period of `4`: its window is the
last one below `2 ^ 64`, and `death` overflows. -/
theorem death_overflows_in_last_window :
    mortal 4 (2 ^ 64 - 1) = Mortal 4 3 ∧ (Mortal 4 3).birth (2 ^ 64 - 1) = some (2 ^ 64 - 1) ∧
      (Mortal 4 3).death (2 ^ 64 - 1) = none := by
  decide

/-- The blocks `6..10` of the era `mortal 4 6` of the source's test. -/
theorem mortal_four_six_window :
    ∀ n, 6 ≤ n → n < 10 → (mortal 4 6).birth n = some 6 := by
  obtain ⟨p, ph, made, -, -, -, -, -, b, born, -, -, -, window⟩ := mortal_era_window 4 6
  have era : mortal 4 6 = Mortal 4 2 := by decide
  rw [era, Mortal.injEq] at made
  obtain ⟨rfl, rfl⟩ := made
  have start : b = 6 := by
    rw [show (Mortal 4 2).birth 6 = some 6 from rfl, Option.some.injEq] at born
    exact born.symm
  subst start
  intro n after before
  rw [era]
  exact window n after before

end Mortal

end Era

end OffchainStorage.Runtime
