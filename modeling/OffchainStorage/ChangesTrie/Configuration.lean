import Mathlib
import OffchainStorage.Lib.RustInt
import OffchainStorage.Lib.Rounding

/-!
# The digest schedule of the changes trie

A changes trie configuration asks for a digest every `digest_interval` blocks
after the activation block `zero`, a level-2 digest every `digest_interval ^ 2`
blocks, and so on up to `digest_levels` levels.  Three functions read that
schedule by different means: `max_digest_interval` lowers the level until the
power fits `u32`, `digest_level_at_block` raises it while the power fits and
divides the block's distance from `zero`, and `next_max_level_digest_range`
divides and multiplies block numbers by the max digest interval.

They agree.  With `maxLevel` the highest level whose interval fits `u32`, the
max digest interval is the interval to that power (`maxDigestInterval_eq`);
the level of the digest at a block is the highest level up to `maxLevel`
whose interval divides the distance (`digestLevelAtBlock_eq`); and the max
level range holding a block ends at the first multiple of the max digest
interval after `zero` at or above it (`nextMaxLevelDigestRange_eq`).

Block numbers are an unsigned type of `bits` bits, at least 32 as
`From<u32>` asks.  The range's end is computed with an addition that
overflows when that multiple does not fit (`next_max_level_digest_range_overflows`).
-/

namespace OffchainStorage.ChangesTrie

/-- `ChangesTrieConfiguration`, two `u32`s. -/
structure Configuration where
  digestInterval : Nat
  digestLevels : Nat
  intervalFits : digestInterval < 2 ^ 32
  levelsFits : digestLevels < 2 ^ 32

/-- The loop of `max_digest_interval` from `current_level` down: the first
power of the interval that `checked_pow` computes within `u32`.  The zeroth
power is one, which always fits. -/
def maxDigestIntervalFrom (digestInterval : Nat) : Nat → Nat
  | 0 => 1
  | currentLevel + 1 =>
    if digestInterval ^ (currentLevel + 1) < 2 ^ 32 then digestInterval ^ (currentLevel + 1)
    else maxDigestIntervalFrom digestInterval currentLevel

namespace Configuration

/-- `is_digest_build_enabled`. -/
def isDigestBuildEnabled (config : Configuration) : Bool :=
  config.digestInterval > 1 && config.digestLevels > 0

/-- `is_digest_build_required_at_block(zero, block)`. -/
def isDigestBuildRequiredAtBlock (config : Configuration) (zero block : Nat) : Bool :=
  block > zero && config.isDigestBuildEnabled && (block - zero) % config.digestInterval == 0

/-- `max_digest_interval`. -/
def maxDigestInterval (config : Configuration) : Nat :=
  if !config.isDigestBuildEnabled then 1
  else maxDigestIntervalFrom config.digestInterval config.digestLevels

/-- `next_max_level_digest_range(zero, block)` for block numbers of `bits`
bits: `none` is an overflow panic, `some none` the `None` of disabled digests. -/
def nextMaxLevelDigestRange (bits : Nat) (config : Configuration) (zero block : Nat) :
    Option (Option (Nat × Nat)) :=
  if !config.isDigestBuildEnabled then some none
  else do
    let block ← if block ≤ zero then RustInt.checkedAdd bits zero 1 else pure block
    let maxDigestInterval := config.maxDigestInterval
    let maxDigestsSinceZero := (block - zero) / maxDigestInterval
    if maxDigestsSinceZero = 0 then do
      let first ← RustInt.checkedAdd bits zero 1
      let last ← RustInt.checkedAdd bits zero maxDigestInterval
      pure (some (first, last))
    else do
      let product ← RustInt.checkedMul bits maxDigestsSinceZero maxDigestInterval
      let lastMaxDigestBlock ← RustInt.checkedAdd bits zero product
      if block = lastMaxDigestBlock then do
        let difference ← RustInt.checkedSub block maxDigestInterval
        let first ← RustInt.checkedAdd bits difference 1
        pure (some (first, block))
      else do
        let first ← RustInt.checkedAdd bits lastMaxDigestBlock 1
        let last ← RustInt.checkedAdd bits lastMaxDigestBlock maxDigestInterval
        pure (some (first, last))

/-- `prev_max_level_digest_block(zero, block)`. -/
def prevMaxLevelDigestBlock (bits : Nat) (config : Configuration) (zero block : Nat) : Option (Option Nat) :=
  if block ≤ zero then some none
  else do
    match ← config.nextMaxLevelDigestRange bits zero block with
    | none => pure none
    | some (nextBegin, nextEnd) =>
      if nextEnd = block then pure (some block)
      else do
        let prevEnd ← RustInt.checkedSub nextBegin 1
        pure (if prevEnd = zero then none else some prevEnd)

/-- The `while current_level < digest_levels` loop of `digest_level_at_block`
over `(digest_interval, current_level, digest_step)`, returning them in the
source's order `(level, interval, step)`. -/
def digestLevelLoop (config : Configuration) (relativeBlock : Nat) (digestInterval currentLevel digestStep : Nat) :
    Nat × Nat × Nat :=
  if currentLevel < config.digestLevels then
    match RustInt.checkedMul 32 digestInterval config.digestInterval with
    | some newDigestInterval =>
      if relativeBlock % newDigestInterval = 0 then
        config.digestLevelLoop relativeBlock newDigestInterval (currentLevel + 1) digestInterval
      else (currentLevel, digestInterval, digestStep)
    | none => (currentLevel, digestInterval, digestStep)
  else (currentLevel, digestInterval, digestStep)
termination_by config.digestLevels - currentLevel

/-- `digest_level_at_block(zero, block)`. -/
def digestLevelAtBlock (config : Configuration) (zero block : Nat) : Option (Nat × Nat × Nat) :=
  if !config.isDigestBuildRequiredAtBlock zero block then none
  else some (config.digestLevelLoop (block - zero) config.digestInterval 1 1)

/-! ## The levels the schedule names -/

/-- The highest digest level, up to `digest_levels`, whose interval fits `u32`. -/
def maxLevel (config : Configuration) : Nat :=
  Nat.findGreatest (fun level => config.digestInterval ^ level < 2 ^ 32) config.digestLevels

/-- The level of the digest `relativeBlock` blocks after `zero`: the highest
level up to `maxLevel` whose interval divides the distance. -/
def digestLevel (config : Configuration) (relativeBlock : Nat) : Nat :=
  Nat.findGreatest (fun level => config.digestInterval ^ level ∣ relativeBlock) config.maxLevel

/-- The last block of the max level range holding `block`: the first multiple
of the max digest interval after `zero` at or above it. -/
def nextMaxLevelDigestEnd (config : Configuration) (zero block : Nat) : Nat :=
  zero + (block - zero + config.maxDigestInterval - 1) / config.maxDigestInterval * config.maxDigestInterval

variable (config : Configuration)

theorem isDigestBuildEnabled_iff :
    config.isDigestBuildEnabled = true ↔ 2 ≤ config.digestInterval ∧ 1 ≤ config.digestLevels := by
  simp [isDigestBuildEnabled]
  omega

theorem isDigestBuildRequiredAtBlock_iff {zero block : Nat} (enabled : config.isDigestBuildEnabled = true)
    (after : zero < block) :
    config.isDigestBuildRequiredAtBlock zero block = true ↔ config.digestInterval ∣ block - zero := by
  simp [isDigestBuildRequiredAtBlock, enabled, after, Nat.dvd_iff_mod_eq_zero]

theorem maxDigestIntervalFrom_eq (digestInterval : Nat) (currentLevel : Nat) :
    maxDigestIntervalFrom digestInterval currentLevel =
      digestInterval ^ Nat.findGreatest (fun level => digestInterval ^ level < 2 ^ 32) currentLevel := by
  induction currentLevel with
  | zero => simp [maxDigestIntervalFrom]
  | succ currentLevel ih =>
    rw [maxDigestIntervalFrom]
    split
    · rename_i fits
      rw [Nat.findGreatest_eq (P := fun level => digestInterval ^ level < 2 ^ 32) fits]
    · rename_i overflows
      rw [Nat.findGreatest_of_not (P := fun level => digestInterval ^ level < 2 ^ 32) overflows, ih]

theorem maxDigestInterval_eq (enabled : config.isDigestBuildEnabled = true) :
    config.maxDigestInterval = config.digestInterval ^ config.maxLevel := by
  rw [maxDigestInterval, if_neg (by simp [enabled]), maxDigestIntervalFrom_eq]
  rfl

theorem maxLevel_le : config.maxLevel ≤ config.digestLevels :=
  Nat.findGreatest_le _

theorem pow_maxLevel_lt : config.digestInterval ^ config.maxLevel < 2 ^ 32 :=
  Nat.findGreatest_spec (P := fun level => config.digestInterval ^ level < 2 ^ 32) (Nat.zero_le _) (by simp)

theorem pow_lt_of_le_maxLevel {level : Nat} (positive : 0 < config.digestInterval) (below : level ≤ config.maxLevel) :
    config.digestInterval ^ level < 2 ^ 32 :=
  Nat.lt_of_le_of_lt (Nat.pow_le_pow_right positive below) config.pow_maxLevel_lt

/-- Above `maxLevel`, within `digest_levels`, the interval does not fit. -/
theorem pow_ge_of_maxLevel_lt {level : Nat} (above : config.maxLevel < level) (within : level ≤ config.digestLevels) :
    2 ^ 32 ≤ config.digestInterval ^ level :=
  Nat.le_of_not_lt (Nat.findGreatest_is_greatest (P := fun level => config.digestInterval ^ level < 2 ^ 32)
    above within)

theorem one_le_maxLevel (enabled : config.isDigestBuildEnabled = true) : 1 ≤ config.maxLevel := by
  have levels := ((config.isDigestBuildEnabled_iff).mp enabled).2
  exact Nat.le_findGreatest (P := fun level => config.digestInterval ^ level < 2 ^ 32) levels
    (by simpa using config.intervalFits)

theorem maxDigestInterval_pos : 0 < config.maxDigestInterval := by
  unfold maxDigestInterval
  split
  · exact Nat.one_pos
  · rw [maxDigestIntervalFrom_eq]
    rename_i enabled
    have interval := ((config.isDigestBuildEnabled_iff).mp (by simpa using enabled)).1
    exact Nat.pow_pos (by omega)

theorem maxDigestInterval_lt : config.maxDigestInterval < 2 ^ 32 := by
  unfold maxDigestInterval
  split
  · decide
  · rw [maxDigestIntervalFrom_eq]
    exact config.pow_maxLevel_lt

/-! ## The level of a digest -/

section Level

variable {relativeBlock : Nat}

/-- The digest level has its interval dividing the distance, and no higher
level up to `maxLevel` does. -/
theorem digestLevel_spec (divides : config.digestInterval ∣ relativeBlock) (enabled : config.isDigestBuildEnabled = true) :
    1 ≤ config.digestLevel relativeBlock ∧ config.digestLevel relativeBlock ≤ config.maxLevel ∧
      config.digestInterval ^ config.digestLevel relativeBlock ∣ relativeBlock ∧
      ∀ higher, config.digestLevel relativeBlock < higher → higher ≤ config.maxLevel →
        ¬ config.digestInterval ^ higher ∣ relativeBlock := by
  have first : config.digestInterval ^ 1 ∣ relativeBlock := by simpa using divides
  refine ⟨Nat.le_findGreatest (P := fun level => config.digestInterval ^ level ∣ relativeBlock)
    (config.one_le_maxLevel enabled) first, Nat.findGreatest_le _,
    Nat.findGreatest_spec (P := fun level => config.digestInterval ^ level ∣ relativeBlock) (Nat.zero_le _) (by simp),
    fun higher above within => ?_⟩
  exact Nat.findGreatest_is_greatest (P := fun level => config.digestInterval ^ level ∣ relativeBlock) above within

/-- The digest level is `level` when the interval to that power divides the
distance and the next one does not. -/
theorem digestLevel_eq_of_not_dvd {level : Nat} (within : level ≤ config.maxLevel)
    (divides : config.digestInterval ^ level ∣ relativeBlock)
    (stops : level < config.maxLevel → ¬ config.digestInterval ^ (level + 1) ∣ relativeBlock) :
    config.digestLevel relativeBlock = level := by
  rw [digestLevel, Nat.findGreatest_eq_iff]
  refine ⟨within, fun _ => divides, fun higher above atMost higherDivides => ?_⟩
  -- a higher power dividing the distance makes the next one divide it too
  have next : config.digestInterval ^ (level + 1) ∣ relativeBlock :=
    Nat.dvd_trans (Nat.pow_dvd_pow _ above) higherDivides
  exact stops (by omega) next

/-- The loop of `digest_level_at_block`, entered at a level whose interval
divides the distance, ends at the digest level. -/
theorem digestLevelLoop_eq (enabled : config.isDigestBuildEnabled = true) (interval level step : Nat)
    (isPower : interval = config.digestInterval ^ level) (isStep : step = config.digestInterval ^ (level - 1))
    (atLeastOne : 1 ≤ level) (within : level ≤ config.maxLevel) (divides : config.digestInterval ^ level ∣ relativeBlock) :
    config.digestLevelLoop relativeBlock interval level step =
      (config.digestLevel relativeBlock, config.digestInterval ^ config.digestLevel relativeBlock,
        config.digestInterval ^ (config.digestLevel relativeBlock - 1)) := by
  have positive : 0 < config.digestInterval := by
    have := ((config.isDigestBuildEnabled_iff).mp enabled).1
    omega
  fun_induction config.digestLevelLoop relativeBlock interval level step with
  | case1 interval level step below newInterval multiplied dividesNext ih =>
    -- the next power fits and divides: the loop goes one level up
    have product : newInterval = config.digestInterval ^ (level + 1) := by
      unfold RustInt.checkedMul at multiplied
      split at multiplied
      · cases multiplied
        rw [isPower, pow_succ]
      · cases multiplied
    have fits : newInterval < 2 ^ 32 := by
      unfold RustInt.checkedMul at multiplied
      split at multiplied
      · cases multiplied
        assumption
      · cases multiplied
    have nextWithin : level + 1 ≤ config.maxLevel :=
      Nat.le_findGreatest (P := fun level => config.digestInterval ^ level < 2 ^ 32) (by omega) (product ▸ fits)
    exact ih product (by rw [isPower]; rfl) (by omega) nextWithin
      (product ▸ Nat.dvd_of_mod_eq_zero dividesNext)
  | case2 interval level step below newInterval multiplied notNext =>
    have product : newInterval = config.digestInterval ^ (level + 1) := by
      unfold RustInt.checkedMul at multiplied
      split at multiplied
      · cases multiplied
        rw [isPower, pow_succ]
      · cases multiplied
    have stopped := config.digestLevel_eq_of_not_dvd within divides
      (fun _ nextDivides => notNext (Nat.mod_eq_zero_of_dvd (product ▸ nextDivides)))
    rw [stopped, isPower, isStep]
  | case3 interval level step below overflows =>
    -- the next power overflows `u32`, so this level is `maxLevel`
    have tooLarge : 2 ^ 32 ≤ config.digestInterval ^ (level + 1) := by
      unfold RustInt.checkedMul at overflows
      split at overflows
      · cases overflows
      · rename_i notFits
        rw [isPower, ← pow_succ] at notFits
        exact Nat.le_of_not_lt notFits
    have stopped := config.digestLevel_eq_of_not_dvd within divides
      (fun higher _ => absurd (config.pow_lt_of_le_maxLevel positive higher) (Nat.not_lt.mpr tooLarge))
    rw [stopped, isPower, isStep]
  | case4 interval level step atLevels =>
    -- `digest_levels` reached, so this level is `maxLevel`
    have stopped := config.digestLevel_eq_of_not_dvd within divides
      (fun higher _ => absurd (Nat.le_trans higher config.maxLevel_le) (by omega))
    rw [stopped, isPower, isStep]

/-- `digest_level_at_block` names the digest level, its interval and the
interval one level down, exactly at the blocks the interval divides. -/
theorem digestLevelAtBlock_eq (enabled : config.isDigestBuildEnabled = true) {zero block : Nat} (after : zero < block) :
    config.digestLevelAtBlock zero block =
      if config.digestInterval ∣ block - zero then
        some (config.digestLevel (block - zero), config.digestInterval ^ config.digestLevel (block - zero),
          config.digestInterval ^ (config.digestLevel (block - zero) - 1))
      else none := by
  unfold digestLevelAtBlock
  by_cases divides : config.digestInterval ∣ block - zero
  · have required := (config.isDigestBuildRequiredAtBlock_iff enabled after).mpr divides
    rw [if_neg (by simp [required]), if_pos divides,
      config.digestLevelLoop_eq enabled _ 1 1 (pow_one _).symm (by simp) (Nat.le_refl 1)
        (config.one_le_maxLevel enabled) (by simpa using divides)]
  · have notRequired : config.isDigestBuildRequiredAtBlock zero block = false := by
      rw [← Bool.not_eq_true, config.isDigestBuildRequiredAtBlock_iff enabled after]
      exact divides
    rw [if_pos (by simp [notRequired]), if_neg divides]

/-- A digest is built only at blocks after `zero`. -/
theorem zero_lt_of_digestLevelAtBlock {zero block : Nat} {found : Nat × Nat × Nat}
    (built : config.digestLevelAtBlock zero block = some found) : zero < block := by
  by_contra before
  simp [digestLevelAtBlock, isDigestBuildRequiredAtBlock, Nat.not_lt.mp before] at built

end Level

/-! ## The max level range -/

section Range

variable {zero block : Nat}

/-- The end of the range lies at or above the block, less than one max digest
interval above it, and a whole number of intervals after `zero`; it is the
block itself exactly when the interval divides the distance. -/
theorem nextMaxLevelDigestEnd_spec (after : zero < block) :
    block ≤ config.nextMaxLevelDigestEnd zero block ∧
      config.nextMaxLevelDigestEnd zero block < block + config.maxDigestInterval ∧
      config.maxDigestInterval ∣ config.nextMaxLevelDigestEnd zero block - zero ∧
      (config.nextMaxLevelDigestEnd zero block = block ↔ config.maxDigestInterval ∣ block - zero) := by
  have positive := config.maxDigestInterval_pos
  unfold nextMaxLevelDigestEnd
  generalize config.maxDigestInterval = interval at positive ⊢
  have split := Nat.div_add_mod (block - zero + interval - 1) interval
  have remainder := Nat.mod_lt (block - zero + interval - 1) positive
  generalize (block - zero + interval - 1) / interval = count at split ⊢
  have product : count * interval = interval * count := Nat.mul_comm _ _
  refine ⟨by omega, by omega, ⟨count, by omega⟩, ?_⟩
  constructor
  · intro atBlock
    exact ⟨count, by omega⟩
  · intro divides
    -- the rounding up is a multiple of the interval less than one interval away
    have multiple : interval ∣ interval * count - (block - zero) := Nat.dvd_sub (Nat.dvd_mul_right _ _) divides
    have gap := Nat.eq_zero_of_dvd_of_lt multiple (by omega)
    omega

theorem nextMaxLevelDigestRange_eq (enabled : config.isDigestBuildEnabled = true) {bits : Nat} (wide : 32 ≤ bits)
    (after : zero < block) (blockFits : block < 2 ^ bits) :
    config.nextMaxLevelDigestRange bits zero block =
      if config.nextMaxLevelDigestEnd zero block < 2 ^ bits then
        some (some (config.nextMaxLevelDigestEnd zero block + 1 - config.maxDigestInterval,
          config.nextMaxLevelDigestEnd zero block))
      else none := by
  have positive := config.maxDigestInterval_pos
  have intervalFits : config.maxDigestInterval < 2 ^ bits :=
    Nat.lt_of_lt_of_le config.maxDigestInterval_lt (Nat.pow_le_pow_right (by decide) wide)
  have split := Nat.div_add_mod' (block - zero) config.maxDigestInterval
  have remainder := Nat.mod_lt (block - zero) positive
  unfold nextMaxLevelDigestRange nextMaxLevelDigestEnd
  rw [if_neg (by simp [enabled]), if_neg (Nat.not_le.mpr after), Rounding.div_round_up _ positive]
  simp only [pure_bind]
  generalize config.maxDigestInterval = interval at *
  generalize (block - zero) / interval = count at *
  generalize (block - zero) % interval = rest at *
  by_cases first : count = 0
  · -- the block lies in the first range after `zero`
    subst first
    have restNonzero : rest ≠ 0 := by omega
    rw [if_pos rfl, if_neg restNonzero, RustInt.checkedAdd_of_lt (by omega : zero + 1 < 2 ^ bits), Nat.zero_add,
      Nat.one_mul]
    by_cases fits : zero + interval < 2 ^ bits
    · simp only [RustInt.checkedAdd_of_lt fits, if_pos fits, Option.pure_def, Option.bind_eq_bind, Option.bind_some]
      rw [show zero + interval + 1 - interval = zero + 1 by omega]
    · simp [RustInt.checkedAdd_of_le (Nat.le_of_not_lt fits), fits]
  · have productFits : count * interval < 2 ^ bits := by omega
    have lastFits : zero + count * interval < 2 ^ bits := by omega
    rw [if_neg first, RustInt.checkedMul_of_lt productFits]
    simp only [Option.bind_eq_bind, Option.bind_some, RustInt.checkedAdd_of_lt lastFits]
    by_cases exact : rest = 0
    · -- the block ends a range itself
      have atBlock : block = zero + count * interval := by omega
      have atLeast : interval ≤ count * interval := Nat.le_mul_of_pos_left interval (Nat.pos_of_ne_zero first)
      rw [if_pos atBlock, if_pos exact, Nat.add_zero, RustInt.checkedSub_of_le (by omega : interval ≤ block),
        if_pos lastFits]
      simp only [Option.bind_some, RustInt.checkedAdd_of_lt (by omega : block - interval + 1 < 2 ^ bits),
        Option.pure_def]
      rw [← atBlock, show block + 1 - interval = block - interval + 1 by omega]
    · have notAtBlock : block ≠ zero + count * interval := by omega
      have next : (count + 1) * interval = count * interval + interval := Nat.succ_mul count interval
      rw [if_neg notAtBlock, if_neg exact, next, ← Nat.add_assoc,
        RustInt.checkedAdd_of_lt (by omega : zero + count * interval + 1 < 2 ^ bits)]
      by_cases fits : zero + count * interval + interval < 2 ^ bits
      · simp only [Option.bind_some, RustInt.checkedAdd_of_lt fits, if_pos fits, Option.pure_def]
        rw [show zero + count * interval + interval + 1 - interval = zero + count * interval + 1 by omega]
      · simp [RustInt.checkedAdd_of_le (Nat.le_of_not_lt fits), fits]

/-- The previous max level digest block is the block itself exactly when the
block ends a max level range. -/
theorem prevMaxLevelDigestBlock_eq_self_iff (enabled : config.isDigestBuildEnabled = true) {bits : Nat}
    (wide : 32 ≤ bits) (after : zero < block) (blockFits : block < 2 ^ bits) :
    config.prevMaxLevelDigestBlock bits zero block = some (some block) ↔
      config.maxDigestInterval ∣ block - zero := by
  obtain ⟨atLeast, below, multiple, endsAtBlock⟩ := config.nextMaxLevelDigestEnd_spec after
  have positive := config.maxDigestInterval_pos
  unfold prevMaxLevelDigestBlock
  rw [if_neg (Nat.not_le.mpr after), config.nextMaxLevelDigestRange_eq enabled wide after blockFits, ← endsAtBlock]
  by_cases fits : config.nextMaxLevelDigestEnd zero block < 2 ^ bits
  · rw [if_pos fits]
    by_cases atBlock : config.nextMaxLevelDigestEnd zero block = block
    · simp [atBlock]
    · -- the range ends past the block, and the one before it ends below the block
      have whole : config.maxDigestInterval ≤ config.nextMaxLevelDigestEnd zero block - zero :=
        Nat.le_of_dvd (by omega) multiple
      simp only [Option.bind_eq_bind, Option.bind_some,
        RustInt.checkedSub_of_le (by omega : 1 ≤ config.nextMaxLevelDigestEnd zero block + 1 - config.maxDigestInterval),
        Option.pure_def, atBlock, iff_false]
      split <;> simp <;> omega
  · rw [if_neg fits]
    simp only [Option.bind_eq_bind, Option.bind_none, reduceCtorEq, false_iff]
    intro atBlock
    rw [atBlock] at fits
    exact fits blockFits

end Range

/-! ## The schedule is consistent -/

/-- What the three functions of the schedule agree on at a block after `zero`. -/
structure ScheduleAgrees (config : Configuration) (zero block : Nat) : Prop where
  /-- The max digest interval is the interval to the highest level that fits `u32`. -/
  maxInterval : config.maxDigestInterval = config.digestInterval ^ config.maxLevel
  maxLevelWithin : config.maxLevel ≤ config.digestLevels
  maxLevelFits : config.digestInterval ^ config.maxLevel < 2 ^ 32
  aboveMaxLevel : ∀ level, config.maxLevel < level → level ≤ config.digestLevels →
    2 ^ 32 ≤ config.digestInterval ^ level
  /-- A digest is built exactly at the multiples of the interval. -/
  digestAt : (∃ level interval step, config.digestLevelAtBlock zero block = some (level, interval, step)) ↔
    config.digestInterval ∣ block - zero
  /-- Its level is the highest up to the max level whose interval divides the
  distance, with that interval and the one below it. -/
  digestLevelIs : ∀ level interval step, config.digestLevelAtBlock zero block = some (level, interval, step) →
    1 ≤ level ∧ level ≤ config.maxLevel ∧ config.digestInterval ^ level ∣ block - zero ∧
      (∀ higher, level < higher → higher ≤ config.maxLevel → ¬ config.digestInterval ^ higher ∣ block - zero) ∧
      interval = config.digestInterval ^ level ∧ step = config.digestInterval ^ (level - 1)
  /-- The max level range holding the block is one max digest interval long and
  ends a whole number of them after `zero`. -/
  rangeIs : ∃ first last, config.nextMaxLevelDigestRange 64 zero block = some (some (first, last)) ∧
    last - first + 1 = config.maxDigestInterval ∧ config.maxDigestInterval ∣ last - zero ∧
    first ≤ max block (zero + 1) ∧ max block (zero + 1) ≤ last
  /-- The block is its own previous max level digest exactly at a max level digest. -/
  prevIsSelf : config.prevMaxLevelDigestBlock 64 zero block = some (some block) ↔
    ∃ interval step, config.digestLevelAtBlock zero block = some (config.maxLevel, interval, step)

/-- The digest level is the max level exactly when the max digest interval
divides the distance. -/
theorem digestLevel_eq_maxLevel_iff {relativeBlock : Nat} :
    config.digestLevel relativeBlock = config.maxLevel ↔ config.digestInterval ^ config.maxLevel ∣ relativeBlock := by
  constructor
  · intro atTop
    have divides := Nat.findGreatest_spec (P := fun level => config.digestInterval ^ level ∣ relativeBlock)
      (Nat.zero_le config.maxLevel) (by simp)
    rwa [← digestLevel, atTop] at divides
  · exact Nat.findGreatest_eq (P := fun level => config.digestInterval ^ level ∣ relativeBlock)

theorem digest_schedule_consistent (spaced : 2 ≤ config.digestInterval) (levels : 1 ≤ config.digestLevels)
    {zero block : Nat} (after : zero < block) (blockFits : block < 2 ^ 64)
    (rangeFits : config.nextMaxLevelDigestEnd zero block < 2 ^ 64) :
    config.ScheduleAgrees zero block := by
  have enabled : config.isDigestBuildEnabled = true := (config.isDigestBuildEnabled_iff).mpr ⟨spaced, levels⟩
  have levelAt := config.digestLevelAtBlock_eq enabled after
  obtain ⟨atLeast, below, multiple, _⟩ := config.nextMaxLevelDigestEnd_spec after
  have range := config.nextMaxLevelDigestRange_eq enabled (by decide) after blockFits
  rw [if_pos rangeFits] at range
  refine ⟨config.maxDigestInterval_eq enabled, config.maxLevel_le, config.pow_maxLevel_lt,
    fun level above within => config.pow_ge_of_maxLevel_lt above within, ?_, ?_, ?_, ?_⟩
  · rw [levelAt]
    constructor
    · rintro ⟨level, interval, step, found⟩
      by_contra notDivides
      rw [if_neg notDivides] at found
      cases found
    · intro divides
      rw [if_pos divides]
      exact ⟨_, _, _, rfl⟩
  · intro level interval step found
    rw [levelAt] at found
    by_cases divides : config.digestInterval ∣ block - zero
    · rw [if_pos divides] at found
      simp only [Option.some.injEq, Prod.mk.injEq] at found
      obtain ⟨rfl, rfl, rfl⟩ := found
      obtain ⟨atLeastOne, within, dividesLevel, greatest⟩ := config.digestLevel_spec divides enabled
      exact ⟨atLeastOne, within, dividesLevel, greatest, rfl, rfl⟩
    · rw [if_neg divides] at found
      cases found
  · have whole : config.maxDigestInterval ≤ config.nextMaxLevelDigestEnd zero block - zero :=
      Nat.le_of_dvd (by omega) multiple
    refine ⟨_, _, range, by omega, multiple, by omega, by omega⟩
  · rw [config.prevMaxLevelDigestBlock_eq_self_iff enabled (by decide) after blockFits, levelAt,
      config.maxDigestInterval_eq enabled]
    constructor
    · intro topDivides
      -- the max digest interval is a power of the interval, so the interval divides too
      have divides : config.digestInterval ∣ block - zero :=
        Nat.dvd_trans (dvd_pow_self _ (by have := config.one_le_maxLevel enabled; omega)) topDivides
      rw [if_pos divides, (config.digestLevel_eq_maxLevel_iff).mpr topDivides]
      exact ⟨_, _, rfl⟩
    · rintro ⟨interval, step, found⟩
      by_cases divides : config.digestInterval ∣ block - zero
      · rw [if_pos divides] at found
        simp only [Option.some.injEq, Prod.mk.injEq] at found
        exact (config.digestLevel_eq_maxLevel_iff).mp found.1
      · rw [if_neg divides] at found
        cases found

theorem digest_schedule_consistent_at_4129 :
    2 ≤ (⟨8, 4, by decide, by decide⟩ : Configuration).digestInterval ∧
      1 ≤ (⟨8, 4, by decide, by decide⟩ : Configuration).digestLevels ∧ 17 < 4129 ∧ 4129 < 2 ^ 64 ∧
      (⟨8, 4, by decide, by decide⟩ : Configuration).nextMaxLevelDigestEnd 17 4129 < 2 ^ 64 ∧
      (⟨8, 4, by decide, by decide⟩ : Configuration).ScheduleAgrees 17 4129 :=
  ⟨by decide, by decide, by decide, by decide, by decide,
    digest_schedule_consistent _ (by decide) (by decide) (by decide) (by decide) (by decide)⟩

/-- With one level of interval two and `zero` two below the top of `u64`, the
range holding the last block would end one past the type. -/
theorem next_max_level_digest_range_overflows :
    (⟨2, 1, by decide, by decide⟩ : Configuration).nextMaxLevelDigestRange 64 (2 ^ 64 - 2) (2 ^ 64 - 1) = none := by
  decide

end Configuration

end OffchainStorage.ChangesTrie
