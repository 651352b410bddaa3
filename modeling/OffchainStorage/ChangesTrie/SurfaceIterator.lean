import Mathlib
import OffchainStorage.ChangesTrie.Configuration

/-!
# The surface iterator

`surface_iterator(config, max, begin, end)` lists the digest blocks to read
for the changes of the blocks `begin..=end`: from the end down, each time the
highest level digest that holds the block and ends at or before `max`.
`lower_bound_max_digest` finds that digest by climbing the levels, each
interval `digest_interval` times the one below it, computed in `u32`.

Block numbers are an unsigned type of `bits` bits, as in `Configuration`;
`none` is a panic.  The climb does not stop at the levels whose interval fits
`u32`: with an interval of `2 ^ 16` and two levels it multiplies `2 ^ 16` by
itself and panics (`surface_iterator_overflows_on_second_level`).
-/

namespace OffchainStorage.ChangesTrie

open RustInt

/-- `ConfigurationRange`: the configuration, active after `zero` and up to
`configEnd`. -/
structure ConfigurationRange where
  config : Configuration
  zero : Nat
  configEnd : Option Nat

/-- The variables of the loop of `lower_bound_max_digest`. -/
structure DigestClimb where
  digestLevel : Nat
  digestStep : Nat
  digestInterval : Nat
  current : Nat
  currentBegin : Nat

/-- What `lower_bound_max_digest` returns: `(current, current_begin,
digest_step, digest_level)`. -/
abbrev DigestBound := Nat × Nat × Nat × Option Nat

namespace DigestClimb

def bound (climb : DigestClimb) : DigestBound :=
  (climb.current, climb.currentBegin, climb.digestStep, some climb.digestLevel)

end DigestClimb

namespace ConfigurationRange

/-- The skewed digest check of the loop: at a configuration end below the
next digest's end, the skewed digest from the last max level digest block,
if there is one. -/
def skewedDigest (bits : Nat) (range : ConfigurationRange) (newDigestEnd : Nat) : Option (Option DigestBound) :=
  match range.configEnd with
  | some skewedDigestEnd =>
    if newDigestEnd > skewedDigestEnd then do
      match ← range.config.prevMaxLevelDigestBlock bits range.zero skewedDigestEnd with
      | some skewedDigestStart =>
        let difference ← checkedSub skewedDigestEnd skewedDigestStart
        -- the expect of the conversion to u32
        let skewedDigestRange ← tryInto 32 difference
        pure (some (skewedDigestEnd, skewedDigestStart, skewedDigestRange, none))
      | none => pure none
    else pure none
  | none => pure none

/-- The `while digest_level != digest_levels` loop of `lower_bound_max_digest`;
the fuel is the levels left, so it ends with the loop. -/
def climb (bits : Nat) (range : ConfigurationRange) (max begin endBlock : Nat) :
    Nat → DigestClimb → Option (Except String DigestBound)
  | 0, state => pure (.ok state.bound)
  | fuel + 1, state =>
    if state.digestLevel = range.config.digestLevels then pure (.ok state.bound)
    else do
      let newDigestLevel ← checkedAdd 32 state.digestLevel 1
      let newDigestStep ← checkedMul 32 state.digestStep range.config.digestInterval
      let newDigestInterval ← checkedMul 32 range.config.digestInterval
        (if state.digestInterval = 0 then 1 else state.digestInterval)
      let beforeCurrent ← checkedSub state.current 1
      let sinceZero ← checkedSub beforeCurrent range.zero
      let digests ← checkedDiv sinceZero newDigestInterval
      let offset ← checkedMul bits digests newDigestInterval
      let newDigestBegin ← checkedAdd bits range.zero offset
      let newDigestEnd ← checkedAdd bits newDigestBegin newDigestInterval
      let newCurrent ← checkedAdd bits newDigestBegin newDigestInterval
      match ← range.skewedDigest bits newDigestEnd with
      | some skewed => pure (.ok skewed)
      | none =>
        if newDigestEnd > max then
          pure (.ok { state with currentBegin := if begin < newDigestBegin then newDigestBegin else state.currentBegin }.bound)
        else
          let next : DigestClimb := ⟨newDigestLevel, newDigestStep, newDigestInterval, newCurrent, newDigestBegin⟩
          if newDigestBegin ≤ begin ∧ newDigestEnd ≥ endBlock then pure (.ok next.bound)
          else climb bits range max begin endBlock fuel next

end ConfigurationRange

/-- `lower_bound_max_digest(config, max, begin, end)`. -/
def lowerBoundMaxDigest (bits : Nat) (range : ConfigurationRange) (max begin endBlock : Nat) :
    Option (Except String DigestBound) :=
  if endBlock > max ∨ begin > endBlock then
    pure (.error ("invalid changes range: " ++ toString begin ++ ".." ++ toString endBlock ++ "/" ++ toString max))
  else if begin ≤ range.zero ∨ range.configEnd.any (endBlock > ·) then
    pure (.error ("changes trie range is not covered by configuration: " ++ toString begin ++ ".." ++
      toString endBlock ++ "/" ++ toString range.zero ++ ".." ++
      (match range.configEnd with
        | some configEnd => toString configEnd
        | none => "None")))
  else if begin ≠ endBlock then
    range.climb bits max begin endBlock range.config.digestLevels ⟨0, 1, 0, endBlock, begin⟩
  else pure (.ok (endBlock, begin, 1, some 0))

/-- `SurfaceIterator`. -/
structure SurfaceIterator where
  range : ConfigurationRange
  begin : Nat
  max : Nat
  current : Option Nat
  currentBegin : Nat
  digestStep : Nat
  digestLevel : Option Nat

/-- `surface_iterator(config, max, begin, end)`. -/
def surfaceIterator (bits : Nat) (range : ConfigurationRange) (max begin endBlock : Nat) :
    Option (Except String SurfaceIterator) := do
  match ← lowerBoundMaxDigest bits range max begin endBlock with
  | .error error => pure (.error error)
  | .ok (current, currentBegin, digestStep, digestLevel) =>
    pure (.ok ⟨range, begin, max, some current, currentBegin, digestStep, digestLevel⟩)

namespace SurfaceIterator

/-- `next`: the item, `none` at the end, and the iterator after it. -/
def next (bits : Nat) (iterator : SurfaceIterator) :
    Option (Option (Except String (Nat × Option Nat)) × SurfaceIterator) :=
  match iterator.current with
  | none => pure (none, iterator)
  | some current =>
    let item := some (.ok (current, iterator.digestLevel))
    if current < iterator.digestStep then pure (item, { iterator with current := none })
    else
      let next := current - iterator.digestStep
      if next = 0 ∨ next < iterator.begin then pure (item, { iterator with current := none })
      else if next > iterator.currentBegin then pure (item, { iterator with current := some next })
      else do
        match ← lowerBoundMaxDigest bits iterator.range iterator.max iterator.begin next with
        | .error error => pure (some (.error error), iterator)
        | .ok (current, currentBegin, digestStep, digestLevel) =>
          pure (item, { iterator with
            current := some current, currentBegin := currentBegin, digestStep := digestStep, digestLevel := digestLevel })

/-- The items collected into a result, up to the first error; `none` is a
panic, or too little fuel. -/
def points (bits : Nat) : Nat → SurfaceIterator → Option (Except String (List (Nat × Option Nat)))
  | 0, _ => none
  | fuel + 1, iterator => do
    match ← iterator.next bits with
    | (none, _) => pure (.ok [])
    | (some (.error error), _) => pure (.error error)
    | (some (.ok point), rest) => Except.map (point :: ·) <$> points bits fuel rest

end SurfaceIterator

example : lowerBoundMaxDigest 64 ⟨⟨4, 2, by decide, by decide⟩, 0, none⟩ 100000 20 180 = some (.ok (192, 176, 16, some 2)) := by
  decide

example :
    (do
      match ← surfaceIterator 64 ⟨⟨4, 2, by decide, by decide⟩, 0, some 170⟩ 100000 40 170 with
      | .ok iterator => iterator.points 64 16
      | .error error => pure (.error error)) =
      some (.ok [(170, none), (160, some 2), (144, some 2), (128, some 2), (112, some 2), (96, some 2), (80, some 2),
        (64, some 2), (48, some 2)]) := by
  decide

/-! ## The climb past the levels that fit -/

section Overflow

variable {config : Configuration} {bits zero : Nat}

theorem pred_div_mul_eq {step total : Nat} (positive : 0 < step) (divides : step ∣ total) (nonzero : 0 < total) :
    (total - 1) / step * step = total - step := by
  obtain ⟨count, rfl⟩ := divides
  have counted : 0 < count := Nat.pos_of_mul_pos_left nonzero
  have split : step * count - 1 = step - 1 + step * (count - 1) := by
    rw [Nat.mul_sub_one]
    have := Nat.le_mul_of_pos_right step counted
    omega
  rw [split, Nat.add_mul_div_left _ _ positive, Nat.div_eq_of_lt (by omega), Nat.zero_add, Nat.mul_comm,
    Nat.mul_sub_one]

/-- The climb of `lower_bound_max_digest` over the range from `zero + 1` to
`zero + 2 * d ^ maxLevel`: at each level the digest ends at the range's end
and begins `d ^ level` before it. -/
def levelClimb (config : Configuration) (zero level : Nat) : DigestClimb :=
  ⟨level, config.digestInterval ^ level, if level = 0 then 0 else config.digestInterval ^ level,
    zero + 2 * config.digestInterval ^ config.maxLevel,
    if level = 0 then zero + 1 else zero + (2 * config.digestInterval ^ config.maxLevel - config.digestInterval ^ level)⟩

/-- The interval the loop multiplies, one for the zero it starts from. -/
theorem effectiveInterval_levelClimb (positive : 0 < config.digestInterval) (level : Nat) :
    (if (levelClimb config zero level).digestInterval = 0 then 1 else (levelClimb config zero level).digestInterval) =
      config.digestInterval ^ level := by
  cases level with
  | zero => simp [levelClimb]
  | succ level => simp [levelClimb, positive.ne']

/-- Below `maxLevel`, each level's digest is used and the climb goes on. -/
theorem climb_levelClimb (spaced : 2 ≤ config.digestInterval) (above : config.maxLevel < config.digestLevels)
    (fits : zero + 2 * config.digestInterval ^ config.maxLevel < 2 ^ bits) {level : Nat} (below : level < config.maxLevel)
    (fuel : Nat) :
    ConfigurationRange.climb bits ⟨config, zero, none⟩ (zero + 2 * config.digestInterval ^ config.maxLevel) (zero + 1)
        (zero + 2 * config.digestInterval ^ config.maxLevel) (fuel + 1) (levelClimb config zero level) =
      ConfigurationRange.climb bits ⟨config, zero, none⟩ (zero + 2 * config.digestInterval ^ config.maxLevel) (zero + 1)
        (zero + 2 * config.digestInterval ^ config.maxLevel) fuel (levelClimb config zero (level + 1)) := by
  have notLast : level ≠ config.digestLevels := by omega
  have levelFits : level + 1 < 2 ^ 32 := lt_of_le_of_lt (by omega) config.levelsFits
  have positive : 0 < config.digestInterval := by omega
  have stepFits := config.pow_lt_of_le_maxLevel positive (show level + 1 ≤ config.maxLevel from below)
  have stepWithin := Nat.pow_le_pow_right positive (show level + 1 ≤ config.maxLevel from below)
  have nextStepFits : config.digestInterval ^ level * config.digestInterval < 2 ^ 32 := by rwa [← pow_succ]
  have nextIntervalFits : config.digestInterval * config.digestInterval ^ level < 2 ^ 32 := by rwa [← pow_succ']
  have topAtLeast : 2 ≤ config.digestInterval ^ config.maxLevel :=
    le_trans spaced (by simpa using Nat.pow_le_pow_right positive (show 1 ≤ config.maxLevel by omega))
  have divides : config.digestInterval ^ (level + 1) ∣ 2 * config.digestInterval ^ config.maxLevel :=
    Dvd.dvd.mul_left (Nat.pow_dvd_pow _ below) 2
  have offset := pred_div_mul_eq (pow_pos positive (level + 1)) divides (by omega)
  have offsetFits : (2 * config.digestInterval ^ config.maxLevel - 1) / config.digestInterval ^ (level + 1) *
      config.digestInterval ^ (level + 1) < 2 ^ bits := by
    rw [offset]
    omega
  -- the digest of the next level ends at the range's end and does not reach its begin
  have ends : zero + (2 * config.digestInterval ^ config.maxLevel - config.digestInterval ^ (level + 1)) +
      config.digestInterval ^ (level + 1) = zero + 2 * config.digestInterval ^ config.maxLevel := by omega
  have notCovering : ¬ (zero + (2 * config.digestInterval ^ config.maxLevel - config.digestInterval ^ (level + 1)) ≤
      zero + 1 ∧ zero + 2 * config.digestInterval ^ config.maxLevel ≥ zero + 2 * config.digestInterval ^ config.maxLevel) := by
    omega
  simp only [ConfigurationRange.climb]
  rw [if_neg (show (levelClimb config zero level).digestLevel ≠ config.digestLevels from notLast),
    effectiveInterval_levelClimb positive level]
  simp only [levelClimb, checkedAdd_of_lt levelFits, Option.bind_eq_bind, Option.bind_some, checkedMul_of_lt nextStepFits,
    checkedMul_of_lt nextIntervalFits, ← pow_succ, ← pow_succ',
    checkedSub_of_le (show 1 ≤ zero + 2 * config.digestInterval ^ config.maxLevel by omega),
    checkedSub_of_le (show zero ≤ zero + 2 * config.digestInterval ^ config.maxLevel - 1 by omega),
    show zero + 2 * config.digestInterval ^ config.maxLevel - 1 - zero = 2 * config.digestInterval ^ config.maxLevel - 1 by
      omega,
    checkedDiv_of_pos _ (pow_pos positive (level + 1)), checkedMul_of_lt offsetFits, offset,
    checkedAdd_of_lt (show zero + (2 * config.digestInterval ^ config.maxLevel - config.digestInterval ^ (level + 1)) <
      2 ^ bits by omega),
    checkedAdd_of_lt (show zero + (2 * config.digestInterval ^ config.maxLevel - config.digestInterval ^ (level + 1)) +
      config.digestInterval ^ (level + 1) < 2 ^ bits by omega),
    ends, ConfigurationRange.skewedDigest, Option.pure_def, gt_iff_lt, Nat.lt_irrefl, if_false, if_neg notCovering,
    Nat.add_eq_zero_iff, one_ne_zero, and_false]

/-- At `maxLevel` the next step, `d ^ (maxLevel + 1)`, overflows `u32`. -/
theorem climb_levelClimb_maxLevel (above : config.maxLevel < config.digestLevels) (max begin endBlock fuel : Nat) :
    ConfigurationRange.climb bits ⟨config, zero, none⟩ max begin endBlock (fuel + 1) (levelClimb config zero config.maxLevel) =
      none := by
  have levelFits : config.maxLevel + 1 < 2 ^ 32 := lt_of_le_of_lt (by omega) config.levelsFits
  have overflows : 2 ^ 32 ≤ config.digestInterval ^ config.maxLevel * config.digestInterval := by
    rw [← pow_succ]
    exact config.pow_ge_of_maxLevel_lt (Nat.lt_succ_self _) above
  simp only [ConfigurationRange.climb, levelClimb, if_neg (Nat.ne_of_lt above), checkedAdd_of_lt levelFits,
    checkedMul_of_le overflows, Option.bind_eq_bind, Option.bind_some, Option.bind_none]

/-- From any level up to `maxLevel`, the climb ends in the overflow. -/
theorem climb_levelClimb_overflows (spaced : 2 ≤ config.digestInterval) (above : config.maxLevel < config.digestLevels)
    (fits : zero + 2 * config.digestInterval ^ config.maxLevel < 2 ^ bits) :
    ∀ level, level ≤ config.maxLevel →
      ConfigurationRange.climb bits ⟨config, zero, none⟩ (zero + 2 * config.digestInterval ^ config.maxLevel) (zero + 1)
        (zero + 2 * config.digestInterval ^ config.maxLevel) (config.digestLevels - level) (levelClimb config zero level) =
        none := by
  intro level within
  -- the induction is on the levels left below maxLevel
  induction left : config.maxLevel - level generalizing level with
  | zero =>
    have atTop : level = config.maxLevel := by omega
    subst atTop
    rw [show config.digestLevels - config.maxLevel = config.digestLevels - config.maxLevel - 1 + 1 by omega]
    exact climb_levelClimb_maxLevel above _ _ _ _
  | succ left ih =>
    rw [show config.digestLevels - level = config.digestLevels - (level + 1) + 1 by omega,
      climb_levelClimb spaced above fits (by omega)]
    exact ih (level + 1) (by omega) (by omega)

theorem surface_iterator_panics_above_max_level (spaced : 2 ≤ config.digestInterval)
    (above : config.maxLevel < config.digestLevels) (fits : zero + 2 * config.digestInterval ^ config.maxLevel < 2 ^ bits) :
    surfaceIterator bits ⟨config, zero, none⟩ (zero + 2 * config.digestInterval ^ config.maxLevel) (zero + 1)
      (zero + 2 * config.digestInterval ^ config.maxLevel) = none := by
  have topAtLeast : 1 ≤ config.digestInterval ^ config.maxLevel := Nat.one_le_pow _ _ (by omega)
  have climbs := climb_levelClimb_overflows spaced above fits 0 (Nat.zero_le _)
  have started : levelClimb config zero 0 = ⟨0, 1, 0, zero + 2 * config.digestInterval ^ config.maxLevel, zero + 1⟩ := by
    simp [levelClimb]
  rw [Nat.sub_zero, started] at climbs
  have invalid : ¬ (zero + 2 * config.digestInterval ^ config.maxLevel > zero + 2 * config.digestInterval ^ config.maxLevel ∨
      zero + 1 > zero + 2 * config.digestInterval ^ config.maxLevel) := by omega
  have covered : ¬ (zero + 1 ≤ zero ∨ (none : Option Nat).any (zero + 2 * config.digestInterval ^ config.maxLevel > ·)) := by
    simp
  simp only [surfaceIterator, lowerBoundMaxDigest, if_neg invalid, if_neg covered,
    if_pos (show zero + 1 ≠ zero + 2 * config.digestInterval ^ config.maxLevel by omega), climbs, Option.bind_eq_bind,
    Option.bind_none]

theorem surface_iterator_panics_at_131072 :
    2 ≤ (⟨65536, 2, by decide, by decide⟩ : Configuration).digestInterval ∧
      (⟨65536, 2, by decide, by decide⟩ : Configuration).maxLevel < (⟨65536, 2, by decide, by decide⟩ : Configuration).digestLevels ∧
      0 + 2 * (⟨65536, 2, by decide, by decide⟩ : Configuration).digestInterval ^
        (⟨65536, 2, by decide, by decide⟩ : Configuration).maxLevel < 2 ^ 64 ∧
      surfaceIterator 64 ⟨⟨65536, 2, by decide, by decide⟩, 0, none⟩
        (0 + 2 * 65536 ^ (⟨65536, 2, by decide, by decide⟩ : Configuration).maxLevel) (0 + 1)
        (0 + 2 * 65536 ^ (⟨65536, 2, by decide, by decide⟩ : Configuration).maxLevel) = none :=
  ⟨by decide, by decide, by decide, surface_iterator_panics_above_max_level (by decide) (by decide) (by decide)⟩

end Overflow

end OffchainStorage.ChangesTrie
