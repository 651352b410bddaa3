import Mathlib
import OffchainStorage.Lib.Tiling
import OffchainStorage.ChangesTrie.Configuration

/-!
# The digest build iterator

A digest of level `L` at block `b` summarises the blocks `(b - d ^ L, b)`.
`digest_build_iterator` lists the blocks it reads: the `d - 1` level `L - 1`
digests before `b`, then from the last of them the level `L - 2` digests, and
so on down to the single blocks.  With a configuration end `e` below `b` (a
skewed digest) each level stops below `e` and the next one goes on from the
last block returned.

The iterator is modelled pass by pass (`DigestBuildIterator.pass`), and its
blocks are the levels of `levelBlocks` (`blocks_levelState`).  Each returned
block summarises `(r - d ^ l, r]` for its own digest level `l`, and these
tile `(b - d ^ L, min b e)` whenever the first block of the top level lies
below `e` (`digest_build_iterator_tiles`).  A skewed digest does not read a
subset of the blocks of the digest that is not skewed: below the end it goes
on with smaller digests (`skewed_digest_reads_other_blocks`).
-/

namespace OffchainStorage.ChangesTrie

open RustInt Tiling

/-- `BlocksRange`: the blocks from `current` below `rangeEnd`, `step` apart. -/
structure BlocksRange where
  current : Nat
  rangeEnd : Nat
  step : Nat
  deriving DecidableEq, Repr

def BlocksRange.next (range : BlocksRange) : Option Nat × BlocksRange :=
  if range.current ≥ range.rangeEnd then (none, range)
  else (some range.current, { range with current := range.current + range.step })

/-- `DigestBuildIterator`; `endBlock` is its `end`. -/
structure DigestBuildIterator where
  block : Nat
  endBlock : Nat
  digestInterval : Nat
  maxStep : Nat
  currentStep : Nat
  currentStepReverse : Nat
  currentRange : Option BlocksRange
  lastBlock : Option Nat
  deriving DecidableEq, Repr

namespace DigestBuildIterator

def new (block endBlock digestInterval maxStep : Nat) : DigestBuildIterator :=
  ⟨block, endBlock, digestInterval, maxStep, maxStep, 0, none, none⟩

def empty : DigestBuildIterator :=
  new 0 0 0 0

/-- How one pass of the loop of `next` ends. -/
inductive Pass where
  | yield (block : Nat) (iterator : DigestBuildIterator)
  | finish (iterator : DigestBuildIterator)
  | again (iterator : DigestBuildIterator)

/-- The part of the loop of `next` after the current range: the next step,
and the range of the next level from the last block returned; `none` is a
panic of the `u32` arithmetic. -/
def advance (iterator : DigestBuildIterator) : Option Pass := do
  let nextStepReverse ← if iterator.currentStepReverse = 0 then some 1
    else checkedMul 32 iterator.currentStepReverse iterator.digestInterval
  if nextStepReverse > iterator.maxStep then
    return .finish iterator
  let first ← match iterator.lastBlock with
    | some lastBlock => some (lastBlock + iterator.currentStep)
    | none => do
      let width ← checkedMul 32 iterator.currentStep iterator.digestInterval
      let back ← checkedSub width iterator.currentStep
      checkedSub iterator.block back
  let currentStep ← checkedDiv iterator.currentStep iterator.digestInterval
  return .again { iterator with
    currentStepReverse := nextStepReverse
    currentRange := some ⟨first, iterator.block, iterator.currentStep⟩
    currentStep := if currentStep = 0 then 1 else currentStep }

/-- One pass of the loop of `next`. -/
def pass (iterator : DigestBuildIterator) : Option Pass :=
  match iterator.currentRange.map BlocksRange.next with
  | some (some next, range) =>
    if next < iterator.endBlock then some (.yield next { iterator with currentRange := some range, lastBlock := some next })
    else advance { iterator with currentRange := some range }
  | some (none, range) => advance { iterator with currentRange := some range }
  | none => advance iterator

/-- `collect()`: the passes of `next` one after the other, each block it
returns kept, until it returns `None`; `none` is a panic, or too little fuel. -/
def blocks : Nat → DigestBuildIterator → Option (List Nat)
  | 0, _ => none
  | fuel + 1, iterator =>
    match iterator.pass with
    | some (.yield block next) => (blocks fuel next).map (block :: ·)
    | some (.finish _) => some []
    | some (.again next) => blocks fuel next
    | none => none

end DigestBuildIterator

/-- `digest_build_iterator(config, block)` for the configuration range from
`zero` to `configEnd`. -/
def digestBuildIterator (config : Configuration) (zero : Nat) (configEnd : Option Nat) (block : Nat) :
    DigestBuildIterator :=
  match config.digestLevelAtBlock zero block with
  | some (_, _, digestStep) => .new block (configEnd.getD block) config.digestInterval digestStep
  | none => .empty

/-- The blocks a block reads in a digest: the blocks of its own digest when it
is a digest block, itself when it is not. -/
def summarised (config : Configuration) (zero block : Nat) : Nat :=
  match config.digestLevelAtBlock zero block with
  | some (_, interval, _) => interval
  | none => 1

/-! ## The blocks level by level -/

/-- The blocks `anchor + step, anchor + 2 * step, …` below `stop`. -/
def progression (anchor step stop : Nat) : List Nat :=
  (List.range ((stop - 1 - anchor) / step)).map fun k => anchor + (k + 1) * step

/-- The blocks of the levels `level` down to `0` from `anchor`: those of each
level `d ^ level` apart below `stop`, and the next level from the last. -/
def levelBlocks (d stop : Nat) : Nat → Nat → List Nat
  | 0, anchor => progression anchor 1 stop
  | level + 1, anchor =>
    progression anchor (d ^ (level + 1)) stop ++
      levelBlocks d stop level (anchor + (stop - 1 - anchor) / d ^ (level + 1) * d ^ (level + 1))

section Progression

variable {anchor step stop : Nat}

theorem count_succ (positive : 0 < step) (below : anchor + step < stop) :
    (stop - 1 - anchor) / step = (stop - 1 - (anchor + step)) / step + 1 := by
  rw [← Nat.add_div_right _ positive]
  congr 1
  omega

theorem progression_cons (positive : 0 < step) (below : anchor + step < stop) :
    progression anchor step stop = (anchor + step) :: progression (anchor + step) step stop := by
  rw [progression, progression, count_succ positive below, List.range_succ_eq_map, List.map_cons, List.map_map]
  congr 1
  · ring
  · apply List.map_congr_left
    intro k _
    simp only [Function.comp, Nat.succ_eq_add_one]
    ring

theorem progression_nil (reached : stop ≤ anchor + step) : progression anchor step stop = [] := by
  have none : (stop - 1 - anchor) / step = 0 := by
    rcases Nat.eq_zero_or_pos step with zero | positive
    · simp [zero]
    · exact Nat.div_eq_of_lt (by omega)
  simp [progression, none]

end Progression

section Levels

variable {d stop : Nat}

theorem levelBlocks_cons (positive : 0 < d) {level anchor : Nat} (below : anchor + d ^ level < stop) :
    levelBlocks d stop level anchor = (anchor + d ^ level) :: levelBlocks d stop level (anchor + d ^ level) := by
  cases level with
  | zero =>
    rw [pow_zero] at below ⊢
    exact progression_cons Nat.one_pos below
  | succ level =>
    have stepPositive := pow_pos positive (level + 1)
    rw [levelBlocks, levelBlocks, progression_cons stepPositive below, List.cons_append, count_succ stepPositive below,
      Nat.add_mul, Nat.one_mul, Nat.add_right_comm anchor, Nat.add_assoc]

theorem levelBlocks_descend {level anchor : Nat} (reached : stop ≤ anchor + d ^ (level + 1)) :
    levelBlocks d stop (level + 1) anchor = levelBlocks d stop level anchor := by
  have none : (stop - 1 - anchor) / d ^ (level + 1) = 0 := by
    rcases Nat.eq_zero_or_pos (d ^ (level + 1)) with zero | positive
    · simp [zero]
    · exact Nat.div_eq_of_lt (by omega)
  rw [levelBlocks, progression_nil reached, none, Nat.zero_mul, Nat.add_zero, List.nil_append]

theorem levelBlocks_zero_nil {anchor : Nat} (reached : stop ≤ anchor + 1) : levelBlocks d stop 0 anchor = [] :=
  progression_nil reached

end Levels

/-! ## The levels tile the digest -/

theorem not_dvd_of_lt_add {step base x : Nat} (divides : step ∣ base) (above : base < x) (below : x < base + step) :
    ¬ step ∣ x := by
  intro dividesX
  have difference : step ∣ x - base := Nat.dvd_sub dividesX divides
  have := Nat.eq_zero_of_dvd_of_lt difference (by omega)
  omega

section Tiling

variable {d stop zero : Nat} {width : Nat → Nat}

/-- Within a level, each block covers the `d ^ level` blocks up to it, as long
as no block of the level above lies in between. -/
theorem levelBlocks_tiles_level (positive : 0 < d) {level : Nat}
    (widthHere : ∀ block, zero < block → d ^ level ∣ block - zero → ¬ d ^ (level + 1) ∣ block - zero →
      width block = d ^ level)
    (descends : ∀ anchor, zero ≤ anchor → anchor < stop → stop ≤ anchor + d ^ level → d ^ level ∣ anchor - zero →
      (∀ x, anchor < x → x < stop → ¬ d ^ (level + 1) ∣ x - zero) →
      Tiles width anchor (stop - 1) (levelBlocks d stop level anchor))
    (anchor : Nat) (atLeast : zero ≤ anchor) (before : anchor < stop) (divides : d ^ level ∣ anchor - zero)
    (gap : ∀ x, anchor < x → x < stop → ¬ d ^ (level + 1) ∣ x - zero) :
    Tiles width anchor (stop - 1) (levelBlocks d stop level anchor) := by
  induction distance : stop - anchor using Nat.strong_induction_on generalizing anchor with
  | _ distance ih =>
    by_cases below : anchor + d ^ level < stop
    · have stepPositive := pow_pos positive level
      have shifted : anchor + d ^ level - zero = anchor - zero + d ^ level := by omega
      have nextDivides : d ^ level ∣ anchor + d ^ level - zero := by
        rw [shifted]
        exact Nat.dvd_add divides (Nat.dvd_refl _)
      have nextWidth : width (anchor + d ^ level) = d ^ level :=
        widthHere _ (by omega) nextDivides (gap _ (by omega) below)
      rw [levelBlocks_cons positive below, tiles_cons, nextWidth]
      refine ⟨stepPositive, rfl, ?_⟩
      exact ih _ (by omega) (anchor + d ^ level) (by omega) below nextDivides
        (fun x above within => gap x (by omega) within) rfl
    · exact descends anchor atLeast before (by omega) divides gap

/-- The blocks of the levels from `level` down, each covering the blocks of
its own digest, tile the blocks after `anchor` below `stop`. -/
theorem levelBlocks_tiles (positive : 0 < d) (top : Nat)
    (levelWidth : ∀ level block, level ≤ top → zero < block → d ^ level ∣ block - zero →
      ¬ d ^ (level + 1) ∣ block - zero → width block = d ^ level) :
    ∀ level, level ≤ top → ∀ anchor, zero ≤ anchor → anchor < stop → d ^ level ∣ anchor - zero →
      (∀ x, anchor < x → x < stop → ¬ d ^ (level + 1) ∣ x - zero) →
      Tiles width anchor (stop - 1) (levelBlocks d stop level anchor) := by
  intro level
  induction level with
  | zero =>
    intro within
    apply levelBlocks_tiles_level positive (levelWidth 0 · within)
    intro anchor _ before reached _ _
    rw [pow_zero] at reached
    rw [levelBlocks_zero_nil reached, tiles_nil]
    omega
  | succ level ih =>
    intro within
    apply levelBlocks_tiles_level positive (levelWidth (level + 1) · within)
    intro anchor atLeast before reached divides _
    rw [levelBlocks_descend reached]
    -- the next level has no block of this level between the anchor and the end
    have lowerDivides : d ^ level ∣ anchor - zero := Nat.dvd_trans (Nat.pow_dvd_pow d (Nat.le_succ level)) divides
    exact ih (by omega) anchor atLeast before lowerDivides
      (fun x above below => not_dvd_of_lt_add divides (by omega) (by omega))

end Tiling

/-! ## The passes of the iterator -/

namespace DigestBuildIterator

/-- The iterator at `level` of a digest whose top level is `top`: the range of
the level goes on after `anchor`, and the steps are those of the level. -/
def levelState (block endBlock d top level anchor : Nat) (last : Option Nat) : DigestBuildIterator :=
  ⟨block, endBlock, d, d ^ top, if level = 0 then 1 else d ^ (level - 1), d ^ (top - level),
    some ⟨anchor + d ^ level, block, d ^ level⟩, last⟩

theorem nextStep_eq {d : Nat} (spaced : 2 ≤ d) (level : Nat) :
    (if d ^ level / d = 0 then 1 else d ^ level / d) = if level = 0 then 1 else d ^ (level - 1) := by
  cases level with
  | zero => simp [Nat.div_eq_of_lt (show 1 < d by omega)]
  | succ level =>
    have positive : d ^ level ≠ 0 := (pow_pos (show 0 < d by omega) level).ne'
    rw [pow_succ, Nat.mul_div_cancel _ (by omega), if_neg positive, if_neg (Nat.succ_ne_zero level),
      Nat.add_sub_cancel]

section Passes

variable {block endBlock d top : Nat}

theorem pass_yield {level anchor : Nat} {last : Option Nat} (below : anchor + d ^ level < min block endBlock) :
    (levelState block endBlock d top level anchor last).pass =
      some (.yield (anchor + d ^ level) (levelState block endBlock d top level (anchor + d ^ level) (some (anchor + d ^ level)))) := by
  rw [lt_min_iff] at below
  simp [pass, levelState, BlocksRange.next, below.2, Nat.not_le.mpr below.1]

/-- Below the top level, the next range starts one step of the level below
after the last block returned. -/
theorem advance_descend (spaced : 2 ≤ d) (fits : d ^ (top + 1) < 2 ^ 32) {level : Nat} (anchor last : Nat)
    (within : level + 1 ≤ top) (range : Option BlocksRange) :
    advance { levelState block endBlock d top (level + 1) anchor (some last) with currentRange := range } =
      some (.again (levelState block endBlock d top level last (some last))) := by
  have reverseFits : d ^ (top - (level + 1)) * d < 2 ^ 32 := by
    rw [← pow_succ]
    exact lt_of_le_of_lt (Nat.pow_le_pow_right (by omega) (by omega)) fits
  have reverse : d ^ (top - (level + 1)) * d = d ^ (top - level) := by
    rw [← pow_succ]
    congr 1
    omega
  have started : d ^ (top - (level + 1)) ≠ 0 := (pow_pos (show 0 < d by omega) _).ne'
  have notAbove : ¬ d ^ (top - level) > d ^ top := Nat.not_lt.mpr (Nat.pow_le_pow_right (by omega) (by omega))
  simp only [advance, levelState, if_neg started, checkedMul_of_lt reverseFits, reverse, Option.bind_eq_bind,
    Option.bind_some, if_neg notAbove, checkedDiv_of_pos _ (show 0 < d by omega), nextStep_eq spaced level,
    Nat.add_sub_cancel, Nat.add_eq_zero_iff, one_ne_zero, and_false, if_false]
  rfl

theorem pass_descend (spaced : 2 ≤ d) (fits : d ^ (top + 1) < 2 ^ 32) {level anchor last : Nat}
    (within : level + 1 ≤ top) (reached : min block endBlock ≤ anchor + d ^ (level + 1)) :
    (levelState block endBlock d top (level + 1) anchor (some last)).pass =
      some (.again (levelState block endBlock d top level last (some last))) := by
  by_cases inRange : anchor + d ^ (level + 1) < block
  · have atEnd : ¬ anchor + d ^ (level + 1) < endBlock := by omega
    simp only [pass, levelState, Option.map_some, BlocksRange.next, ge_iff_le, Nat.not_le.mpr inRange, if_false, atEnd]
    exact advance_descend spaced fits anchor last within _
  · simp only [pass, levelState, Option.map_some, BlocksRange.next, ge_iff_le, Nat.le_of_not_lt inRange, if_true]
    exact advance_descend spaced fits anchor last within _

/-- After the single blocks the reverse step passes the max step, and the
iterator is done. -/
theorem advance_finish (spaced : 2 ≤ d) (fits : d ^ (top + 1) < 2 ^ 32) (anchor : Nat) (last : Option Nat)
    (range : Option BlocksRange) :
    ∃ done, advance { levelState block endBlock d top 0 anchor last with currentRange := range } = some (.finish done) := by
  have reverseFits : d ^ top * d < 2 ^ 32 := by rwa [← pow_succ]
  have above : d ^ top * d > d ^ top := by
    rw [← pow_succ]
    exact Nat.pow_lt_pow_right (by omega) (Nat.lt_succ_self top)
  have started : d ^ top ≠ 0 := (pow_pos (show 0 < d by omega) top).ne'
  simp only [advance, levelState, Nat.sub_zero, if_neg started, checkedMul_of_lt reverseFits, Option.bind_eq_bind,
    Option.bind_some, if_pos above]
  exact ⟨_, rfl⟩

theorem pass_finish (spaced : 2 ≤ d) (fits : d ^ (top + 1) < 2 ^ 32) {anchor : Nat} {last : Option Nat}
    (reached : min block endBlock ≤ anchor + 1) :
    ∃ done, (levelState block endBlock d top 0 anchor last).pass = some (.finish done) := by
  by_cases inRange : anchor + 1 < block
  · have atEnd : ¬ anchor + 1 < endBlock := by omega
    simp only [pass, levelState, pow_zero, Option.map_some, BlocksRange.next, ge_iff_le, Nat.not_le.mpr inRange,
      if_false, atEnd]
    exact advance_finish spaced fits anchor last _
  · simp only [pass, levelState, pow_zero, Option.map_some, BlocksRange.next, ge_iff_le, Nat.le_of_not_lt inRange,
      if_true]
    exact advance_finish spaced fits anchor last _

/-- The first pass of a new iterator opens the top level one digest interval
before the block. -/
theorem pass_new (spaced : 2 ≤ d) (fits : d ^ (top + 1) < 2 ^ 32) (reaches : d ^ (top + 1) ≤ block) :
    (new block endBlock d (d ^ top)).pass =
      some (.again (levelState block endBlock d top top (block - d ^ (top + 1)) none)) := by
  have width : d ^ top * d < 2 ^ 32 := by rwa [← pow_succ]
  have stepBelow : d ^ top ≤ d ^ top * d := Nat.le_mul_of_pos_right _ (by omega)
  have first : block - (d ^ top * d - d ^ top) = block - d ^ (top + 1) + d ^ top := by
    rw [pow_succ] at reaches ⊢
    omega
  have notAbove : ¬ 1 > d ^ top := Nat.not_lt.mpr (pow_pos (show 0 < d by omega) top)
  simp only [pass, new, Option.map_none, advance, if_pos, checkedMul_of_lt width, checkedSub_of_le stepBelow,
    checkedSub_of_le (show d ^ top * d - d ^ top ≤ block by rw [pow_succ] at reaches; omega), Option.bind_eq_bind,
    Option.bind_some, if_neg notAbove, checkedDiv_of_pos _ (show 0 < d by omega), nextStep_eq spaced top, first,
    levelState, Nat.sub_self, pow_zero]
  rfl

end Passes

section Runs

variable {block endBlock d top : Nat}

/-- Within a level, each block of the level is one pass; the run then goes on
as it does from the last block, where the level is done. -/
theorem blocks_level (positive : 0 < d) {level : Nat}
    (descends : ∀ anchor fuel, min block endBlock ≤ anchor + d ^ level →
      blocks (fuel + (levelBlocks d (min block endBlock) level anchor).length + level + 1)
        (levelState block endBlock d top level anchor (some anchor)) = some (levelBlocks d (min block endBlock) level anchor))
    (anchor fuel : Nat) :
    blocks (fuel + (levelBlocks d (min block endBlock) level anchor).length + level + 1)
      (levelState block endBlock d top level anchor (some anchor)) = some (levelBlocks d (min block endBlock) level anchor) := by
  -- the blocks left in the level shrink with the distance to the end
  induction gap : min block endBlock - anchor using Nat.strong_induction_on generalizing anchor fuel with
  | _ gap ih =>
    by_cases below : anchor + d ^ level < min block endBlock
    · have stepPositive := pow_pos positive level
      have rest := ih (min block endBlock - (anchor + d ^ level)) (by omega) (anchor + d ^ level) fuel rfl
      rw [levelBlocks_cons positive below, List.length_cons,
        show fuel + ((levelBlocks d (min block endBlock) level (anchor + d ^ level)).length + 1) + level + 1 =
          fuel + (levelBlocks d (min block endBlock) level (anchor + d ^ level)).length + level + 1 + 1 by omega,
        blocks, pass_yield below]
      simp only [rest, Option.map_some]
    · exact descends anchor fuel (by omega)

/-- From a level down to the single blocks, the run returns the blocks of
`levelBlocks`, with one pass for each block and one for each level. -/
theorem blocks_levelState (spaced : 2 ≤ d) (fits : d ^ (top + 1) < 2 ^ 32) :
    ∀ level, level ≤ top → ∀ anchor fuel,
      blocks (fuel + (levelBlocks d (min block endBlock) level anchor).length + level + 1)
        (levelState block endBlock d top level anchor (some anchor)) = some (levelBlocks d (min block endBlock) level anchor) := by
  intro level
  induction level with
  | zero =>
    intro _
    apply blocks_level (by omega)
    intro anchor fuel reached
    rw [pow_zero] at reached
    obtain ⟨done, finished⟩ := pass_finish spaced fits reached
    rw [levelBlocks_zero_nil reached, List.length_nil, blocks, finished]
  | succ level ih =>
    intro within
    apply blocks_level (by omega)
    intro anchor fuel reached
    rw [levelBlocks_descend reached,
      show fuel + (levelBlocks d (min block endBlock) level anchor).length + (level + 1) + 1 =
        fuel + (levelBlocks d (min block endBlock) level anchor).length + level + 1 + 1 by omega,
      blocks, pass_descend spaced fits within reached]
    exact ih (by omega) anchor fuel

/-- A new iterator returns the blocks of `levelBlocks` from one digest interval
before the block, once its first block lies below the end. -/
theorem blocks_new (spaced : 2 ≤ d) (fits : d ^ (top + 1) < 2 ^ 32) (reaches : d ^ (top + 1) ≤ block)
    (first : block - d ^ (top + 1) + d ^ top < min block endBlock) (fuel : Nat) :
    blocks (fuel + (levelBlocks d (min block endBlock) top (block - d ^ (top + 1))).length + top + 2)
        (new block endBlock d (d ^ top)) =
      some (levelBlocks d (min block endBlock) top (block - d ^ (top + 1))) := by
  have run := @blocks_levelState block endBlock d top spaced fits top (Nat.le_refl top)
    (block - d ^ (top + 1) + d ^ top) fuel
  rw [levelBlocks_cons (by omega) first, List.length_cons,
    show fuel + ((levelBlocks d (min block endBlock) top (block - d ^ (top + 1) + d ^ top)).length + 1) + top + 2 =
      fuel + (levelBlocks d (min block endBlock) top (block - d ^ (top + 1) + d ^ top)).length + top + 1 + 1 + 1 by omega,
    blocks, pass_new spaced fits reaches]
  dsimp only
  rw [blocks, pass_yield first]
  simp only [run, Option.map_some]

end Runs

end DigestBuildIterator

/-! ## The blocks a digest reads -/

section Digest

variable {config : Configuration}

/-- A block `d ^ level` apart from `zero` but not `d ^ (level + 1)` apart
summarises the `d ^ level` blocks up to it. -/
theorem summarised_eq (enabled : config.isDigestBuildEnabled = true) {zero block level : Nat} (after : zero < block)
    (within : level ≤ config.maxLevel) (divides : config.digestInterval ^ level ∣ block - zero)
    (stops : ¬ config.digestInterval ^ (level + 1) ∣ block - zero) :
    summarised config zero block = config.digestInterval ^ level := by
  unfold summarised
  rw [config.digestLevelAtBlock_eq enabled after]
  cases level with
  | zero =>
    rw [if_neg (by simpa using stops), pow_zero]
  | succ level =>
    have first : config.digestInterval ∣ block - zero :=
      Nat.dvd_trans (dvd_pow_self _ (Nat.succ_ne_zero level)) divides
    rw [if_pos first, config.digestLevel_eq_of_not_dvd within divides (fun _ => stops)]

theorem digest_build_iterator_tiles (spaced : 2 ≤ config.digestInterval) (levels : 1 ≤ config.digestLevels)
    {zero block level interval step : Nat} (atBlock : config.digestLevelAtBlock zero block = some (level, interval, step))
    (configEnd : Option Nat) (reaches : block - interval + step < min block (configEnd.getD block)) :
    ∃ blocks, (∀ fuel, (digestBuildIterator config zero configEnd block).blocks (fuel + blocks.length + level + 1) =
        some blocks) ∧
      blocks.Pairwise (· < ·) ∧
      (∀ read ∈ blocks, zero < read ∧ block - interval < read ∧ read < min block (configEnd.getD block)) ∧
      (∀ x, block - interval < x ∧ x < min block (configEnd.getD block) ↔
        ∃ read ∈ blocks, Covers (summarised config zero) read x) ∧
      ∀ x, ∀ first ∈ blocks, ∀ second ∈ blocks,
        Covers (summarised config zero) first x → Covers (summarised config zero) second x → first = second := by
  have enabled := (config.isDigestBuildEnabled_iff).mpr ⟨spaced, levels⟩
  have after := config.zero_lt_of_digestLevelAtBlock atBlock
  have iterator : digestBuildIterator config zero configEnd block =
      .new block (configEnd.getD block) config.digestInterval step := by
    rw [digestBuildIterator, atBlock]
  -- read the level, interval and step off the digest schedule
  rw [config.digestLevelAtBlock_eq enabled after] at atBlock
  split at atBlock
  case isFalse => cases atBlock
  rename_i divides
  simp only [Option.some.injEq, Prod.mk.injEq] at atBlock
  obtain ⟨isLevel, isInterval, isStep⟩ := atBlock
  obtain ⟨atLeastOne, withinMax, topDivides, -⟩ := config.digestLevel_spec divides enabled
  rw [isLevel] at atLeastOne withinMax topDivides isInterval isStep
  obtain ⟨top, rfl⟩ : ∃ top, level = top + 1 := ⟨level - 1, by omega⟩
  rw [Nat.add_sub_cancel] at isStep
  subst isInterval isStep
  set d := config.digestInterval
  set stop := min block (configEnd.getD block)
  have fits : d ^ (top + 1) < 2 ^ 32 := config.pow_lt_of_le_maxLevel (by omega) withinMax
  have interval : d ^ (top + 1) ≤ block - zero := Nat.le_of_dvd (by omega) topDivides
  have anchorDivides : d ^ top ∣ block - d ^ (top + 1) - zero := by
    rw [Nat.sub_right_comm]
    exact Nat.dvd_trans (Nat.pow_dvd_pow d (Nat.le_succ top)) (Nat.dvd_sub topDivides (Nat.dvd_refl _))
  have tiled : Tiles (summarised config zero) (block - d ^ (top + 1)) (stop - 1)
      (levelBlocks d stop top (block - d ^ (top + 1))) := by
    refine levelBlocks_tiles (by omega) top ?_ top (Nat.le_refl top) _ (by omega) (by omega) anchorDivides ?_
    · intro level read below readAfter readDivides readStops
      exact summarised_eq enabled readAfter (by omega) readDivides readStops
    · intro x above below
      have baseDivides : d ^ (top + 1) ∣ block - zero - d ^ (top + 1) := Nat.dvd_sub topDivides (Nat.dvd_refl _)
      exact not_dvd_of_lt_add baseDivides (by omega) (by omega)
  obtain ⟨-, within⟩ := Tiles.bounds tiled
  refine ⟨levelBlocks d stop top (block - d ^ (top + 1)), fun fuel => ?_, Tiles.sorted tiled, ?_, ?_,
    Tiles.unique tiled⟩
  · rw [iterator, show fuel + (levelBlocks d stop top (block - d ^ (top + 1))).length + (top + 1) + 1 =
      fuel + (levelBlocks d stop top (block - d ^ (top + 1))).length + top + 2 by omega]
    exact DigestBuildIterator.blocks_new spaced fits (by omega) reaches fuel
  · intro read member
    have := within read member
    omega
  · intro x
    rw [← Tiles.covers tiled x]
    omega

/-- The digest at block 4096 of sixteen-block intervals over three levels. -/
theorem digestLevelAtBlock_sixteen_4096 :
    (⟨16, 3, by decide, by decide⟩ : Configuration).digestLevelAtBlock 0 4096 = some (3, 4096, 256) := by
  rw [Configuration.digestLevelAtBlock_eq _ (by decide) (by decide), if_pos (by decide)]
  decide

theorem digest_build_iterator_tiles_at_4096 :
    2 ≤ (⟨16, 3, by decide, by decide⟩ : Configuration).digestInterval ∧
      1 ≤ (⟨16, 3, by decide, by decide⟩ : Configuration).digestLevels ∧
      (⟨16, 3, by decide, by decide⟩ : Configuration).digestLevelAtBlock 0 4096 = some (3, 4096, 256) ∧
      4096 - 4096 + 256 < min 4096 ((some 1338).getD 4096) ∧
      ∃ blocks, (∀ fuel, (digestBuildIterator ⟨16, 3, by decide, by decide⟩ 0 (some 1338) 4096).blocks
          (fuel + blocks.length + 3 + 1) = some blocks) ∧
        blocks.Pairwise (· < ·) ∧
        (∀ read ∈ blocks, 0 < read ∧ 4096 - 4096 < read ∧ read < min 4096 ((some 1338).getD 4096)) ∧
        (∀ x, 4096 - 4096 < x ∧ x < min 4096 ((some 1338).getD 4096) ↔
          ∃ read ∈ blocks, Covers (summarised ⟨16, 3, by decide, by decide⟩ 0) read x) ∧
        ∀ x, ∀ first ∈ blocks, ∀ second ∈ blocks, Covers (summarised ⟨16, 3, by decide, by decide⟩ 0) first x →
          Covers (summarised ⟨16, 3, by decide, by decide⟩ 0) second x → first = second :=
  ⟨by decide, by decide, digestLevelAtBlock_sixteen_4096, by decide,
    digest_build_iterator_tiles (by decide) (by decide) digestLevelAtBlock_sixteen_4096 (some 1338) (by decide)⟩

/-- The skewed digest at 4096 with the configuration ending at 1338 reads the
level one digests 1296, 1312 and 1328, which the digest that is not skewed
does not read: it is not the blocks of that digest below 1338. -/
theorem skewed_digest_reads_other_blocks :
    (digestBuildIterator ⟨16, 3, by decide, by decide⟩ 0 (some 1338) 4096).blocks 64 =
        some [256, 512, 768, 1024, 1280, 1296, 1312, 1328, 1329, 1330, 1331, 1332, 1333, 1334, 1335, 1336, 1337] ∧
      ∃ unskewed, (digestBuildIterator ⟨16, 3, by decide, by decide⟩ 0 none 4096).blocks 64 = some unskewed ∧
        1296 ∉ unskewed ∧ unskewed.filter (· < 1338) = [256, 512, 768, 1024, 1280] := by
  unfold digestBuildIterator
  rw [digestLevelAtBlock_sixteen_4096]
  refine ⟨by decide, [256, 512, 768, 1024, 1280, 1536, 1792, 2048, 2304, 2560, 2816, 3072, 3328, 3584, 3840,
    3856, 3872, 3888, 3904, 3920, 3936, 3952, 3968, 3984, 4000, 4016, 4032, 4048, 4064, 4080,
    4081, 4082, 4083, 4084, 4085, 4086, 4087, 4088, 4089, 4090, 4091, 4092, 4093, 4094, 4095], by decide, by decide,
    by decide⟩

end Digest

end OffchainStorage.ChangesTrie
