import Mathlib
import OffchainStorage.Lib.RustInt

/-!
# The search for a common ancestor

Before downloading from a peer, `ChainSync` looks for the highest block both
chains agree on.  It asks the peer for block hashes, starting at a block `b`,
and `handle_ancestor_search_state` turns each answer into the next block to
ask for.  The search first backs off exponentially, asking for `b`, `b - 1`,
`b - 3`, `b - 7`, … (saturating at zero); at the first block whose hash
matches it searches the window between that block and the last mismatch by
bisection, with the right end rebuilt as `left + distance / 2`.

Against a peer that agrees with us on the blocks up to `c ≤ b` and on none
above, the backoff keeps that the last mismatch lies above `c`
(`ancestorSearch_backoff`), and the bisection that its window, a power of
two wide, has its left end at or below `c` and its right end above
(`ancestorSearch_binary`).  The search then ends after at most
`2 * log b + 3` requests, all for blocks up to `b`, and the last block it
asks for is `c`.

The block number is an unsigned type of `bits` bits.  Each mismatch doubles
the distance, and the doubling overflows once the distance reaches half the
range: for `b` below half the range it never does, and from `2 ^ bits - 1`
against a peer that shares only the genesis block it panics
(`ancestor_search_overflows_doubling`).
-/

namespace OffchainStorage.Sync

/-- `AncestorSearchState`. -/
inductive AncestorSearchState where
  | ExponentialBackoff (nextDistanceToTip : Nat)
  | BinarySearch (left right : Nat)
  deriving DecidableEq, Repr

/-- `handle_ancestor_search_state(state, curr_block_num, block_hash_match)` for
block numbers of `bits` bits: `none` is a panic, `some none` the end of the
search, and otherwise the next state and the next block to ask for. -/
def handleAncestorSearchState (bits : Nat) (state : AncestorSearchState) (currBlockNum : Nat)
    (blockHashMatch : Bool) : Option (Option (AncestorSearchState × Nat)) :=
  match state with
  | .ExponentialBackoff nextDistanceToTip =>
    if blockHashMatch && nextDistanceToTip == 1 then some none
    else if blockHashMatch then do
      let left := currBlockNum
      let right ← RustInt.checkedAdd bits left (nextDistanceToTip / 2)
      let middle ← RustInt.checkedAdd bits left ((right - left) / 2)
      pure (some (.BinarySearch left right, middle))
    else do
      let nextBlockNum := (RustInt.checkedSub currBlockNum nextDistanceToTip).getD 0
      let nextDistanceToTip ← RustInt.checkedMul bits nextDistanceToTip 2
      pure (some (.ExponentialBackoff nextDistanceToTip, nextBlockNum))
  | .BinarySearch left right =>
    if currBlockNum ≤ left then some none
    else
      let left' := if blockHashMatch then currBlockNum else left
      let right' := if blockHashMatch then right else currBlockNum
      -- `assert!(right >= left)`
      if left' ≤ right' then do
        let middle ← RustInt.checkedAdd bits left' ((right' - left') / 2)
        pure (some (.BinarySearch left' right', middle))
      else none

/-- The ancestor search of `ChainSync::on_block_data`: from `state`, ask the
peer for block `num`, learn from `agrees` whether its hash is ours, and hand
both to `handle_ancestor_search_state`, for at most `fuel` requests.  The
blocks asked for, and whether the search ended. -/
def ancestorSearch (bits : Nat) (agrees : Nat → Bool) :
    Nat → AncestorSearchState → Nat → Option (List Nat × Bool)
  | 0, _, _ => some ([], false)
  | fuel + 1, state, num =>
    match handleAncestorSearchState bits state num (agrees num) with
    | none => none
    | some none => some ([num], true)
    | some (some (nextState, nextNum)) =>
      (ancestorSearch bits agrees fuel nextState nextNum).map fun run => (num :: run.1, run.2)

variable {bits : Nat}

/-! ## One answer -/

theorem handle_backoff_found (currBlockNum : Nat) :
    handleAncestorSearchState bits (.ExponentialBackoff 1) currBlockNum true = some none :=
  rfl

/-- A match after a mismatch starts the bisection between the match and the
block asked for before it. -/
theorem handle_backoff_match {distance currBlockNum : Nat} (wide : distance ≠ 1)
    (fits : currBlockNum + distance / 2 < 2 ^ bits) :
    handleAncestorSearchState bits (.ExponentialBackoff distance) currBlockNum true =
      some (some (.BinarySearch currBlockNum (currBlockNum + distance / 2), currBlockNum + distance / 2 / 2)) := by
  have middleFits : currBlockNum + distance / 2 / 2 < 2 ^ bits := by omega
  simp [handleAncestorSearchState, wide, RustInt.checkedAdd_of_lt fits, RustInt.checkedAdd_of_lt middleFits]

/-- A mismatch steps back by the distance, saturating at zero, and doubles it. -/
theorem handle_backoff_mismatch {distance : Nat} (currBlockNum : Nat) (fits : distance * 2 < 2 ^ bits) :
    handleAncestorSearchState bits (.ExponentialBackoff distance) currBlockNum false =
      some (some (.ExponentialBackoff (distance * 2), currBlockNum - distance)) := by
  simp [handleAncestorSearchState, RustInt.checkedSub_getD_zero, RustInt.checkedMul_of_lt fits]

/-- The bisection ends when the middle falls on the left end. -/
theorem handle_binary_done {left right currBlockNum : Nat} (blockHashMatch : Bool)
    (reached : currBlockNum ≤ left) :
    handleAncestorSearchState bits (.BinarySearch left right) currBlockNum blockHashMatch = some none := by
  simp [handleAncestorSearchState, reached]

/-- Otherwise a match moves the left end to the middle, and the next block
asked for is the new middle. -/
theorem handle_binary_match {left right currBlockNum : Nat} (above : left < currBlockNum)
    (below : currBlockNum ≤ right) (fits : right < 2 ^ bits) :
    handleAncestorSearchState bits (.BinarySearch left right) currBlockNum true =
      some (some (.BinarySearch currBlockNum right, currBlockNum + (right - currBlockNum) / 2)) := by
  have middleFits : currBlockNum + (right - currBlockNum) / 2 < 2 ^ bits := by omega
  simp [handleAncestorSearchState, Nat.not_le.mpr above, below, RustInt.checkedAdd_of_lt middleFits]

/-- A mismatch moves the right end to the middle. -/
theorem handle_binary_mismatch {left currBlockNum : Nat} (right : Nat) (above : left < currBlockNum)
    (fits : currBlockNum < 2 ^ bits) :
    handleAncestorSearchState bits (.BinarySearch left right) currBlockNum false =
      some (some (.BinarySearch left currBlockNum, left + (currBlockNum - left) / 2)) := by
  have middleFits : left + (currBlockNum - left) / 2 < 2 ^ bits := by omega
  simp [handleAncestorSearchState, Nat.not_le.mpr above, Nat.le_of_lt above, RustInt.checkedAdd_of_lt middleFits]

/-! ## Runs -/

section Runs

variable {agrees : Nat → Bool} {fuel : Nat} {state : AncestorSearchState} {num : Nat}

theorem ancestorSearch_succ_done {blockHashMatch : Bool} (answer : agrees num = blockHashMatch)
    (handled : handleAncestorSearchState bits state num blockHashMatch = some none) :
    ancestorSearch bits agrees (fuel + 1) state num = some ([num], true) := by
  rw [ancestorSearch, answer, handled]

theorem ancestorSearch_succ_next {blockHashMatch : Bool} {nextState : AncestorSearchState} {nextNum : Nat}
    (answer : agrees num = blockHashMatch)
    (handled : handleAncestorSearchState bits state num blockHashMatch = some (some (nextState, nextNum))) :
    ancestorSearch bits agrees (fuel + 1) state num =
      (ancestorSearch bits agrees fuel nextState nextNum).map fun run => (num :: run.1, run.2) := by
  rw [ancestorSearch, answer, handled]

/-- Each unit of fuel is one request. -/
theorem length_le_of_ancestorSearch {queries : List Nat} {ended : Bool}
    (ran : ancestorSearch bits agrees fuel state num = some (queries, ended)) : queries.length ≤ fuel := by
  induction fuel generalizing state num queries with
  | zero =>
    cases ran
    exact Nat.le_refl 0
  | succ fuel ih =>
    cases handled : handleAncestorSearchState bits state num (agrees num) with
    | none => rw [ancestorSearch, handled] at ran; cases ran
    | some result =>
      cases result with
      | none =>
        rw [ancestorSearch_succ_done rfl handled] at ran
        cases ran
        simp
      | some next =>
        rw [ancestorSearch_succ_next rfl handled, Option.map_eq_some_iff] at ran
        obtain ⟨run, ranNext, rebuilt⟩ := ran
        cases rebuilt
        have shorter := ih ranNext
        simp only [List.length_cons]
        omega

end Runs

/-! ## Against a peer that agrees up to `c`

The peer's hash matches ours at block `n` exactly when `n ≤ c`. -/

section Common

variable {c : Nat}

/-- The bisection over a window `[left, left + 2 ^ m)` with `left ≤ c` below its
right end asks `m + 1` more times, within the window, and ends at `c`. -/
theorem ancestorSearch_binary (m fuel : Nat) {left right : Nat} (agreed : left ≤ c) (disagreed : c < right)
    (gap : right = left + 2 ^ m) (fits : right < 2 ^ bits) (enough : m + 1 ≤ fuel) :
    ∃ queries, ancestorSearch bits (fun n => decide (n ≤ c)) fuel (.BinarySearch left right) (left + 2 ^ m / 2) =
        some (queries, true) ∧ (∀ n ∈ queries, left ≤ n ∧ n < right) ∧ c ∈ queries := by
  obtain ⟨fuel, rfl⟩ : ∃ rest, fuel = rest + 1 := ⟨fuel - 1, by omega⟩
  induction m generalizing left right fuel with
  | zero =>
    -- the window holds `left` alone, which is then `c`, asked for once more
    have middle : left + 2 ^ 0 / 2 = left := by simp
    have found : c = left := by rw [pow_zero] at gap; omega
    refine ⟨[left], ?_, ?_, ?_⟩
    · rw [middle, ancestorSearch_succ_done rfl (handle_binary_done _ (Nat.le_refl left))]
    · intro n member
      rw [List.mem_singleton.mp member]
      omega
    · rw [found]
      exact List.mem_singleton_self left
  | succ m ih =>
    have half : 2 ^ (m + 1) / 2 = 2 ^ m := by rw [pow_succ, Nat.mul_div_cancel _ (by decide)]
    have doubled : 2 ^ (m + 1) = 2 ^ m + 2 ^ m := by rw [pow_succ, Nat.mul_two]
    have positive : 0 < 2 ^ m := Nat.two_pow_pos m
    obtain ⟨fuel, rfl⟩ : ∃ rest, fuel = rest + 1 := ⟨fuel - 1, by omega⟩
    rw [half]
    rcases Nat.lt_or_ge c (left + 2 ^ m) with disagree | agree
    · -- the middle is above `c`: it becomes the right end
      have step := handle_binary_mismatch right (by omega : left < left + 2 ^ m)
        (by omega : left + 2 ^ m < 2 ^ bits)
      obtain ⟨queries, ran, within, found⟩ :=
        ih agreed disagree rfl (by omega) fuel (by omega)
      refine ⟨(left + 2 ^ m) :: queries, ?_, ?_, List.mem_cons_of_mem _ found⟩
      · rw [ancestorSearch_succ_next (decide_eq_false (Nat.not_le.mpr disagree)) step]
        simp [ran]
      · intro n member
        rcases List.mem_cons.mp member with here | later
        · omega
        · have := within n later
          omega
    · -- the middle is at or below `c`: it becomes the left end
      have step := handle_binary_match (by omega : left < left + 2 ^ m)
        (by omega : left + 2 ^ m ≤ right) fits
      obtain ⟨queries, ran, within, found⟩ :=
        ih agree disagreed (by omega) fits fuel (by omega)
      refine ⟨(left + 2 ^ m) :: queries, ?_, ?_, List.mem_cons_of_mem _ found⟩
      · rw [ancestorSearch_succ_next (decide_eq_true agree) step]
        have rest : right - (left + 2 ^ m) = 2 ^ m := by omega
        simp [rest, ran]
      · intro n member
        rcases List.mem_cons.mp member with here | later
        · omega
        · have := within n later
          omega

variable {b : Nat}

/-- The backoff at distance `2 ^ k`, asking for `b + 1 - 2 ^ k` after a
mismatch at `b + 1 - 2 ^ (k - 1)`, ends the search within the fuel left. -/
theorem ancestorSearch_backoff (common : c ≤ b) (withinRange : b < 2 ^ (bits - 1)) (fuel k num : Nat)
    (asked : num = b + 1 - 2 ^ k) (mismatched : 0 < k → c < b + 1 - 2 ^ (k - 1))
    (enough : 2 * Nat.log 2 b + 3 ≤ fuel + k) :
    ∃ queries, ancestorSearch bits (fun n => decide (n ≤ c)) fuel (.ExponentialBackoff (2 ^ k)) num =
        some (queries, true) ∧ (∀ n ∈ queries, n ≤ b) ∧ c ∈ queries := by
  -- a mismatch at distance `2 ^ (k - 1)` puts that distance within `b`
  have logged : 0 < k → k - 1 ≤ Nat.log 2 b := fun positive =>
    Nat.le_log_of_pow_le (by decide) (by have := mismatched positive; omega)
  have atLeastOne : 1 ≤ 2 ^ k := Nat.one_le_two_pow
  have blockFits : b < 2 ^ bits := Nat.lt_of_lt_of_le withinRange (Nat.pow_le_pow_right (by decide) (Nat.sub_le bits 1))
  induction fuel generalizing k num with
  | zero =>
    rcases Nat.eq_zero_or_pos k with zero | positive
    · omega
    · have := logged positive
      omega
  | succ fuel ih =>
    rcases Nat.lt_or_ge c num with disagree | agree
    · -- the block is above `c`: step back by `2 ^ k` and double the distance
      have distanceWithin : 2 ^ k ≤ b := by omega
      have doubledFits : 2 ^ k * 2 < 2 ^ bits := by
        cases bits with
        | zero => simp at withinRange; omega
        | succ bits =>
          rw [pow_succ]
          simp only [Nat.add_sub_cancel] at withinRange
          omega
      have step := handle_backoff_mismatch num doubledFits
      rw [← pow_succ] at step
      have doubled : 2 ^ (k + 1) = 2 ^ k * 2 := pow_succ 2 k
      obtain ⟨queries, ran, within, found⟩ :=
        ih (k + 1) (num - 2 ^ k) (by omega) (fun _ => by rw [Nat.add_sub_cancel, ← asked]; exact disagree) (by omega)
        (fun _ => Nat.le_log_of_pow_le (by decide) (by simpa using distanceWithin)) (Nat.one_le_two_pow)
      refine ⟨num :: queries, ?_, ?_, List.mem_cons_of_mem _ found⟩
      · rw [ancestorSearch_succ_next (decide_eq_false (Nat.not_le.mpr disagree)) step, ran]
        rfl
      · intro n member
        rcases List.mem_cons.mp member with here | later
        · omega
        · exact within n later
    · cases k with
      | zero =>
        -- the first block asked for matches: it is `b`, and so is `c`
        rw [pow_zero]
        refine ⟨[num], ancestorSearch_succ_done (decide_eq_true agree) (handle_backoff_found num), ?_, ?_⟩
        · intro n member
          rw [List.mem_singleton.mp member]
          omega
        · rw [show c = num by simp at asked; omega]
          exact List.mem_singleton_self num
      | succ k =>
        -- a match after a mismatch: bisect between it and the block before
        have half : 2 ^ (k + 1) / 2 = 2 ^ k := by rw [pow_succ, Nat.mul_div_cancel _ (by decide)]
        have doubled : 2 ^ (k + 1) = 2 ^ k + 2 ^ k := by rw [pow_succ, Nat.mul_two]
        have previous := mismatched (Nat.succ_pos k)
        simp only [Nat.add_sub_cancel] at previous
        have rightWithin : num + 2 ^ k ≤ b := by omega
        have wide : 2 ^ (k + 1) ≠ 1 := by omega
        have step := handle_backoff_match wide (by omega : num + 2 ^ (k + 1) / 2 < 2 ^ bits)
        rw [half] at step
        have logK := logged (Nat.succ_pos k)
        simp only [Nat.add_sub_cancel] at logK
        have rightFits : num + 2 ^ k < 2 ^ bits := by omega
        obtain ⟨queries, ran, within, found⟩ :=
          ancestorSearch_binary (c := c) k fuel agree (by omega) rfl rightFits (by omega)
        refine ⟨num :: queries, ?_, ?_, List.mem_cons_of_mem _ found⟩
        · rw [ancestorSearch_succ_next (decide_eq_true agree) step, ran]
          rfl
        · intro n member
          rcases List.mem_cons.mp member with here | later
          · omega
          · have := within n later
            omega

end Common

theorem ancestor_search_finds_common_block {b c : Nat} (withinRange : b < 2 ^ (bits - 1)) (common : c ≤ b) :
    ∃ queries, ancestorSearch bits (fun n => decide (n ≤ c)) (2 * Nat.log 2 b + 3) (.ExponentialBackoff 1) b =
        some (queries, true) ∧ queries.length ≤ 2 * Nat.log 2 b + 3 ∧ (∀ n ∈ queries, n ≤ b) ∧
      (queries.filter fun n => decide (n ≤ c)).max? = some c := by
  obtain ⟨queries, ran, within, found⟩ :=
    ancestorSearch_backoff common withinRange (2 * Nat.log 2 b + 3) 0 b (by simp) (by omega) (by omega)
  rw [pow_zero] at ran
  refine ⟨queries, ran, length_le_of_ancestorSearch ran, within, ?_⟩
  rw [List.max?_eq_some_iff]
  constructor
  · exact List.mem_filter.mpr ⟨found, decide_eq_true (Nat.le_refl c)⟩
  · intro n member
    exact of_decide_eq_true (List.mem_filter.mp member).2

theorem ancestor_search_from_thousand :
    1000 < 2 ^ (32 - 1) ∧ 377 ≤ 1000 ∧
      ∃ queries, ancestorSearch 32 (fun n => decide (n ≤ 377)) (2 * Nat.log 2 1000 + 3) (.ExponentialBackoff 1) 1000 =
          some (queries, true) ∧ queries.length ≤ 2 * Nat.log 2 1000 + 3 ∧ (∀ n ∈ queries, n ≤ 1000) ∧
        (queries.filter fun n => decide (n ≤ 377)).max? = some 377 :=
  ⟨by decide, by decide, ancestor_search_finds_common_block (by decide) (by decide)⟩

/-- From the highest `u32` block against a peer that shares only the genesis
block, the 32nd mismatch doubles the distance `2 ^ 31` past the type, whatever
the fuel. -/
theorem ancestor_search_overflows_doubling (fuel : Nat) :
    ancestorSearch 32 (fun n => decide (n ≤ 0)) (fuel + 32) (.ExponentialBackoff 1) (2 ^ 32 - 1) = none := by
  rfl

theorem ancestor_search_overflows_from_top :
    ancestorSearch 32 (fun n => decide (n ≤ 0)) 32 (.ExponentialBackoff 1) (2 ^ 32 - 1) = none := by
  rfl

end OffchainStorage.Sync
