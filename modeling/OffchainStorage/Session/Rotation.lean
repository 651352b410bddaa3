import Mathlib
import OffchainStorage.Session.Keys
import OffchainStorage.Arithmetic.PerThing
import OffchainStorage.Lib.VecOps

/-!
# Session rotation

`rotate_session` activates the keys queued at the previous rotation and
queues the next set: the set `on_session_ending` returns, or the set just
activated when it returns `None`, each validator with its `NextKeys` entry.
`QueuedChanged` records whether the queued set differs from the activated
one, and the next rotation clears `DisabledValidators` when it does.  So the
disabled indices, which `disable_index` keeps sorted by inserting at the
index `binary_search` finds, always point into the current `Validators`.
-/

namespace OffchainStorage.Session

open Arithmetic RustInt

/-- The parameters of `T: Trait` the module reads. -/
structure Trait (AccountId ValidatorId KeyTypeId RawKey Proof : Type) where
  keyIds : List KeyTypeId
  validatorIdOf : AccountId → Option ValidatorId
  ownershipProofIsValid : Keys KeyTypeId RawKey → Proof → Bool
  defaultKeys : Keys KeyTypeId RawKey
  disabledValidatorsThreshold : PerThing PerThingType.perbill

/-- The storage of the module. -/
structure State (ValidatorId KeyTypeId RawKey : Type) where
  validators : List ValidatorId
  currentIndex : Nat
  queuedChanged : Bool
  queuedKeys : List (ValidatorId × Keys KeyTypeId RawKey)
  disabledValidators : List Nat
  keys : Storage ValidatorId KeyTypeId RawKey

variable {AccountId ValidatorId KeyTypeId RawKey Proof : Type} [DecidableEq ValidatorId]
  [DecidableEq KeyTypeId] [DecidableEq RawKey]

/-- The derived `PartialEq` of `T::Keys`: one field for each key type. -/
def keysEqual (keyIds : List KeyTypeId) (a b : Keys KeyTypeId RawKey) : Bool :=
  keyIds.all fun id => a.getRaw id == b.getRaw id

/-- The closure `check_next_changed`, called on the queued keys in order while
`now_session_keys` walks the keys just activated. -/
def checkNextChanged (keyIds : List KeyTypeId) :
    Bool → List (ValidatorId × Keys KeyTypeId RawKey) → List (Keys KeyTypeId RawKey) → Bool
  | changed, _, [] => changed
  | true, now, _ :: rest => checkNextChanged keyIds true now rest
  | false, [], _ :: rest => checkNextChanged keyIds false [] rest
  | false, (_, old) :: now, keys :: rest =>
    if keysEqual keyIds old keys then checkNextChanged keyIds false now rest
    else checkNextChanged keyIds true now rest

/-- `rotate_session`, with `ending` the result of `on_session_ending`; `none`
is a panic of the `u32` index. -/
def rotateSession (T : Trait AccountId ValidatorId KeyTypeId RawKey Proof) (ending : Option (List ValidatorId))
    (state : State ValidatorId KeyTypeId RawKey) : Option (State ValidatorId KeyTypeId RawKey) := do
  let changed := state.queuedChanged
  let sessionKeys := state.queuedKeys
  let validators := sessionKeys.map Prod.fst
  let disabled := if changed then [] else state.disabledValidators
  let _appliedAt ← checkedAdd 32 state.currentIndex 2
  let (nextValidators, nextIdentitiesChanged) := match ending with
    | some validators => (validators, true)
    | none => (validators, false)
  let sessionIndex ← checkedAdd 32 state.currentIndex 1
  let queuedAmalgamated := nextValidators.map fun a => (a, (state.keys.loadKeys a).getD T.defaultKeys)
  let nextChanged := checkNextChanged T.keyIds nextIdentitiesChanged sessionKeys (queuedAmalgamated.map Prod.snd)
  pure { state with
    validators := validators, currentIndex := sessionIndex, queuedChanged := nextChanged,
    queuedKeys := queuedAmalgamated, disabledValidators := disabled }

/-- `disable_index(i)`: whether the threshold is reached, and the state; `none`
is a panic of the threshold's multiplication. -/
def disableIndex (T : Trait AccountId ValidatorId KeyTypeId RawKey Proof) (i : Nat)
    (state : State ValidatorId KeyTypeId RawKey) : Option (Bool × State ValidatorId KeyTypeId RawKey) :=
  let i := cast 32 i
  match VecOps.binarySearchBy state.disabledValidators fun present => compare present i with
  | .error index => do
    let count := cast 32 state.validators.length
    let threshold ← PerThing.mul 32 T.disabledValidatorsThreshold count
    let disabled := state.disabledValidators.insertIdx index i
    pure (cast 32 disabled.length > threshold, { state with disabledValidators := disabled })
  | .ok _ => pure (false, state)

/-- `disable(c)`: `Err(())` when `c` is not a validator. -/
def disable (T : Trait AccountId ValidatorId KeyTypeId RawKey Proof) (c : ValidatorId)
    (state : State ValidatorId KeyTypeId RawKey) : Option (Except Unit Bool × State ValidatorId KeyTypeId RawKey) :=
  match state.validators.findIdx? fun validator => decide (validator = c) with
  | none => pure (.error (), state)
  | some i => (disableIndex T i state).map fun result => (.ok result.1, result.2)

/-- The genesis build of the module: the keys of `config`, then the initial
validators, `SelectInitialValidators` or those of `config`; `none` is a panic. -/
def genesisState (T : Trait AccountId ValidatorId KeyTypeId RawKey Proof)
    (config : List (ValidatorId × Keys KeyTypeId RawKey)) (selected : Option (List ValidatorId)) :
    Option (State ValidatorId KeyTypeId RawKey) := do
  let keys ← genesis T.keyIds config
  let initialValidators := selected.getD (config.map Prod.fst)
  if initialValidators.isEmpty then none
  else
    let queuedKeys := initialValidators.map fun v => (v, (keys.loadKeys v).getD T.defaultKeys)
    pure ⟨initialValidators, 0, false, queuedKeys, [], keys⟩

/-- What happens to the module between two blocks. -/
inductive Operation (AccountId ValidatorId KeyTypeId RawKey Proof : Type) where
  | call (call : Call AccountId ValidatorId KeyTypeId RawKey Proof)
  | rotate (ending : Option (List ValidatorId))
  | disable (c : ValidatorId)

def Operation.step (T : Trait AccountId ValidatorId KeyTypeId RawKey Proof) :
    Operation AccountId ValidatorId KeyTypeId RawKey Proof → State ValidatorId KeyTypeId RawKey →
      Option (State ValidatorId KeyTypeId RawKey)
  | .call dispatched, state =>
    some { state with keys := (dispatched.step T.keyIds T.validatorIdOf T.ownershipProofIsValid state.keys).1 }
  | .rotate ending, state => rotateSession T ending state
  | .disable c, state => (Session.disable T c state).map Prod.snd

def run (T : Trait AccountId ValidatorId KeyTypeId RawKey Proof) :
    List (Operation AccountId ValidatorId KeyTypeId RawKey Proof) → State ValidatorId KeyTypeId RawKey →
      Option (State ValidatorId KeyTypeId RawKey)
  | [], state => some state
  | operation :: rest, state => (operation.step T state).bind (run T rest)

/-- The invariant of the module's storage. -/
structure Consistent (state : State ValidatorId KeyTypeId RawKey) : Prop where
  queuedSynced : state.queuedChanged = false → state.queuedKeys.map Prod.fst = state.validators
  disabledSorted : state.disabledValidators.Pairwise (· < ·)
  disabledInRange : ∀ i ∈ state.disabledValidators, i < state.validators.length

/-! ## One rotation -/

omit [DecidableEq ValidatorId] [DecidableEq KeyTypeId] in
/-- `check_next_changed` finds a change when one was given or when the keys
differ at a position both lists have. -/
theorem checkNextChanged_eq (keyIds : List KeyTypeId) :
    ∀ (next : List (Keys KeyTypeId RawKey)) (changed : Bool) (now : List (ValidatorId × Keys KeyTypeId RawKey)),
      checkNextChanged keyIds changed now next =
        (changed || ((now.map Prod.snd).zip next).any fun pair => !keysEqual keyIds pair.1 pair.2) := by
  intro next
  induction next with
  | nil =>
    intro changed now
    cases changed <;> simp [checkNextChanged]
  | cons keys rest ih =>
    intro changed now
    cases changed with
    | true => rw [checkNextChanged, ih, Bool.true_or, Bool.true_or]
    | false =>
      cases now with
      | nil => rw [checkNextChanged, ih]; simp
      | cons activated now =>
        obtain ⟨validator, old⟩ := activated
        rw [checkNextChanged]
        by_cases same : keysEqual keyIds old keys = true
        · rw [if_pos same, ih]
          simp [same]
        · rw [if_neg same, ih]
          simp [same]

omit [DecidableEq ValidatorId] [DecidableEq KeyTypeId] in
/-- Below the last `u32` index, the rotation activates the queued keys and
queues the next set with its `NextKeys`. -/
theorem rotateSession_eq (T : Trait AccountId ValidatorId KeyTypeId RawKey Proof) (ending : Option (List ValidatorId))
    {state : State ValidatorId KeyTypeId RawKey} (fits : state.currentIndex + 2 < 2 ^ 32) :
    rotateSession T ending state = some
      { validators := state.queuedKeys.map Prod.fst
        currentIndex := state.currentIndex + 1
        queuedChanged := (ending.isSome || ((state.queuedKeys.map Prod.snd).zip
          ((ending.getD (state.queuedKeys.map Prod.fst)).map fun a => (state.keys.loadKeys a).getD T.defaultKeys)).any
            fun pair => !keysEqual T.keyIds pair.1 pair.2)
        queuedKeys := (ending.getD (state.queuedKeys.map Prod.fst)).map fun a =>
          (a, (state.keys.loadKeys a).getD T.defaultKeys)
        disabledValidators := if state.queuedChanged then [] else state.disabledValidators
        keys := state.keys } := by
  cases ending <;>
    simp only [rotateSession, checkedAdd_of_lt fits, checkedAdd_of_lt (show state.currentIndex + 1 < 2 ^ 32 by omega),
      Option.bind_eq_bind, Option.bind_some, Option.pure_def, List.map_map, Function.comp_def, checkNextChanged_eq,
      Option.isSome_none, Option.isSome_some, Option.getD_none, Option.getD_some]

omit [DecidableEq ValidatorId] [DecidableEq KeyTypeId] in
/-- The rotation panics exactly at the last `u32` index. -/
theorem rotateSession_of_overflow (T : Trait AccountId ValidatorId KeyTypeId RawKey Proof)
    (ending : Option (List ValidatorId)) {state : State ValidatorId KeyTypeId RawKey}
    (overflows : 2 ^ 32 ≤ state.currentIndex + 2) : rotateSession T ending state = none := by
  simp only [rotateSession, checkedAdd_of_le overflows, Option.bind_eq_bind, Option.bind_none]

omit [DecidableEq ValidatorId] [DecidableEq KeyTypeId] in
theorem fits_of_rotateSession {T : Trait AccountId ValidatorId KeyTypeId RawKey Proof} {ending : Option (List ValidatorId)}
    {state next : State ValidatorId KeyTypeId RawKey} (rotated : rotateSession T ending state = some next) :
    state.currentIndex + 2 < 2 ^ 32 := by
  by_contra overflows
  rw [rotateSession_of_overflow T ending (Nat.le_of_not_lt overflows)] at rotated
  cases rotated

/-! ## Disabling -/

/-- Inserting a missing index where `binary_search` puts it keeps the indices
strictly increasing. -/
theorem insertIdx_binarySearch {disabled : List Nat} (sorted : disabled.Pairwise (· < ·)) {i index : Nat}
    (missing : VecOps.binarySearchBy disabled (fun present => compare present i) = .error index) :
    (disabled.insertIdx index i).Pairwise (· < ·) ∧ ∀ x, x ∈ disabled.insertIdx index i ↔ x = i ∨ x ∈ disabled := by
  have sortedLe : disabled.Pairwise fun x y => id x ≤ id y := sorted.imp le_of_lt
  have searched : VecOps.binarySearchByKey disabled (id i) id = .error index := missing
  have inRange : index ≤ disabled.length := by
    have splits := (VecOps.binarySearchByKey_splits (b := id i) sortedLe).1
    rwa [searched] at splits
  have absent : i ∉ disabled := by
    intro member
    have found := (VecOps.binarySearchByKey_isOk_iff (b := id i) sortedLe).mpr ⟨i, member, rfl⟩
    rw [searched] at found
    cases found
  have sortedInsert := VecOps.pairwise_insertIdx_binarySearchByKey sortedLe i
  rw [searched] at sortedInsert
  have nodup : (disabled.insertIdx index i).Nodup :=
    (List.perm_insertIdx i disabled inRange).nodup_iff.mpr (List.nodup_cons.mpr ⟨absent, sorted.nodup⟩)
  exact ⟨(sortedInsert.and nodup).imp fun both => lt_of_le_of_ne both.1 both.2, fun x => List.mem_insertIdx inRange⟩

omit [DecidableEq ValidatorId] [DecidableEq KeyTypeId] [DecidableEq RawKey] in
/-- `disable_index` writes the disabled indices and nothing else. -/
theorem disableIndex_frame {T : Trait AccountId ValidatorId KeyTypeId RawKey Proof} {i : Nat}
    {state next : State ValidatorId KeyTypeId RawKey} {reached : Bool} (disabled : disableIndex T i state = some (reached, next)) :
    next = { state with disabledValidators := next.disabledValidators } := by
  dsimp only [disableIndex] at disabled
  cases searched : VecOps.binarySearchBy state.disabledValidators (fun present => compare present (cast 32 i)) with
  | error index =>
    rw [searched] at disabled
    obtain ⟨threshold, -, built⟩ := Option.bind_eq_some_iff.mp disabled
    cases built
    rfl
  | ok index =>
    rw [searched] at disabled
    cases disabled
    rfl

omit [DecidableEq ValidatorId] [DecidableEq KeyTypeId] [DecidableEq RawKey] in
/-- `disable_index` keeps the disabled indices strictly increasing, whatever
the index, and adds only that index, truncated to `u32`. -/
theorem disableIndex_sorted {T : Trait AccountId ValidatorId KeyTypeId RawKey Proof} {i : Nat}
    {state next : State ValidatorId KeyTypeId RawKey} {reached : Bool}
    (sorted : state.disabledValidators.Pairwise (· < ·)) (disabled : disableIndex T i state = some (reached, next)) :
    next.disabledValidators.Pairwise (· < ·) ∧
      ∀ x, x ∈ next.disabledValidators → x = cast 32 i ∨ x ∈ state.disabledValidators := by
  dsimp only [disableIndex] at disabled
  cases searched : VecOps.binarySearchBy state.disabledValidators (fun present => compare present (cast 32 i)) with
  | error index =>
    rw [searched] at disabled
    obtain ⟨threshold, -, built⟩ := Option.bind_eq_some_iff.mp disabled
    cases built
    obtain ⟨sortedInsert, members⟩ := insertIdx_binarySearch sorted searched
    exact ⟨sortedInsert, fun x member => (members x).mp member⟩
  | ok index =>
    rw [searched] at disabled
    cases disabled
    exact ⟨sorted, fun x member => Or.inr member⟩

/-! ## The invariant over runs -/

omit [DecidableEq ValidatorId] [DecidableEq KeyTypeId] in
theorem rotateSession_consistent {T : Trait AccountId ValidatorId KeyTypeId RawKey Proof}
    {ending : Option (List ValidatorId)} {state next : State ValidatorId KeyTypeId RawKey}
    (consistent : Consistent state) (rotated : rotateSession T ending state = some next) : Consistent next := by
  rw [rotateSession_eq T ending (fits_of_rotateSession rotated), Option.some.injEq] at rotated
  subst rotated
  constructor
  · -- an unchanged queue is the set just activated, with its keys
    intro unchanged
    cases ending with
    | none => simp [List.map_map, Function.comp_def]
    | some validators => simp at unchanged
  · by_cases changed : state.queuedChanged = true
    · rw [if_pos changed]
      exact List.Pairwise.nil
    · rw [if_neg changed]
      exact consistent.disabledSorted
  · intro i member
    by_cases changed : state.queuedChanged = true
    · rw [if_pos changed] at member
      cases member
    · -- the set activated is the one of the last rotation, as long as before
      rw [if_neg changed] at member
      have synced := consistent.queuedSynced (Bool.eq_false_iff.mpr changed)
      rw [synced]
      exact consistent.disabledInRange i member

omit [DecidableEq KeyTypeId] [DecidableEq RawKey] in
theorem disable_consistent {T : Trait AccountId ValidatorId KeyTypeId RawKey Proof} {c : ValidatorId}
    {state : State ValidatorId KeyTypeId RawKey} {result : Except Unit Bool × State ValidatorId KeyTypeId RawKey}
    (consistent : Consistent state) (disabled : disable T c state = some result) : Consistent result.2 := by
  unfold disable at disabled
  split at disabled
  · cases disabled
    exact consistent
  · rename_i i position
    obtain ⟨⟨reached, next⟩, disabledIndex, built⟩ := Option.map_eq_some_iff.mp disabled
    cases built
    have inRange : i < state.validators.length := (List.findIdx?_eq_some_iff_findIdx_eq.mp position).1
    obtain ⟨sorted, members⟩ := disableIndex_sorted consistent.disabledSorted disabledIndex
    rw [disableIndex_frame disabledIndex]
    refine ⟨consistent.queuedSynced, sorted, fun x member => ?_⟩
    rcases members x member with rfl | earlier
    · exact lt_of_le_of_lt (Nat.mod_le _ _) inRange
    · exact consistent.disabledInRange x earlier

theorem step_consistent {T : Trait AccountId ValidatorId KeyTypeId RawKey Proof}
    {operation : Operation AccountId ValidatorId KeyTypeId RawKey Proof} {state next : State ValidatorId KeyTypeId RawKey}
    (consistent : Consistent state) (stepped : operation.step T state = some next) : Consistent next := by
  cases operation with
  | call dispatched =>
    cases stepped
    exact ⟨consistent.queuedSynced, consistent.disabledSorted, consistent.disabledInRange⟩
  | rotate ending => exact rotateSession_consistent consistent stepped
  | disable c =>
    obtain ⟨result, disabled, rfl⟩ := Option.map_eq_some_iff.mp stepped
    exact disable_consistent consistent disabled

theorem run_consistent (T : Trait AccountId ValidatorId KeyTypeId RawKey Proof) :
    ∀ (operations : List (Operation AccountId ValidatorId KeyTypeId RawKey Proof))
      {state next : State ValidatorId KeyTypeId RawKey}, Consistent state → run T operations state = some next →
        Consistent next := by
  intro operations
  induction operations with
  | nil =>
    intro state next consistent ran
    cases ran
    exact consistent
  | cons operation rest ih =>
    intro state next consistent ran
    obtain ⟨after, stepped, ran⟩ := Option.bind_eq_some_iff.mp ran
    exact ih (step_consistent consistent stepped) ran

theorem genesisState_consistent {T : Trait AccountId ValidatorId KeyTypeId RawKey Proof}
    {config : List (ValidatorId × Keys KeyTypeId RawKey)} {selected : Option (List ValidatorId)}
    {start : State ValidatorId KeyTypeId RawKey} (built : genesisState T config selected = some start) :
    Consistent start := by
  obtain ⟨keys, -, built⟩ := Option.bind_eq_some_iff.mp built
  dsimp only at built
  split at built
  · cases built
  · cases built
    refine ⟨fun _ => ?_, List.Pairwise.nil, fun i member => by cases member⟩
    simp [List.map_map, Function.comp_def]

/-- Only a rotation moves the validators and the queue: between two rotations
the queue stays as the first one left it. -/
theorem step_keeps_queue {T : Trait AccountId ValidatorId KeyTypeId RawKey Proof}
    {operation : Operation AccountId ValidatorId KeyTypeId RawKey Proof} {state next : State ValidatorId KeyTypeId RawKey}
    (notRotation : ∀ ending, operation ≠ .rotate ending) (stepped : operation.step T state = some next) :
    next.validators = state.validators ∧ next.queuedKeys = state.queuedKeys ∧ next.queuedChanged = state.queuedChanged := by
  cases operation with
  | call dispatched =>
    cases stepped
    exact ⟨rfl, rfl, rfl⟩
  | rotate ending => exact absurd rfl (notRotation ending)
  | disable c =>
    obtain ⟨result, disabled, rfl⟩ := Option.map_eq_some_iff.mp stepped
    unfold disable at disabled
    split at disabled
    · cases disabled
      exact ⟨rfl, rfl, rfl⟩
    · obtain ⟨⟨reached, after⟩, disabledIndex, built⟩ := Option.map_eq_some_iff.mp disabled
      cases built
      rw [disableIndex_frame disabledIndex]
      exact ⟨rfl, rfl, rfl⟩

/-- Over every run from the genesis build, a rotation activates the queue the
previous one left, queues the set `on_session_ending` returns (or the one it
activates) with the `NextKeys` of each, marks the queue changed when a set was
returned or a queued key differs from the activated one at its position, and
clears the disabled indices when the activated set was marked changed; the
disabled indices stay strictly increasing and inside the validators. -/
theorem rotate_session_pipeline {T : Trait AccountId ValidatorId KeyTypeId RawKey Proof}
    {config : List (ValidatorId × Keys KeyTypeId RawKey)} {selected : Option (List ValidatorId)}
    {operations : List (Operation AccountId ValidatorId KeyTypeId RawKey Proof)} {ending : Option (List ValidatorId)}
    {start state next : State ValidatorId KeyTypeId RawKey} (built : genesisState T config selected = some start)
    (reached : run T operations start = some state) (rotated : rotateSession T ending state = some next) :
    next.validators = state.queuedKeys.map Prod.fst ∧
      next.queuedKeys = (ending.getD next.validators).map (fun a => (a, (state.keys.loadKeys a).getD T.defaultKeys)) ∧
      (next.queuedChanged = true ↔ ending.isSome = true ∨
        ∃ pair ∈ (state.queuedKeys.map Prod.snd).zip (next.queuedKeys.map Prod.snd),
          keysEqual T.keyIds pair.1 pair.2 = false) ∧
      next.disabledValidators = (if state.queuedChanged then [] else state.disabledValidators) ∧
      next.disabledValidators.Pairwise (· < ·) ∧ ∀ i ∈ next.disabledValidators, i < next.validators.length := by
  have consistent := run_consistent T operations (genesisState_consistent built) reached
  have nextConsistent := rotateSession_consistent consistent rotated
  rw [rotateSession_eq T ending (fits_of_rotateSession rotated), Option.some.injEq] at rotated
  subst rotated
  refine ⟨rfl, rfl, ?_, rfl, nextConsistent.disabledSorted, nextConsistent.disabledInRange⟩
  simp [List.map_map, Function.comp_def]

/-- One key type, half of the validators may be disabled, and no key is refused. -/
def halfDisabled : Trait Nat Nat Unit Nat Unit :=
  ⟨[()], some, fun _ _ => true, ⟨fun _ => 0⟩, PerThing.fromParts PerThingType.perbill 500000000⟩

/-- The genesis build with validators `1` and `2`, of keys `11` and `12`. -/
def twoValidatorGenesis : State Nat Unit Nat :=
  (genesisState halfDisabled [(1, ⟨fun _ => 11⟩), (2, ⟨fun _ => 12⟩)] none).getD ⟨[], 0, false, [], [], ⟨KVMap.empty, KVMap.empty⟩⟩

/-- Its first rotation, to which `on_session_ending` returns validators `2` and `3`. -/
def newSetRotation : State Nat Unit Nat :=
  (rotateSession halfDisabled (some [2, 3]) twoValidatorGenesis).getD twoValidatorGenesis

theorem rotate_session_pipeline_to_new_set :
    genesisState halfDisabled [(1, ⟨fun _ => 11⟩), (2, ⟨fun _ => 12⟩)] none = some twoValidatorGenesis ∧
      run halfDisabled [] twoValidatorGenesis = some twoValidatorGenesis ∧
      rotateSession halfDisabled (some [2, 3]) twoValidatorGenesis = some newSetRotation ∧
      (newSetRotation.validators = twoValidatorGenesis.queuedKeys.map Prod.fst ∧
        newSetRotation.queuedKeys = ((some [2, 3]).getD newSetRotation.validators).map
          (fun a => (a, (twoValidatorGenesis.keys.loadKeys a).getD halfDisabled.defaultKeys)) ∧
        (newSetRotation.queuedChanged = true ↔ (some [2, 3]).isSome = true ∨
          ∃ pair ∈ (twoValidatorGenesis.queuedKeys.map Prod.snd).zip (newSetRotation.queuedKeys.map Prod.snd),
            keysEqual halfDisabled.keyIds pair.1 pair.2 = false) ∧
        newSetRotation.disabledValidators =
          (if twoValidatorGenesis.queuedChanged then [] else twoValidatorGenesis.disabledValidators) ∧
        newSetRotation.disabledValidators.Pairwise (· < ·) ∧
        ∀ i ∈ newSetRotation.disabledValidators, i < newSetRotation.validators.length) := by
  have built : genesisState halfDisabled [(1, ⟨fun _ => 11⟩), (2, ⟨fun _ => 12⟩)] none = some twoValidatorGenesis :=
    rfl
  have reached : run halfDisabled [] twoValidatorGenesis = some twoValidatorGenesis := rfl
  have rotated : rotateSession halfDisabled (some [2, 3]) twoValidatorGenesis = some newSetRotation := rfl
  exact ⟨built, reached, rotated, rotate_session_pipeline built reached rotated⟩

end OffchainStorage.Session
