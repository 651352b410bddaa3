import OffchainStorage.Pallet.Calls

/-!
# Whole-run behaviour of the offchain-storage module

Three facts about every run of the module:

* every `Data` entry ever stored is `UserData::default()`: `write_data`
  re-inserts the entry the getter returned, which for a new identifier is
  the default one, so the writer is never recorded and the access is always
  `Read`;
* an entry, once stored, is only ever replaced by itself until a successful
  `delete_data` removes it;
* `Data` and the external store hold the same identifiers, and the external
  value of an identifier is the value of its last successful write since its
  last successful delete.

From the first fact, every signed write and every signed delete of an
existing identifier succeeds, whoever sends it.
-/

namespace OffchainStorage.Pallet

variable {AccountId : Type} [DecidableEq AccountId] [Inhabited AccountId]

/-! ## Every stored entry is the default one -/

/-- All entries of `Data` are `UserData::default()`. -/
def EntriesDefault (state : State AccountId) : Prop :=
  ∀ dataId entry, state.data.lookup dataId = some entry → entry = default

omit [DecidableEq AccountId] in
/-- Under `EntriesDefault` the getter returns the default entry, present or
not. -/
theorem get_eq_default_of_entriesDefault {state : State AccountId}
    (entriesDefault : EntriesDefault state) (dataId : List UInt8) :
    state.data.get dataId = default := by
  cases found : state.data.lookup dataId with
  | none =>
      exact KVMap.get_of_lookup_none found
  | some entry =>
      rw [KVMap.get_of_lookup found]
      exact entriesDefault dataId entry found

/-- One extrinsic keeps every entry default. -/
theorem step_entriesDefault (extrinsic : Origin AccountId × Call)
    {state : State AccountId} (entriesDefault : EntriesDefault state) :
    EntriesDefault (step extrinsic state).1 := by
  cases outcome : (step extrinsic state).2 with
  | error failure =>
      rw [step_of_error outcome]
      exact entriesDefault
  | ok _ =>
      obtain ⟨origin, call⟩ := extrinsic
      cases call with
      | readData dataId =>
          rw [step, dispatch, readData_of_ok outcome]
          exact entriesDefault
      | writeData written value =>
          rw [step, dispatch, writeData_of_ok outcome]
          intro dataId entry found
          by_cases same : dataId = written
          · subst dataId
            simp only [KVMap.lookup_insert_self, Option.some.injEq] at found
            rw [← found]
            exact get_eq_default_of_entriesDefault entriesDefault written
          · rw [KVMap.lookup_insert_of_ne _ _ same] at found
            exact entriesDefault dataId entry found
      | deleteData deleted =>
          rw [step, dispatch, deleteData_of_ok outcome]
          intro dataId entry found
          by_cases same : dataId = deleted
          · subst dataId
            simp at found
          · rw [KVMap.lookup_remove_of_ne _ same] at found
            exact entriesDefault dataId entry found

/-- In every reachable state each entry of `Data` has the default author and
the access `Read`. -/
theorem reachable_entry_eq_default
    {external : KVMap (List UInt8) (List UInt8)} {state : State AccountId}
    (reachable : Reachable external state) :
    EntriesDefault state := by
  refine Transition.Reachable.invariant ?_ ?_ reachable
  · intro dataId entry found
    simp [genesis] at found
  · intro extrinsic current entriesDefault
    exact step_entriesDefault extrinsic entriesDefault

/-- The first write of the module's test, account `1` writing `b"key"`,
records the default account `0` as the author. -/
theorem writeData_records_default_author :
    ((writeData (.signed (1 : Nat)) [107, 101, 121] [107, 101, 121]
        (genesis KVMap.empty)).1.data.lookup [107, 101, 121]).map
      UserData.author = some 0 := by
  decide

/-- In every reachable state every signed `write_data` succeeds. -/
theorem reachable_writeData_ok
    {external : KVMap (List UInt8) (List UInt8)} {state : State AccountId}
    (reachable : Reachable external state)
    (user : AccountId) (dataId written : List UInt8) :
    (writeData (.signed user) dataId written state).2 = .ok () := by
  have stored := get_eq_default_of_entriesDefault
    (reachable_entry_eq_default reachable) dataId
  rw [writeData_ok_iff]
  exact ⟨user, rfl, by simp [stored, checkOpAccess, accessValue, default]⟩

/-- After account `1` writes `b"key"`, account `2` overwrites it: the entry
has author `0` and access `Read`, neither `2` nor `Write`. -/
theorem writeData_by_other_account_succeeds :
    (writeData (.signed (1 : Nat)) [107, 101, 121] [107, 101, 121]
        (genesis KVMap.empty)).1.data.lookup [107, 101, 121] = some ⟨0, .read⟩ ∧
      (writeData (.signed 2) [107, 101, 121] [0]
          (writeData (.signed 1) [107, 101, 121] [107, 101, 121]
            (genesis KVMap.empty)).1).2 = .ok () ∧
      (writeData (.signed 2) [107, 101, 121] [0]
          (writeData (.signed 1) [107, 101, 121] [107, 101, 121]
            (genesis KVMap.empty)).1).1.external.lookup [107, 101, 121] =
        some [0] := by
  decide

/-- In every reachable state a signed `delete_data` succeeds exactly when
the identifier has an entry. -/
theorem reachable_deleteData_ok_iff
    {external : KVMap (List UInt8) (List UInt8)} {state : State AccountId}
    (reachable : Reachable external state)
    (user : AccountId) (dataId : List UInt8) :
    (deleteData (.signed user) dataId state).2 = .ok () ↔
      state.data.contains dataId = true := by
  rw [deleteData_ok_iff, KVMap.contains_iff]
  constructor
  · rintro ⟨_, entry, _, found, _⟩
    exact ⟨entry, found⟩
  · rintro ⟨entry, found⟩
    have isDefault := reachable_entry_eq_default reachable dataId entry found
    subst isDefault
    exact ⟨user, default, rfl, found, by simp [checkOpAccess, accessValue, default]⟩

/-! ## Entries are never rewritten -/

/-- One extrinsic either keeps an existing entry as it is or is a
successful `delete_data` of it. -/
theorem step_keeps_entry (extrinsic : Origin AccountId × Call)
    {state : State AccountId} {dataId : List UInt8} {entry : UserData AccountId}
    (found : state.data.lookup dataId = some entry) :
    (step extrinsic state).1.data.lookup dataId = some entry ∨
      (extrinsic.2 = .deleteData dataId ∧ (step extrinsic state).2 = .ok () ∧
        (step extrinsic state).1.data.lookup dataId = none) := by
  cases outcome : (step extrinsic state).2 with
  | error failure =>
      left
      rw [step_of_error outcome]
      exact found
  | ok _ =>
      obtain ⟨origin, call⟩ := extrinsic
      cases call with
      | readData read =>
          left
          rw [step, dispatch, readData_of_ok outcome]
          exact found
      | writeData written value =>
          left
          rw [step, dispatch, writeData_of_ok outcome]
          by_cases same : dataId = written
          · subst dataId
            simp [KVMap.get_of_lookup found]
          · rw [KVMap.lookup_insert_of_ne _ _ same]
            exact found
      | deleteData deleted =>
          by_cases same : dataId = deleted
          · subst dataId
            right
            refine ⟨rfl, rfl, ?_⟩
            rw [step, dispatch, deleteData_of_ok outcome]
            simp
          · left
            rw [step, dispatch, deleteData_of_ok outcome,
              KVMap.lookup_remove_of_ne _ same]
            exact found

/-- Whether a recorded call is a successful `delete_data` of `dataId`. -/
def deletes (dataId : List UInt8)
    (recorded : (Origin AccountId × Call) × DispatchResult) : Bool :=
  match recorded with
  | ((_, .deleteData deleted), .ok ()) => decide (deleted = dataId)
  | _ => false

/-- Along any run, an entry keeps its author and access until a
successful `delete_data` of its identifier. -/
theorem run_keeps_entry (start : State AccountId)
    {dataId : List UInt8} {entry : UserData AccountId}
    (found : start.data.lookup dataId = some entry)
    (extrinsics : List (Origin AccountId × Call)) :
    (∀ recorded ∈ (Transition.run step start extrinsics).2,
        deletes dataId recorded = false) →
      (Transition.run step start extrinsics).1.data.lookup dataId = some entry := by
  refine Transition.run_invariant step
    (fun current history =>
      (∀ recorded ∈ history, deletes dataId recorded = false) →
        current.data.lookup dataId = some entry)
    (fun _ => found) ?_ extrinsics
  intro current history extrinsic inductionHypothesis noDelete
  have earlier : current.data.lookup dataId = some entry :=
    inductionHypothesis fun recorded member =>
      noDelete recorded (List.mem_append_left _ member)
  rcases step_keeps_entry extrinsic earlier with kept | ⟨isDelete, ok, _⟩
  · exact kept
  · have lastKept := noDelete (extrinsic, (step extrinsic current).2)
      (List.mem_append_right _ (List.mem_singleton_self _))
    obtain ⟨origin, call⟩ := extrinsic
    simp only at isDelete
    subst isDelete
    simp [deletes, ok] at lastKept

/-! ## `Data` and the external store stay in step -/

/-- How a recorded call moves the last value written to `dataId`: a
successful write of it sets the value, a successful delete of it clears it. -/
def noteWrite (dataId : List UInt8) (last : Option (List UInt8))
    (recorded : (Origin AccountId × Call) × DispatchResult) :
    Option (List UInt8) :=
  match recorded with
  | ((_, .writeData written value), .ok ()) =>
      if written = dataId then some value else last
  | ((_, .deleteData deleted), .ok ()) =>
      if deleted = dataId then none else last
  | _ => last

/-- The value of the last successful write to `dataId` since its last
successful delete, if any. -/
def lastWritten (dataId : List UInt8)
    (history : List ((Origin AccountId × Call) × DispatchResult)) :
    Option (List UInt8) :=
  history.foldl (noteWrite dataId) none

omit [DecidableEq AccountId] [Inhabited AccountId] in
theorem lastWritten_append_singleton (dataId : List UInt8)
    (history : List ((Origin AccountId × Call) × DispatchResult))
    (recorded : (Origin AccountId × Call) × DispatchResult) :
    lastWritten dataId (history ++ [recorded]) =
      noteWrite dataId (lastWritten dataId history) recorded := by
  simp [lastWritten, List.foldl_append]

/-- The external store holds exactly the last written values, and `Data`
has an entry exactly where the external store has a value. -/
def InStep (state : State AccountId)
    (history : List ((Origin AccountId × Call) × DispatchResult)) : Prop :=
  ∀ dataId,
    state.external.lookup dataId = lastWritten dataId history ∧
      state.data.contains dataId = state.external.contains dataId

omit [DecidableEq AccountId] [Inhabited AccountId] in
/-- A failed call and a read move no last written value. -/
theorem noteWrite_of_not_written (dataId : List UInt8)
    (last : Option (List UInt8)) (extrinsic : Origin AccountId × Call)
    (result : DispatchResult)
    (notWrite : ∀ written value, extrinsic.2 = .writeData written value →
      result ≠ .ok ())
    (notDelete : ∀ deleted, extrinsic.2 = .deleteData deleted →
      result ≠ .ok ()) :
    noteWrite dataId last (extrinsic, result) = last := by
  obtain ⟨origin, call⟩ := extrinsic
  cases result with
  | error failure =>
      cases call <;> rfl
  | ok _ =>
      cases call with
      | readData read => rfl
      | writeData written value =>
          exact absurd rfl (notWrite written value rfl)
      | deleteData deleted =>
          exact absurd rfl (notDelete deleted rfl)

/-- One extrinsic keeps the two stores in step with the history. -/
theorem step_inStep (extrinsic : Origin AccountId × Call)
    {state : State AccountId}
    {history : List ((Origin AccountId × Call) × DispatchResult)}
    (inStep : InStep state history) :
    InStep (step extrinsic state).1
      (history ++ [(extrinsic, (step extrinsic state).2)]) := by
  intro dataId
  rw [lastWritten_append_singleton]
  cases outcome : (step extrinsic state).2 with
  | error failure =>
      rw [step_of_error outcome,
        noteWrite_of_not_written _ _ _ _ (by simp) (by simp)]
      exact inStep dataId
  | ok _ =>
      obtain ⟨origin, call⟩ := extrinsic
      cases call with
      | readData read =>
          rw [step, dispatch, readData_of_ok outcome]
          exact inStep dataId
      | writeData written value =>
          rw [step, dispatch, writeData_of_ok outcome]
          by_cases same : written = dataId
          · subst dataId
            simp [noteWrite, KVMap.contains_eq_isSome]
          · have other : dataId ≠ written := Ne.symm same
            simp only [noteWrite, same, if_false, KVMap.contains_eq_isSome,
              KVMap.lookup_insert_of_ne _ _ other]
            exact inStep dataId
      | deleteData deleted =>
          rw [step, dispatch, deleteData_of_ok outcome]
          by_cases same : deleted = dataId
          · subst dataId
            simp [noteWrite, KVMap.contains_eq_isSome]
          · have other : dataId ≠ deleted := Ne.symm same
            simp only [noteWrite, same, if_false, KVMap.contains_eq_isSome,
              KVMap.lookup_remove_of_ne _ other]
            exact inStep dataId

theorem read_emits_last_write (extrinsics : List (Origin AccountId × Call)) :
    let final := Transition.run step (genesis KVMap.empty) extrinsics
    (∀ dataId, final.1.data.contains dataId = final.1.external.contains dataId) ∧
      ∀ (user : AccountId) (dataId : List UInt8),
        readData (.signed user) dataId final.1 =
          match lastWritten dataId final.2 with
          | some value => (depositEvent final.1 (.getData value), .ok ())
          | none => (final.1, .error .noneData) := by
  intro final
  have inStep : InStep final.1 final.2 :=
    Transition.run_invariant step InStep
      (fun dataId => by simp [genesis, lastWritten, KVMap.contains_eq_isSome])
      (fun _ _ extrinsic inStep => step_inStep extrinsic inStep) extrinsics
  have reachable : Reachable KVMap.empty final.1 :=
    (Transition.reachable_iff_exists_run step).mpr ⟨extrinsics, rfl⟩
  refine ⟨fun dataId => (inStep dataId).2, fun user dataId => ?_⟩
  obtain ⟨external, sameKeys⟩ := inStep dataId
  cases last : lastWritten dataId final.2 with
  | none =>
      have absent : final.1.data.contains dataId = false := by
        simp [sameKeys, KVMap.contains_eq_isSome, external, last]
      simp [readData, absent]
  | some value =>
      have present : final.1.data.contains dataId = true := by
        simp [sameKeys, KVMap.contains_eq_isSome, external, last]
      have stored := get_eq_default_of_entriesDefault
        (reachable_entry_eq_default reachable) dataId
      have read : getExternalStorage final.1 dataId = value := by
        rw [getExternalStorage, KVMap.get_of_lookup (external.trans last)]
      simp [readData, present, stored, read, checkOpAccess, accessValue, default]

end OffchainStorage.Pallet
