import OffchainStorage.Pallet.Module

/-!
# What each call of the offchain-storage module does

One lemma per dispatchable and outcome: when it succeeds, when it fails, and
the state it leaves in each case.  Whole-run proofs cite these lemmas and
never unfold a dispatchable again.

The access rule of the three calls is the same: `check_op_access` against
`Access::Read`.  `read_data` and `delete_data` first require an entry;
`write_data` does not, and reads an absent entry as `UserData::default()`.
-/

namespace OffchainStorage.Pallet

variable {AccountId : Type}

/-! ## Small evaluation lemmas -/

@[simp]
theorem ensureSigned_signed (who : AccountId) :
    ensureSigned (.signed who) = .ok who := rfl

/-- `ensure_signed` fails exactly on unsigned origins. -/
theorem ensureSigned_eq_ok {origin : Origin AccountId} {user : AccountId} :
    ensureSigned origin = .ok user ↔ origin = .signed user := by
  cases origin <;> simp [ensureSigned]

@[simp]
theorem depositEvent_data (state : State AccountId) (event : Event) :
    (depositEvent state event).data = state.data := rfl

@[simp]
theorem depositEvent_external (state : State AccountId) (event : Event) :
    (depositEvent state event).external = state.external := rfl

variable [DecidableEq AccountId]

/-- Against `Access::Read` the check passes for the author and for every
level but `Avoid`. -/
theorem checkOpAccess_read_iff (user : AccountId) (data : UserData AccountId) :
    checkOpAccess user data .read = true ↔
      user = data.author ∨ data.access = .read ∨ data.access = .write := by
  cases data with
  | mk author access =>
      cases access <;> simp [checkOpAccess, accessValue]

variable [Inhabited AccountId]

/-! ## `read_data` -/

/-- `read_data` succeeds exactly for a signed origin, an existing entry and
a passing access check. -/
theorem readData_ok_iff (origin : Origin AccountId) (dataId : List UInt8)
    (state : State AccountId) :
    (readData origin dataId state).2 = .ok () ↔
      ∃ user entry, origin = .signed user ∧
        state.data.lookup dataId = some entry ∧
        checkOpAccess user entry .read = true := by
  cases origin with
  | root => simp [readData, ensureSigned]
  | none => simp [readData, ensureSigned]
  | signed user =>
      cases found : state.data.lookup dataId with
      | none =>
          have absent : state.data.contains dataId = false := KVMap.contains_of_lookup_none found
          simp [readData, absent]
      | some entry =>
          have present : state.data.contains dataId = true := KVMap.contains_of_lookup found
          have read : state.data.get dataId = entry := KVMap.get_of_lookup found
          by_cases passes : checkOpAccess user entry .read = true <;>
            simp [readData, present, read, passes]

/-- A successful read deposits the external value and changes nothing
else. -/
theorem readData_of_ok {origin : Origin AccountId} {dataId : List UInt8}
    {state : State AccountId} (ok : (readData origin dataId state).2 = .ok ()) :
    (readData origin dataId state).1 =
      depositEvent state (.getData (getExternalStorage state dataId)) := by
  obtain ⟨user, entry, rfl, found, passes⟩ :=
    (readData_ok_iff origin dataId state).mp ok
  have present : state.data.contains dataId = true := KVMap.contains_of_lookup found
  have read : state.data.get dataId = entry := KVMap.get_of_lookup found
  simp [readData, present, read, passes]

/-- A failed read leaves the state unchanged. -/
theorem readData_of_error {origin : Origin AccountId} {dataId : List UInt8}
    {state : State AccountId} {failure : DispatchError}
    (failed : (readData origin dataId state).2 = .error failure) :
    (readData origin dataId state).1 = state := by
  cases origin with
  | root => rfl
  | none => rfl
  | signed user =>
      by_cases present : state.data.contains dataId = true
      · by_cases passes : checkOpAccess user (state.data.get dataId) .read = true
        · simp [readData, present, passes] at failed
        · simp [readData, present, passes]
      · simp [readData, present]

/-! ## `write_data` -/

/-- `write_data` succeeds exactly for a signed origin whose access check
passes on the entry as the getter returns it. -/
theorem writeData_ok_iff (origin : Origin AccountId) (dataId written : List UInt8)
    (state : State AccountId) :
    (writeData origin dataId written state).2 = .ok () ↔
      ∃ user, origin = .signed user ∧
        checkOpAccess user (state.data.get dataId) .read = true := by
  cases origin with
  | root => simp [writeData, ensureSigned]
  | none => simp [writeData, ensureSigned]
  | signed user =>
      by_cases passes : checkOpAccess user (state.data.get dataId) .read = true <;>
        simp [writeData, passes]

/-- A successful write stores the value externally and re-inserts the entry
the getter returned. -/
theorem writeData_of_ok {origin : Origin AccountId} {dataId written : List UInt8}
    {state : State AccountId}
    (ok : (writeData origin dataId written state).2 = .ok ()) :
    (writeData origin dataId written state).1 =
      { state with
        external := state.external.insert dataId written
        data := state.data.insert dataId (state.data.get dataId) } := by
  obtain ⟨user, rfl, passes⟩ := (writeData_ok_iff origin dataId written state).mp ok
  simp [writeData, passes, setExternalStorage]

/-- A failed write leaves the state unchanged. -/
theorem writeData_of_error {origin : Origin AccountId}
    {dataId written : List UInt8} {state : State AccountId}
    {failure : DispatchError}
    (failed : (writeData origin dataId written state).2 = .error failure) :
    (writeData origin dataId written state).1 = state := by
  cases origin with
  | root => rfl
  | none => rfl
  | signed user =>
      by_cases passes : checkOpAccess user (state.data.get dataId) .read = true
      · simp [writeData, passes] at failed
      · simp [writeData, passes]

/-! ## `delete_data` -/

/-- `delete_data` succeeds exactly for a signed origin, an existing entry and
a passing access check. -/
theorem deleteData_ok_iff (origin : Origin AccountId) (dataId : List UInt8)
    (state : State AccountId) :
    (deleteData origin dataId state).2 = .ok () ↔
      ∃ user entry, origin = .signed user ∧
        state.data.lookup dataId = some entry ∧
        checkOpAccess user entry .read = true := by
  cases origin with
  | root => simp [deleteData, ensureSigned]
  | none => simp [deleteData, ensureSigned]
  | signed user =>
      cases found : state.data.lookup dataId with
      | none =>
          have absent : state.data.contains dataId = false := KVMap.contains_of_lookup_none found
          simp [deleteData, absent]
      | some entry =>
          have present : state.data.contains dataId = true := KVMap.contains_of_lookup found
          have read : state.data.get dataId = entry := KVMap.get_of_lookup found
          by_cases passes : checkOpAccess user entry .read = true <;>
            simp [deleteData, present, read, passes]

/-- A successful delete removes the external value and the entry. -/
theorem deleteData_of_ok {origin : Origin AccountId} {dataId : List UInt8}
    {state : State AccountId} (ok : (deleteData origin dataId state).2 = .ok ()) :
    (deleteData origin dataId state).1 =
      { state with
        external := state.external.remove dataId
        data := state.data.remove dataId } := by
  obtain ⟨user, entry, rfl, found, passes⟩ :=
    (deleteData_ok_iff origin dataId state).mp ok
  have present : state.data.contains dataId = true := KVMap.contains_of_lookup found
  have read : state.data.get dataId = entry := KVMap.get_of_lookup found
  simp [deleteData, present, read, passes, deleteExternalStorage]

/-- A failed delete leaves the state unchanged. -/
theorem deleteData_of_error {origin : Origin AccountId} {dataId : List UInt8}
    {state : State AccountId} {failure : DispatchError}
    (failed : (deleteData origin dataId state).2 = .error failure) :
    (deleteData origin dataId state).1 = state := by
  cases origin with
  | root => rfl
  | none => rfl
  | signed user =>
      by_cases present : state.data.contains dataId = true
      · by_cases passes : checkOpAccess user (state.data.get dataId) .read = true
        · simp [deleteData, present, passes] at failed
        · simp [deleteData, present, passes]
      · simp [deleteData, present]

/-! ## Dispatch -/

/-- Every failed extrinsic, whatever its error, leaves `Data`, the external
store and the events exactly as they were. -/
theorem step_of_error {extrinsic : Origin AccountId × Call}
    {state : State AccountId} {failure : DispatchError}
    (failed : (step extrinsic state).2 = .error failure) :
    (step extrinsic state).1 = state := by
  obtain ⟨origin, call⟩ := extrinsic
  cases call with
  | readData dataId => exact readData_of_error failed
  | writeData dataId written => exact writeData_of_error failed
  | deleteData dataId => exact deleteData_of_error failed

end OffchainStorage.Pallet
