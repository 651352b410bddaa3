import OffchainStorage.Lib.KVMap
import OffchainStorage.Lib.Transition

/-!
# The offchain-storage runtime module

`frame/offchain-storage` keeps, on chain, one `UserData` record per data
identifier: the account that wrote the data and its access level.  The data
itself lives in an external store (a key-value database, IPFS, ...) that the
runtime reaches through the `ExternalStorage` trait.  Three dispatchable
calls read, write and delete a data identifier.

The model follows the source call by call:

* the `Data` storage map is a `KVMap` whose `get` falls back to
  `UserData::default()`, as the generated getter `get_data` does;
* the external store is a `KVMap` as well: the trait is implemented outside
  the runtime, and every developer implementation is expected to behave as a
  key-value store (`get` of an absent key returns the empty vector);
* `ensure_signed` rejects every origin but a signed one with `BadOrigin`;
* a dispatch returns the new state together with its `DispatchResult`;
  events deposited by `deposit_event` are appended to `events`.

No call writes storage before it fails, so whether the runtime reverts the
storage of a failed call makes no difference here.
-/

namespace OffchainStorage.Pallet

/-! ## Data model -/

/-- `Access`: who besides the author may use a piece of data. -/
inductive Access where
  | avoid
  | read
  | write
  deriving DecidableEq, Repr

/-- `impl Default for Access`: data is readable by everyone by default. -/
instance : Inhabited Access := ⟨.read⟩

/-- `access_value`, the numeric level used to compare accesses. -/
def accessValue : Access → Nat
  | .avoid => 0
  | .read => 1
  | .write => 2

/-- `UserData<AccountId>`: the author of a piece of data and its access. -/
structure UserData (AccountId : Type) where
  author : AccountId
  access : Access
  deriving DecidableEq, Repr

/-- The derived `Default` of `UserData`: the default account with the
default access. -/
instance {AccountId : Type} [Inhabited AccountId] :
    Inhabited (UserData AccountId) :=
  ⟨⟨default, default⟩⟩

/-- The origin of a call. -/
inductive Origin (AccountId : Type) where
  | root
  | signed (who : AccountId)
  | none
  deriving DecidableEq, Repr

/-- The errors a dispatch can return: `BadOrigin` from `ensure_signed`
and the module's own `Error<T>`. -/
inductive DispatchError where
  | badOrigin
  | permissionDenied
  | externalError
  | noneData
  deriving DecidableEq, Repr

abbrev DispatchResult := Except DispatchError Unit

/-- `Event`: the module's only event carries the data a read returned. -/
inductive Event where
  | getData (data : List UInt8)
  deriving DecidableEq, Repr

/-- The runtime state the module touches. -/
structure State (AccountId : Type) where
  /-- `Data get(fn get_data): map Vec<u8> => UserData<T::AccountId>`. -/
  data : KVMap (List UInt8) (UserData AccountId)
  /-- The external store behind `T::Storage`. -/
  external : KVMap (List UInt8) (List UInt8)
  /-- The events deposited so far. -/
  events : List Event

/-- The state at genesis: `Data` is empty (the module has no genesis
configuration) and the external store holds whatever it holds. -/
def genesis {AccountId : Type} (external : KVMap (List UInt8) (List UInt8)) :
    State AccountId :=
  ⟨KVMap.empty, external, []⟩

variable {AccountId : Type} [DecidableEq AccountId] [Inhabited AccountId]

/-! ## Helpers of `Module<T>` -/

def ensureSigned : Origin AccountId → Except DispatchError AccountId
  | .signed who => .ok who
  | _ => .error .badOrigin

/-- `check_op_access`: the data's level is at least the operation's, or the
user is the author. -/
def checkOpAccess (user : AccountId) (data : UserData AccountId) (op : Access) :
    Bool :=
  decide (accessValue data.access ≥ accessValue op) || decide (user = data.author)

def getExternalStorage (state : State AccountId) (dataId : List UInt8) :
    List UInt8 :=
  state.external.get dataId

def setExternalStorage (state : State AccountId) (dataId data : List UInt8) :
    State AccountId :=
  { state with external := state.external.insert dataId data }

def deleteExternalStorage (state : State AccountId) (dataId : List UInt8) :
    State AccountId :=
  { state with external := state.external.remove dataId }

def depositEvent (state : State AccountId) (event : Event) : State AccountId :=
  { state with events := state.events ++ [event] }

/-! ## Dispatchable calls -/

/-- `read_data`: emit the external data of an existing entry. -/
def readData (origin : Origin AccountId) (dataId : List UInt8)
    (state : State AccountId) : State AccountId × DispatchResult :=
  match ensureSigned origin with
  | .error failure => (state, .error failure)
  | .ok user =>
      if state.data.contains dataId then
        let data := state.data.get dataId
        if !checkOpAccess user data .read then
          (state, .error .permissionDenied)
        else
          let data := getExternalStorage state dataId
          (depositEvent state (.getData data), .ok ())
      else
        (state, .error .noneData)

/-- `write_data`: the entry is read through the getter (so an absent entry
reads as `UserData::default()`), checked against `Access::Read`, and stored
back unchanged after the external write. -/
def writeData (origin : Origin AccountId) (dataId writeData : List UInt8)
    (state : State AccountId) : State AccountId × DispatchResult :=
  match ensureSigned origin with
  | .error failure => (state, .error failure)
  | .ok user =>
      let data := state.data.get dataId
      if !checkOpAccess user data .read then
        (state, .error .permissionDenied)
      else
        let written := setExternalStorage state dataId writeData
        ({ written with data := written.data.insert dataId data }, .ok ())

/-- `delete_data`: remove an existing entry and its external data. -/
def deleteData (origin : Origin AccountId) (dataId : List UInt8)
    (state : State AccountId) : State AccountId × DispatchResult :=
  match ensureSigned origin with
  | .error failure => (state, .error failure)
  | .ok user =>
      if state.data.contains dataId then
        let data := state.data.get dataId
        if !checkOpAccess user data .read then
          (state, .error .permissionDenied)
        else
          let deleted := deleteExternalStorage state dataId
          ({ deleted with data := deleted.data.remove dataId }, .ok ())
      else
        (state, .error .noneData)

/-- The module's `Call` enum. -/
inductive Call where
  | readData (dataId : List UInt8)
  | writeData (dataId writeData : List UInt8)
  | deleteData (dataId : List UInt8)
  deriving DecidableEq, Repr

/-- Dispatch a call from an origin. -/
def dispatch (origin : Origin AccountId) :
    Call → State AccountId → State AccountId × DispatchResult
  | .readData dataId => readData origin dataId
  | .writeData dataId written => writeData origin dataId written
  | .deleteData dataId => deleteData origin dataId

/-- One extrinsic: a call with the origin it is dispatched from. -/
def step (extrinsic : Origin AccountId × Call) (state : State AccountId) :
    State AccountId × DispatchResult :=
  dispatch extrinsic.1 extrinsic.2 state

/-- The states some sequence of extrinsics reaches from genesis. -/
def Reachable (external : KVMap (List UInt8) (List UInt8))
    (state : State AccountId) : Prop :=
  Transition.Reachable (fun extrinsic current => (step extrinsic current).1)
    (genesis external) state

end OffchainStorage.Pallet
