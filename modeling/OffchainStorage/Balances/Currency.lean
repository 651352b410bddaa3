import OffchainStorage.Balances.Module
import OffchainStorage.Pallet.Module

/-!
# `Currency`, `ReservableCurrency` and the dispatchable calls

The operations other modules call on balances, and the four calls of the
module itself, over the storage of `Balances.Module`.  An operation returns
the state it leaves with its result; the imbalances it creates are returned
as values, for the caller to drop.  `checked_add` on balances never fails on
natural numbers, so the `Overflow` paths are not reached here.
-/

namespace OffchainStorage.Balances

variable {AccountId : Type} [DecidableEq AccountId] (config : Config)

/-! ## `Currency` -/

/-- `burn`: the issuance lowered, at most to zero. -/
def burn (amount : Nat) (state : State AccountId) : State AccountId × Imbalance :=
  if amount ≤ state.totalIssuance then
    ({ state with totalIssuance := state.totalIssuance - amount }, .positive amount)
  else
    ({ state with totalIssuance := 0 }, .positive state.totalIssuance)

/-- `issue`: the issuance raised. -/
def issue (amount : Nat) (state : State AccountId) : State AccountId × Imbalance :=
  ({ state with totalIssuance := state.totalIssuance + amount }, .negative amount)

/-- `withdraw`: the free balance lowered by `value`, unless that kills an
account that must stay alive or vesting and locks forbid it. -/
def withdraw (who : AccountId) (value : Nat) (reasons : WithdrawReasons)
    (liveness : ExistenceRequirement) (state : State AccountId) :
    State AccountId × Except Error Imbalance :=
  let oldBalance := state.freeOf who
  if value ≤ oldBalance then
    let newBalance := oldBalance - value
    if liveness = .keepAlive ∧ newBalance < config.existentialDeposit ∧
        config.existentialDeposit ≤ oldBalance then
      (state, .error .keepAlive)
    else
      match ensureCanWithdraw who value reasons newBalance state with
      | .error e => (state, .error e)
      | .ok () => ((setFreeBalance config who newBalance state).1, .ok (.negative value))
  else
    (state, .error .insufficientBalance)

/-- `slash`: the free balance first, then the reserved one; the imbalance of
what was slashed and what could not be. -/
def slash (who : AccountId) (value : Nat) (state : State AccountId) :
    State AccountId × Imbalance × Nat :=
  let freeBalance := state.freeOf who
  let freeSlash := min freeBalance value
  let state := (setFreeBalance config who (freeBalance - freeSlash) state).1
  let remainingSlash := value - freeSlash
  if remainingSlash ≠ 0 then
    let reservedBalance := state.reservedOf who
    let reservedSlash := min reservedBalance remainingSlash
    ((setReservedBalance config who (reservedBalance - reservedSlash) state).1,
      .negative (freeSlash + reservedSlash), remainingSlash - reservedSlash)
  else
    (state, .negative value, 0)

/-- `deposit_into_existing`: only into an account with some balance. -/
def depositIntoExisting (who : AccountId) (value : Nat) (state : State AccountId) :
    State AccountId × Except Error Imbalance :=
  if state.totalBalance who = 0 then
    (state, .error .deadAccount)
  else
    ((setFreeBalance config who (state.freeOf who + value) state).1, .ok (.positive value))

/-- `make_free_balance_be`: the free balance set, with the imbalance of the
change; setting an empty account below the deposit does nothing. -/
def makeFreeBalanceBe (who : AccountId) (balance : Nat) (state : State AccountId) :
    State AccountId × Imbalance × UpdateBalanceOutcome :=
  let original := state.freeOf who
  if balance < config.existentialDeposit ∧ original = 0 then
    (state, .positive 0, .accountKilled)
  else
    let imbalance : Imbalance :=
      if original ≤ balance then .positive (balance - original) else .negative (original - balance)
    if balance < config.existentialDeposit then
      ((setFreeBalance config who balance state).1, imbalance, .accountKilled)
    else
      let state := if state.freeBalance.contains who then state else newAccount who balance state
      ((setFreeBalance config who balance state).1, imbalance, .updated)

/-- `deposit_creating`: the positive imbalance of `make_free_balance_be`, and
an empty one if it was negative. -/
def depositCreating (who : AccountId) (value : Nat) (state : State AccountId) :
    State AccountId × Imbalance :=
  let (state, imbalance, _) := makeFreeBalanceBe config who (state.freeOf who + value) state
  match imbalance with
  | .positive amount => (state, .positive amount)
  | .negative _ => (state, .positive 0)

/-- `Currency::transfer`: `value` moved between free balances, and the fee,
the creation fee for a new account, handed to `TransferPayment`. -/
def transfer (transactor dest : AccountId) (value : Nat)
    (existenceRequirement : ExistenceRequirement) (state : State AccountId) :
    State AccountId × Except Error Unit :=
  let fromBalance := state.freeOf transactor
  let toBalance := state.freeOf dest
  let wouldCreate := toBalance = 0
  let fee := if wouldCreate then config.creationFee else config.transferFee
  let liability := value + fee
  if fromBalance < liability then
    (state, .error .insufficientBalance)
  else
    let newFromBalance := fromBalance - liability
    if wouldCreate ∧ value < config.existentialDeposit then
      (state, .error .existentialDeposit)
    else
      match ensureCanWithdraw transactor value [.transfer] newFromBalance state with
      | .error e => (state, .error e)
      | .ok () =>
        let newToBalance := toBalance + value
        if transactor ≠ dest then
          if existenceRequirement = .keepAlive ∧ newFromBalance < config.existentialDeposit then
            (state, .error .keepAlive)
          else
            let state := (setFreeBalance config transactor newFromBalance state).1
            let state :=
              if state.freeBalance.contains dest then state else newAccount dest newToBalance state
            let state := state.depositEvent (.transfer transactor dest value fee)
            let state := (setFreeBalance config dest newToBalance state).1
            -- `T::TransferPayment::on_unbalanced(NegativeImbalance::new(fee))`
            ((Imbalance.negative fee).drop state, .ok ())
        else
          (state, .ok ())

/-! ## `ReservableCurrency` -/

/-- `reserve`: `value` moved from the free to the reserved balance; the
reserved balance is written first. -/
def reserve (who : AccountId) (value : Nat) (state : State AccountId) :
    State AccountId × Except Error Unit :=
  let b := state.freeOf who
  if b < value then
    (state, .error .insufficientBalance)
  else
    let newBalance := b - value
    match ensureCanWithdraw who value [.reserve] newBalance state with
    | .error e => (state, .error e)
    | .ok () =>
      let state := (setReservedBalance config who (state.reservedOf who + value) state).1
      ((setFreeBalance config who newBalance state).1, .ok ())

/-- `unreserve`: up to `value` moved back to the free balance, which is
written first; what could not be unreserved. -/
def unreserve (who : AccountId) (value : Nat) (state : State AccountId) :
    State AccountId × Nat :=
  let b := state.reservedOf who
  let actual := min b value
  let state := (setFreeBalance config who (state.freeOf who + actual) state).1
  ((setReservedBalance config who (b - actual) state).1, value - actual)

/-- `slash_reserved`: up to `value` taken from the reserved balance. -/
def slashReserved (who : AccountId) (value : Nat) (state : State AccountId) :
    State AccountId × Imbalance × Nat :=
  let b := state.reservedOf who
  let slash := min b value
  ((setReservedBalance config who (b - slash) state).1, .negative slash, value - slash)

/-- `repatriate_reserved`: up to `value` moved from a reserved balance to the
free balance of an existing beneficiary. -/
def repatriateReserved (slashed beneficiary : AccountId) (value : Nat)
    (state : State AccountId) : State AccountId × Except Error Nat :=
  if state.totalBalance beneficiary = 0 then
    (state, .error .deadAccount)
  else
    let b := state.reservedOf slashed
    let slash := min b value
    let state := (setFreeBalance config beneficiary (state.freeOf beneficiary + slash) state).1
    ((setReservedBalance config slashed (b - slash) state).1, .ok (value - slash))

/-! ## Dispatchable calls -/

/-- A dispatch error: a bad origin, or an error of the module. -/
inductive DispatchError where
  | badOrigin
  | module (error : Error)
  deriving DecidableEq, Repr

/-- `ensure_signed`. -/
def ensureSigned : Pallet.Origin AccountId → Except DispatchError AccountId
  | .signed who => .ok who
  | _ => .error .badOrigin

/-- `ensure_root`. -/
def ensureRoot : Pallet.Origin AccountId → Except DispatchError Unit
  | .root => .ok ()
  | _ => .error .badOrigin

/-- A `Currency::transfer` as the result of a call. -/
def transferAs (source dest : AccountId) (value : Nat) (existenceRequirement : ExistenceRequirement)
    (state : State AccountId) : State AccountId × Except DispatchError Unit :=
  let (state, result) := transfer config source dest value existenceRequirement state
  (state, result.mapError .module)

/-- The `Drop` of the imbalance of a change from `current` to `new`. -/
def dropChange (current new : Nat) (state : State AccountId) : State AccountId :=
  if current < new then (Imbalance.positive (new - current)).drop state
  else if new < current then (Imbalance.negative (current - new)).drop state
  else state

/-- `set_balance`: both balances set by root, each below the deposit taken
as zero, with the issuance following the changes. -/
def setBalance (origin : Pallet.Origin AccountId) (who : AccountId) (newFree newReserved : Nat)
    (state : State AccountId) : State AccountId × Except DispatchError Unit :=
  match ensureRoot origin with
  | .error e => (state, .error e)
  | .ok () =>
    let existentialDeposit := config.existentialDeposit
    let newFree := if newFree < existentialDeposit then 0 else newFree
    let newReserved := if newReserved < existentialDeposit then 0 else newReserved
    let state := dropChange (state.freeOf who) newFree state
    let state := (setFreeBalance config who newFree state).1
    let state := dropChange (state.reservedOf who) newReserved state
    let state := (setReservedBalance config who newReserved state).1
    (state.depositEvent (.balanceSet who newFree newReserved), .ok ())

/-- The module's `Call` enum. -/
inductive Call (AccountId : Type) where
  | transfer (dest : AccountId) (value : Nat)
  | setBalance (who : AccountId) (newFree newReserved : Nat)
  | forceTransfer (source dest : AccountId) (value : Nat)
  | transferKeepAlive (dest : AccountId) (value : Nat)

/-- Dispatch a call from an origin. -/
def dispatch (origin : Pallet.Origin AccountId) :
    Call AccountId → State AccountId → State AccountId × Except DispatchError Unit
  | .transfer dest value, state =>
    match ensureSigned origin with
    | .error e => (state, .error e)
    | .ok transactor => transferAs config transactor dest value .allowDeath state
  | .setBalance who newFree newReserved, state => setBalance config origin who newFree newReserved state
  | .forceTransfer source dest value, state =>
    match ensureRoot origin with
    | .error e => (state, .error e)
    | .ok () => transferAs config source dest value .allowDeath state
  | .transferKeepAlive dest value, state =>
    match ensureSigned origin with
    | .error e => (state, .error e)
    | .ok transactor => transferAs config transactor dest value .keepAlive state

end OffchainStorage.Balances
