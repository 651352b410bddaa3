import OffchainStorage.Lib.KVMap

/-!
# The balances module: accounts and dust

`frame/balances` keeps two balances per account, the free one and the
reserved one, and the total issuance of the currency.  A side that falls
below the existential deposit is emptied: its dust is moved to the other side
when that side is itself above the deposit, and is otherwise handed to
`T::DustRemoval`, which drops it from the issuance; an account whose other
side is empty is reaped.

This module models the storage of the module and the low-level functions
that keep the existential-deposit law: `set_free_balance`,
`set_reserved_balance` and their handlers `on_free_too_low` and
`on_reserved_too_low`, which call each other.  They terminate because a
handler calls a setter only with a balance at or above the deposit, where
the setter calls no handler: the measure of `termination_by` counts exactly
that.

Balances are natural numbers: the arithmetic of `T::Balance` is modelled
where it does not saturate or overflow.  Imbalances are values, and a
dropped imbalance changes the issuance as its `Drop` does.  The hooks
`OnFreeBalanceZero` and `OnNewAccount` belong to other modules and change
nothing here; `DustRemoval` and `TransferPayment` drop what they are handed.
-/

namespace OffchainStorage.Balances

/-- `WithdrawReason`, the flags of `WithdrawReasons`. -/
inductive WithdrawReason where
  | transactionPayment
  | transfer
  | reserve
  | fee
  | tip
  deriving DecidableEq, Repr

/-- `WithdrawReasons`, a set of flags. -/
abbrev WithdrawReasons : Type :=
  List WithdrawReason

/-- `WithdrawReasons::intersects`. -/
def intersects (reasons others : WithdrawReasons) : Bool :=
  reasons.any others.contains

inductive UpdateBalanceOutcome where
  | updated
  | accountKilled
  deriving DecidableEq, Repr

inductive ExistenceRequirement where
  | keepAlive
  | allowDeath
  deriving DecidableEq, Repr

structure VestingSchedule where
  locked : Nat
  perBlock : Nat
  startingBlock : Nat
  deriving DecidableEq, Repr

/-- `VestingSchedule::locked_at`: what is still locked at block `n`. -/
def VestingSchedule.lockedAt (schedule : VestingSchedule) (n : Nat) : Nat :=
  let vestedBlockCount := n - schedule.startingBlock
  max schedule.locked (vestedBlockCount * schedule.perBlock) -
    vestedBlockCount * schedule.perBlock

structure BalanceLock where
  id : List UInt8
  amount : Nat
  /-- `until`, a keyword of Lean. -/
  untilBlock : Nat
  reasons : WithdrawReasons
  deriving DecidableEq, Repr

/-- The module's `Error`. -/
inductive Error where
  | vestingBalance
  | liquidityRestrictions
  | overflow
  | insufficientBalance
  | existentialDeposit
  | keepAlive
  | existingVestingSchedule
  | deadAccount
  deriving DecidableEq, Repr

/-- The events the module deposits. -/
inductive Event (AccountId : Type) where
  | newAccount (who : AccountId) (balance : Nat)
  | reapedAccount (who : AccountId) (dust : Nat)
  | transfer (source dest : AccountId) (value fee : Nat)
  | balanceSet (who : AccountId) (free reserved : Nat)
  deriving DecidableEq, Repr

/-- The constants of `Trait`. -/
structure Config where
  existentialDeposit : Nat
  transferFee : Nat
  creationFee : Nat

/-- The storage of the module, with the parts of `frame_system` it touches. -/
structure State (AccountId : Type) where
  totalIssuance : Nat
  vesting : KVMap AccountId VestingSchedule
  freeBalance : KVMap AccountId Nat
  reservedBalance : KVMap AccountId Nat
  locks : KVMap AccountId (List BalanceLock)
  /-- `frame_system::AccountNonce`. -/
  accountNonce : KVMap AccountId Nat
  /-- `frame_system::block_number()`. -/
  blockNumber : Nat
  events : List (Event AccountId)

/-- A `PositiveImbalance` (funds created) or a `NegativeImbalance` (funds
destroyed) whose opposite is not yet accounted for. -/
inductive Imbalance where
  | positive (amount : Nat)
  | negative (amount : Nat)
  deriving DecidableEq, Repr

namespace State

variable {AccountId : Type} (state : State AccountId)

/-- `free_balance`. -/
def freeOf (who : AccountId) : Nat :=
  state.freeBalance.get who

/-- `reserved_balance`. -/
def reservedOf (who : AccountId) : Nat :=
  state.reservedBalance.get who

/-- `total_balance`. -/
def totalBalance (who : AccountId) : Nat :=
  state.freeOf who + state.reservedOf who

def depositEvent (event : Event AccountId) : State AccountId :=
  { state with events := state.events ++ [event] }

end State

variable {AccountId : Type}

/-- The `Drop` of an imbalance: the issuance rises by a positive one and falls
by a negative one, saturating at zero. -/
def Imbalance.drop (state : State AccountId) : Imbalance → State AccountId
  | .positive amount => { state with totalIssuance := state.totalIssuance + amount }
  | .negative amount => { state with totalIssuance := state.totalIssuance - amount }

variable [DecidableEq AccountId]

/-- `new_account`: the hook of `OnNewAccount` and the event. -/
def newAccount (who : AccountId) (balance : Nat) (state : State AccountId) : State AccountId :=
  state.depositEvent (.newAccount who balance)

/-- `reap_account`: the nonce removed and the event. -/
def reapAccount (who : AccountId) (dust : Nat) (state : State AccountId) : State AccountId :=
  { state with accountNonce := state.accountNonce.remove who }.depositEvent (.reapedAccount who dust)

/-- The end of the dust handlers: the account is reaped when the balance left
on its other side is zero. -/
def reapIfZero (who : AccountId) (dust balance : Nat) (state : State AccountId) :
    State AccountId :=
  if balance = 0 then reapAccount who dust state else state

variable (config : Config)

mutual

/-- `set_reserved_balance`. -/
def setReservedBalance (who : AccountId) (balance : Nat) (state : State AccountId) :
    State AccountId × UpdateBalanceOutcome :=
  if _ : balance < config.existentialDeposit then
    (onReservedTooLow who { state with reservedBalance := state.reservedBalance.insert who balance },
      .accountKilled)
  else
    ({ state with reservedBalance := state.reservedBalance.insert who balance }, .updated)
termination_by if balance < config.existentialDeposit then 2 else 0
decreasing_by
  rw [if_pos ‹_›]
  omega

/-- `set_free_balance`. -/
def setFreeBalance (who : AccountId) (balance : Nat) (state : State AccountId) :
    State AccountId × UpdateBalanceOutcome :=
  if _ : balance < config.existentialDeposit then
    (onFreeTooLow who { state with freeBalance := state.freeBalance.insert who balance },
      .accountKilled)
  else
    ({ state with freeBalance := state.freeBalance.insert who balance }, .updated)
termination_by if balance < config.existentialDeposit then 2 else 0
decreasing_by
  rw [if_pos ‹_›]
  omega

/-- `on_free_too_low`: the free side taken with its locks, and its dust moved
to the reserved side when that side is above the deposit, dropped
otherwise. -/
def onFreeTooLow (who : AccountId) (state : State AccountId) : State AccountId :=
  let dust := state.freeOf who
  let taken := { state with
    freeBalance := state.freeBalance.remove who
    locks := state.locks.remove who }
  let reservedBalance := state.reservedOf who
  if dust = 0 then
    reapIfZero who dust reservedBalance taken
  else if _ : config.existentialDeposit ≤ reservedBalance then
    reapIfZero who dust (reservedBalance + dust)
      (setReservedBalance who (reservedBalance + dust) taken).1
  else
    -- `T::DustRemoval::on_unbalanced(NegativeImbalance::new(dust))`
    reapIfZero who dust reservedBalance ((Imbalance.negative dust).drop taken)
termination_by 1
decreasing_by
  rw [if_neg (by omega)]
  omega

/-- `on_reserved_too_low`: the reserved side taken, and its dust moved to the
free side when that side is above the deposit, dropped otherwise. -/
def onReservedTooLow (who : AccountId) (state : State AccountId) : State AccountId :=
  let dust := state.reservedOf who
  let taken := { state with reservedBalance := state.reservedBalance.remove who }
  let freeBalance := state.freeOf who
  if dust = 0 then
    reapIfZero who dust freeBalance taken
  else if _ : config.existentialDeposit ≤ freeBalance then
    reapIfZero who dust (freeBalance + dust) (setFreeBalance who (freeBalance + dust) taken).1
  else
    reapIfZero who dust freeBalance ((Imbalance.negative dust).drop taken)
termination_by 1
decreasing_by
  rw [if_neg (by omega)]
  omega

end

/-- `vesting_balance`: the part of the free balance still vesting. -/
def vestingBalance (who : AccountId) (state : State AccountId) : Nat :=
  match state.vesting.lookup who with
  | some schedule => min (state.freeOf who) (schedule.lockedAt state.blockNumber)
  | none => 0

/-- `ensure_can_withdraw`: vesting and locks allow the free balance to fall
to `newBalance` for these reasons. -/
def ensureCanWithdraw (who : AccountId) (_amount : Nat) (reasons : WithdrawReasons)
    (newBalance : Nat) (state : State AccountId) : Except Error Unit :=
  if intersects reasons [.reserve, .transfer] && decide (newBalance < vestingBalance who state) then
    .error .vestingBalance
  else
    let locks := state.locks.get who
    if locks.isEmpty then
      .ok ()
    else if locks.all fun lock =>
        decide (lock.untilBlock ≤ state.blockNumber) || decide (lock.amount ≤ newBalance) ||
          !intersects lock.reasons reasons then
      .ok ()
    else
      .error .liquidityRestrictions

end OffchainStorage.Balances
