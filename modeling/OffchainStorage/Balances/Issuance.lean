import OffchainStorage.Balances.Currency
import Mathlib

/-!
# Total issuance and the balances of the accounts

`TotalIssuance` is meant to be the sum of the free and reserved balances of
all accounts, every imbalance being dropped once its operation returns.  The
sum is taken over a finite set of accounts that holds every account with a
balance (`issued`).

The setters are described once, by what they leave in storage
(`setFreeBalance_of_le`, `setReservedBalance_of_lt`, ...), and a change of
one account's balances changes the sum by that account's difference
(`issued_add_of_agree`).  `reserve` writes the reserved balance first and the
free balance second: when the new reserved balance is below the existential
deposit, its dust is moved to the free side and then overwritten, so the
funds leave the accounts while the issuance stays
(`reserve_below_deposit_loses_funds`).
-/

namespace OffchainStorage.Balances

variable {AccountId : Type} [DecidableEq AccountId]

/-- The free and reserved balances of a set of accounts. -/
def issued (accounts : Finset AccountId) (state : State AccountId) : Nat :=
  ∑ who ∈ accounts, state.totalBalance who

/-- A change to the balances of one account of the set changes the sum by the
change to that account's balances. -/
theorem issued_add_of_agree {accounts : Finset AccountId} {who : AccountId}
    (member : who ∈ accounts) {before after : State AccountId}
    (others : ∀ other, other ≠ who → after.totalBalance other = before.totalBalance other) :
    issued accounts after + before.totalBalance who =
      issued accounts before + after.totalBalance who := by
  have rest : ∑ other ∈ accounts.erase who, after.totalBalance other =
      ∑ other ∈ accounts.erase who, before.totalBalance other :=
    Finset.sum_congr rfl fun other inRest => others other (Finset.ne_of_mem_erase inRest)
  unfold issued
  rw [← Finset.add_sum_erase accounts _ member, ← Finset.add_sum_erase accounts _ member, rest]
  omega

/-! ## The setters -/

section Setters

variable (config : Config) (who : AccountId)

theorem setFreeBalance_of_le {balance : Nat} (state : State AccountId)
    (enough : config.existentialDeposit ≤ balance) :
    setFreeBalance config who balance state =
      ({ state with freeBalance := state.freeBalance.insert who balance }, .updated) := by
  rw [setFreeBalance, dif_neg (Nat.not_lt.mpr enough)]

theorem setReservedBalance_of_le {balance : Nat} (state : State AccountId)
    (enough : config.existentialDeposit ≤ balance) :
    setReservedBalance config who balance state =
      ({ state with reservedBalance := state.reservedBalance.insert who balance }, .updated) := by
  rw [setReservedBalance, dif_neg (Nat.not_lt.mpr enough)]

theorem setReservedBalance_of_lt {balance : Nat} (state : State AccountId)
    (below : balance < config.existentialDeposit) :
    setReservedBalance config who balance state =
      (onReservedTooLow config who
        { state with reservedBalance := state.reservedBalance.insert who balance },
        .accountKilled) := by
  rw [setReservedBalance, dif_pos below]

/-- Reserved dust moved to a free balance above the deposit: the reserved
side is taken and the free side grows by the dust. -/
theorem onReservedTooLow_of_le (state : State AccountId) (dust : state.reservedOf who ≠ 0)
    (enough : config.existentialDeposit ≤ state.freeOf who) :
    onReservedTooLow config who state =
      { state with
        reservedBalance := state.reservedBalance.remove who
        freeBalance := state.freeBalance.insert who (state.freeOf who + state.reservedOf who) } := by
  have grown : config.existentialDeposit ≤ state.freeOf who + state.reservedOf who := by omega
  rw [onReservedTooLow]
  simp only [dust, if_false, dif_pos enough, setFreeBalance_of_le config who _ grown, reapIfZero]
  rw [if_neg (by omega)]

end Setters

/-! ## `reserve` below the existential deposit -/

section Reserve

variable (config : Config) {who : AccountId} {value : Nat} {state : State AccountId}

omit [DecidableEq AccountId] in
/-- With no vesting and no locks, `ensure_can_withdraw` allows anything. -/
theorem ensureCanWithdraw_of_free (amount : Nat) (reasons : WithdrawReasons) (newBalance : Nat)
    (unvested : state.vesting.lookup who = none) (unlocked : state.locks.get who = []) :
    ensureCanWithdraw who amount reasons newBalance state = .ok () := by
  have noVesting : vestingBalance who state = 0 := by
    simp only [vestingBalance, unvested]
  simp [ensureCanWithdraw, noVesting, unlocked]

/-- `reserve` of an amount that leaves the reserved balance below the deposit,
from an account whose free balance stays above it: the reserved dust is moved
to the free balance by `on_reserved_too_low`, which `reserve` then overwrites
with the free balance it computed before. -/
theorem reserve_of_dust (unvested : state.vesting.lookup who = none)
    (unlocked : state.locks.get who = [])
    (dust : 0 < state.reservedOf who + value)
    (below : state.reservedOf who + value < config.existentialDeposit)
    (funded : config.existentialDeposit + value ≤ state.freeOf who) :
    reserve config who value state =
      ({ state with
        reservedBalance := (state.reservedBalance.insert who (state.reservedOf who + value)).remove who
        freeBalance :=
          (state.freeBalance.insert who
            (state.freeOf who + (state.reservedOf who + value))).insert who
            (state.freeOf who - value) }, .ok ()) := by
  have covered : ¬ state.freeOf who < value := by omega
  -- the reserved write goes below the deposit, and its dust lands on the free side
  have reservedWritten :
      (setReservedBalance config who (state.reservedOf who + value) state).1 =
        { state with
          reservedBalance :=
            (state.reservedBalance.insert who (state.reservedOf who + value)).remove who
          freeBalance :=
            state.freeBalance.insert who (state.freeOf who + (state.reservedOf who + value)) } := by
    rw [setReservedBalance_of_lt config who state below,
      onReservedTooLow_of_le config who
        { state with reservedBalance := state.reservedBalance.insert who (state.reservedOf who + value) }
        (by simp only [State.reservedOf, KVMap.get_insert_self] at dust ⊢; omega)
        (show config.existentialDeposit ≤ state.freeOf who by omega)]
    simp [State.reservedOf, State.freeOf]
  unfold reserve
  simp only [covered, if_false, ensureCanWithdraw_of_free _ _ _ unvested unlocked,
    reservedWritten, setFreeBalance_of_le config who _ (show config.existentialDeposit ≤
      state.freeOf who - value by omega)]

/-- Reserving an amount that leaves the reserved balance below the existential
deposit, from an account without vesting or locks whose free balance stays
above the deposit, succeeds; it keeps the issuance, and takes the new
reserved balance, old reserve and amount together, out of the balances of
the accounts.  So the issuance, equal to their sum before, exceeds it after. -/
theorem reserve_below_deposit_loses_funds (accounts : Finset AccountId) (member : who ∈ accounts)
    (unvested : state.vesting.lookup who = none) (unlocked : state.locks.get who = [])
    (dust : 0 < state.reservedOf who + value)
    (below : state.reservedOf who + value < config.existentialDeposit)
    (funded : config.existentialDeposit + value ≤ state.freeOf who) :
    (reserve config who value state).2 = .ok () ∧
      (reserve config who value state).1.totalIssuance = state.totalIssuance ∧
      issued accounts (reserve config who value state).1 + (state.reservedOf who + value) =
        issued accounts state ∧
      (state.totalIssuance = issued accounts state →
        (reserve config who value state).1.totalIssuance ≠
          issued accounts (reserve config who value state).1) := by
  rw [reserve_of_dust config unvested unlocked dust below funded]
  set final : State AccountId := { state with
    reservedBalance := (state.reservedBalance.insert who (state.reservedOf who + value)).remove who
    freeBalance :=
      (state.freeBalance.insert who
        (state.freeOf who + (state.reservedOf who + value))).insert who
        (state.freeOf who - value) } with finalIs
  have finalFree : final.freeOf who = state.freeOf who - value := by
    simp [finalIs, State.freeOf]
  have finalReserved : final.reservedOf who = 0 := by
    simp [finalIs, State.reservedOf]
  -- only the reserving account's balances change
  have others : ∀ other, other ≠ who → final.totalBalance other = state.totalBalance other := by
    intro other different
    simp [finalIs, State.totalBalance, State.freeOf, State.reservedOf,
      KVMap.get_insert_of_ne _ _ different, KVMap.get_remove_of_ne _ different]
  have moved := issued_add_of_agree member others
  rw [State.totalBalance, State.totalBalance, finalFree, finalReserved] at moved
  have spent : state.freeOf who - value + value = state.freeOf who := Nat.sub_add_cancel (by omega)
  have keeps : final.totalIssuance = state.totalIssuance := rfl
  dsimp only
  refine ⟨rfl, keeps, by omega, fun conserved => by omega⟩

/-- One account, `0`, holding 100 free, and an issuance of 100. -/
def fundedAccount : State Nat :=
  ⟨100, KVMap.empty, KVMap.empty.insert 0 100, KVMap.empty, KVMap.empty, KVMap.empty, 0, []⟩

theorem reserve_below_deposit_loses_funds_of_five :
    (reserve ⟨10, 0, 0⟩ 0 5 fundedAccount).2 = .ok () ∧
      (reserve ⟨10, 0, 0⟩ 0 5 fundedAccount).1.totalIssuance = fundedAccount.totalIssuance ∧
      issued {0} (reserve ⟨10, 0, 0⟩ 0 5 fundedAccount).1 + (fundedAccount.reservedOf 0 + 5) =
        issued {0} fundedAccount ∧
      (fundedAccount.totalIssuance = issued {0} fundedAccount →
        (reserve ⟨10, 0, 0⟩ 0 5 fundedAccount).1.totalIssuance ≠
          issued {0} (reserve ⟨10, 0, 0⟩ 0 5 fundedAccount).1) :=
  reserve_below_deposit_loses_funds ⟨10, 0, 0⟩ {0} (Finset.mem_singleton_self 0) rfl rfl
    (by decide) (by decide) (by decide)

end Reserve

end OffchainStorage.Balances
