import OffchainStorage.Arithmetic.PerThing
import OffchainStorage.Arithmetic.Rational128
import OffchainStorage.Lib.KVMap

/-!
# Sequential Phragmén: `elect`

`elect` runs in four stages, each a definition here:

* `candidateIndexCache` and `Candidate.new`: the candidates, and the index of
  each in a `BTreeMap`;
* `collectVoter`: a voter's edges to known candidates, whose approval stakes
  grow by its stake;
* `round`, run `min(candidate_count, |candidates|)` times by `runRounds`:
  fresh scores (`rescore`), the unelected candidate of least score
  (`selectWinner`), and the loads of the edges to it (`Voter.update`);
* `assign`: each voter's `Perbill` per edge to a winner (`assignmentOf`), and
  the leftover of the accuracy spread over them (`distributeLeftover`).

The stake function is `to_votes ∘ stake_of`.  Panics are the outer `none`; the
only ones left once the indices are known valid are the `u32` sum and the
division by the vote count in `distributeLeftover`.
-/

namespace OffchainStorage.Phragmen

open OffchainStorage.Arithmetic

def den : Nat :=
  u128Max

abbrev Perbill : Type :=
  PerThing PerThingType.perbill

structure Candidate (α : Type) where
  who : α
  score : Rational128
  approvalStake : Nat
  elected : Bool

structure Edge (α : Type) where
  who : α
  load : Rational128
  candidateIndex : Nat

structure Voter (α : Type) where
  who : α
  edges : List (Edge α)
  budget : Nat
  load : Rational128

structure PhragmenResult (α : Type) where
  winners : List (α × Nat)
  assignments : List (α × List (α × Perbill))

/-- The candidates, voters and winners between two rounds. -/
structure Election (α : Type) where
  candidates : List (Candidate α)
  voters : List (Voter α)
  elected : List (α × Nat)

variable {α : Type} [DecidableEq α]

/-! ## Candidates and voters -/

/-- `Candidate { who, ..Default::default() }`. -/
def Candidate.new (who : α) : Candidate α :=
  ⟨who, Rational128.default, 0, false⟩

/-- `c_idx_cache`: each candidate's index, a later duplicate overwriting an
earlier one. -/
def candidateIndexCache (initialCandidates : List α) : KVMap α Nat :=
  initialCandidates.zipIdx.foldl (fun cache entry => cache.insert entry.1 entry.2) KVMap.empty

/-- One vote `v` of a voter with `stake`: an edge when `v` is a candidate, whose
approval stake grows by the stake; unknown targets are skipped. -/
def collectVote (cache : KVMap α Nat) (stake : Nat) :
    List (Candidate α) × List (Edge α) → α → List (Candidate α) × List (Edge α)
  | (candidates, edges), v =>
    match cache.lookup v with
    | some idx =>
      (candidates.modify idx fun c =>
          { c with approvalStake := RustInt.saturatingAdd 128 c.approvalStake stake },
        edges ++ [⟨v, Rational128.default, idx⟩])
    | none => (candidates, edges)

/-- One entry of `initial_voters`, appended to `voters`. -/
def collectVoter (cache : KVMap α Nat) (stakeOf : α → Nat) :
    List (Candidate α) × List (Voter α) → α × List α → List (Candidate α) × List (Voter α)
  | (candidates, voters), (who, votes) =>
    let (candidates, edges) := votes.foldl (collectVote cache (stakeOf who)) (candidates, [])
    (candidates, voters ++ [⟨who, edges, stakeOf who, Rational128.zero⟩])

/-! ## The rounds -/

/-- Loop 1: `1 / approval_stake` as `(DEN / approval_stake) / DEN`, or
`DEN / 0` for no approval. -/
def Candidate.initializeScore (c : Candidate α) : Candidate α :=
  if c.elected then c
  else if c.approvalStake = 0 then { c with score := Rational128.fromUnchecked den 0 }
  else { c with score := Rational128.from (den / c.approvalStake) den }

/-- Loop 2, one edge: the voter's load times its share of the candidate's
approval, added to the candidate's score. -/
def incrementScore (voter : Voter α) (candidates : List (Candidate α)) (e : Edge α) :
    List (Candidate α) :=
  candidates.modify e.candidateIndex fun c =>
    if !c.elected && c.approvalStake != 0 then
      let tempN := multiplyByRationalOrMax voter.load.n voter.budget c.approvalStake
      { c with score := c.score.lazySaturatingAdd (Rational128.from tempN voter.load.d) }
    else c

/-- Loops 1 and 2: the scores of the round. -/
def rescore (election : Election α) : List (Candidate α) :=
  election.voters.foldl (fun candidates voter => voter.edges.foldl (incrementScore voter) candidates)
    (election.candidates.map Candidate.initializeScore)

/-- `min_by_key`: a later candidate replaces the one kept only when the kept
one compares greater, so the first of least score wins. -/
def keepMinScore : Option (Candidate α × Nat) → Candidate α × Nat → Option (Candidate α × Nat)
  | none, entry => some entry
  | some best, entry => if best.1.score.cmp entry.1.score = .gt then some entry else some best

/-- Loop 3: the unelected candidate of least score, with its index. -/
def selectWinner (candidates : List (Candidate α)) : Option (Candidate α × Nat) :=
  (candidates.zipIdx.filter fun entry => !entry.1.elected).foldl keepMinScore none

/-- The edges of one voter to the winner: each takes the winner's score less
the voter's load so far, and the voter's load becomes the winner's score. -/
def updateLoads (winner : Candidate α) :
    Rational128 → List (Edge α) → List (Edge α) × Rational128
  | load, [] => ([], load)
  | load, e :: rest =>
    if e.who = winner.who then
      let (rest, final) := updateLoads winner winner.score rest
      ({ e with load := winner.score.lazySaturatingSub load } :: rest, final)
    else
      let (rest, final) := updateLoads winner load rest
      (e :: rest, final)

def Voter.update (winner : Candidate α) (voter : Voter α) : Voter α :=
  let (edges, load) := updateLoads winner voter.load voter.edges
  { voter with edges := edges, load := load }

/-- One round of the main loop, or `none` where it breaks for want of an
unelected candidate. -/
def round (election : Election α) : Option (Election α) :=
  let candidates := rescore election
  (selectWinner candidates).map fun (winner, idx) =>
    let winner := { winner with elected := true }
    ⟨candidates.set idx winner, election.voters.map (Voter.update winner),
      election.elected ++ [(winner.who, winner.approvalStake)]⟩

/-- `for _round in 0..to_elect`. -/
def runRounds : Nat → Election α → Election α
  | 0, election => election
  | remaining + 1, election =>
    match round election with
    | none => { election with candidates := rescore election }
    | some next => runRounds remaining next

/-! ## Assignments -/

/-- The parts of a voter's stake on one edge: all of it when the edge carries
the voter's whole load, the ratio of the loads for equal denominators, and
nothing otherwise. -/
def edgeParts (voter : Voter α) (e : Edge α) : Nat :=
  if voter.load.eq e.load then PerThing.accuracy PerThingType.perbill
  else if e.load.d = voter.load.d then
    multiplyByRationalOrMax (PerThing.accuracy PerThingType.perbill) e.load.n voter.load.n
  else 0

/-- The voter's edges to winners, each with its parts clamped to the accuracy. -/
def assignmentOf (winners : List (α × Nat)) (voter : Voter α) : List (α × Perbill) :=
  voter.edges.filterMap fun e =>
    if winners.any fun winner => decide (winner.1 = e.who) then
      some (e.who, PerThing.fromParts PerThingType.perbill
        (RustInt.cast 32 (min (edgeParts voter e) (PerThing.accuracy PerThingType.perbill))))
    else none

/-- `current_ratio.saturating_add(Perbill::from_parts(amount))`. -/
def addParts (amount : Nat) (entry : α × Perbill) : α × Perbill :=
  (entry.1, entry.2.saturatingAdd (PerThing.fromParts PerThingType.perbill amount))

/-- `for i in indices { assignment.1[i % len].1 += amount }`. -/
def spreadParts (len amount : Nat) (indices : List Nat) (parts : List (α × Perbill)) :
    List (α × Perbill) :=
  indices.foldl (fun parts i => parts.modify (i % len) (addParts amount)) parts

/-- The leftover of the accuracy, `accuracy - sum` when the parts sum to at
most it, spread evenly and then one part at a time from the first edge. -/
def distributeLeftover (parts : List (α × Perbill)) : Option (List (α × Perbill)) := do
  let len := parts.length
  let voteCount := RustInt.cast 32 len
  let sum ← RustInt.checkedSum 32 (parts.map fun entry => entry.2.deconstruct)
  let accuracy := PerThing.accuracy PerThingType.perbill
  let diff := if sum ≤ accuracy then accuracy - sum else 0
  let diffPerVote := min (← RustInt.checkedDiv diff voteCount) accuracy
  let parts := if diffPerVote > 0 then spreadParts len diffPerVote (List.range len) parts else parts
  -- neither operation wraps: `diff_per_vote * vote_count ≤ diff`
  let remainder := diff - diffPerVote * voteCount
  pure (spreadParts len 1 (List.range remainder) parts)

/-- A voter's assignment, when it backs a winner. -/
def assign (winners : List (α × Nat)) (voter : Voter α) : Option (Option (α × List (α × Perbill))) :=
  let parts := assignmentOf winners voter
  if parts.length > 0 then (distributeLeftover parts).map fun parts => some (voter.who, parts)
  else some none

/-- `elect`: the inner `none` is the early return for too few candidates, the
outer one a panic. -/
def elect (candidateCount minimumCandidateCount : Nat) (initialCandidates : List α)
    (initialVoters : List (α × List α)) (stakeOf : α → Nat) :
    Option (Option (PhragmenResult α)) :=
  let cache := candidateIndexCache initialCandidates
  let candidates := initialCandidates.map Candidate.new
  if candidates.length < minimumCandidateCount then some none
  else
    let (candidates, voters) := initialVoters.foldl (collectVoter cache stakeOf) (candidates, [])
    let toElect := min candidateCount candidates.length
    let election := runRounds toElect ⟨candidates, voters, []⟩
    (election.voters.mapM (assign election.elected)).map fun assigned =>
      some ⟨election.elected, assigned.reduceOption⟩

end OffchainStorage.Phragmen
