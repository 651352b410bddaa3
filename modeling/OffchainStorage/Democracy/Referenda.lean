import Mathlib
import OffchainStorage.Democracy.Tally
import OffchainStorage.Democracy.Threshold
import OffchainStorage.Lib.VecOps

/-!
# The life of a referendum

A referendum is injected at index `ReferendumCount` with the block it ends
at, and `on_initialize(n)` bakes the referenda of `LowestUnbaked..ReferendumCount`
whose end is `n`: it tallies them, clears them, and enacts an approved one at
once or queues it in `DispatchQueue`, sorted by block, for `n + delay`.  The
same block enacts the prefix of the queue due at `n`.

`clear_referendum` removes `VotersFor(r)` before it walks `voters_for(r)` to
remove the votes, so the walk finds no voter and every `VoteOf((r, a))`
stays.  When `LowestUnbaked` is `ReferendumCount` and the index cleared is
that one, `LowestUnbaked` moves past the count, and the next referendum is
injected below it, where `maturing_referenda_at` never looks.
-/

namespace OffchainStorage.Democracy

/-- `ReferendumInfo`; its `end` is `ends`. -/
structure ReferendumInfo (Hash : Type) where
  ends : Nat
  proposalHash : Hash
  threshold : VoteThreshold
  delay : Nat

/-- The constants of `T: Trait` the referenda read. -/
structure Periods where
  enactmentPeriod : Nat
  launchPeriod : Nat
  votingPeriod : Nat
  minimumDeposit : Nat
  emergencyVotingPeriod : Nat

/-- The events of the referenda; `Enacted` is a call of `enact_proposal`,
which deposits one of `Executed`, `PreimageInvalid` and `PreimageMissing`. -/
inductive Event (Hash : Type) where
  | Started (index : Nat) (threshold : VoteThreshold)
  | Passed (index : Nat)
  | NotPassed (index : Nat)
  | Cancelled (index : Nat)
  | Enacted (proposalHash : Hash) (index : Nat)

/-- The storage of the referenda, with the block number and the events. -/
structure Referenda (AccountId Hash : Type) [DecidableEq AccountId] where
  votes : Storage AccountId
  publicPropCount : Nat
  publicProps : List (Nat × Hash × AccountId)
  depositOf : KVMap Nat (Nat × List AccountId)
  referendumCount : Nat
  lowestUnbaked : Nat
  referendumInfoOf : KVMap Nat (ReferendumInfo Hash)
  dispatchQueue : List (Nat × Hash × Nat)
  lastTabledWasExternal : Bool
  nextExternal : Option (Hash × VoteThreshold)
  cancellations : KVMap Hash Bool
  totalIssuance : Nat
  blockNumber : Nat
  events : List (Event Hash)

/-- The errors of the dispatchables. -/
inductive DispatchError where
  | ValueLow
  | InsufficientBalance
  | ProposalMissing
  | BadIndex
  | AlreadyCanceled
  | NotSimpleMajority
  | InvalidHash
  | ReferendumInvalid
  deriving DecidableEq, Repr

namespace Referenda

variable {AccountId Hash : Type} [DecidableEq AccountId] [DecidableEq Hash]

/-- The storage before the first block, every item at its default. -/
def genesis (totalBalance : AccountId → Nat) (totalIssuance : Nat) : Referenda AccountId Hash :=
  ⟨⟨fun _ => [], KVMap.empty, ∅, totalBalance⟩, 0, [], KVMap.empty, 0, 0, KVMap.empty, [], false, none, KVMap.empty,
    totalIssuance, 0, []⟩

/-- `is_active_referendum`. -/
def isActiveReferendum (state : Referenda AccountId Hash) (refIndex : Nat) : Bool :=
  state.referendumInfoOf.contains refIndex

/-- The indices of `next..last` with their info. -/
def referendaFrom (state : Referenda AccountId Hash) : List (Nat × ReferendumInfo Hash) :=
  (List.range' state.lowestUnbaked (state.referendumCount - state.lowestUnbaked)).filterMap fun i =>
    (state.referendumInfoOf.lookup i).map fun info => (i, info)

/-- `active_referenda`. -/
def activeReferenda (state : Referenda AccountId Hash) : List (Nat × ReferendumInfo Hash) :=
  state.referendaFrom

/-- `maturing_referenda_at(n)`. -/
def maturingReferendaAt (n : Nat) (state : Referenda AccountId Hash) : List (Nat × ReferendumInfo Hash) :=
  state.referendaFrom.filter fun referendum => referendum.2.ends = n

/-- `inject_referendum`, with the index it returns. -/
def injectReferendum (ends : Nat) (proposalHash : Hash) (threshold : VoteThreshold) (delay : Nat)
    (state : Referenda AccountId Hash) : Nat × Referenda AccountId Hash :=
  let refIndex := state.referendumCount
  (refIndex, { state with
    referendumCount := refIndex + 1
    referendumInfoOf := state.referendumInfoOf.insert refIndex ⟨ends, proposalHash, threshold, delay⟩
    events := state.events ++ [.Started refIndex threshold] })

/-- The loop `while !is_active_referendum(i) && i < end { i += 1 }`, with at
least `end - i` rounds of fuel. -/
def skipInactive (active : Nat → Bool) (ends : Nat) : Nat → Nat → Nat
  | 0, i => i
  | fuel + 1, i => if !active i && decide (i < ends) then skipInactive active ends fuel (i + 1) else i

/-- `clear_referendum`: `VotersFor` goes before `voters_for` is read. -/
def clearReferendum (refIndex : Nat) (state : Referenda AccountId Hash) : Referenda AccountId Hash :=
  let referendumInfoOf := state.referendumInfoOf.remove refIndex
  let lowestUnbaked :=
    if state.lowestUnbaked = refIndex then
      skipInactive referendumInfoOf.contains state.referendumCount state.referendumCount (refIndex + 1)
    else state.lowestUnbaked
  let votersFor := Function.update state.votes.votersFor refIndex []
  let voteOf := (votersFor refIndex).foldl (fun voteOf v => voteOf.remove (refIndex, v)) state.votes.voteOf
  { state with
    referendumInfoOf := referendumInfoOf
    lowestUnbaked := lowestUnbaked
    votes := { state.votes with votersFor := votersFor, voteOf := voteOf } }

/-- `enact_proposal`, as the call it makes. -/
def enactProposal (proposalHash : Hash) (index : Nat) (state : Referenda AccountId Hash) : Referenda AccountId Hash :=
  { state with events := state.events ++ [.Enacted proposalHash index] }

/-- The end of `bake_referendum`, once the referendum is cleared: an approved
proposal is enacted at once or queued for `now + delay` where a search for
that block puts it. -/
def settle (now index : Nat) (info : ReferendumInfo Hash) (approved : Bool) (state : Referenda AccountId Hash) :
    Referenda AccountId Hash :=
  if approved then
    let state := { state with events := state.events ++ [.Passed index] }
    if info.delay = 0 then enactProposal info.proposalHash index state
    else
      let item := (now + info.delay, info.proposalHash, index)
      let position := VecOps.unwrapOrElse (VecOps.binarySearchByKey state.dispatchQueue item.1 fun x => x.1)
      { state with dispatchQueue := state.dispatchQueue.insertIdx position item }
  else { state with events := state.events ++ [.NotPassed index] }

/-- `bake_referendum`; `none` is a panic of the threshold's comparison. -/
def bakeReferendum (now index : Nat) (info : ReferendumInfo Hash) (state : Referenda AccountId Hash) :
    Option (Referenda AccountId Hash) :=
  let counted := state.votes.tally index
  (info.threshold.approved counted.1 counted.2.1 counted.2.2 state.totalIssuance).map fun approved =>
    settle now index info approved (clearReferendum index state)

/-- `Iterator::max_by_key` over the enumerated items: the last of the largest. -/
def maxByKey {α : Type} (key : α → Nat) (items : List α) : Option (Nat × α) :=
  (items.zipIdx.foldl (fun best item =>
    match best with
    | none => some item
    | some (chosen, _) => if key chosen ≤ key item.1 then some item else best) none).map fun found =>
      (found.2, found.1)

/-- `locked_for`. -/
def lockedFor (state : Referenda AccountId Hash) (proposal : Nat) : Option Nat :=
  (state.depositOf.lookup proposal).map fun deposit => deposit.1 * deposit.2.length

/-- `launch_external`; `none` is `NoneWaiting`. -/
def launchExternal (periods : Periods) (now : Nat) (state : Referenda AccountId Hash) :
    Option (Referenda AccountId Hash) :=
  match state.nextExternal with
  | some (proposal, threshold) =>
    let state := { state with nextExternal := none, lastTabledWasExternal := true }
    some (injectReferendum (now + periods.votingPeriod) proposal threshold periods.enactmentPeriod state).2
  | none => none

/-- `launch_public`; `none` is `NoneWaiting`. -/
def launchPublic (periods : Periods) (now : Nat) (state : Referenda AccountId Hash) :
    Option (Referenda AccountId Hash) :=
  match maxByKey (fun prop => (state.lockedFor prop.1).getD 0) state.publicProps with
  | none => none
  | some (winnerIndex, (propIndex, proposal, _)) =>
    let state := { state with publicProps := VecOps.swapRemove state.publicProps winnerIndex }
    match state.depositOf.lookup propIndex with
    | some _ =>
      let state := { state with depositOf := state.depositOf.remove propIndex }
      some (injectReferendum (now + periods.votingPeriod) proposal .SuperMajorityApprove
        periods.enactmentPeriod state).2
    | none => some state

/-- `launch_next`: its error is ignored, and `LastTabledWasExternal` is taken either way. -/
def launchNext (periods : Periods) (now : Nat) (state : Referenda AccountId Hash) : Referenda AccountId Hash :=
  let wasExternal := state.lastTabledWasExternal
  let state := { state with lastTabledWasExternal := false }
  if wasExternal then
    ((launchPublic periods now state).orElse fun _ => launchExternal periods now state).getD state
  else ((launchExternal periods now state).orElse fun _ => launchPublic periods now state).getD state

/-- The loop of `begin_block` over the maturing referenda. -/
def bakeAll (now : Nat) : List (Nat × ReferendumInfo Hash) → Referenda AccountId Hash →
    Option (Referenda AccountId Hash)
  | [], state => some state
  | (index, info) :: rest, state => (bakeReferendum now index info state).bind (bakeAll now rest)

/-- The enactment of the queued items due at `now`, in order. -/
def enactDue (now : Nat) (queue : List (Nat × Hash × Nat)) (state : Referenda AccountId Hash) :
    Referenda AccountId Hash :=
  (queue.takeWhile fun item => item.1 = now).foldl (fun state item => enactProposal item.2.1 item.2.2 state) state

/-- The end of `begin_block`: the items of the queue due at `now` are enacted
in order, and the queue is written back without them. -/
def dispatchDue (now : Nat) (state : Referenda AccountId Hash) : Referenda AccountId Hash :=
  let queue := state.dispatchQueue
  let used := (queue.takeWhile fun item => item.1 = now).length
  let state := enactDue now queue state
  if used ≠ 0 then { state with dispatchQueue := queue.drop used } else state

/-- `begin_block(now)`; `none` is a panic (`now % LaunchPeriod` by zero, or a threshold). -/
def beginBlock (periods : Periods) (now : Nat) (state : Referenda AccountId Hash) :
    Option (Referenda AccountId Hash) :=
  if periods.launchPeriod = 0 then none
  else
    let state := if now % periods.launchPeriod = 0 then launchNext periods now state else state
    (bakeAll now (maturingReferendaAt now state) state).map (dispatchDue now)

/-! ## The dispatchables -/

def propose (periods : Periods) (who : AccountId) (proposalHash : Hash) (value : Nat) (reserved : Bool)
    (state : Referenda AccountId Hash) : Except DispatchError (Referenda AccountId Hash) :=
  if value < periods.minimumDeposit then .error .ValueLow
  else if !reserved then .error .InsufficientBalance
  else
    let index := state.publicPropCount
    .ok { state with
      publicPropCount := index + 1
      depositOf := state.depositOf.insert index (value, [who])
      publicProps := state.publicProps ++ [(index, proposalHash, who)] }

def second (who : AccountId) (proposal : Nat) (reserved : Bool) (state : Referenda AccountId Hash) :
    Except DispatchError (Referenda AccountId Hash) :=
  match state.depositOf.lookup proposal with
  | none => Except.error .ProposalMissing
  | some deposit =>
    if !reserved then Except.error .InsufficientBalance
    else Except.ok { state with depositOf := state.depositOf.insert proposal (deposit.1, deposit.2 ++ [who]) }

/-- `vote`, through `do_vote`. -/
def vote (who : AccountId) (refIndex : Nat) (ballot : Vote) (state : Referenda AccountId Hash) :
    Except DispatchError (Referenda AccountId Hash) :=
  match doVote who refIndex ballot (state.isActiveReferendum refIndex) state.votes with
  | .error _ => Except.error .ReferendumInvalid
  | .ok votes => Except.ok { state with votes := votes }

def emergencyCancel (refIndex : Nat) (state : Referenda AccountId Hash) :
    Except DispatchError (Referenda AccountId Hash) :=
  match state.referendumInfoOf.lookup refIndex with
  | none => Except.error .BadIndex
  | some info =>
    if state.cancellations.contains info.proposalHash then Except.error .AlreadyCanceled
    else Except.ok (clearReferendum refIndex { state with
      cancellations := state.cancellations.insert info.proposalHash true })

def externalProposeMajority (proposalHash : Hash) (state : Referenda AccountId Hash) : Referenda AccountId Hash :=
  { state with nextExternal := some (proposalHash, .SimpleMajority) }

def externalProposeDefault (proposalHash : Hash) (state : Referenda AccountId Hash) : Referenda AccountId Hash :=
  { state with nextExternal := some (proposalHash, .SuperMajorityAgainst) }

def fastTrack (periods : Periods) (proposalHash : Hash) (votingPeriod delay : Nat) (state : Referenda AccountId Hash) :
    Except DispatchError (Referenda AccountId Hash) :=
  match state.nextExternal with
  | none => Except.error .ProposalMissing
  | some (externalHash, threshold) =>
    if threshold = .SuperMajorityApprove then Except.error .NotSimpleMajority
    else if proposalHash ≠ externalHash then Except.error .InvalidHash
    else
      let state := { state with nextExternal := none }
      let period := max votingPeriod periods.emergencyVotingPeriod
      Except.ok (injectReferendum (state.blockNumber + period) proposalHash threshold delay state).2

def cancelReferendum (refIndex : Nat) (state : Referenda AccountId Hash) : Referenda AccountId Hash :=
  clearReferendum refIndex state

def cancelQueued (which : Nat) (state : Referenda AccountId Hash) : Except DispatchError (Referenda AccountId Hash) :=
  let items := state.dispatchQueue.filter fun item => item.2.2 ≠ which
  if items.length < state.dispatchQueue.length then Except.ok { state with dispatchQueue := items }
  else Except.error .ProposalMissing

/-- `on_initialize` of the next block. -/
def onInitialize (periods : Periods) (state : Referenda AccountId Hash) : Option (Referenda AccountId Hash) :=
  beginBlock periods (state.blockNumber + 1) { state with blockNumber := state.blockNumber + 1 }

end Referenda

/-- The dispatchables and the blocks; `delegate` and `undelegate` write the
delegations the tally reads. -/
inductive Operation (AccountId Hash : Type) where
  | propose (who : AccountId) (proposalHash : Hash) (value : Nat) (reserved : Bool)
  | second (who : AccountId) (proposal : Nat) (reserved : Bool)
  | vote (who : AccountId) (refIndex : Nat) (ballot : Vote)
  | emergencyCancel (refIndex : Nat)
  | externalProposeMajority (proposalHash : Hash)
  | externalProposeDefault (proposalHash : Hash)
  | fastTrack (proposalHash : Hash) (votingPeriod delay : Nat)
  | cancelReferendum (refIndex : Nat)
  | cancelQueued (which : Nat)
  | delegate (who target : AccountId) (conviction : Conviction)
  | undelegate (who : AccountId)
  | onInitialize

namespace Operation

variable {AccountId Hash : Type} [DecidableEq AccountId] [DecidableEq Hash]

/-- A dispatchable that fails writes nothing. -/
def dispatched (result : Except DispatchError (Referenda AccountId Hash)) (state : Referenda AccountId Hash) :
    Referenda AccountId Hash :=
  match result with
  | .ok after => after
  | .error _ => state

/-- One operation; `none` is a panic. -/
def step (periods : Periods) : Operation AccountId Hash → Referenda AccountId Hash → Option (Referenda AccountId Hash)
  | .propose who proposalHash value reserved, state =>
    some (dispatched (state.propose periods who proposalHash value reserved) state)
  | .second who proposal reserved, state => some (dispatched (state.second who proposal reserved) state)
  | .vote who refIndex ballot, state => some (dispatched (state.vote who refIndex ballot) state)
  | .emergencyCancel refIndex, state => some (dispatched (state.emergencyCancel refIndex) state)
  | .externalProposeMajority proposalHash, state => some (state.externalProposeMajority proposalHash)
  | .externalProposeDefault proposalHash, state => some (state.externalProposeDefault proposalHash)
  | .fastTrack proposalHash votingPeriod delay, state =>
    some (dispatched (state.fastTrack periods proposalHash votingPeriod delay) state)
  | .cancelReferendum refIndex, state => some (state.cancelReferendum refIndex)
  | .cancelQueued which, state => some (dispatched (state.cancelQueued which) state)
  | .delegate who target conviction, state =>
    some { state with votes := { state.votes with delegations := state.votes.delegations.insert who (target, conviction) } }
  | .undelegate who, state =>
    some (if state.votes.delegations.lookup who = none then state
      else { state with votes := { state.votes with delegations := state.votes.delegations.erase who } })
  | .onInitialize, state => state.onInitialize periods

end Operation

def run {AccountId Hash : Type} [DecidableEq AccountId] [DecidableEq Hash] (periods : Periods) :
    List (Operation AccountId Hash) → Referenda AccountId Hash → Option (Referenda AccountId Hash)
  | [], state => some state
  | operation :: rest, state => (operation.step periods state).bind (run periods rest)

namespace Referenda

variable {AccountId Hash : Type} [DecidableEq AccountId]

/-! ## `clear_referendum` -/

/-- The votes are left as they were: the walk over `voters_for` reads the
list just removed. -/
theorem clearReferendum_voteOf (refIndex : Nat) (state : Referenda AccountId Hash) :
    (clearReferendum refIndex state).votes.voteOf = state.votes.voteOf := by
  simp [clearReferendum]

theorem clearReferendum_votersFor (refIndex : Nat) (state : Referenda AccountId Hash) :
    (clearReferendum refIndex state).votes.votersFor = Function.update state.votes.votersFor refIndex [] :=
  rfl

/-- A referendum that had a vote keeps it after `clear_referendum`, with no voter listed. -/
theorem clear_referendum_leaves_votes (state : Referenda AccountId Hash) {refIndex : Nat} {account : AccountId}
    (voted : state.votes.voted refIndex account = true) :
    (clearReferendum refIndex state).votes.votersFor refIndex = [] ∧
      (clearReferendum refIndex state).votes.voted refIndex account = true := by
  refine ⟨by rw [clearReferendum_votersFor, Function.update_self], ?_⟩
  rw [Storage.voted, clearReferendum_voteOf]
  exact voted

/-! ## `LowestUnbaked` never goes back -/

theorem le_skipInactive (active : Nat → Bool) (ends : Nat) : ∀ fuel i, i ≤ skipInactive active ends fuel i := by
  intro fuel
  induction fuel with
  | zero => intro i; exact Nat.le_refl i
  | succ fuel ih =>
    intro i
    unfold skipInactive
    split
    · exact Nat.le_of_succ_le (ih (i + 1))
    · exact Nat.le_refl i

theorem lowestUnbaked_le_clearReferendum (refIndex : Nat) (state : Referenda AccountId Hash) :
    state.lowestUnbaked ≤ (clearReferendum refIndex state).lowestUnbaked := by
  show state.lowestUnbaked ≤ if state.lowestUnbaked = refIndex then _ else state.lowestUnbaked
  split
  · rename_i atLowest
    rw [atLowest]
    exact Nat.le_of_succ_le (le_skipInactive _ _ _ _)
  · exact Nat.le_refl _

theorem lowestUnbaked_settle (now index : Nat) (info : ReferendumInfo Hash) (approved : Bool)
    (state : Referenda AccountId Hash) : (settle now index info approved state).lowestUnbaked = state.lowestUnbaked := by
  unfold settle
  split
  · split <;> rfl
  · rfl

theorem lowestUnbaked_bakeReferendum {now index : Nat} {info : ReferendumInfo Hash} {state next : Referenda AccountId Hash}
    (baked : bakeReferendum now index info state = some next) :
    next.lowestUnbaked = (clearReferendum index state).lowestUnbaked := by
  obtain ⟨approved, -, settled⟩ := Option.map_eq_some_iff.mp baked
  rw [← settled, lowestUnbaked_settle]

theorem lowestUnbaked_le_bakeAll (now : Nat) :
    ∀ (referenda : List (Nat × ReferendumInfo Hash)) {state next : Referenda AccountId Hash},
      bakeAll now referenda state = some next → state.lowestUnbaked ≤ next.lowestUnbaked := by
  intro referenda
  induction referenda with
  | nil =>
    intro state next baked
    cases baked
    exact Nat.le_refl _
  | cons referendum rest ih =>
    intro state next baked
    obtain ⟨index, info⟩ := referendum
    obtain ⟨after, bakedFirst, bakedRest⟩ := Option.bind_eq_some_iff.mp baked
    calc state.lowestUnbaked ≤ (clearReferendum index state).lowestUnbaked := lowestUnbaked_le_clearReferendum index state
      _ = after.lowestUnbaked := (lowestUnbaked_bakeReferendum bakedFirst).symm
      _ ≤ next.lowestUnbaked := ih bakedRest

/-- What the launches and the enactments leave alone: `LowestUnbaked`, the
dispatch queue and the block. -/
structure Frame (state next : Referenda AccountId Hash) : Prop where
  lowestUnbaked : next.lowestUnbaked = state.lowestUnbaked
  dispatchQueue : next.dispatchQueue = state.dispatchQueue
  blockNumber : next.blockNumber = state.blockNumber

theorem Frame.refl (state : Referenda AccountId Hash) : Frame state state :=
  ⟨rfl, rfl, rfl⟩

theorem Frame.trans {state middle next : Referenda AccountId Hash} (first : Frame state middle)
    (second : Frame middle next) : Frame state next :=
  ⟨second.1.trans first.1, second.2.trans first.2, second.3.trans first.3⟩

theorem launchExternal_frame {periods : Periods} {now : Nat} {state next : Referenda AccountId Hash}
    (launched : launchExternal periods now state = some next) : Frame state next := by
  unfold launchExternal at launched
  split at launched
  · cases launched
    exact ⟨rfl, rfl, rfl⟩
  · cases launched

theorem launchPublic_frame {periods : Periods} {now : Nat} {state next : Referenda AccountId Hash}
    (launched : launchPublic periods now state = some next) : Frame state next := by
  unfold launchPublic at launched
  split at launched
  · cases launched
  · dsimp only at launched
    split at launched
    · cases launched
      exact ⟨rfl, rfl, rfl⟩
    · cases launched
      exact ⟨rfl, rfl, rfl⟩

/-- Each launch tried first falls back to the other one, and then to the state
with `LastTabledWasExternal` taken. -/
theorem launchNext_frame (periods : Periods) (now : Nat) (state : Referenda AccountId Hash) :
    Frame state (launchNext periods now state) := by
  have taken : Frame state { state with lastTabledWasExternal := false } := ⟨rfl, rfl, rfl⟩
  have fallback : ∀ first second : Option (Referenda AccountId Hash),
      (∀ next, first = some next → Frame { state with lastTabledWasExternal := false } next) →
      (∀ next, second = some next → Frame { state with lastTabledWasExternal := false } next) →
        Frame state ((first.orElse fun _ => second).getD { state with lastTabledWasExternal := false }) := by
    intro first second firstKept secondKept
    cases first with
    | some next => exact taken.trans (firstKept next rfl)
    | none =>
      cases second with
      | some next => exact taken.trans (secondKept next rfl)
      | none => exact taken
  unfold launchNext
  dsimp only
  split
  · exact fallback _ _ (fun _ launched => launchPublic_frame launched) fun _ launched => launchExternal_frame launched
  · exact fallback _ _ (fun _ launched => launchExternal_frame launched) fun _ launched => launchPublic_frame launched

theorem enactDue_frame (now : Nat) (queue : List (Nat × Hash × Nat)) (state : Referenda AccountId Hash) :
    Frame state (enactDue now queue state) := by
  unfold enactDue
  generalize queue.takeWhile (fun item => item.1 = now) = due
  induction due generalizing state with
  | nil => exact Frame.refl state
  | cons item rest ih => exact (⟨rfl, rfl, rfl⟩ : Frame state (enactProposal item.2.1 item.2.2 state)).trans (ih _)

theorem lowestUnbaked_dispatchDue (now : Nat) (state : Referenda AccountId Hash) :
    (dispatchDue now state).lowestUnbaked = state.lowestUnbaked := by
  unfold dispatchDue
  dsimp only
  split <;> exact (enactDue_frame now _ state).lowestUnbaked

theorem lowestUnbaked_le_beginBlock {periods : Periods} {now : Nat} {state next : Referenda AccountId Hash}
    (begun : beginBlock periods now state = some next) : state.lowestUnbaked ≤ next.lowestUnbaked := by
  unfold beginBlock at begun
  by_cases noPeriod : periods.launchPeriod = 0
  · rw [if_pos noPeriod] at begun
    cases begun
  · rw [if_neg noPeriod] at begun
    -- the launch keeps it, the bakes move it up, the dispatch queue leaves it
    have launched : (if now % periods.launchPeriod = 0 then launchNext periods now state else state).lowestUnbaked =
        state.lowestUnbaked := by
      split
      · exact (launchNext_frame periods now state).lowestUnbaked
      · rfl
    obtain ⟨baked, bakedAll, finished⟩ := Option.map_eq_some_iff.mp begun
    rw [← finished, lowestUnbaked_dispatchDue, ← launched]
    exact lowestUnbaked_le_bakeAll now _ bakedAll

theorem lowestUnbaked_dispatched (result : Except DispatchError (Referenda AccountId Hash)) (state : Referenda AccountId Hash)
    (raised : ∀ after, result = .ok after → state.lowestUnbaked ≤ after.lowestUnbaked) :
    state.lowestUnbaked ≤ (Operation.dispatched result state).lowestUnbaked := by
  cases result with
  | error => exact Nat.le_refl _
  | ok after => exact raised after rfl

theorem lowestUnbaked_propose {periods : Periods} {who : AccountId} {proposalHash : Hash} {value : Nat} {reserved : Bool}
    {state after : Referenda AccountId Hash} (proposed : state.propose periods who proposalHash value reserved = .ok after) :
    after.lowestUnbaked = state.lowestUnbaked := by
  unfold propose at proposed
  split_ifs at proposed
  cases proposed
  rfl


theorem lowestUnbaked_second {who : AccountId} {proposal : Nat} {reserved : Bool} {state after : Referenda AccountId Hash}
    (seconded : state.second who proposal reserved = .ok after) : after.lowestUnbaked = state.lowestUnbaked := by
  unfold second at seconded
  split at seconded
  · cases seconded
  · split_ifs at seconded
    cases seconded
    rfl

theorem lowestUnbaked_vote {who : AccountId} {refIndex : Nat} {ballot : Vote} {state after : Referenda AccountId Hash}
    (voted : state.vote who refIndex ballot = .ok after) : after.lowestUnbaked = state.lowestUnbaked := by
  unfold vote at voted
  split at voted
  · cases voted
  · cases voted
    rfl

theorem lowestUnbaked_le_emergencyCancel [DecidableEq Hash] {refIndex : Nat} {state after : Referenda AccountId Hash}
    (cancelled : state.emergencyCancel refIndex = .ok after) : state.lowestUnbaked ≤ after.lowestUnbaked := by
  unfold emergencyCancel at cancelled
  split at cancelled
  · cases cancelled
  · split_ifs at cancelled
    cases cancelled
    exact lowestUnbaked_le_clearReferendum refIndex _

theorem lowestUnbaked_fastTrack [DecidableEq Hash] {periods : Periods} {proposalHash : Hash} {votingPeriod delay : Nat}
    {state after : Referenda AccountId Hash} (tracked : state.fastTrack periods proposalHash votingPeriod delay = .ok after) :
    after.lowestUnbaked = state.lowestUnbaked := by
  unfold fastTrack at tracked
  split at tracked
  · cases tracked
  · split_ifs at tracked
    cases tracked
    rfl

theorem lowestUnbaked_cancelQueued {which : Nat} {state after : Referenda AccountId Hash}
    (cancelled : state.cancelQueued which = .ok after) : after.lowestUnbaked = state.lowestUnbaked := by
  unfold cancelQueued at cancelled
  dsimp only at cancelled
  split_ifs at cancelled
  cases cancelled
  rfl

theorem lowestUnbaked_le_step [DecidableEq Hash] {periods : Periods} {operation : Operation AccountId Hash}
    {state next : Referenda AccountId Hash} (stepped : operation.step periods state = some next) :
    state.lowestUnbaked ≤ next.lowestUnbaked := by
  cases operation with
  | propose who proposalHash value reserved =>
    cases stepped
    exact lowestUnbaked_dispatched _ state fun after done => (lowestUnbaked_propose done).ge
  | second who proposal reserved =>
    cases stepped
    exact lowestUnbaked_dispatched _ state fun after done => (lowestUnbaked_second done).ge
  | vote who refIndex ballot =>
    cases stepped
    exact lowestUnbaked_dispatched _ state fun after done => (lowestUnbaked_vote done).ge
  | emergencyCancel refIndex =>
    cases stepped
    exact lowestUnbaked_dispatched _ state fun after done => lowestUnbaked_le_emergencyCancel done
  | externalProposeMajority proposalHash => cases stepped; exact Nat.le_refl _
  | externalProposeDefault proposalHash => cases stepped; exact Nat.le_refl _
  | fastTrack proposalHash votingPeriod delay =>
    cases stepped
    exact lowestUnbaked_dispatched _ state fun after done => (lowestUnbaked_fastTrack done).ge
  | cancelReferendum refIndex =>
    cases stepped
    exact lowestUnbaked_le_clearReferendum refIndex state
  | cancelQueued which =>
    cases stepped
    exact lowestUnbaked_dispatched _ state fun after done => (lowestUnbaked_cancelQueued done).ge
  | delegate who target conviction => cases stepped; exact Nat.le_refl _
  | undelegate who =>
    cases stepped
    split <;> exact Nat.le_refl _
  | onInitialize =>
    have raised := lowestUnbaked_le_beginBlock stepped
    exact raised

theorem lowestUnbaked_le_run [DecidableEq Hash] (periods : Periods) :
    ∀ (operations : List (Operation AccountId Hash)) {state later : Referenda AccountId Hash},
      run periods operations state = some later → state.lowestUnbaked ≤ later.lowestUnbaked := by
  intro operations
  induction operations with
  | nil =>
    intro state later ran
    cases ran
    exact Nat.le_refl _
  | cons operation rest ih =>
    intro state later ran
    obtain ⟨next, stepped, ran⟩ := Option.bind_eq_some_iff.mp ran
    exact (lowestUnbaked_le_step stepped).trans (ih ran)

/-- `maturing_referenda_at` looks from `LowestUnbaked` on. -/
theorem lowestUnbaked_le_of_maturing {n : Nat} {state : Referenda AccountId Hash} {referendum : Nat × ReferendumInfo Hash}
    (maturing : referendum ∈ state.maturingReferendaAt n) : state.lowestUnbaked ≤ referendum.1 := by
  have listed := (List.mem_filter.mp maturing).1
  unfold referendaFrom at listed
  obtain ⟨i, inRange, found⟩ := List.mem_filterMap.mp listed
  obtain ⟨info, -, rfl⟩ := Option.map_eq_some_iff.mp found
  exact (List.mem_range'_1.mp inRange).1


/-! ## The dispatch queue -/

/-- The dispatch queue sorted by block, with every item due after `block`. -/
structure QueueAhead (block : Nat) (queue : List (Nat × Hash × Nat)) : Prop where
  sorted : queue.Pairwise fun x y => x.1 ≤ y.1
  ahead : ∀ item ∈ queue, block < item.1

theorem QueueAhead.sublist {block : Nat} {queue kept : List (Nat × Hash × Nat)} (ordered : QueueAhead block queue)
    (shorter : kept.Sublist queue) : QueueAhead block kept :=
  ⟨ordered.sorted.sublist shorter, fun item member => ordered.ahead item (shorter.subset member)⟩

/-- An approved referendum with a delay goes where the search for its block
puts it, after the current block. -/
theorem settle_queueAhead {before index : Nat} {info : ReferendumInfo Hash} (approved : Bool)
    {state : Referenda AccountId Hash} (ordered : QueueAhead before state.dispatchQueue) :
    QueueAhead before (settle (before + 1) index info approved state).dispatchQueue := by
  unfold settle
  split
  · dsimp only
    split
    · exact ordered
    · rename_i delayed
      have inRange := (VecOps.binarySearchByKey_splits (b := before + 1 + info.delay) ordered.sorted).1
      refine ⟨VecOps.pairwise_insertIdx_binarySearchByKey ordered.sorted (before + 1 + info.delay, info.proposalHash, index),
        fun item member => ?_⟩
      rcases (List.mem_insertIdx inRange).mp member with rfl | queued
      · show before < before + 1 + info.delay
        omega
      · exact ordered.ahead item queued
  · exact ordered

theorem bakeAll_queueAhead (before : Nat) :
    ∀ (referenda : List (Nat × ReferendumInfo Hash)) {state next : Referenda AccountId Hash},
      QueueAhead before state.dispatchQueue → bakeAll (before + 1) referenda state = some next →
        QueueAhead before next.dispatchQueue ∧ next.blockNumber = state.blockNumber := by
  intro referenda
  induction referenda with
  | nil =>
    intro state next ordered baked
    cases baked
    exact ⟨ordered, rfl⟩
  | cons referendum rest ih =>
    intro state next ordered baked
    obtain ⟨index, info⟩ := referendum
    obtain ⟨after, bakedFirst, bakedRest⟩ := Option.bind_eq_some_iff.mp baked
    obtain ⟨approved, -, settled⟩ := Option.map_eq_some_iff.mp bakedFirst
    subst settled
    -- clearing leaves the queue, settling may insert after the block
    have settledOrdered : QueueAhead before
        (settle (before + 1) index info approved (clearReferendum index state)).dispatchQueue :=
      settle_queueAhead approved ordered
    obtain ⟨nextOrdered, block⟩ := ih settledOrdered bakedRest
    refine ⟨nextOrdered, block.trans ?_⟩
    unfold settle
    split
    · split <;> rfl
    · rfl

/-- Past a prefix due at `now`, a sorted queue of items due no earlier than
`now` is due after it. -/
theorem ahead_dropWhile {now : Nat} :
    ∀ {queue : List (Nat × Hash × Nat)}, queue.Pairwise (fun x y => x.1 ≤ y.1) → (∀ item ∈ queue, now ≤ item.1) →
      ∀ item ∈ queue.dropWhile (fun item => item.1 = now), now < item.1 := by
  intro queue
  induction queue with
  | nil =>
    intro _ _ item member
    cases member
  | cons first rest ih =>
    intro sorted notEarlier item member
    by_cases due : first.1 = now
    · rw [List.dropWhile_cons_of_pos (by simp [due])] at member
      exact ih (List.pairwise_cons.mp sorted).2 (fun later inRest => notEarlier later (List.mem_cons_of_mem _ inRest))
        item member
    · rw [List.dropWhile_cons_of_neg (by simp [due])] at member
      have firstAhead : now < first.1 := Nat.lt_of_le_of_ne (notEarlier first List.mem_cons_self) (Ne.symm due)
      rcases List.mem_cons.mp member with rfl | later
      · exact firstAhead
      · exact Nat.lt_of_lt_of_le firstAhead (List.rel_of_pairwise_cons sorted later)

/-- The items due at `now` leave the queue, and the rest is due after `now`. -/
theorem dispatchDue_queueAhead {before : Nat} {state : Referenda AccountId Hash}
    (ordered : QueueAhead before state.dispatchQueue) :
    QueueAhead (before + 1) (dispatchDue (before + 1) state).dispatchQueue ∧
      (dispatchDue (before + 1) state).blockNumber = state.blockNumber := by
  have dropped : state.dispatchQueue.drop (state.dispatchQueue.takeWhile fun item => item.1 = before + 1).length =
      state.dispatchQueue.dropWhile fun item => item.1 = before + 1 := by
    have split := @List.drop_left _ (state.dispatchQueue.takeWhile fun item => item.1 = before + 1)
      (state.dispatchQueue.dropWhile fun item => item.1 = before + 1)
    rwa [List.takeWhile_append_dropWhile] at split
  -- with or without the write, the queue left is the part past the due prefix
  have remaining : (dispatchDue (before + 1) state).dispatchQueue =
      state.dispatchQueue.dropWhile fun item => item.1 = before + 1 := by
    unfold dispatchDue
    dsimp only
    split
    · exact dropped
    · rename_i unused
      rw [← dropped, Nat.eq_zero_of_not_pos (fun positive => unused (Nat.pos_iff_ne_zero.mp positive)), List.drop_zero]
      exact (enactDue_frame _ _ state).dispatchQueue
  have block : (dispatchDue (before + 1) state).blockNumber = state.blockNumber := by
    unfold dispatchDue
    dsimp only
    split <;> exact (enactDue_frame _ _ state).blockNumber
  refine ⟨⟨?_, ?_⟩, block⟩
  · rw [remaining]
    exact ordered.sorted.sublist (List.dropWhile_sublist _)
  · rw [remaining]
    exact ahead_dropWhile ordered.sorted fun item member => ordered.ahead item member

/-- `begin_block` of the block after `before` leaves the queue sorted and due after it. -/
theorem beginBlock_queueAhead {periods : Periods} {before : Nat} {state next : Referenda AccountId Hash}
    (ordered : QueueAhead before state.dispatchQueue) (begun : beginBlock periods (before + 1) state = some next) :
    QueueAhead (before + 1) next.dispatchQueue ∧ next.blockNumber = state.blockNumber := by
  unfold beginBlock at begun
  by_cases noPeriod : periods.launchPeriod = 0
  · rw [if_pos noPeriod] at begun
    cases begun
  · rw [if_neg noPeriod] at begun
    have launched : Frame state
        (if (before + 1) % periods.launchPeriod = 0 then launchNext periods (before + 1) state else state) := by
      split
      · exact launchNext_frame periods (before + 1) state
      · exact Frame.refl state
    obtain ⟨baked, bakedAll, finished⟩ := Option.map_eq_some_iff.mp begun
    subst finished
    obtain ⟨bakedOrdered, bakedBlock⟩ :=
      bakeAll_queueAhead before _ (launched.dispatchQueue ▸ ordered) bakedAll
    obtain ⟨dueOrdered, dueBlock⟩ := dispatchDue_queueAhead bakedOrdered
    exact ⟨dueOrdered, dueBlock.trans (bakedBlock.trans launched.blockNumber)⟩

/-- The dispatch queue is sorted and due after the block. -/
def QueueOrdered (state : Referenda AccountId Hash) : Prop :=
  QueueAhead state.blockNumber state.dispatchQueue

theorem queueOrdered_step [DecidableEq Hash] {periods : Periods} {operation : Operation AccountId Hash}
    {state next : Referenda AccountId Hash} (ordered : state.QueueOrdered) (stepped : operation.step periods state = some next) :
    next.QueueOrdered := by
  -- only a block and `cancel_queued` write the queue or the block
  have dispatchedOrdered : ∀ result : Except DispatchError (Referenda AccountId Hash),
      (∀ after, result = .ok after → after.dispatchQueue = state.dispatchQueue ∧ after.blockNumber = state.blockNumber) →
        (Operation.dispatched result state).QueueOrdered := by
    intro result kept
    cases result with
    | error => exact ordered
    | ok after =>
      obtain ⟨queue, block⟩ := kept after rfl
      unfold QueueOrdered
      rw [Operation.dispatched, queue, block]
      exact ordered
  cases operation with
  | propose who proposalHash value reserved =>
    cases stepped
    refine dispatchedOrdered _ fun after proposed => ?_
    unfold propose at proposed
    split_ifs at proposed
    cases proposed
    exact ⟨rfl, rfl⟩
  | second who proposal reserved =>
    cases stepped
    refine dispatchedOrdered _ fun after seconded => ?_
    unfold second at seconded
    split at seconded
    · cases seconded
    · split_ifs at seconded
      cases seconded
      exact ⟨rfl, rfl⟩
  | vote who refIndex ballot =>
    cases stepped
    refine dispatchedOrdered _ fun after voted => ?_
    unfold vote at voted
    split at voted
    · cases voted
    · cases voted
      exact ⟨rfl, rfl⟩
  | emergencyCancel refIndex =>
    cases stepped
    refine dispatchedOrdered _ fun after cancelled => ?_
    unfold emergencyCancel at cancelled
    split at cancelled
    · cases cancelled
    · split_ifs at cancelled
      cases cancelled
      exact ⟨rfl, rfl⟩
  | externalProposeMajority proposalHash => cases stepped; exact ordered
  | externalProposeDefault proposalHash => cases stepped; exact ordered
  | fastTrack proposalHash votingPeriod delay =>
    cases stepped
    refine dispatchedOrdered _ fun after tracked => ?_
    unfold fastTrack at tracked
    split at tracked
    · cases tracked
    · split_ifs at tracked
      cases tracked
      exact ⟨rfl, rfl⟩
  | cancelReferendum refIndex => cases stepped; exact ordered
  | cancelQueued which =>
    cases stepped
    unfold cancelQueued
    dsimp only
    by_cases shorter : (state.dispatchQueue.filter fun item => item.2.2 ≠ which).length < state.dispatchQueue.length
    · rw [if_pos shorter]
      exact QueueAhead.sublist ordered List.filter_sublist
    · rw [if_neg shorter]
      exact ordered
  | delegate who target conviction => cases stepped; exact ordered
  | undelegate who =>
    cases stepped
    split
    · exact ordered
    · exact ordered
  | onInitialize =>
    obtain ⟨nextOrdered, block⟩ := beginBlock_queueAhead
      (show QueueAhead _ ({ state with blockNumber := state.blockNumber + 1 } : Referenda AccountId Hash).dispatchQueue
        from ordered) stepped
    unfold QueueOrdered
    rw [block]
    exact nextOrdered

/-- Over every run, the dispatch queue stays sorted by block and every item in
it is due after the last block processed, so the prefix due at a block is
all that block has to enact. -/
theorem run_queueOrdered [DecidableEq Hash] (periods : Periods) :
    ∀ (operations : List (Operation AccountId Hash)) {state later : Referenda AccountId Hash},
      state.QueueOrdered → run periods operations state = some later → later.QueueOrdered := by
  intro operations
  induction operations with
  | nil =>
    intro state later ordered ran
    cases ran
    exact ordered
  | cons operation rest ih =>
    intro state later ordered ran
    obtain ⟨next, stepped, ran⟩ := Option.bind_eq_some_iff.mp ran
    exact ih (queueOrdered_step ordered stepped) ran

theorem genesis_queueOrdered (totalBalance : AccountId → Nat) (totalIssuance : Nat) :
    (genesis totalBalance totalIssuance : Referenda AccountId Hash).QueueOrdered :=
  ⟨List.Pairwise.nil, fun item member => by cases member⟩

/-! ## The two defects of `clear_referendum` -/

/-- Two blocks of enactment, ten of launch, three of voting, a deposit of one
and an emergency voting period of one. -/
def shortPeriods : Periods :=
  ⟨2, 10, 3, 1, 1⟩

/-- The genesis with balances of ten and an issuance of a hundred. -/
def emptyReferenda : Referenda Nat Nat :=
  genesis (fun _ => 10) 100

/-- From the genesis, the majority-carries proposal `7` fast-tracked at block
`0` to end at block `5` with a delay of `2`, and an aye of account `1` on it. -/
def votedOnce : Referenda Nat Nat :=
  (run shortPeriods [.externalProposeMajority 7, .fastTrack 7 5 2, .vote 1 0 ⟨true, .None⟩] emptyReferenda).getD
    emptyReferenda

theorem clear_referendum_leaves_votes_after_vote :
    votedOnce.votes.voted 0 1 = true ∧ (clearReferendum 0 votedOnce).votes.votersFor 0 = [] ∧
      (clearReferendum 0 votedOnce).votes.voted 0 1 = true := by
  have voted : votedOnce.votes.voted 0 1 = true := by decide
  exact ⟨voted, clear_referendum_leaves_votes votedOnce voted⟩

/-- When `LowestUnbaked` is `ReferendumCount`, `cancel_referendum` of that
index moves `LowestUnbaked` past the count, and the referendum injected next
is never among the maturing ones, at any block of any later run. -/
theorem cancel_at_count_strands_next_referendum [DecidableEq Hash] (periods : Periods) (state : Referenda AccountId Hash)
    (atCount : state.lowestUnbaked = state.referendumCount) (ends : Nat) (proposalHash : Hash)
    (threshold : VoteThreshold) (delay : Nat) {operations : List (Operation AccountId Hash)}
    {later : Referenda AccountId Hash}
    (ran : run periods operations
      (injectReferendum ends proposalHash threshold delay (state.cancelReferendum state.referendumCount)).2 = some later)
    (n : Nat) : ∀ referendum ∈ later.maturingReferendaAt n, referendum.1 ≠ state.referendumCount := by
  have skipped : state.referendumCount < (state.cancelReferendum state.referendumCount).lowestUnbaked := by
    show state.referendumCount < if state.lowestUnbaked = state.referendumCount then _ else state.lowestUnbaked
    rw [if_pos atCount]
    exact Nat.lt_of_lt_of_le (Nat.lt_succ_self _) (le_skipInactive _ _ _ _)
  have raised := lowestUnbaked_le_run periods operations ran
  intro referendum maturing
  have looked := lowestUnbaked_le_of_maturing maturing
  -- injecting leaves `LowestUnbaked` where the cancel put it
  change (state.cancelReferendum state.referendumCount).lowestUnbaked ≤ later.lowestUnbaked at raised
  omega

/-- Six blocks after referendum `0`, ending at block `5`, was injected past a
`cancel_referendum(0)` on the genesis. -/
def strandedSixBlocks : Referenda Nat Nat :=
  (run shortPeriods (List.replicate 6 .onInitialize)
    (injectReferendum 5 7 .SimpleMajority 2 (emptyReferenda.cancelReferendum emptyReferenda.referendumCount)).2).getD
      emptyReferenda

theorem cancel_at_count_strands_fast_tracked_referendum :
    emptyReferenda.lowestUnbaked = emptyReferenda.referendumCount ∧
      run shortPeriods (List.replicate 6 .onInitialize)
        (injectReferendum 5 7 .SimpleMajority 2 (emptyReferenda.cancelReferendum emptyReferenda.referendumCount)).2 =
          some strandedSixBlocks ∧
      ∀ referendum ∈ strandedSixBlocks.maturingReferendaAt 5, referendum.1 ≠ emptyReferenda.referendumCount := by
  have atCount : emptyReferenda.lowestUnbaked = emptyReferenda.referendumCount := rfl
  have ran : run shortPeriods (List.replicate 6 .onInitialize)
      (injectReferendum 5 7 .SimpleMajority 2 (emptyReferenda.cancelReferendum emptyReferenda.referendumCount)).2 =
        some strandedSixBlocks := rfl
  exact ⟨atCount, ran, cancel_at_count_strands_next_referendum shortPeriods _ atCount 5 7 .SimpleMajority 2 ran 5⟩

end Referenda

end OffchainStorage.Democracy
