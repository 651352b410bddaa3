import Mathlib
import OffchainStorage.Lib.KVMap
import OffchainStorage.Lib.Transition
import OffchainStorage.Lib.VecOps
import OffchainStorage.Lib.RustInt
import OffchainStorage.Pallet.Module
import OffchainStorage.Support.ChangeMembers

/-!
# Motions of `pallet-collective`

Members of a collective propose motions and vote on them; a motion that
reaches its threshold is dispatched from the origin `Members(threshold,
seats)`.  Root sets the membership with `set_members`, and other modules change
it through the `ChangeMembers` hooks, which drop the votes of the outgoing
members from every open motion.

The calls are given as the code runs them, with what they dispatch as their
answer (`Dispatch`) and a panic as `none`.  When the membership hooks are used
as their contract asks and `set_members` is given no repeats (`Call.Contract`),
every state a run from a sorted genesis reaches is `Consistent`: the members
are strictly sorted, every open motion has its proposal and its votes, and
those are cast once each, on one side, by members.  A vote that dispatches a
motion then has at least the threshold of distinct members among its ayes.
-/

namespace OffchainStorage.Collective

open Support

/-- `Votes`: a motion's index, the approvals it needs and the votes so far. -/
structure Votes (AccountId : Type) where
  index : Nat
  threshold : Nat
  ayes : List AccountId
  nays : List AccountId
  deriving DecidableEq, Repr

inductive Error where
  | notMember
  | duplicateProposal
  | proposalMissing
  | wrongIndex
  | duplicateVote
  | alreadyInitialized
  deriving DecidableEq, Repr

inductive DispatchError where
  | badOrigin
  | module (error : Error)
  deriving DecidableEq, Repr

/-- `RawOrigin`, the origins the collective dispatches from. -/
inductive RawOrigin (AccountId : Type) where
  | members (threshold seats : Nat)
  | member (who : AccountId)
  deriving DecidableEq, Repr

/-- A proposal handed to `dispatch`, with its origin. -/
structure Dispatch (AccountId Proposal : Type) where
  origin : RawOrigin AccountId
  proposal : Proposal
  deriving DecidableEq, Repr

structure Storage (AccountId Hash Proposal : Type) where
  proposals : List Hash
  proposalOf : KVMap Hash Proposal
  voting : KVMap Hash (Votes AccountId)
  proposalCount : Nat
  members : List AccountId

variable {AccountId Hash Proposal : Type} [LinearOrder AccountId] [DecidableEq Hash]

def ensureSigned : Pallet.Origin AccountId → Except DispatchError AccountId
  | .signed who => .ok who
  | _ => .error .badOrigin

def ensureRoot : Pallet.Origin AccountId → Except DispatchError Unit
  | .root => .ok ()
  | _ => .error .badOrigin

/-- `sort` and `sort_unstable`: on a linear order both give the one sorted
permutation. -/
def sort (members : List AccountId) : List AccountId :=
  members.insertionSort (· ≤ ·)

def isMember (storage : Storage AccountId Hash Proposal) (who : AccountId) : Bool :=
  storage.members.contains who

/-! ## The membership hooks -/

/-- The closure `change_members_sorted` maps over a motion's votes: only the
voters `keep` accepts stay. -/
def Votes.retain (keep : AccountId → Bool) (votes : Votes AccountId) : Votes AccountId :=
  { votes with ayes := votes.ayes.filter keep, nays := votes.nays.filter keep }

/-- One turn of the loop of `change_members_sorted`: `Voting::mutate` on the
votes of one motion, if it has any. -/
def retainVotes (keep : AccountId → Bool) (voting : KVMap Hash (Votes AccountId)) (h : Hash) :
    KVMap Hash (Votes AccountId) :=
  match voting.lookup h with
  | none => voting
  | some votes => voting.insert h (votes.retain keep)

/-- `change_members_sorted` of the collective: the outgoing members, sorted
and looked up by `binary_search`, lose their votes on every open motion, and
the new members are stored. -/
def changeMembersSorted (_incoming outgoing new : List AccountId) (storage : Storage AccountId Hash Proposal) :
    Storage AccountId Hash Proposal :=
  let outgoing := sort outgoing
  let stays := fun voter => !(VecOps.binarySearchByKey outgoing voter id).isOk
  { storage with voting := storage.proposals.foldl (retainVotes stays) storage.voting, members := new }

/-- `change_members`: the new members are sorted first. -/
def changeMembers (incoming outgoing new : List AccountId) (storage : Storage AccountId Hash Proposal) :
    Storage AccountId Hash Proposal :=
  changeMembersSorted incoming outgoing (sort new) storage

/-- `set_members_sorted`: the diff against the old members names the
incoming and the outgoing ones. -/
def setMembersSorted (newMembers oldMembers : List AccountId) (storage : Storage AccountId Hash Proposal) :
    Storage AccountId Hash Proposal :=
  let diff := computeMembersDiff newMembers oldMembers
  changeMembersSorted diff.1 diff.2 newMembers storage

/-- `initialize_members`: a non-empty list is stored as it is, and the
`assert!` panics (`none`) when there are members already. -/
def initializeMembers (members : List AccountId) (storage : Storage AccountId Hash Proposal) :
    Option (Storage AccountId Hash Proposal) :=
  if members.isEmpty then some storage
  else if storage.members.isEmpty then some { storage with members }
  else none

/-- The genesis build: `initialize_members` on the empty storage. -/
def genesis (members : List AccountId) : Option (Storage AccountId Hash Proposal) :=
  initializeMembers members ⟨[], KVMap.empty, KVMap.empty, 0, []⟩

/-! ## The calls -/

/-- `set_members`: root sorts the new members and, inside `Members::mutate`,
hands them with the old ones to `set_members_sorted` before storing them. -/
def setMembers (origin : Pallet.Origin AccountId) (newMembers : List AccountId)
    (storage : Storage AccountId Hash Proposal) : Storage AccountId Hash Proposal × Except DispatchError Unit :=
  match ensureRoot origin with
  | .error e => (storage, .error e)
  | .ok () =>
    let newMembers := sort newMembers
    let changed := setMembersSorted newMembers storage.members storage
    ({ changed with members := newMembers }, .ok ())

/-- `execute`: a member dispatches a proposal alone, from `Member(who)`. -/
def execute (origin : Pallet.Origin AccountId) (proposal : Proposal) (storage : Storage AccountId Hash Proposal) :
    Except DispatchError (Dispatch AccountId Proposal) :=
  match ensureSigned origin with
  | .error e => .error e
  | .ok who =>
    if !isMember storage who then .error (.module .notMember)
    else .ok ⟨.member who, proposal⟩

/-- `propose`: below a threshold of two the motion is dispatched at once from
`Members(1, seats)`; otherwise it is stored under its hash with the
proposer's aye, and `ProposalCount += 1` panics on overflow. -/
def propose (hashOf : Proposal → Hash) (origin : Pallet.Origin AccountId) (threshold : Nat)
    (proposal : Proposal) (storage : Storage AccountId Hash Proposal) :
    Option (Storage AccountId Hash Proposal × Except DispatchError (Option (Dispatch AccountId Proposal))) :=
  match ensureSigned origin with
  | .error e => some (storage, .error e)
  | .ok who =>
    if !isMember storage who then some (storage, .error (.module .notMember))
    else
      let proposalHash := hashOf proposal
      if storage.proposalOf.contains proposalHash then some (storage, .error (.module .duplicateProposal))
      else if threshold < 2 then
        let seats := RustInt.cast 32 storage.members.length
        some (storage, .ok (some ⟨.members 1 seats, proposal⟩))
      else
        let index := storage.proposalCount
        (RustInt.checkedAdd 32 index 1).map fun proposalCount =>
          ({ storage with
              proposalCount
              proposals := storage.proposals ++ [proposalHash]
              proposalOf := storage.proposalOf.insert proposalHash proposal
              voting := storage.voting.insert proposalHash ⟨index, threshold, [who], []⟩ },
            .ok none)

/-- One side of the `if approve` block of `vote`: the voter is pushed on
`side` unless already there, and a vote of theirs on `other` is
`swap_remove`d. -/
def castOn (who : AccountId) (side other : List AccountId) : Except Error (List AccountId × List AccountId) :=
  if (side.findIdx? (· == who)).isNone then
    let other := match other.findIdx? (· == who) with
      | some position => VecOps.swapRemove other position
      | none => other
    .ok (side ++ [who], other)
  else .error .duplicateVote

/-- The `if approve` block of `vote`, on the ayes or on the nays. -/
def recordVote (who : AccountId) (approve : Bool) (voting : Votes AccountId) : Except Error (Votes AccountId) :=
  if approve then (castOn who voting.ayes voting.nays).map fun (ayes, nays) => { voting with ayes, nays }
  else (castOn who voting.nays voting.ayes).map fun (nays, ayes) => { voting with ayes, nays }

/-- `vote`: the member's vote is recorded; a motion that has its threshold of
ayes is dispatched from `Members(threshold, seats)`, and one that can no
longer reach it is dropped. -/
def vote (origin : Pallet.Origin AccountId) (proposal : Hash) (index : Nat) (approve : Bool)
    (storage : Storage AccountId Hash Proposal) :
    Storage AccountId Hash Proposal × Except DispatchError (Option (Dispatch AccountId Proposal)) :=
  match ensureSigned origin with
  | .error e => (storage, .error e)
  | .ok who =>
    if !isMember storage who then (storage, .error (.module .notMember))
    else match storage.voting.lookup proposal with
    | none => (storage, .error (.module .proposalMissing))
    | some voting =>
      if voting.index ≠ index then (storage, .error (.module .wrongIndex))
      else match recordVote who approve voting with
      | .error e => (storage, .error (.module e))
      | .ok voting =>
        let yesVotes := RustInt.cast 32 voting.ayes.length
        let noVotes := RustInt.cast 32 voting.nays.length
        let seats := RustInt.cast 32 storage.members.length
        let approved := decide (yesVotes ≥ voting.threshold)
        -- `saturating_sub` is the subtraction of `Nat`
        let disapproved := decide (seats - noVotes < voting.threshold)
        if approved || disapproved then
          -- `ProposalOf::take` when approved and `remove` otherwise both clear the entry
          let dispatched := if approved then
              (storage.proposalOf.lookup proposal).map fun p => ⟨.members voting.threshold seats, p⟩
            else none
          ({ storage with
              proposalOf := storage.proposalOf.remove proposal
              voting := storage.voting.remove proposal
              proposals := storage.proposals.filter (· != proposal) }, .ok dispatched)
        else
          ({ storage with voting := storage.voting.insert proposal voting }, .ok none)

/-- The calls of the module, and the membership hooks other modules call. -/
inductive Call (AccountId Hash Proposal : Type) where
  | setMembers (origin : Pallet.Origin AccountId) (newMembers : List AccountId)
  | execute (origin : Pallet.Origin AccountId) (proposal : Proposal)
  | propose (origin : Pallet.Origin AccountId) (threshold : Nat) (proposal : Proposal)
  | vote (origin : Pallet.Origin AccountId) (proposal : Hash) (index : Nat) (approve : Bool)
  | changeMembers (incoming outgoing new : List AccountId)
  | setMembersSorted (newMembers oldMembers : List AccountId)

/-- What a call ends with: `none` for a panic, which leaves no trace, or its
result with what it dispatched. -/
abbrev Outcome (AccountId Proposal : Type) :=
  Option (Except DispatchError (Option (Dispatch AccountId Proposal)))

def Call.step (hashOf : Proposal → Hash) :
    Call AccountId Hash Proposal → Storage AccountId Hash Proposal →
      Storage AccountId Hash Proposal × Outcome AccountId Proposal
  | .setMembers origin newMembers, storage =>
    let (after, result) := Collective.setMembers origin newMembers storage
    (after, some (result.map fun () => none))
  | .execute origin proposal, storage => (storage, some ((Collective.execute origin proposal storage).map some))
  | .propose origin threshold proposal, storage =>
    match Collective.propose hashOf origin threshold proposal storage with
    | none => (storage, none)
    | some (after, result) => (after, some result)
  | .vote origin proposal index approve, storage =>
    let (after, result) := Collective.vote origin proposal index approve storage
    (after, some result)
  | .changeMembers incoming outgoing new, storage => (Collective.changeMembers incoming outgoing new storage, some (.ok none))
  | .setMembersSorted newMembers oldMembers, storage =>
    (Collective.setMembersSorted newMembers oldMembers storage, some (.ok none))

/-- What the callers of the module are asked: `set_members` is given no
repeats, `change_members` names every member that leaves among the outgoing
ones, and `set_members_sorted` is given a sorted list and the members as they
are. -/
def Call.Contract (storage : Storage AccountId Hash Proposal) : Call AccountId Hash Proposal → Prop
  | .setMembers _ newMembers => newMembers.Nodup
  | .changeMembers _ outgoing new => new.Nodup ∧ ∀ member ∈ storage.members, member ∉ new → member ∈ outgoing
  | .setMembersSorted newMembers oldMembers => newMembers.Pairwise (· < ·) ∧ oldMembers = storage.members
  | _ => True

/-! ## Sorting and the search in the outgoing members -/

theorem sort_perm (members : List AccountId) : (sort members).Perm members :=
  List.perm_insertionSort _ members

theorem mem_sort {member : AccountId} {members : List AccountId} : member ∈ sort members ↔ member ∈ members :=
  (sort_perm members).mem_iff

/-- Sorting a list without repeats sorts it strictly. -/
theorem sort_strictly {members : List AccountId} (nodup : members.Nodup) : (sort members).Pairwise (· < ·) := by
  have sorted : (sort members).Pairwise (· ≤ ·) := List.pairwise_insertionSort _ members
  have distinct : (sort members).Nodup := (sort_perm members).nodup_iff.mpr nodup
  exact (sorted.and distinct).imp fun ordered => lt_of_le_of_ne ordered.1 ordered.2

/-- A voter stays exactly when `binary_search` misses them among the sorted
outgoing members. -/
theorem stays_iff {outgoing : List AccountId} {voter : AccountId} :
    (!(VecOps.binarySearchByKey (sort outgoing) voter id).isOk) = true ↔ voter ∉ outgoing := by
  have sorted : (sort outgoing).Pairwise fun x y => id x ≤ id y := List.pairwise_insertionSort _ outgoing
  rw [Bool.not_eq_true', ← Bool.not_eq_true, VecOps.binarySearchByKey_isOk_iff sorted]
  simp [mem_sort]

/-! ## What the membership hooks do to the votes -/

section Retain

omit [LinearOrder AccountId]

@[simp]
theorem Votes.retain_retain (keep : AccountId → Bool) (votes : Votes AccountId) :
    (votes.retain keep).retain keep = votes.retain keep := by
  simp [Votes.retain, List.filter_filter]

theorem lookup_retainVotes (keep : AccountId → Bool) (voting : KVMap Hash (Votes AccountId)) (h tested : Hash) :
    (retainVotes keep voting h).lookup tested =
      if tested = h then (voting.lookup tested).map (Votes.retain keep) else voting.lookup tested := by
  unfold retainVotes
  by_cases same : tested = h
  · subst same
    cases found : voting.lookup tested <;> simp [found]
  · cases voting.lookup h <;> simp [KVMap.lookup_insert_of_ne _ _ same, same]

/-- The loop of `change_members_sorted` retains the voters of every open
motion, however often its hash is listed. -/
theorem lookup_foldl_retainVotes (keep : AccountId → Bool) (tested : Hash) :
    ∀ (proposals : List Hash) (voting : KVMap Hash (Votes AccountId)),
      (proposals.foldl (retainVotes keep) voting).lookup tested =
        if tested ∈ proposals then (voting.lookup tested).map (Votes.retain keep) else voting.lookup tested
  | [], voting => by simp
  | h :: proposals, voting => by
    rw [List.foldl_cons, lookup_foldl_retainVotes keep tested proposals, lookup_retainVotes]
    by_cases same : tested = h <;> by_cases later : tested ∈ proposals <;> simp [same, later, Option.map_map, Function.comp_def]

theorem contains_foldl_retainVotes (keep : AccountId → Bool) (tested : Hash) (proposals : List Hash)
    (voting : KVMap Hash (Votes AccountId)) :
    (proposals.foldl (retainVotes keep) voting).contains tested = voting.contains tested := by
  rw [KVMap.contains_eq_isSome, KVMap.contains_eq_isSome, lookup_foldl_retainVotes]
  split <;> simp

end Retain

variable {storage : Storage AccountId Hash Proposal}

@[simp]
theorem changeMembersSorted_members (incoming outgoing new : List AccountId) :
    (changeMembersSorted incoming outgoing new storage).members = new := rfl

@[simp]
theorem changeMembersSorted_proposals (incoming outgoing new : List AccountId) :
    (changeMembersSorted incoming outgoing new storage).proposals = storage.proposals := rfl

@[simp]
theorem changeMembersSorted_proposalOf (incoming outgoing new : List AccountId) :
    (changeMembersSorted incoming outgoing new storage).proposalOf = storage.proposalOf := rfl

theorem changeMembersSorted_voting (incoming outgoing new : List AccountId) :
    (changeMembersSorted incoming outgoing new storage).voting =
      storage.proposals.foldl (retainVotes fun voter => !(VecOps.binarySearchByKey (sort outgoing) voter id).isOk)
        storage.voting := rfl

/-! ## The invariant -/

/-- The two sides of the votes on one motion: each voter once, on one side
only, and a member. -/
structure Sides (members side other : List AccountId) : Prop where
  side_nodup : side.Nodup
  other_nodup : other.Nodup
  disjoint : ∀ voter ∈ side, voter ∉ other
  side_members : ∀ voter ∈ side, voter ∈ members
  other_members : ∀ voter ∈ other, voter ∈ members

/-- The ayes and the nays of a motion are each without repeats, disjoint, and
cast by members. -/
def VotesValid (members : List AccountId) (votes : Votes AccountId) : Prop :=
  Sides members votes.ayes votes.nays

/-- What holds of every state a run reaches: the members are strictly
sorted, the open motions are listed once each, a motion has votes and a
proposal exactly when it is open, and its votes are valid. -/
structure Consistent (storage : Storage AccountId Hash Proposal) : Prop where
  members_sorted : storage.members.Pairwise (· < ·)
  proposals_nodup : storage.proposals.Nodup
  voting_iff : ∀ h, storage.voting.contains h = true ↔ h ∈ storage.proposals
  proposalOf_iff : ∀ h, storage.proposalOf.contains h = true ↔ h ∈ storage.proposals
  votes_valid : ∀ h votes, storage.voting.lookup h = some votes → VotesValid storage.members votes

section Sides

variable {members side other : List AccountId}

omit [LinearOrder AccountId] in
theorem Sides.symm (sides : Sides members side other) : Sides members other side :=
  ⟨sides.other_nodup, sides.side_nodup, fun voter inOther inSide => sides.disjoint voter inSide inOther,
    sides.other_members, sides.side_members⟩

omit [LinearOrder AccountId] in
/-- Retaining only voters who are members of `new` leaves valid sides for
`new`. -/
theorem Sides.retain {new : List AccountId} {keep : AccountId → Bool} (sides : Sides members side other)
    (kept : ∀ voter ∈ members, keep voter = true → voter ∈ new) :
    Sides new (side.filter keep) (other.filter keep) := by
  refine ⟨sides.side_nodup.filter keep, sides.other_nodup.filter keep, fun voter inSide inOther => ?_, ?_, ?_⟩
  · exact sides.disjoint voter (List.mem_filter.mp inSide).1 (List.mem_filter.mp inOther).1
  · intro voter inSide
    obtain ⟨member, stays⟩ := List.mem_filter.mp inSide
    exact kept voter (sides.side_members voter member) stays
  · intro voter inOther
    obtain ⟨member, stays⟩ := List.mem_filter.mp inOther
    exact kept voter (sides.other_members voter member) stays

/-- The vote of the voter taken off the other side: with no repeats there, a
`swap_remove` at its position or nothing, as `erase`. -/
theorem takeOff_perm {who : AccountId} (nodup : other.Nodup) :
    (match other.findIdx? (· == who) with
      | some position => VecOps.swapRemove other position
      | none => other).Perm (other.erase who) := by
  cases found : other.findIdx? (· == who) with
  | some position => exact VecOps.swapRemove_findIdx_perm nodup found
  | none =>
    have absent : who ∉ other := fun member => by
      simpa using List.findIdx?_eq_none_iff.mp found who member
    rw [List.erase_of_not_mem absent]

/-- A vote cast by a member on one side keeps the sides valid. -/
theorem Sides.castOn {who : AccountId} {cast : List AccountId × List AccountId} (sides : Sides members side other)
    (member : who ∈ members) (ok : castOn who side other = .ok cast) : Sides members cast.1 cast.2 := by
  unfold Collective.castOn at ok
  split at ok
  · next fresh =>
    cases ok
    have notOnSide : who ∉ side := fun onSide => by
      simpa using List.findIdx?_eq_none_iff.mp (Option.isNone_iff_eq_none.mp fresh) who onSide
    have takenOff : (match other.findIdx? (· == who) with
        | some position => VecOps.swapRemove other position
        | none => other).Perm (other.erase who) := takeOff_perm sides.other_nodup
    have offOther : ∀ voter, voter ∈ (match other.findIdx? (· == who) with
        | some position => VecOps.swapRemove other position
        | none => other) ↔ voter ≠ who ∧ voter ∈ other := fun voter =>
      takenOff.mem_iff.trans (sides.other_nodup.mem_erase_iff)
    refine ⟨?_, takenOff.nodup_iff.mpr (sides.other_nodup.erase who), fun voter onSide inOther => ?_, ?_, ?_⟩
    · exact (List.perm_append_singleton who side).nodup_iff.mpr (List.nodup_cons.mpr ⟨notOnSide, sides.side_nodup⟩)
    · obtain ⟨other, inOther⟩ := (offOther voter).mp inOther
      rcases List.mem_append.mp onSide with onSide | isWho
      · exact sides.disjoint voter onSide inOther
      · exact other (List.mem_singleton.mp isWho)
    · intro voter onSide
      rcases List.mem_append.mp onSide with onSide | isWho
      · exact sides.side_members voter onSide
      · exact (List.mem_singleton.mp isWho) ▸ member
    · exact fun voter inOther => sides.other_members voter ((offOther voter).mp inOther).2
  · cases ok

end Sides

/-- A member's vote keeps a motion's votes valid, its index and its
threshold. -/
theorem VotesValid.recordVote {members : List AccountId} {who : AccountId} {approve : Bool}
    {votes tallied : Votes AccountId} (valid : VotesValid members votes) (member : who ∈ members)
    (recorded : recordVote who approve votes = .ok tallied) :
    VotesValid members tallied ∧ tallied.index = votes.index ∧ tallied.threshold = votes.threshold := by
  unfold Collective.recordVote at recorded
  cases approve with
  | true =>
    obtain ⟨cast, ok, rfl⟩ := Transition.exists_of_map_eq_ok recorded
    exact ⟨Sides.castOn valid member ok, rfl, rfl⟩
  | false =>
    obtain ⟨cast, ok, rfl⟩ := Transition.exists_of_map_eq_ok recorded
    exact ⟨(Sides.castOn valid.symm member ok).symm, rfl, rfl⟩

/-! ## Each call keeps the invariant -/

/-- A membership change that names every leaving member among the outgoing
ones keeps the invariant. -/
theorem Consistent.changeMembersSorted {incoming outgoing new : List AccountId} (consistent : Consistent storage)
    (sorted : new.Pairwise (· < ·)) (leaving : ∀ member ∈ storage.members, member ∉ new → member ∈ outgoing) :
    Consistent (Collective.changeMembersSorted incoming outgoing new storage) := by
  refine ⟨sorted, consistent.proposals_nodup, fun h => ?_, consistent.proposalOf_iff, fun h votes found => ?_⟩
  · rw [changeMembersSorted_voting, contains_foldl_retainVotes]
    exact consistent.voting_iff h
  · rw [changeMembersSorted_voting, lookup_foldl_retainVotes] at found
    -- only an open motion has votes, and those of an open motion are retained
    have opened : h ∈ storage.proposals := by
      by_contra closed
      rw [if_neg closed] at found
      exact closed ((consistent.voting_iff h).mp (KVMap.contains_of_lookup found))
    rw [if_pos opened] at found
    obtain ⟨old, oldFound, rfl⟩ := Option.map_eq_some_iff.mp found
    refine Sides.retain (consistent.votes_valid h old oldFound) fun voter member stays => ?_
    by_contra notNew
    exact stays_iff.mp stays (leaving voter member notNew)

/-- `set_members_sorted` with the members as they are: every old member that
is not new is outgoing. -/
theorem Consistent.setMembersSorted {new : List AccountId} (consistent : Consistent storage)
    (sorted : new.Pairwise (· < ·)) : Consistent (Collective.setMembersSorted new storage.members storage) := by
  unfold Collective.setMembersSorted
  exact consistent.changeMembersSorted sorted fun _ inOld notNew => mem_computeMembersDiff_outgoing inOld notNew

theorem Consistent.setMembers {origin : Pallet.Origin AccountId} {newMembers : List AccountId}
    {after : Storage AccountId Hash Proposal} {result : Except DispatchError Unit} (consistent : Consistent storage)
    (nodup : newMembers.Nodup) (ran : setMembers origin newMembers storage = (after, result)) : Consistent after := by
  unfold Collective.setMembers at ran
  cases rooted : ensureRoot origin with
  | error e =>
    rw [rooted] at ran
    cases ran
    exact consistent
  | ok =>
    rw [rooted] at ran
    cases ran
    -- the members `Members::mutate` writes back are those the hook stored
    exact consistent.setMembersSorted (sort_strictly nodup)

omit [DecidableEq Hash] in
theorem genesis_consistent {members : List AccountId} {start : Storage AccountId Hash Proposal}
    (sorted : members.Pairwise (· < ·)) (built : genesis members = some start) : Consistent start := by
  have empty : ∀ members : List AccountId, members.Pairwise (· < ·) →
      Consistent (⟨[], KVMap.empty, KVMap.empty, 0, members⟩ : Storage AccountId Hash Proposal) :=
    fun members sorted => ⟨sorted, List.nodup_nil, fun h => by simp [KVMap.contains, KVMap.empty],
      fun h => by simp [KVMap.contains, KVMap.empty], fun h votes found => by simp at found⟩
  unfold genesis initializeMembers at built
  by_cases none : members.isEmpty
  · rw [if_pos none] at built
    cases built
    exact empty [] List.Pairwise.nil
  · rw [if_neg none, if_pos List.isEmpty_nil] at built
    cases built
    exact empty members sorted

omit [LinearOrder AccountId] in
theorem ensureSigned_ok {origin : Pallet.Origin AccountId} {who : AccountId}
    (signed : ensureSigned origin = .ok who) : origin = .signed who := by
  cases origin with
  | signed account => cases signed; rfl
  | root => cases signed
  | none => cases signed

/-- What `propose` can do: leave the storage as it is, or open the motion of
a member under a fresh hash with the proposer's aye. -/
theorem propose_cases {hashOf : Proposal → Hash} {origin : Pallet.Origin AccountId} {threshold : Nat}
    {proposal : Proposal} {after : Storage AccountId Hash Proposal}
    {result : Except DispatchError (Option (Dispatch AccountId Proposal))}
    (proposed : propose hashOf origin threshold proposal storage = some (after, result)) :
    after = storage ∨
      ∃ who proposalCount, who ∈ storage.members ∧ storage.proposalOf.contains (hashOf proposal) = false ∧
        after = { storage with
          proposalCount
          proposals := storage.proposals ++ [hashOf proposal]
          proposalOf := storage.proposalOf.insert (hashOf proposal) proposal
          voting := storage.voting.insert (hashOf proposal) ⟨storage.proposalCount, threshold, [who], []⟩ } := by
  unfold Collective.propose at proposed
  cases signed : ensureSigned origin with
  | error e =>
    rw [signed] at proposed
    cases proposed
    exact Or.inl rfl
  | ok who =>
    rw [signed] at proposed
    dsimp only at proposed
    split_ifs at proposed with notMember duplicate single
    · cases proposed
      exact Or.inl rfl
    · cases proposed
      exact Or.inl rfl
    · cases proposed
      exact Or.inl rfl
    · obtain ⟨proposalCount, -, stored⟩ := Option.map_eq_some_iff.mp proposed
      cases stored
      refine Or.inr ⟨who, proposalCount, by simpa [isMember] using notMember, by simpa using duplicate, rfl⟩

/-- Opening a motion of a member under a fresh hash keeps the invariant. -/
theorem Consistent.open {h : Hash} {proposal : Proposal} {who : AccountId} {index threshold proposalCount : Nat}
    (consistent : Consistent storage) (member : who ∈ storage.members) (fresh : storage.proposalOf.contains h = false) :
    Consistent { storage with
      proposalCount
      proposals := storage.proposals ++ [h]
      proposalOf := storage.proposalOf.insert h proposal
      voting := storage.voting.insert h ⟨index, threshold, [who], []⟩ } := by
  have closed : h ∉ storage.proposals := fun opened => by
    simp [(consistent.proposalOf_iff h).mpr opened] at fresh
  have listed : ∀ tested, tested ∈ storage.proposals ++ [h] ↔ tested = h ∨ tested ∈ storage.proposals := by
    simp [or_comm]
  refine ⟨consistent.members_sorted, ?_, fun tested => ?_, fun tested => ?_, fun tested votes found => ?_⟩
  · exact (List.perm_append_singleton h _).nodup_iff.mpr (List.nodup_cons.mpr ⟨closed, consistent.proposals_nodup⟩)
  · rw [KVMap.contains_insert, Bool.or_eq_true, decide_eq_true_iff, consistent.voting_iff tested, listed]
  · rw [KVMap.contains_insert, Bool.or_eq_true, decide_eq_true_iff, consistent.proposalOf_iff tested, listed]
  · rw [KVMap.lookup_insert] at found
    split_ifs at found with same
    · cases found
      exact ⟨List.nodup_singleton who, List.nodup_nil, by simp, by simpa using member, by simp⟩
    · exact consistent.votes_valid tested votes found

theorem Consistent.propose {hashOf : Proposal → Hash} {origin : Pallet.Origin AccountId} {threshold : Nat}
    {proposal : Proposal} {after : Storage AccountId Hash Proposal}
    {result : Except DispatchError (Option (Dispatch AccountId Proposal))} (consistent : Consistent storage)
    (proposed : Collective.propose hashOf origin threshold proposal storage = some (after, result)) :
    Consistent after := by
  rcases propose_cases proposed with rfl | ⟨who, proposalCount, member, fresh, rfl⟩
  · exact consistent
  · exact consistent.open member fresh

/-- What `vote` can do: leave the storage as it is and dispatch nothing, or
record a member's vote and either keep the motion open with the new tally or
close it, dispatching its proposal from `Members(threshold, seats)` only when
the ayes reach the threshold. -/
theorem vote_cases {origin : Pallet.Origin AccountId} {proposal : Hash} {index : Nat} {approve : Bool}
    {after : Storage AccountId Hash Proposal} {result : Except DispatchError (Option (Dispatch AccountId Proposal))}
    (voted : vote origin proposal index approve storage = (after, result)) :
    (after = storage ∧ ∀ dispatch, result ≠ .ok (some dispatch)) ∨
      ∃ who votes tallied, origin = .signed who ∧ who ∈ storage.members ∧
        storage.voting.lookup proposal = some votes ∧ recordVote who approve votes = .ok tallied ∧
        ((after = { storage with voting := storage.voting.insert proposal tallied } ∧ result = .ok none) ∨
          (after = { storage with
              proposalOf := storage.proposalOf.remove proposal
              voting := storage.voting.remove proposal
              proposals := storage.proposals.filter (· != proposal) } ∧
            ∀ dispatch, result = .ok (some dispatch) →
              ∃ motion, storage.proposalOf.lookup proposal = some motion ∧
                tallied.threshold ≤ RustInt.cast 32 tallied.ayes.length ∧
                dispatch = ⟨.members tallied.threshold (RustInt.cast 32 storage.members.length), motion⟩)) := by
  have unchanged : ∀ failure : DispatchError,
      (storage, .error failure) = (after, result) →
        after = storage ∧ ∀ dispatch, result ≠ .ok (some dispatch) := by
    rintro failure ⟨⟩
    exact ⟨rfl, fun _ refused => by cases refused⟩
  unfold Collective.vote at voted
  cases signed : ensureSigned origin with
  | error e =>
    rw [signed] at voted
    exact Or.inl (unchanged _ voted)
  | ok who =>
    rw [signed] at voted
    dsimp only at voted
    split at voted
    · exact Or.inl (unchanged _ voted)
    · next member =>
      split at voted
      · exact Or.inl (unchanged _ voted)
      · next votes found =>
        split at voted
        · exact Or.inl (unchanged _ voted)
        · split at voted
          · exact Or.inl (unchanged _ voted)
          · next tallied recorded =>
            refine Or.inr ⟨who, votes, tallied, ensureSigned_ok signed, by simpa [isMember] using member, found,
              recorded, ?_⟩
            split at voted
            · -- the motion is closed; it is dispatched only when approved
              cases voted
              refine Or.inr ⟨rfl, fun dispatch dispatched => ?_⟩
              have chosen := Except.ok.inj dispatched
              split at chosen
              · next approved =>
                obtain ⟨motion, stored, rfl⟩ := Option.map_eq_some_iff.mp chosen
                exact ⟨motion, stored, of_decide_eq_true approved, rfl⟩
              · cases chosen
            · cases voted
              exact Or.inl ⟨rfl, rfl⟩

theorem Consistent.vote {origin : Pallet.Origin AccountId} {proposal : Hash} {index : Nat} {approve : Bool}
    {after : Storage AccountId Hash Proposal} {result : Except DispatchError (Option (Dispatch AccountId Proposal))}
    (consistent : Consistent storage) (voted : Collective.vote origin proposal index approve storage = (after, result)) :
    Consistent after := by
  rcases vote_cases voted with ⟨rfl, -⟩ | ⟨who, votes, tallied, -, member, found, recorded, ⟨rfl, -⟩ | ⟨rfl, -⟩⟩
  · exact consistent
  · -- the motion stays open with the new tally
    have opened : proposal ∈ storage.proposals := (consistent.voting_iff proposal).mp (KVMap.contains_of_lookup found)
    refine ⟨consistent.members_sorted, consistent.proposals_nodup, fun h => ?_, consistent.proposalOf_iff,
      fun h recorded' found' => ?_⟩
    · rw [KVMap.contains_insert, Bool.or_eq_true, decide_eq_true_iff, consistent.voting_iff h]
      exact ⟨fun listed => listed.elim (fun same => same ▸ opened) id, Or.inr⟩
    · rw [KVMap.lookup_insert] at found'
      split_ifs at found' with same
      · cases found'
        exact (VotesValid.recordVote (consistent.votes_valid proposal votes found) member recorded).1
      · exact consistent.votes_valid h recorded' found'
  · -- the motion is closed: it leaves the list, the proposals and the votes
    have listed : ∀ h, h ∈ storage.proposals.filter (· != proposal) ↔ h ≠ proposal ∧ h ∈ storage.proposals := by
      simp [and_comm]
    refine ⟨consistent.members_sorted, consistent.proposals_nodup.filter _, fun h => ?_, fun h => ?_,
      fun h remaining found' => ?_⟩
    · rw [KVMap.contains_remove, Bool.and_eq_true, Bool.not_eq_true', decide_eq_false_iff_not,
        consistent.voting_iff h, listed]
    · rw [KVMap.contains_remove, Bool.and_eq_true, Bool.not_eq_true', decide_eq_false_iff_not,
        consistent.proposalOf_iff h, listed]
    · rw [KVMap.lookup_remove] at found'
      split_ifs at found' with same
      exact consistent.votes_valid h remaining found'

/-- Every call allowed by the contract keeps the invariant; a panic leaves
the storage as it was. -/
theorem Consistent.step {hashOf : Proposal → Hash} {call : Call AccountId Hash Proposal} (consistent : Consistent storage)
    (permitted : call.Contract storage) : Consistent (call.step hashOf storage).1 := by
  cases call with
  | setMembers origin newMembers =>
    rcases ran : Collective.setMembers origin newMembers storage with ⟨after, result⟩
    simp only [Call.step, ran]
    exact consistent.setMembers permitted ran
  | execute origin proposal =>
    exact consistent
  | propose origin threshold proposal =>
    rcases proposed : Collective.propose hashOf origin threshold proposal storage with _ | ⟨after, result⟩
    · simp only [Call.step, proposed]
      exact consistent
    · simp only [Call.step, proposed]
      exact consistent.propose proposed
  | vote origin proposal index approve =>
    rcases voted : Collective.vote origin proposal index approve storage with ⟨after, result⟩
    simp only [Call.step, voted]
    exact consistent.vote voted
  | changeMembers incoming outgoing new =>
    obtain ⟨nodup, leaving⟩ := permitted
    show Consistent (Collective.changeMembersSorted incoming outgoing (sort new) storage)
    exact consistent.changeMembersSorted (sort_strictly nodup) fun member inOld notNew =>
      leaving member inOld fun inNew => notNew (mem_sort.mpr inNew)
  | setMembersSorted newMembers oldMembers =>
    obtain ⟨sorted, rfl⟩ := permitted
    exact consistent.setMembersSorted sorted

/-! ## Open motions and what a vote dispatches -/

omit [DecidableEq Hash] in
/-- An open motion has its votes and its proposal, and the votes are valid. -/
theorem Consistent.openMotion {h : Hash} (consistent : Consistent storage) (opened : h ∈ storage.proposals) :
    ∃ votes motion, storage.voting.lookup h = some votes ∧ storage.proposalOf.lookup h = some motion ∧
      VotesValid storage.members votes := by
  obtain ⟨votes, found⟩ := (KVMap.contains_iff _ h).mp ((consistent.voting_iff h).mpr opened)
  obtain ⟨motion, stored⟩ := (KVMap.contains_iff _ h).mp ((consistent.proposalOf_iff h).mpr opened)
  exact ⟨votes, motion, found, stored, consistent.votes_valid h votes found⟩

/-- A vote that dispatches a motion from `Members(threshold, seats)` has at
least `threshold` distinct members among its ayes, and `seats` is the number
of members, as a `u32`. -/
theorem Consistent.vote_dispatch {origin : Pallet.Origin AccountId} {proposal : Hash} {index : Nat}
    {approve : Bool} {after : Storage AccountId Hash Proposal} {dispatch : Dispatch AccountId Proposal}
    {threshold seats : Nat} (consistent : Consistent storage)
    (voted : Collective.vote origin proposal index approve storage = (after, .ok (some dispatch)))
    (carried : dispatch.origin = .members threshold seats) :
    ∃ who votes tallied, origin = .signed who ∧ storage.voting.lookup proposal = some votes ∧
      recordVote who approve votes = .ok tallied ∧ threshold = tallied.threshold ∧
      (∀ voter ∈ tallied.ayes, voter ∈ storage.members) ∧ threshold ≤ tallied.ayes.toFinset.card ∧
      seats = storage.members.toFinset.card % 2 ^ 32 := by
  rcases vote_cases voted with ⟨-, nothing⟩ | ⟨who, votes, tallied, signed, member, found, recorded, ⟨-, kept⟩ | ⟨-, closed⟩⟩
  · exact absurd rfl (nothing dispatch)
  · cases kept
  · obtain ⟨motion, -, reached, rfl⟩ := closed dispatch rfl
    cases carried
    have valid := (VotesValid.recordVote (consistent.votes_valid proposal votes found) member recorded).1
    have membersNodup : storage.members.Nodup := consistent.members_sorted.imp ne_of_lt
    refine ⟨who, votes, tallied, signed, found, recorded, rfl, valid.side_members, ?_, ?_⟩
    · -- the `u32` count of the ayes is at most their number, all distinct
      calc tallied.threshold ≤ RustInt.cast 32 tallied.ayes.length := reached
        _ ≤ tallied.ayes.length := Nat.mod_le _ _
        _ = tallied.ayes.toFinset.card := (List.toFinset_card_of_nodup valid.side_nodup).symm
    · rw [List.toFinset_card_of_nodup membersNodup]
      rfl

/-! ## Runs from genesis -/

/-- From a sorted genesis, along calls that keep the contract: the members
stay strictly sorted, every open motion has its proposal and valid votes,
every vote that dispatches a motion has its threshold of distinct members
among the ayes with `seats` their number as a `u32`, and the diff of two
strictly sorted lists is exact. -/
theorem motions_carried_by_members (hashOf : Proposal → Hash) {genesisMembers : List AccountId}
    {start storage : Storage AccountId Hash Proposal} (sorted : genesisMembers.Pairwise (· < ·))
    (built : genesis genesisMembers = some start)
    (reachable : Transition.ReachableUnder Call.Contract (fun call current => (call.step hashOf current).1)
      start storage) :
    storage.members.Pairwise (· < ·) ∧
      (∀ h ∈ storage.proposals, ∃ votes motion, storage.voting.lookup h = some votes ∧
        storage.proposalOf.lookup h = some motion ∧ VotesValid storage.members votes) ∧
      (∀ origin proposal index approve after dispatch threshold seats,
        vote origin proposal index approve storage = (after, .ok (some dispatch)) →
        dispatch.origin = .members threshold seats →
        ∃ who votes tallied, origin = .signed who ∧ storage.voting.lookup proposal = some votes ∧
          recordVote who approve votes = .ok tallied ∧ threshold = tallied.threshold ∧
          (∀ voter ∈ tallied.ayes, voter ∈ storage.members) ∧ threshold ≤ tallied.ayes.toFinset.card ∧
          seats = storage.members.toFinset.card % 2 ^ 32) ∧
      (∀ newMembers oldMembers : List AccountId, newMembers.Pairwise (· < ·) → oldMembers.Pairwise (· < ·) →
        computeMembersDiff newMembers oldMembers =
            (newMembers.filter fun member => decide (member ∉ oldMembers),
              oldMembers.filter fun member => decide (member ∉ newMembers)) ∧
          (computeMembersDiff newMembers oldMembers).1.Pairwise (· < ·) ∧
          (computeMembersDiff newMembers oldMembers).2.Pairwise (· < ·)) := by
  have consistent : Consistent storage :=
    Transition.ReachableUnder.invariant (genesis_consistent sorted built)
      (fun _ _ consistent permitted => consistent.step permitted) reachable
  refine ⟨consistent.members_sorted, fun h opened => consistent.openMotion opened, ?_, ?_⟩
  · intro origin proposal index approve after dispatch threshold seats voted carried
    exact consistent.vote_dispatch voted carried
  · intro newMembers oldMembers newSorted oldSorted
    exact computeMembersDiff_eq newMembers oldMembers newSorted oldSorted

theorem motions_carried_by_members_after_proposal :
    let start : Storage Nat Nat Nat := ⟨[], KVMap.empty, KVMap.empty, 0, [1, 2]⟩
    let storage := (Call.step id (.propose (.signed 1) 2 7) start).1
    ([1, 2] : List Nat).Pairwise (· < ·) ∧ genesis [1, 2] = some start ∧
      Transition.ReachableUnder Call.Contract (fun call current => (call.step id current).1) start storage ∧
      storage.members.Pairwise (· < ·) ∧
      (∀ h ∈ storage.proposals, ∃ votes motion, storage.voting.lookup h = some votes ∧
        storage.proposalOf.lookup h = some motion ∧ VotesValid storage.members votes) ∧
      (∀ origin proposal index approve after dispatch threshold seats,
        vote origin proposal index approve storage = (after, .ok (some dispatch)) →
        dispatch.origin = .members threshold seats →
        ∃ who votes tallied, origin = .signed who ∧ storage.voting.lookup proposal = some votes ∧
          recordVote who approve votes = .ok tallied ∧ threshold = tallied.threshold ∧
          (∀ voter ∈ tallied.ayes, voter ∈ storage.members) ∧ threshold ≤ tallied.ayes.toFinset.card ∧
          seats = storage.members.toFinset.card % 2 ^ 32) ∧
      (∀ newMembers oldMembers : List Nat, newMembers.Pairwise (· < ·) → oldMembers.Pairwise (· < ·) →
        computeMembersDiff newMembers oldMembers =
            (newMembers.filter fun member => decide (member ∉ oldMembers),
              oldMembers.filter fun member => decide (member ∉ newMembers)) ∧
          (computeMembersDiff newMembers oldMembers).1.Pairwise (· < ·) ∧
          (computeMembersDiff newMembers oldMembers).2.Pairwise (· < ·)) := by
  intro start storage
  have sorted : ([1, 2] : List Nat).Pairwise (· < ·) := by decide
  have reachable : Transition.ReachableUnder Call.Contract (fun call current => (call.step id current).1)
      start storage := .step _ trivial .init
  exact ⟨sorted, rfl, reachable, motions_carried_by_members id sorted rfl reachable⟩

/-- `set_members` keeps a repeated account: from an empty genesis the members
`[1, 2, 1]` are stored as `[1, 1, 2]`, and a motion with the ayes of the two
distinct members is dispatched with three seats. -/
theorem set_members_counts_repeated_seat :
    let start : Storage Nat Nat Nat := ⟨[], KVMap.empty, KVMap.empty, 0, []⟩
    let calls : List (Call Nat Nat Nat) :=
      [.setMembers .root [1, 2, 1], .propose (.signed 1) 2 7, .vote (.signed 2) 7 0 true]
    genesis [] = some start ∧ (Transition.run (Call.step id) start calls).1.members = [1, 1, 2] ∧
      ¬([1, 1, 2] : List Nat).Nodup ∧
      (Transition.run (Call.step id) start calls).2.map Prod.snd =
        [some (.ok none), some (.ok none), some (.ok (some ⟨.members 2 3, 7⟩))] ∧
      ([1, 1, 2] : List Nat).toFinset.card = 2 := by
  intro start calls
  exact ⟨rfl, by decide, by decide, by decide, by decide⟩

end OffchainStorage.Collective
