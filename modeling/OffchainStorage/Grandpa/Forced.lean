import OffchainStorage.Grandpa.Authorities
import OffchainStorage.ForkTree.Import

/-!
# Pending forced changes

`add_forced_change` refuses a forced change when one is pending at its block
or at an ancestor, and otherwise inserts it where `binary_search_by_key` on
(effective number, signal-block number) places it.  It never looks at the
pending changes below the new one: the client adds forced changes ancestor
before descendant.  Under that promise, and with a client that answers the
ancestry, every set of a run keeps its forced changes sorted by the key, on
pairwise different branches and all with a `Best` delay
(`AuthoritySet.run_forcedConsistent`).  The early stop of
`apply_forced_changes` at the first change beyond the best block then skips
nothing, and its `unreachable!` arm is never reached.
-/

namespace OffchainStorage.Grandpa

open OffchainStorage.Fork

variable {H N A E : Type} [DecidableEq H] [LinearOrder N] [Add N]

/-- The block of the forced change an operation adds. -/
def AuthoritySet.Operation.forcedHash : AuthoritySet.Operation H N A → Option H
  | .addPendingChange pending =>
      match pending.delayKind with
      | .best _ => some pending.canonHash
      | .finalized => none
  | .applyStandardChanges _ _ => none

/-- The blocks of the forced changes a sequence of operations adds, in order. -/
def AuthoritySet.forcedHashes (operations : List (AuthoritySet.Operation H N A)) : List H :=
  operations.filterMap AuthoritySet.Operation.forcedHash

/-- The invariant of the forced changes of a run: sorted by the key of the
binary search, on pairwise different branches, all with a `Best` delay, and
all signalled by the run. -/
structure ForcedConsistent (ancestry : Ancestry H N) (signalled : List H)
    (forced : List (PendingChange H N A)) : Prop where
  sorted : forced.Pairwise fun earlier later => earlier.forcedKey ≤ later.forcedKey
  apart : forced.Pairwise fun first second => ancestry.Apart first.canonHash second.canonHash
  best : ∀ change ∈ forced, ∃ median, change.delayKind = .best median
  signalled : ∀ change ∈ forced, change.canonHash ∈ signalled

section Steps

variable {ancestry : Ancestry H N} {isDescendentOf : H → H → Except E Bool}

omit [Add N] in
/-- The check of `add_forced_change` passes exactly when no forced change is
pending at the new change's block or at one of its ancestors. -/
theorem AuthoritySet.checkForcedChanges_eq_ok_iff (decides : Decides ancestry isDescendentOf)
    (pending : PendingChange H N A) :
    ∀ forced : List (PendingChange H N A),
      AuthoritySet.checkForcedChanges isDescendentOf pending forced = .ok () ↔
        ∀ change ∈ forced, change.canonHash ≠ pending.canonHash ∧
          ancestry.isAncestor change.canonHash pending.canonHash = false
  | [] => by
      simp [AuthoritySet.checkForcedChanges]
  | change :: rest => by
      rw [AuthoritySet.checkForcedChanges, List.forall_mem_cons]
      by_cases same : change.canonHash = pending.canonHash
      · simp [same]
      · rw [if_neg same, decides]
        cases below : ancestry.isAncestor change.canonHash pending.canonHash with
        | true =>
            simp
        | false =>
            simp only [same, ne_eq, not_false_eq_true, true_and]
            exact AuthoritySet.checkForcedChanges_eq_ok_iff decides pending rest

/-- What one operation does to the forced changes: nothing, drop them all, or
insert a forced change that the check let through at the position of its
key. -/
theorem AuthoritySet.Operation.forced_cases (operation : AuthoritySet.Operation H N A)
    (set : AuthoritySet H N A) :
    (operation.apply isDescendentOf set).pendingForcedChanges = set.pendingForcedChanges ∨
      (operation.apply isDescendentOf set).pendingForcedChanges = [] ∨
      ∃ pending median, operation = .addPendingChange pending ∧
        pending.delayKind = .best median ∧
        AuthoritySet.checkForcedChanges isDescendentOf pending set.pendingForcedChanges =
          .ok () ∧
        (operation.apply isDescendentOf set).pendingForcedChanges =
          set.pendingForcedChanges.insertIdx
            (VecOps.unwrapOrElse (VecOps.binarySearchByKey set.pendingForcedChanges
              pending.forcedKey PendingChange.forcedKey)) pending := by
  cases operation with
  | addPendingChange pending =>
      simp only [AuthoritySet.Operation.apply]
      split
      · rename_i updated added
        rcases AuthoritySet.addPendingChange_eq_ok added with
          ⟨median, kind, checked, rfl⟩ | ⟨_, _, _, standard⟩
        · exact Or.inr (Or.inr ⟨pending, median, rfl, kind, checked, rfl⟩)
        · rw [standard]
          exact Or.inl rfl
      · exact Or.inl rfl
  | applyStandardChanges finalizedHash finalizedNumber =>
      simp only [AuthoritySet.Operation.apply]
      split
      · rename_i status updated applied
        obtain ⟨_, _, _, ⟨_, _, _, rfl⟩ | ⟨_, _, rfl⟩ | ⟨_, _, rfl⟩⟩ :=
          AuthoritySet.applyStandardChanges_eq_ok applied
        · exact Or.inr (Or.inl rfl)
        · exact Or.inr (Or.inl rfl)
        · exact Or.inl rfl
      · exact Or.inl rfl

omit [DecidableEq H] in
theorem ForcedConsistent.nil (ancestry : Ancestry H N) (signalled : List H) :
    ForcedConsistent ancestry signalled ([] : List (PendingChange H N A)) where
  sorted := List.Pairwise.nil
  apart := List.Pairwise.nil
  best _ member := absurd member List.not_mem_nil
  signalled _ member := absurd member List.not_mem_nil

omit [DecidableEq H] in
theorem ForcedConsistent.mono {signalled more : List H} {forced : List (PendingChange H N A)}
    (consistent : ForcedConsistent ancestry signalled forced) (subset : signalled ⊆ more) :
    ForcedConsistent ancestry more forced where
  sorted := consistent.sorted
  apart := consistent.apart
  best := consistent.best
  signalled change member := subset (consistent.signalled change member)

/-- Inserting a forced change that the check let through, and that is no
ancestor of a change signalled before, keeps the forced changes consistent. -/
theorem ForcedConsistent.insert (decides : Decides ancestry isDescendentOf)
    {signalled : List H} {forced : List (PendingChange H N A)}
    (consistent : ForcedConsistent ancestry signalled forced) {pending : PendingChange H N A}
    {median : N} (kind : pending.delayKind = .best median)
    (checked : AuthoritySet.checkForcedChanges isDescendentOf pending forced = .ok ())
    (noDescendant : ∀ earlier ∈ signalled, ancestry.isAncestor pending.canonHash earlier = false) :
    ForcedConsistent ancestry (signalled ++ [pending.canonHash])
      (forced.insertIdx (VecOps.unwrapOrElse (VecOps.binarySearchByKey forced
        pending.forcedKey PendingChange.forcedKey)) pending) := by
  have inRange := (VecOps.binarySearchByKey_splits (b := pending.forcedKey) consistent.sorted).1
  have unrelated := (AuthoritySet.checkForcedChanges_eq_ok_iff decides pending forced).mp checked
  have permuted := List.perm_insertIdx pending forced inRange
  refine ⟨VecOps.pairwise_insertIdx_binarySearchByKey consistent.sorted pending, ?_, ?_, ?_⟩
  · -- apartness is symmetric, so the position of the new change does not matter
    rw [permuted.pairwise_iff fun apart => Ancestry.Apart.symm ancestry apart,
      List.pairwise_cons]
    refine ⟨fun change member => Ancestry.Apart.symm ancestry ?_, consistent.apart⟩
    obtain ⟨different, notBelow⟩ := unrelated change member
    exact ⟨different, notBelow,
      noDescendant change.canonHash (consistent.signalled change member)⟩
  · intro change member
    rcases (List.mem_insertIdx inRange).mp member with rfl | old
    · exact ⟨median, kind⟩
    · exact consistent.best change old
  · intro change member
    rcases (List.mem_insertIdx inRange).mp member with rfl | old
    · exact List.mem_append_right _ (List.mem_singleton_self _)
    · exact List.mem_append_left _ (consistent.signalled change old)

/-- One operation keeps the forced changes consistent with the forced changes
signalled so far, when the one it adds is no ancestor of one signalled
before. -/
theorem ForcedConsistent.apply (decides : Decides ancestry isDescendentOf)
    {signalled : List H} {set : AuthoritySet H N A}
    (consistent : ForcedConsistent ancestry signalled set.pendingForcedChanges)
    (operation : AuthoritySet.Operation H N A)
    (ordered : ∀ hash ∈ operation.forcedHash, ∀ earlier ∈ signalled,
      ancestry.isAncestor hash earlier = false) :
    ForcedConsistent ancestry (signalled ++ operation.forcedHash.toList)
      (operation.apply isDescendentOf set).pendingForcedChanges := by
  have extended : signalled ⊆ signalled ++ operation.forcedHash.toList :=
    List.subset_append_left _ _
  rcases AuthoritySet.Operation.forced_cases operation set with
    kept | dropped | ⟨pending, median, rfl, kind, checked, inserted⟩
  · rw [kept]
    exact consistent.mono extended
  · rw [dropped]
    exact ForcedConsistent.nil ancestry _
  · have signalledHere : (AuthoritySet.Operation.addPendingChange pending).forcedHash =
        some pending.canonHash := by
      simp [AuthoritySet.Operation.forcedHash, kind]
    rw [inserted, signalledHere, Option.toList_some]
    exact consistent.insert decides kind checked (ordered pending.canonHash signalledHere)

end Steps

/-- No forced change is added after a forced change signalled at one of its
descendants: the promise of the client under which the forced changes stay on
different branches. -/
def AuthoritySet.ForcedInOrder (ancestry : Ancestry H N)
    (operations : List (AuthoritySet.Operation H N A)) : Prop :=
  ancestry.InOrder (AuthoritySet.forcedHashes operations)

instance AuthoritySet.decidableForcedInOrder (ancestry : Ancestry H N)
    (operations : List (AuthoritySet.Operation H N A)) :
    Decidable (AuthoritySet.ForcedInOrder ancestry operations) :=
  inferInstanceAs (Decidable (ancestry.InOrder _))

/-- Every set of a run whose forced changes come ancestor before descendant
keeps its forced changes consistent. -/
theorem AuthoritySet.run_forcedConsistent {ancestry : Ancestry H N}
    {isDescendentOf : H → H → Except E Bool} (decides : Decides ancestry isDescendentOf)
    (initial : A) (operations : List (AuthoritySet.Operation H N A))
    (ordered : AuthoritySet.ForcedInOrder ancestry operations) :
    ForcedConsistent ancestry (AuthoritySet.forcedHashes operations)
      (AuthoritySet.run isDescendentOf initial operations).pendingForcedChanges := by
  -- the invariant carries the ordering of the prefix performed so far
  refine Transition.perform_invariant (AuthoritySet.Operation.apply isDescendentOf)
    (fun done set => AuthoritySet.ForcedInOrder ancestry done →
      ForcedConsistent ancestry (AuthoritySet.forcedHashes done) set.pendingForcedChanges)
    (fun _ => ForcedConsistent.nil ancestry _)
    (fun done set operation inductionHypothesis doneOrdered => ?_) operations ordered
  have forcedHashes_snoc : AuthoritySet.forcedHashes (done ++ [operation]) =
      AuthoritySet.forcedHashes done ++ operation.forcedHash.toList := by
    simp only [AuthoritySet.forcedHashes, List.filterMap_append, List.filterMap_cons,
      List.filterMap_nil]
    cases operation.forcedHash <;> rfl
  unfold AuthoritySet.ForcedInOrder Ancestry.InOrder at doneOrdered
  rw [forcedHashes_snoc, List.pairwise_append] at doneOrdered
  obtain ⟨prefixOrdered, _, lastOrdered⟩ := doneOrdered
  rw [forcedHashes_snoc]
  exact (inductionHypothesis prefixOrdered).apply decides operation
    fun hash chosen earlier member =>
      lastOrdered earlier member hash (Option.mem_toList.mpr chosen)

/-! ## Applying forced changes -/

section Apply

variable {ancestry : Ancestry H N} {isDescendentOf : H → H → Except E Bool}

omit [DecidableEq H] in
/-- The key orders forced changes by their effective numbers first. -/
theorem PendingChange.effectiveNumber_le_of_forcedKey_le {earlier later : PendingChange H N A}
    (ordered : earlier.forcedKey ≤ later.forcedKey) :
    earlier.effectiveNumber ≤ later.effectiveNumber :=
  Prod.Lex.monotone_fst _ _ ordered

omit [DecidableEq H] [Add N] in
/-- With a client that answers the ancestry, the loop of
`apply_forced_changes` over forced changes with a `Best` delay starts the set of
the first one signalled below the best block, and panics nowhere. -/
theorem AuthoritySet.applyForcedLoop_of_decides (decides : Decides ancestry isDescendentOf) (set : AuthoritySet H N A) (bestHash : H) :
    ∀ changes : List (PendingChange H N A),
      (∀ change ∈ changes, ∃ median, change.delayKind = .best median) →
      ∃ result, set.applyForcedLoop bestHash isDescendentOf changes = some (.ok result) ∧
        (changes.find? (fun change => ancestry.isAncestor change.canonHash bestHash) = none →
          result = none) ∧
        ∀ change, changes.find? (fun change => ancestry.isAncestor change.canonHash bestHash) =
            some change →
          ∃ median, change.delayKind = .best median ∧
            result = some (median,
              { currentAuthorities := change.nextAuthorities
                setId := set.setId + 1
                pendingStandardChanges := ForkTree.new
                pendingForcedChanges := [] })
  | [], _ => ⟨none, rfl, fun _ => rfl, fun _ found => by cases found⟩
  | change :: rest, allBest => by
      rw [AuthoritySet.applyForcedLoop, decides]
      cases below : ancestry.isAncestor change.canonHash bestHash with
      | true =>
          -- the first change below the best block is applied
          obtain ⟨median, kind⟩ := allBest change List.mem_cons_self
          have found : (change :: rest).find? (fun change =>
              ancestry.isAncestor change.canonHash bestHash) = some change :=
            List.find?_cons_of_pos below
          refine ⟨_, by simp only [kind]; rfl, fun missing => ?_, fun other otherFound => ?_⟩
          · rw [found] at missing
            cases missing
          · rw [found, Option.some.injEq] at otherFound
            subst otherFound
            exact ⟨median, kind, rfl⟩
      | false =>
          obtain ⟨result, looped, onNone, onSome⟩ :=
            AuthoritySet.applyForcedLoop_of_decides decides set bestHash rest
              fun other member => allBest other (List.mem_cons_of_mem change member)
          rw [List.find?_cons_of_neg (by simp [below])]
          exact ⟨result, looped, onNone, onSome⟩

end Apply

/-- Every set reached from `AuthoritySet::genesis` by a run whose forced changes
come ancestor before descendant, with a client that answers the ancestry,
keeps its forced changes sorted by (effective number, signal-block number) and
on pairwise different branches; `apply_forced_changes` at any best block then
neither errs nor panics, and answers what the scan of all forced changes
answers: the first change, in the order of the vector, that takes effect at
the best block's number and was signalled below it, starting the next set
with its authorities. -/
theorem forced_changes_sorted_apart_and_scanned (ancestry : Ancestry H N)
    (isDescendentOf : H → H → Except E Bool) (decides : Decides ancestry isDescendentOf)
    (initial : A) (operations : List (AuthoritySet.Operation H N A))
    (ordered : AuthoritySet.ForcedInOrder ancestry operations) {set : AuthoritySet H N A}
    (reached : AuthoritySet.run isDescendentOf initial operations = set) :
    set.pendingForcedChanges.Pairwise (fun earlier later =>
        toLex (earlier.effectiveNumber, earlier.canonHeight) ≤
          toLex (later.effectiveNumber, later.canonHeight)) ∧
      set.pendingForcedChanges.Pairwise (fun first second =>
        first.canonHash ≠ second.canonHash ∧
          ancestry.isAncestor first.canonHash second.canonHash = false ∧
          ancestry.isAncestor second.canonHash first.canonHash = false) ∧
      ∀ (bestHash : H) (bestNumber : N), ∃ result,
        set.applyForcedChanges bestHash bestNumber isDescendentOf = some (.ok result) ∧
        (set.pendingForcedChanges.find? (fun change =>
            decide (change.effectiveNumber = bestNumber) &&
              ancestry.isAncestor change.canonHash bestHash) = none → result = none) ∧
        ∀ change, set.pendingForcedChanges.find? (fun change =>
            decide (change.effectiveNumber = bestNumber) &&
              ancestry.isAncestor change.canonHash bestHash) = some change →
          ∃ median, change.delayKind = .best median ∧
            result = some (median,
              { currentAuthorities := change.nextAuthorities
                setId := set.setId + 1
                pendingStandardChanges := ForkTree.new
                pendingForcedChanges := [] }) := by
  have consistent := AuthoritySet.run_forcedConsistent decides initial operations ordered
  rw [reached] at consistent
  refine ⟨consistent.sorted, consistent.apart, fun bestHash bestNumber => ?_⟩
  -- sorted effective numbers: the early stop of the scan skips no change at the best number
  have effectiveSorted : set.pendingForcedChanges.Pairwise fun earlier later =>
      earlier.effectiveNumber ≤ later.effectiveNumber :=
    consistent.sorted.imp PendingChange.effectiveNumber_le_of_forcedKey_le
  have scanned := VecOps.filter_takeWhile_of_sorted bestNumber effectiveSorted
  obtain ⟨result, looped, onNone, onSome⟩ := AuthoritySet.applyForcedLoop_of_decides decides set
    bestHash (set.pendingForcedChanges.filter fun change =>
      decide (change.effectiveNumber = bestNumber))
    fun change member => consistent.best change (List.mem_of_mem_filter member)
  have sameScan : (set.pendingForcedChanges.filter fun change =>
        decide (change.effectiveNumber = bestNumber)).find?
          (fun change => ancestry.isAncestor change.canonHash bestHash) =
      set.pendingForcedChanges.find? fun change =>
        decide (change.effectiveNumber = bestNumber) &&
          ancestry.isAncestor change.canonHash bestHash := by
    rw [List.find?_filter]
    congr 1
    funext change
    simp
  rw [sameScan] at onNone onSome
  refine ⟨result, ?_, onNone, onSome⟩
  rw [AuthoritySet.applyForcedChanges, scanned]
  exact looped

/-- Forced changes signalled at blocks `5` and `6` of the chain, in that
order. -/
theorem forced_changes_sorted_apart_on_chain :
    AuthoritySet.ForcedInOrder Ancestry.chain
        ([.addPendingChange ⟨1, 10, 5, 5, .best 42⟩, .addPendingChange ⟨2, 10, 6, 6, .best 0⟩] :
          List (AuthoritySet.Operation Nat Nat Nat)) ∧
      (AuthoritySet.run (fun base block => .ok (decide (base < block)) :
            Nat → Nat → Except Unit Bool) 0
          ([.addPendingChange ⟨1, 10, 5, 5, .best 42⟩,
            .addPendingChange ⟨2, 10, 6, 6, .best 0⟩] :
              List (AuthoritySet.Operation Nat Nat Nat))).pendingForcedChanges.Pairwise
        (fun earlier later => toLex (earlier.effectiveNumber, earlier.canonHeight) ≤
          toLex (later.effectiveNumber, later.canonHeight)) :=
  ⟨by decide,
    (forced_changes_sorted_apart_and_scanned Ancestry.chain _ (fun _ _ => rfl) 0 _ (by decide)
      rfl).1⟩

end OffchainStorage.Grandpa
