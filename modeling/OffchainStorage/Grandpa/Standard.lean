import OffchainStorage.Grandpa.Authorities
import OffchainStorage.ForkTree.Run
import OffchainStorage.ForkTree.DryRun

/-!
# Pending standard changes

The standard changes of an authority set are a fork tree that two of the
set's methods drive: `add_standard_change` imports a change at its block, and
`apply_standard_changes` finalizes with the predicate "the effective number is
reached".  A run of the set performs a run of fork-tree operations on its
standard changes (`AuthoritySet.run_pendingStandardChanges`), so the fork
tree's invariant holds of every set reached when the changes carry their
blocks' numbers and come ancestor before descendant, as `add_pending_change`
asks of its callers.  On such a set `enacts_standard_change` announces exactly
the change that `apply_standard_changes` then enacts, although the two use
different predicates and different walks of the tree, and no call enacts a
change past another pending change of its branch.
-/

namespace OffchainStorage.Grandpa

open OffchainStorage.Fork

variable {H N A E : Type} [DecidableEq H] [LinearOrder N] [Add N]

/-- The fork-tree operation a call performs on the standard changes. -/
def AuthoritySet.Operation.standardOperation :
    AuthoritySet.Operation H N A → Option (ForkTree.Operation H N (PendingChange H N A))
  | .addPendingChange pending =>
      match pending.delayKind with
      | .best _ => none
      | .finalized => some (.import pending.canonHash pending.canonHeight pending)
  | .applyStandardChanges finalizedHash finalizedNumber =>
      some (.finalizeWithDescendentIf finalizedHash finalizedNumber
        fun change => decide (change.effectiveNumber ≤ finalizedNumber))

/-- The fork-tree operations of a sequence of calls, in order. -/
def AuthoritySet.standardOperations (operations : List (AuthoritySet.Operation H N A)) :
    List (ForkTree.Operation H N (PendingChange H N A)) :=
  operations.filterMap AuthoritySet.Operation.standardOperation

/-- The block of the standard change an operation adds. -/
def AuthoritySet.Operation.standardHash : AuthoritySet.Operation H N A → Option H
  | .addPendingChange pending =>
      match pending.delayKind with
      | .best _ => none
      | .finalized => some pending.canonHash
  | .applyStandardChanges _ _ => none

/-- The blocks of the standard changes a sequence of operations adds, in
order. -/
def AuthoritySet.standardHashes (operations : List (AuthoritySet.Operation H N A)) : List H :=
  operations.filterMap AuthoritySet.Operation.standardHash

/-- An added change carries the number of the block that signalled it. -/
def AuthoritySet.Operation.Numbered (ancestry : Ancestry H N) :
    AuthoritySet.Operation H N A → Prop
  | .addPendingChange pending => pending.canonHeight = ancestry.rank pending.canonHash
  | .applyStandardChanges _ _ => True

instance AuthoritySet.Operation.decidableNumbered (ancestry : Ancestry H N)
    (operation : AuthoritySet.Operation H N A) : Decidable (operation.Numbered ancestry) :=
  match operation with
  | .addPendingChange pending =>
      inferInstanceAs (Decidable (pending.canonHeight = ancestry.rank pending.canonHash))
  | .applyStandardChanges _ _ => isTrue trivial

/-- No standard change is added after a standard change signalled at one of
its descendants: `add_pending_change` assumes "that changes on the same branch
will be added in-order". -/
def AuthoritySet.StandardInOrder (ancestry : Ancestry H N)
    (operations : List (AuthoritySet.Operation H N A)) : Prop :=
  ancestry.InOrder (AuthoritySet.standardHashes operations)

instance AuthoritySet.decidableStandardInOrder (ancestry : Ancestry H N)
    (operations : List (AuthoritySet.Operation H N A)) :
    Decidable (AuthoritySet.StandardInOrder ancestry operations) :=
  inferInstanceAs (Decidable (ancestry.InOrder _))

/-! ## The standard changes of a run are a fork-tree run -/

section Simulation

variable {isDescendentOf : H → H → Except E Bool}

/-- One call does to the standard changes what its fork-tree operation
does. -/
theorem AuthoritySet.Operation.apply_pendingStandardChanges
    (operation : AuthoritySet.Operation H N A) (set : AuthoritySet H N A) :
    (operation.apply isDescendentOf set).pendingStandardChanges =
      Transition.perform (ForkTree.Operation.apply isDescendentOf) set.pendingStandardChanges
        operation.standardOperation.toList := by
  cases operation with
  | addPendingChange pending =>
      cases kind : pending.delayKind with
      | best median =>
          -- a forced change leaves the tree as it is, added or refused
          have forced : (AuthoritySet.Operation.addPendingChange pending :
              AuthoritySet.Operation H N A).standardOperation = none := by
            simp [AuthoritySet.Operation.standardOperation, kind]
          rw [forced, Option.toList_none, Transition.perform_nil]
          simp only [AuthoritySet.Operation.apply]
          split
          · rename_i updated added
            rcases AuthoritySet.addPendingChange_eq_ok added with
              ⟨_, _, _, rfl⟩ | ⟨finalized, _⟩
            · rfl
            · rw [kind] at finalized
              cases finalized
          · rfl
      | finalized =>
          have standard : (AuthoritySet.Operation.addPendingChange pending :
              AuthoritySet.Operation H N A).standardOperation =
                some (.import pending.canonHash pending.canonHeight pending) := by
            simp [AuthoritySet.Operation.standardOperation, kind]
          rw [standard, Option.toList_some]
          simp only [Transition.perform, List.foldl_cons, List.foldl_nil,
            ForkTree.Operation.apply, AuthoritySet.Operation.apply,
            AuthoritySet.addPendingChange, kind, AuthoritySet.addStandardChange]
          cases set.pendingStandardChanges.import pending.canonHash pending.canonHeight pending
              isDescendentOf <;> rfl
  | applyStandardChanges finalizedHash finalizedNumber =>
      simp only [AuthoritySet.Operation.standardOperation, Option.toList_some,
        Transition.perform, List.foldl_cons, List.foldl_nil, ForkTree.Operation.apply,
        AuthoritySet.Operation.apply, AuthoritySet.applyStandardChanges]
      cases set.pendingStandardChanges.finalizeWithDescendentIf finalizedHash finalizedNumber
          isDescendentOf (fun change => decide (change.effectiveNumber ≤ finalizedNumber)) with
      | error failure =>
          rfl
      | ok outcome =>
          obtain ⟨result, tree⟩ := outcome
          cases result with
          | changed value =>
              cases value <;> rfl
          | unchanged =>
              rfl

omit [DecidableEq H] in
theorem AuthoritySet.standardOperations_append_singleton
    (operations : List (AuthoritySet.Operation H N A)) (operation : AuthoritySet.Operation H N A) :
    AuthoritySet.standardOperations (operations ++ [operation]) =
      AuthoritySet.standardOperations operations ++ operation.standardOperation.toList := by
  simp only [AuthoritySet.standardOperations, List.filterMap_append, List.filterMap_cons,
    List.filterMap_nil]
  cases operation.standardOperation <;> rfl

/-- The standard changes of the set a run reaches are the fork tree its
fork-tree operations reach. -/
theorem AuthoritySet.run_pendingStandardChanges (initial : A)
    (operations : List (AuthoritySet.Operation H N A)) :
    (AuthoritySet.run isDescendentOf initial operations).pendingStandardChanges =
      ForkTree.run isDescendentOf (AuthoritySet.standardOperations operations) := by
  induction operations using List.reverseRecOn with
  | nil =>
      rfl
  | append_singleton operations operation inductionHypothesis =>
      have lastStep : AuthoritySet.run isDescendentOf initial (operations ++ [operation]) =
          operation.apply isDescendentOf (AuthoritySet.run isDescendentOf initial operations) :=
        Transition.perform_append_singleton _ _ _ _
      rw [lastStep, AuthoritySet.Operation.apply_pendingStandardChanges, inductionHypothesis,
        AuthoritySet.standardOperations_append_singleton]
      simp only [ForkTree.run, Transition.perform_append]

end Simulation

/-! ## The fork-tree invariant -/

omit [DecidableEq H] in
/-- The import of a numbered change carries its block's number. -/
theorem AuthoritySet.Operation.standardOperation_numbered {ancestry : Ancestry H N}
    {operation : AuthoritySet.Operation H N A} (numbered : operation.Numbered ancestry) :
    ∀ treeOperation ∈ operation.standardOperation, treeOperation.Numbered ancestry := by
  intro treeOperation translated
  cases operation with
  | addPendingChange pending =>
      cases kind : pending.delayKind with
      | best median =>
          simp [AuthoritySet.Operation.standardOperation, kind] at translated
      | finalized =>
          simp only [AuthoritySet.Operation.standardOperation, kind, Option.mem_def,
            Option.some.injEq] at translated
          subst translated
          exact numbered
  | applyStandardChanges finalizedHash finalizedNumber =>
      simp only [AuthoritySet.Operation.standardOperation, Option.mem_def,
        Option.some.injEq] at translated
      subst translated
      trivial

omit [DecidableEq H] in
/-- The blocks the fork-tree operations import are those of the standard
changes. -/
theorem AuthoritySet.importedHashes_standardOperations
    (operations : List (AuthoritySet.Operation H N A)) :
    ForkTree.importedHashes (AuthoritySet.standardOperations operations) =
      AuthoritySet.standardHashes operations := by
  rw [ForkTree.importedHashes, AuthoritySet.standardOperations, List.filterMap_filterMap,
    AuthoritySet.standardHashes]
  congr 1
  funext operation
  cases operation with
  | addPendingChange pending =>
      cases kind : pending.delayKind <;>
        simp [AuthoritySet.Operation.standardOperation, AuthoritySet.Operation.standardHash,
          ForkTree.Operation.importedHash, kind]
  | applyStandardChanges finalizedHash finalizedNumber =>
      rfl

/-- The standard changes of every set a run reaches represent their blocks,
when the changes carry their blocks' numbers and come in order. -/
theorem AuthoritySet.run_represents {ancestry : Ancestry H N}
    {isDescendentOf : H → H → Except E Bool} (decides : Decides ancestry isDescendentOf)
    (initial : A) (operations : List (AuthoritySet.Operation H N A))
    (numbered : ∀ operation ∈ operations, operation.Numbered ancestry)
    (ordered : AuthoritySet.StandardInOrder ancestry operations) :
    Represents ancestry
      (AuthoritySet.run isDescendentOf initial operations).pendingStandardChanges.roots := by
  rw [AuthoritySet.run_pendingStandardChanges]
  refine (ForkTree.run_consistent decides _ (fun treeOperation member => ?_) ?_).represents
  · obtain ⟨operation, operationMember, translated⟩ := List.mem_filterMap.mp member
    exact AuthoritySet.Operation.standardOperation_numbered (numbered operation operationMember)
      treeOperation translated
  · unfold ForkTree.ImportsInOrder
    rw [AuthoritySet.importedHashes_standardOperations]
    exact ordered

/-! ## Announcing and enacting a standard change -/

section Enacting

variable {ancestry : Ancestry H N} {isDescendentOf : H → H → Except E Bool}
  {set updated : AuthoritySet H N A} {status : Status H N} {hash : H} {number : N}

/-- When the dry run announces a change that can be applied at once, the real
application enacts the root it found: the only root on the block's branch,
whose effective number is the block's. -/
theorem AuthoritySet.applyStandardChanges_of_enacts (decides : Decides ancestry isDescendentOf)
    (represents : Represents ancestry set.pendingStandardChanges.roots)
    (enacts : set.enactsStandardChange hash number isDescendentOf = .ok (some true)) :
    ∃ root ∈ set.pendingStandardChanges.roots,
      (root.hash = hash ∨ ancestry.isAncestor root.hash hash = true) ∧
      root.data.effectiveNumber = number ∧
      (∀ other ∈ set.pendingStandardChanges.roots,
        (other.hash = hash ∨ ancestry.isAncestor other.hash hash = true) → other = root) ∧
      ∃ finalized, set.applyStandardChanges hash number isDescendentOf =
        .ok (⟨true, some (hash, number)⟩,
          { currentAuthorities := root.data.nextAuthorities
            setId := set.setId + 1
            pendingStandardChanges := finalized
            pendingForcedChanges := [] }) := by
  unfold AuthoritySet.enactsStandardChange at enacts
  have above : set.pendingStandardChanges.belowFinalized number = false := by
    cases below : set.pendingStandardChanges.belowFinalized number with
    | false => rfl
    | true =>
        rw [ForkTree.finalizesAnyWithDescendentIf, if_pos below] at enacts
        cases enacts
  -- the dry run reports a root only for a candidate root of its predicate
  obtain ⟨root, rootMember, candidate⟩ : ∃ root ∈ set.pendingStandardChanges.roots,
      Candidate ancestry hash (fun change => decide (change.effectiveNumber = number)) root =
        true := by
    by_contra noCandidate
    exact ForkTree.finalizesAny_of_no_candidate_root decides represents above
      (fun root member => Bool.eq_false_iff.mpr fun candidate =>
        noCandidate ⟨root, member, candidate⟩) enacts
  have dryRun := ForkTree.finalizesAny_of_candidate_root decides represents above rootMember
    candidate
  have checked : ForkTree.checkChildrenNotAncestor isDescendentOf hash number root.children =
      .ok () := by
    cases checking : ForkTree.checkChildrenNotAncestor isDescendentOf hash number
        root.children with
    | ok _ => rfl
    | error failure =>
        rw [enacts, checking] at dryRun
        cases dryRun
  obtain ⟨onBranch, atNumber⟩ := Candidate.eq_true_iff.mp candidate
  have reached : root.data.effectiveNumber = number := of_decide_eq_true atNumber
  -- the root is a candidate of the real application's predicate too
  have applicable : Candidate ancestry hash
      (fun change => decide (change.effectiveNumber ≤ number)) root = true :=
    Candidate.eq_true_iff.mpr ⟨onBranch, decide_eq_true (le_of_eq reached)⟩
  obtain ⟨_, onOk⟩ := ForkTree.finalizeWithDescendentIf_of_candidate_root decides represents
    above rootMember applicable
  obtain ⟨result, finalized, finalizes, changedIff⟩ := onOk checked
  have opened : result = .changed (some root.data) := (changedIff root.data).mpr rfl
  refine ⟨root, rootMember, onBranch, reached, fun other member otherOnBranch => ?_,
    finalized, ?_⟩
  · have otherCandidate : Candidate ancestry hash (fun _ => true) other = true :=
      Candidate.eq_true_iff.mpr ⟨otherOnBranch, rfl⟩
    exact represents.candidate_root_unique member rootMember otherCandidate
      (Candidate.eq_true_iff.mpr ⟨onBranch, rfl⟩)
  · rw [AuthoritySet.applyStandardChanges, finalizes, opened]

/-- A successful `apply_standard_changes` at a block's own number enacts no
change, keeping the set, or enacts one root on the block's branch whose
effective number is reached, and that root is the only pending change strictly
below the block. -/
theorem AuthoritySet.applyStandardChanges_in_order (decides : Decides ancestry isDescendentOf)
    (represents : Represents ancestry set.pendingStandardChanges.roots)
    (numbered : number = ancestry.rank hash)
    (applied : set.applyStandardChanges hash number isDescendentOf = .ok (status, updated)) :
    (status.newSetBlock = none ∧ updated.setId = set.setId ∧
        updated.currentAuthorities = set.currentAuthorities) ∨
      (status.newSetBlock = some (hash, number) ∧ updated.setId = set.setId + 1 ∧
        ∃ root ∈ set.pendingStandardChanges.roots,
          (root.hash = hash ∨ ancestry.isAncestor root.hash hash = true) ∧
          root.data.effectiveNumber ≤ number ∧
          updated.currentAuthorities = root.data.nextAuthorities ∧
          ∀ node ∈ Node.forestNodes set.pendingStandardChanges.roots,
            ancestry.isAncestor node.hash hash = true → node = root) := by
  obtain ⟨result, tree, finalizes, ⟨change, rfl, rfl, rfl⟩ | ⟨_, rfl, rfl⟩ | ⟨_, rfl, rfl⟩⟩ :=
    AuthoritySet.applyStandardChanges_eq_ok applied
  · obtain ⟨root, rootMember, candidate, rfl, onlyRoot⟩ :=
      ForkTree.finalizeWithDescendentIf_in_order decides represents numbered finalizes
    obtain ⟨onBranch, within⟩ := Candidate.eq_true_iff.mp candidate
    exact Or.inr ⟨rfl, rfl, root, rootMember, onBranch, of_decide_eq_true within, rfl, onlyRoot⟩
  · exact Or.inl ⟨rfl, rfl, rfl⟩
  · exact Or.inl ⟨rfl, rfl, rfl⟩

end Enacting

/-- On every set reached from `AuthoritySet::genesis` by a run whose changes
carry their blocks' numbers and whose standard changes come ancestor before
descendant, with a client that answers the ancestry: when
`enacts_standard_change` at a block answers `Some(true)`,
`apply_standard_changes` at that block succeeds, reports the block as where the
set changed, moves to the next set id with the authorities of the only pending
root on the block's branch, whose effective number is the block's, and drops
the forced changes; and a successful `apply_standard_changes` at a block's own
number enacts no change, or one root on the block's branch that is the only
pending change strictly below the block. -/
theorem enacts_standard_change_then_applies (ancestry : Ancestry H N)
    (isDescendentOf : H → H → Except E Bool) (decides : Decides ancestry isDescendentOf)
    (initial : A) (operations : List (AuthoritySet.Operation H N A))
    (numbered : ∀ operation ∈ operations, operation.Numbered ancestry)
    (ordered : AuthoritySet.StandardInOrder ancestry operations) {set : AuthoritySet H N A}
    (reached : AuthoritySet.run isDescendentOf initial operations = set) (hash : H)
    (number : N) :
    (set.enactsStandardChange hash number isDescendentOf = .ok (some true) →
      ∃ status updated,
        set.applyStandardChanges hash number isDescendentOf = .ok (status, updated) ∧
        status.newSetBlock = some (hash, number) ∧ updated.setId = set.setId + 1 ∧
        updated.pendingForcedChanges = [] ∧
        ∃ root ∈ set.pendingStandardChanges.roots,
          (root.hash = hash ∨ ancestry.isAncestor root.hash hash = true) ∧
          root.data.effectiveNumber = number ∧
          updated.currentAuthorities = root.data.nextAuthorities ∧
          ∀ other ∈ set.pendingStandardChanges.roots,
            (other.hash = hash ∨ ancestry.isAncestor other.hash hash = true) → other = root) ∧
      (number = ancestry.rank hash → ∀ status updated,
        set.applyStandardChanges hash number isDescendentOf = .ok (status, updated) →
          (status.newSetBlock = none ∧ updated.setId = set.setId ∧
              updated.currentAuthorities = set.currentAuthorities) ∨
            (status.newSetBlock = some (hash, number) ∧ updated.setId = set.setId + 1 ∧
              ∃ root ∈ set.pendingStandardChanges.roots,
                (root.hash = hash ∨ ancestry.isAncestor root.hash hash = true) ∧
                root.data.effectiveNumber ≤ number ∧
                updated.currentAuthorities = root.data.nextAuthorities ∧
                ∀ node ∈ Node.forestNodes set.pendingStandardChanges.roots,
                  ancestry.isAncestor node.hash hash = true → node = root)) := by
  have represents : Represents ancestry set.pendingStandardChanges.roots := by
    rw [← reached]
    exact AuthoritySet.run_represents decides initial operations numbered ordered
  refine ⟨fun enacts => ?_, fun blockNumber status updated applied =>
    AuthoritySet.applyStandardChanges_in_order decides represents blockNumber applied⟩
  obtain ⟨root, rootMember, onBranch, atNumber, onlyRoot, finalized, applies⟩ :=
    AuthoritySet.applyStandardChanges_of_enacts decides represents enacts
  exact ⟨_, _, applies, rfl, rfl, rfl, root, rootMember, onBranch, atNumber, rfl, onlyRoot⟩

/-- The changes of the source's test `disallow_multiple_changes_being_finalized_at_once`
on the chain: changes signalled at blocks `5` and `30`, each delayed by `10`;
finalizing block `15` is announced and enacted. -/
theorem enacts_standard_change_then_applies_on_chain :
    (∀ operation ∈ ([.addPendingChange ⟨1, 10, 5, 5, .finalized⟩,
        .addPendingChange ⟨2, 10, 30, 30, .finalized⟩] :
          List (AuthoritySet.Operation Nat Nat Nat)),
        operation.Numbered Ancestry.chain) ∧
      AuthoritySet.StandardInOrder Ancestry.chain
        ([.addPendingChange ⟨1, 10, 5, 5, .finalized⟩,
          .addPendingChange ⟨2, 10, 30, 30, .finalized⟩] :
            List (AuthoritySet.Operation Nat Nat Nat)) ∧
      ((AuthoritySet.run (fun base block => .ok (decide (base < block)) :
            Nat → Nat → Except Unit Bool) 0
          ([.addPendingChange ⟨1, 10, 5, 5, .finalized⟩,
            .addPendingChange ⟨2, 10, 30, 30, .finalized⟩] :
              List (AuthoritySet.Operation Nat Nat Nat))).enactsStandardChange 15 15
          (fun base block => .ok (decide (base < block)) : Nat → Nat → Except Unit Bool) =
            .ok (some true) →
        ∃ status updated,
          (AuthoritySet.run (fun base block => .ok (decide (base < block)) :
                Nat → Nat → Except Unit Bool) 0
              ([.addPendingChange ⟨1, 10, 5, 5, .finalized⟩,
                .addPendingChange ⟨2, 10, 30, 30, .finalized⟩] :
                  List (AuthoritySet.Operation Nat Nat Nat))).applyStandardChanges 15 15
              (fun base block => .ok (decide (base < block)) :
                Nat → Nat → Except Unit Bool) = .ok (status, updated) ∧
          status.newSetBlock = some (15, 15)) :=
  ⟨by decide, by decide, fun enacts => by
    obtain ⟨status, updated, applies, newSetBlock, _⟩ :=
      (enacts_standard_change_then_applies Ancestry.chain _ (fun _ _ => rfl) 0 _ (by decide)
        (by decide) rfl 15 15).1 enacts
    exact ⟨status, updated, applies, newSetBlock⟩⟩

end OffchainStorage.Grandpa
