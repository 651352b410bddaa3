import OffchainStorage.ForkTree.Tree
import OffchainStorage.Lib.VecOps
import OffchainStorage.Lib.Transition
import Mathlib

/-!
# `AuthoritySet`

The authority set of the GRANDPA client keeps the current authorities, the
set id, a fork tree of pending standard changes (enacted when their block is
finalized) and a vector of pending forced changes (enacted when the best
block reaches their effective number), sorted by effective number and then by
the number of the block that signalled them.

The mutating methods are functions from the set to `Except` of the new set;
none of them writes to `self` before it returns an error, so a run
(`AuthoritySet.run`) keeps the old set on `Err`.  The authority list is a type
parameter `A`: the code only moves it.  The set id is a `u64`, and `set_id + 1`
wraps as a release build does.
-/

namespace OffchainStorage.Grandpa

open OffchainStorage.Fork

inductive DelayKind (N : Type) where
  | finalized
  | best (medianLastFinalized : N)
  deriving DecidableEq, Repr

/-- `PendingChange<H, N>`, carrying the authority list `A`. -/
structure PendingChange (H N A : Type) where
  nextAuthorities : A
  delay : N
  canonHeight : N
  canonHash : H
  delayKind : DelayKind N
  deriving DecidableEq, Repr

structure AuthoritySet (H N A : Type) where
  currentAuthorities : A
  setId : UInt64
  pendingStandardChanges : ForkTree H N (PendingChange H N A)
  pendingForcedChanges : List (PendingChange H N A)

structure Status (H N : Type) where
  changed : Bool
  newSetBlock : Option (H × N)
  deriving DecidableEq, Repr

variable {H N A E : Type}

def PendingChange.effectiveNumber [Add N] (change : PendingChange H N A) : N :=
  change.canonHeight + change.delay

/-- The key of `add_forced_change`'s binary search: the effective number, then
the signal-block number, compared as a tuple. -/
def PendingChange.forcedKey [Add N] (change : PendingChange H N A) : Lex (N × N) :=
  toLex (change.effectiveNumber, change.canonHeight)

def AuthoritySet.genesis (initial : A) : AuthoritySet H N A :=
  ⟨initial, 0, ForkTree.new, []⟩

variable [DecidableEq H] [LinearOrder N] [Add N]

/-! ## Adding changes -/

/-- `add_standard_change`: import the change into the tree at its block. -/
def AuthoritySet.addStandardChange (set : AuthoritySet H N A) (pending : PendingChange H N A)
    (isDescendentOf : H → H → Except E Bool) : Except (Error E) (AuthoritySet H N A) :=
  match set.pendingStandardChanges.import pending.canonHash pending.canonHeight pending
      isDescendentOf with
  | .error failure => .error failure
  | .ok (_, tree) => .ok { set with pendingStandardChanges := tree }

/-- The loop of `add_forced_change`: a forced change signalled at the new
change's block or at one of its ancestors refuses it. -/
def AuthoritySet.checkForcedChanges (isDescendentOf : H → H → Except E Bool)
    (pending : PendingChange H N A) : List (PendingChange H N A) → Except (Error E) Unit
  | [] => .ok ()
  | change :: rest =>
      if change.canonHash = pending.canonHash then
        .error .unfinalizedAncestor
      else
        match isDescendentOf change.canonHash pending.canonHash with
        | .error failure => .error (.client failure)
        | .ok true => .error .unfinalizedAncestor
        | .ok false => checkForcedChanges isDescendentOf pending rest

/-- `add_forced_change`: insert the change where the binary search on its key
places it. -/
def AuthoritySet.addForcedChange (set : AuthoritySet H N A) (pending : PendingChange H N A)
    (isDescendentOf : H → H → Except E Bool) : Except (Error E) (AuthoritySet H N A) :=
  match checkForcedChanges isDescendentOf pending set.pendingForcedChanges with
  | .error failure => .error failure
  | .ok () =>
      let idx := VecOps.unwrapOrElse
        (VecOps.binarySearchByKey set.pendingForcedChanges pending.forcedKey
          PendingChange.forcedKey)
      .ok { set with pendingForcedChanges := set.pendingForcedChanges.insertIdx idx pending }

/-- `add_pending_change`: a `Best` delay makes a forced change, a `Finalized`
one a standard change. -/
def AuthoritySet.addPendingChange (set : AuthoritySet H N A) (pending : PendingChange H N A)
    (isDescendentOf : H → H → Except E Bool) : Except (Error E) (AuthoritySet H N A) :=
  match pending.delayKind with
  | .best _ => set.addForcedChange pending isDescendentOf
  | .finalized => set.addStandardChange pending isDescendentOf

/-! ## Inspecting changes -/

/-- `pending_changes`: the standard changes in the order of the tree's
iterator, then the forced changes. -/
def AuthoritySet.pendingChanges (set : AuthoritySet H N A) : List (PendingChange H N A) :=
  (ForkTreeIterator.toList set.pendingStandardChanges.roots).map Node.data ++
    set.pendingForcedChanges

/-- `current_limit`: the least effective number of a root of the standard
changes. -/
def AuthoritySet.currentLimit (set : AuthoritySet H N A) : Option N :=
  (set.pendingStandardChanges.roots.map fun root => root.data.effectiveNumber).min?

/-! ## Applying changes -/

/-- The loop of `apply_forced_changes` over the forced changes that take
effect at the best block's number: the first one signalled on the best block's
branch starts a new set.  `none` is the panic of the `unreachable!` arm, a
forced change with a `Finalized` delay. -/
def AuthoritySet.applyForcedLoop (set : AuthoritySet H N A) (bestHash : H)
    (isDescendentOf : H → H → Except E Bool) :
    List (PendingChange H N A) → Option (Except E (Option (N × AuthoritySet H N A)))
  | [] => some (.ok none)
  | change :: rest =>
      match isDescendentOf change.canonHash bestHash with
      | .error failure => some (.error failure)
      | .ok true =>
          match change.delayKind with
          | .best medianLastFinalized =>
              some (.ok (some (medianLastFinalized,
                { currentAuthorities := change.nextAuthorities
                  setId := set.setId + 1
                  pendingStandardChanges := ForkTree.new
                  pendingForcedChanges := [] })))
          | .finalized => none
      | .ok false => applyForcedLoop set bestHash isDescendentOf rest

/-- `apply_forced_changes`: the forced changes are scanned while their
effective number is at most the best block's, and only those equal to it are
tried. -/
def AuthoritySet.applyForcedChanges (set : AuthoritySet H N A) (bestHash : H) (bestNumber : N)
    (isDescendentOf : H → H → Except E Bool) :
    Option (Except E (Option (N × AuthoritySet H N A))) :=
  set.applyForcedLoop bestHash isDescendentOf
    ((set.pendingForcedChanges.takeWhile fun change =>
        decide (change.effectiveNumber ≤ bestNumber)).filter fun change =>
      decide (change.effectiveNumber = bestNumber))

/-- `apply_standard_changes`: finalize the root of the standard changes on the
finalized block's branch whose effective number is reached.  Any change to the
tree drops the forced changes; a finalized change starts the next set. -/
def AuthoritySet.applyStandardChanges (set : AuthoritySet H N A) (finalizedHash : H)
    (finalizedNumber : N) (isDescendentOf : H → H → Except E Bool) :
    Except (Error E) (Status H N × AuthoritySet H N A) :=
  match set.pendingStandardChanges.finalizeWithDescendentIf finalizedHash finalizedNumber
      isDescendentOf (fun change => decide (change.effectiveNumber ≤ finalizedNumber)) with
  | .error failure => .error failure
  | .ok (.changed (some change), tree) =>
      .ok (⟨true, some (finalizedHash, finalizedNumber)⟩,
        { currentAuthorities := change.nextAuthorities
          setId := set.setId + 1
          pendingStandardChanges := tree
          pendingForcedChanges := [] })
  | .ok (.changed none, tree) =>
      .ok (⟨true, none⟩, { set with pendingStandardChanges := tree, pendingForcedChanges := [] })
  | .ok (.unchanged, tree) =>
      .ok (⟨false, none⟩, { set with pendingStandardChanges := tree })

/-- `enacts_standard_change`: the dry run of the fork tree for a change whose
effective number is exactly the finalized block's. -/
def AuthoritySet.enactsStandardChange (set : AuthoritySet H N A) (finalizedHash : H)
    (finalizedNumber : N) (isDescendentOf : H → H → Except E Bool) :
    Except (Error E) (Option Bool) :=
  set.pendingStandardChanges.finalizesAnyWithDescendentIf finalizedHash finalizedNumber
    isDescendentOf fun change => decide (change.effectiveNumber = finalizedNumber)

/-! ## What the methods do -/

section Methods

variable {set updated : AuthoritySet H N A} {pending : PendingChange H N A}
  {isDescendentOf : H → H → Except E Bool} {finalizedHash : H} {finalizedNumber : N}
  {status : Status H N}

/-- An added change is either a forced change the check let through, inserted
at the position of its key, or a standard change imported into the tree. -/
theorem AuthoritySet.addPendingChange_eq_ok
    (added : set.addPendingChange pending isDescendentOf = .ok updated) :
    (∃ median, pending.delayKind = .best median ∧
      AuthoritySet.checkForcedChanges isDescendentOf pending set.pendingForcedChanges = .ok () ∧
      updated = { set with
        pendingForcedChanges := set.pendingForcedChanges.insertIdx
          (VecOps.unwrapOrElse (VecOps.binarySearchByKey set.pendingForcedChanges
            pending.forcedKey PendingChange.forcedKey)) pending }) ∨
    (pending.delayKind = .finalized ∧ ∃ answer,
      set.pendingStandardChanges.import pending.canonHash pending.canonHeight pending
          isDescendentOf = .ok (answer, updated.pendingStandardChanges) ∧
      updated = { set with pendingStandardChanges := updated.pendingStandardChanges }) := by
  unfold AuthoritySet.addPendingChange at added
  cases kind : pending.delayKind with
  | best median =>
      simp only [kind, AuthoritySet.addForcedChange] at added
      cases checked : AuthoritySet.checkForcedChanges isDescendentOf pending
          set.pendingForcedChanges with
      | error failure =>
          simp [checked] at added
      | ok _ =>
          simp only [checked, Except.ok.injEq] at added
          exact Or.inl ⟨median, rfl, rfl, added.symm⟩
  | finalized =>
      simp only [kind, AuthoritySet.addStandardChange] at added
      cases imported : set.pendingStandardChanges.import pending.canonHash pending.canonHeight
          pending isDescendentOf with
      | error failure =>
          simp [imported] at added
      | ok result =>
          simp only [imported, Except.ok.injEq] at added
          subst added
          exact Or.inr ⟨rfl, result.1, rfl, rfl⟩

/-- A successful `apply_standard_changes` is one of the three arms of the
source, after a successful `finalize_with_descendent_if`. -/
theorem AuthoritySet.applyStandardChanges_eq_ok
    (applied : set.applyStandardChanges finalizedHash finalizedNumber isDescendentOf =
      .ok (status, updated)) :
    ∃ result tree,
      set.pendingStandardChanges.finalizeWithDescendentIf finalizedHash finalizedNumber
          isDescendentOf (fun change => decide (change.effectiveNumber ≤ finalizedNumber)) =
        .ok (result, tree) ∧
      ((∃ change, result = .changed (some change) ∧
          status = ⟨true, some (finalizedHash, finalizedNumber)⟩ ∧
          updated = { currentAuthorities := change.nextAuthorities
                      setId := set.setId + 1
                      pendingStandardChanges := tree
                      pendingForcedChanges := [] }) ∨
        (result = .changed none ∧ status = ⟨true, none⟩ ∧
          updated = { set with pendingStandardChanges := tree, pendingForcedChanges := [] }) ∨
        (result = .unchanged ∧ status = ⟨false, none⟩ ∧
          updated = { set with pendingStandardChanges := tree })) := by
  unfold AuthoritySet.applyStandardChanges at applied
  split at applied
  · cases applied
  · rename_i change tree finalizes
    simp only [Except.ok.injEq, Prod.mk.injEq] at applied
    exact ⟨_, tree, finalizes, Or.inl ⟨change, rfl, applied.1.symm, applied.2.symm⟩⟩
  · rename_i tree finalizes
    simp only [Except.ok.injEq, Prod.mk.injEq] at applied
    exact ⟨_, tree, finalizes, Or.inr (Or.inl ⟨rfl, applied.1.symm, applied.2.symm⟩)⟩
  · rename_i tree finalizes
    simp only [Except.ok.injEq, Prod.mk.injEq] at applied
    exact ⟨_, tree, finalizes, Or.inr (Or.inr ⟨rfl, applied.1.symm, applied.2.symm⟩)⟩

end Methods

/-! ## Runs -/

/-- The methods that change an authority set. -/
inductive AuthoritySet.Operation (H N A : Type) where
  | addPendingChange (pending : PendingChange H N A)
  | applyStandardChanges (finalizedHash : H) (finalizedNumber : N)

/-- The set after an operation; an operation that errs keeps the set. -/
def AuthoritySet.Operation.apply (isDescendentOf : H → H → Except E Bool) :
    AuthoritySet.Operation H N A → AuthoritySet H N A → AuthoritySet H N A
  | .addPendingChange pending, set =>
      match set.addPendingChange pending isDescendentOf with
      | .ok updated => updated
      | .error _ => set
  | .applyStandardChanges finalizedHash finalizedNumber, set =>
      match set.applyStandardChanges finalizedHash finalizedNumber isDescendentOf with
      | .ok (_, updated) => updated
      | .error _ => set

/-- The set after performing the operations in order from
`AuthoritySet::genesis`. -/
def AuthoritySet.run (isDescendentOf : H → H → Except E Bool) (initial : A)
    (operations : List (AuthoritySet.Operation H N A)) : AuthoritySet H N A :=
  Transition.perform (AuthoritySet.Operation.apply isDescendentOf) (AuthoritySet.genesis initial)
    operations

end OffchainStorage.Grandpa
