import OffchainStorage.StateDb.NonCanonical

/-!
# Runs of the canonicalization window

Two properties of the window over whole runs, each refuted by a short run
from the empty window.

Recovery.  A block's journal key is its place in its level when it is
inserted.  Discarding a fork takes blocks out of the middle of a level, so a
later block of the level may take the key of a live one, and the first
indices of a level may be missing.  `new` reads each level from index 0 up
to the first missing record (`new_of_first_record_missing`), so it loses the
whole window (`sibling_fork_breaks_journal_recovery`).

The parents map.  `insert` does not look for the hash in the window, and
reverting an insertion removes the parent entry of its hash whichever block
it belonged to.  Inserting a block again and reverting that insertion leaves
the first copy in its level without a parent, and the next `canonicalize`
that looks at it panics (`reverted_reinsertion_orphans_block`).

Reverting.  The first insertion into a window without a last canonical block
assumes its parent canonical, and nothing reverts that: after
`revert_pending` the window has no level but a last canonical block, and
refuses blocks the new window accepts (`revert_keeps_assumed_parent`).
-/

namespace OffchainStorage.StateDb.NonCanonicalOverlay

variable {BlockHash Key : Type} [DecidableEq BlockHash] [DecidableEq Key]

/-- Recovery stops at the first missing record: when the level above the last
canonical block has no record at index 0, `new` rebuilds an empty window,
whatever the database holds at later indices and levels. -/
theorem new_of_first_record_missing {db : Database BlockHash Key} {hash : BlockHash} {block : Nat}
    (last : db.metadata.lookup .lastCanonical = some (.lastCanonical hash block))
    (missing : db.metadata.lookup (toJournalKey (block + 1) 0) = none) (fuel : Nat) :
    new (fuel + 2) db = some (.ok ⟨some (hash, block), [], KVMap.empty, [], [], KVMap.empty, ∅⟩) := by
  simp only [new, last, readLevels, readLevel, missing]
  rfl

/-! ## A sibling fork and the journal -/

/-- Blocks `1` and `2` on top of block `0`; block `3` on `2` and block `4` on
`1`; block `1` canonicalized, which discards `2` and `3`; then block `5` on
`1`. -/
def siblingForkCalls : List (Call Nat Nat) :=
  [.insert 1 1 0 ⟨[], []⟩, .insert 2 1 0 ⟨[], []⟩, .insert 3 2 2 ⟨[], []⟩,
    .insert 4 2 1 ⟨[], []⟩, .canonicalize 1, .applyPending, .insert 5 2 1 ⟨[], []⟩]

/-- After discarding a sibling fork, the next block of a level takes the
journal key of a live block of it and overwrites its record; the database
then holds no record at index 0 of the level, and `new` rebuilds no level
where the window has one with two blocks. -/
theorem sibling_fork_breaks_journal_recovery :
    ∃ window db, run siblingForkCalls (empty, Database.empty) = some (window, db) ∧
      window.levels.map (fun level => level.map BlockOverlay.hash) = [[4, 5]] ∧
      window.levels.map (fun level => level.map BlockOverlay.journalKey) =
        [[toJournalKey 2 1, toJournalKey 2 1]] ∧
      db.metadata.lookup (toJournalKey 2 1) = some (.nonCanonicalJournal ⟨5, 1, [], []⟩) ∧
      ∀ fuel, new (fuel + 2) db =
        some (.ok ⟨some (1, 1), [], KVMap.empty, [], [], KVMap.empty, ∅⟩) := by
  refine ⟨_, _, rfl, by decide, by decide, by decide, ?_⟩
  exact new_of_first_record_missing (by decide) (by decide)

/-! ## A reverted reinsertion and the parents map -/

/-- Blocks `1` and `2` on top of block `0` and block `3` on `1`, applied;
block `3` inserted again, and that insertion reverted. -/
def reinsertionCalls : List (Call Nat Nat) :=
  [.insert 1 1 0 ⟨[], []⟩, .insert 2 1 0 ⟨[], []⟩, .insert 3 2 1 ⟨[], []⟩, .applyPending,
    .insert 3 2 1 ⟨[], []⟩, .revertPending]

/-- Reverting the second insertion of a block leaves its first copy in the
window without a parent entry, and canonicalizing the sibling of its parent
then panics on the missing entry. -/
theorem reverted_reinsertion_orphans_block :
    ∃ window db, run reinsertionCalls (empty, Database.empty) = some (window, db) ∧
      window.levels.map (fun level => level.map BlockOverlay.hash) = [[1, 2], [3]] ∧
      window.parents.lookup 3 = none ∧
      (Call.canonicalize 2).perform window = none := by
  refine ⟨_, _, rfl, by decide, by decide, by decide⟩

/-! ## Reverting the first insertion -/

/-- The window of an empty database is `empty`. -/
theorem new_empty (fuel : Nat) : new fuel (Database.empty : Database BlockHash Key) = some (.ok empty) :=
  rfl

/-- Reverting the first insertion into the new window leaves the parent it
assumed as the last canonical block: the window has no level, no parent and no
value as before, but block `5` on block `4`, which the new window takes, is
now refused. -/
theorem revert_keeps_assumed_parent :
    ∃ window db, run [.insert 1 1 0 ⟨[], []⟩, .revertPending] (empty, Database.empty) =
        some (window, db) ∧
      window.levels = [] ∧ window.parents 1 = none ∧ window.values = (empty : NonCanonicalOverlay Nat Nat).values ∧
      window.lastCanonicalized = some (0, 0) ∧ (empty : NonCanonicalOverlay Nat Nat).lastCanonicalized = none ∧
      (∃ inserted, (empty : NonCanonicalOverlay Nat Nat).insert 5 5 4 ⟨[], []⟩ = some (.ok inserted)) ∧
      window.insert 5 5 4 ⟨[], []⟩ = some (.error .invalidBlockNumber) := by
  refine ⟨_, _, rfl, rfl, rfl, rfl, rfl, rfl, ⟨_, rfl⟩, rfl⟩

end OffchainStorage.StateDb.NonCanonicalOverlay
