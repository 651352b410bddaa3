import OffchainStorage.StateDb.Sync

/-!
# Pinned state

`pin` asks the state-db to keep the values of a block readable while the
block is in use: when discarding a fork would remove a value no other block
inserts, `discard_values` hands it to the map of kept values of a pinned
block.  Which block receives it is decided by the hash `discard_values` is
handed.  For the blocks of the canonicalized level, it is the discarded
block's own hash.  For their descendants, `discard_descendants` hands the
hash of the parent, so a discarded block's values go to its parent's map,
and never to its own (`takeChildren_pinned_of_ne`).  A pinned block two
levels above the last canonical block on a discarded fork therefore loses
its values (`pinned_fork_block_loses_values`).
-/

namespace OffchainStorage.StateDb

namespace NonCanonicalOverlay

variable {BlockHash Key : Type} [DecidableEq BlockHash] [DecidableEq Key]

/-- `discard_values` handed the pinned map of `hash` leaves the maps of the
other blocks as they are. -/
theorem lookup_discardValuesInto_of_ne (values : KVMap Key (Nat × DBValue)) (inserted : List Key)
    (pinned : AList fun _ : BlockHash => KVMap Key DBValue) {hash other : BlockHash}
    (different : other ≠ hash) :
    (discardValuesInto values inserted pinned hash).2.lookup other = pinned.lookup other := by
  unfold discardValuesInto
  rcases discardValues values inserted (pinned.lookup hash) with ⟨_, _ | into⟩
  · rfl
  · exact AList.lookup_insert_ne different

/-- Taking the children of `hash` out of a level changes the kept values of
no block but `hash`: in particular, a pinned child keeps none of its own. -/
theorem takeChildren_pinned_of_ne (hash : BlockHash) {other : BlockHash} (different : other ≠ hash) :
    ∀ (level : List (BlockOverlay BlockHash Key)) (overlay : NonCanonicalOverlay BlockHash Key)
      {kept : List (BlockOverlay BlockHash Key)} {discarded : List BlockHash}
      {taken : NonCanonicalOverlay BlockHash Key},
      takeChildren hash level overlay = some (kept, discarded, taken) →
        taken.pinned.lookup other = overlay.pinned.lookup other
  | [], overlay, _, _, _, taking => by
    simp only [takeChildren, Option.some.injEq, Prod.mk.injEq] at taking
    rw [← taking.2.2]
  | child :: rest, overlay, kept, discarded, taken, taking => by
    simp only [takeChildren] at taking
    split at taking
    · cases taking
    · split at taking
      · -- a child: its values go to the map of `hash`
        obtain ⟨⟨restKept, restDiscarded, restTaken⟩, tookRest, same⟩ := Option.map_eq_some_iff.mp taking
        simp only [Prod.mk.injEq] at same
        rw [← same.2.2, takeChildren_pinned_of_ne hash different rest _ tookRest]
        exact lookup_discardValuesInto_of_ne _ _ _ different
      · obtain ⟨⟨restKept, restDiscarded, restTaken⟩, tookRest, same⟩ := Option.map_eq_some_iff.mp taking
        simp only [Prod.mk.injEq] at same
        rw [← same.2.2, takeChildren_pinned_of_ne hash different rest _ tookRest]

end NonCanonicalOverlay

namespace StateDbSync

/-- What `new` makes of an empty database in `ArchiveCanonical` mode. -/
def archiveCanonicalStart : StateDbSync Nat Nat :=
  ⟨.archiveCanonical, NonCanonicalOverlay.empty, none, KVMap.empty⟩

theorem new_archiveCanonical_empty (fuel : Nat) :
    new .archiveCanonical fuel (Database.empty : Database Nat Nat) = some (.ok archiveCanonicalStart) :=
  rfl

/-- Blocks `1` and `2` on top of block `0`, and block `3`, inserting the
value `[7]` at key `7`, on `2`. -/
def forkCalls : List (Call Nat Nat) :=
  [.insertBlock 1 1 0 ⟨[], []⟩, .insertBlock 2 1 0 ⟨[], []⟩, .insertBlock 3 2 2 ⟨[(7, [7])], []⟩]

/-- Block `3` is pinned, and its fork discarded by canonicalizing block `1`:
the pin stands, but the value block `3` inserted is in neither the window
nor the database. -/
theorem pinned_fork_block_loses_values :
    (∃ sync db, run forkCalls (archiveCanonicalStart, Database.empty) = some (sync, db) ∧
      (sync.pin 3).2 = .ok ()) ∧
    ∃ sync db,
      run (forkCalls ++ [.pin 3, .canonicalizeBlock 1, .applyPending])
        (archiveCanonicalStart, Database.empty) = some (sync, db) ∧
      sync.pinned.lookup 3 = some 1 ∧ sync.get 7 db = none := by
  refine ⟨⟨_, _, rfl, rfl⟩, _, _, rfl, by decide, by decide⟩

end StateDbSync

end OffchainStorage.StateDb
