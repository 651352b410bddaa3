import OffchainStorage.StateDb.Commit
import Mathlib

/-!
# `RefWindow`, the pruning window

In the constrained pruning mode every canonicalized block enters a window,
with the keys its change set deleted: its death row.  Pruning the oldest
block of the window deletes the nodes of its death row from the database.  A
key inserted again by a later canonical block leaves the death row it was in,
which `death_index` finds.  Prunings and canonicalizations are pending until
`apply_pending`.

A `HashSet` of keys is a list without duplicates, iterated in its order.  The
journal replay of `new` reads records until the first missing one and takes a
fuel argument, as in `NonCanonical`.

Recovery does not rebuild every window.  `death_index` holds one block per
key, the last that deleted it, while `apply_pending` removes from it every key
of a pruned row, whichever block the entry names.  A key deleted by two
blocks loses its entry when the first is pruned, and keeps it in the window
that `new` reads back (`pruning_forgets_later_deletion`); a later reinsertion
of the key then takes it out of the recovered row but not out of the window's.
-/

namespace OffchainStorage.StateDb

/-- `DeathRow`: the keys a canonical block deleted. -/
structure DeathRow (BlockHash Key : Type) where
  hash : BlockHash
  journalKey : MetaKey
  deleted : List Key
  deriving DecidableEq, Repr

/-- `RefWindow`. -/
structure RefWindow (BlockHash Key : Type) where
  deathRows : List (DeathRow BlockHash Key)
  /-- The block number of the death row that holds each key. -/
  deathIndex : KVMap Key Nat
  /-- The block number of the first death row. -/
  pendingNumber : Nat
  pendingCanonicalizations : Nat
  pendingPrunings : Nat

variable {BlockHash Key : Type} [DecidableEq Key]

/-- `import`: the keys inserted again taken out of their death rows, and a
death row for the keys deleted. -/
def RefWindow.import (hash : BlockHash) (journalKey : MetaKey) (inserted deleted : List Key)
    (window : RefWindow BlockHash Key) : Option (RefWindow BlockHash Key) :=
  -- remove all re-inserted keys from death rows
  (inserted.foldlM (fun (window : RefWindow BlockHash Key) k =>
      match window.deathIndex.lookup k with
      | none => some window
      | some block =>
        let row := block - window.pendingNumber
        -- `self.death_rows[row]` panics out of bounds
        match window.deathRows[row]? with
        | none => none
        | some deathRow =>
          some { window with
            deathIndex := window.deathIndex.remove k
            deathRows := window.deathRows.set row { deathRow with deleted := deathRow.deleted.erase k } })
      window).map fun (window : RefWindow BlockHash Key) =>
    let importedBlock := window.pendingNumber + window.deathRows.length
    { window with
      deathIndex := deleted.foldl (fun index k => index.insert k importedBlock) window.deathIndex
      deathRows := window.deathRows ++ [(⟨hash, journalKey, deleted.dedup⟩ : DeathRow BlockHash Key)] }

namespace RefWindow

/-- `window_size`: the blocks not pruned yet. -/
def windowSize (window : RefWindow BlockHash Key) : Nat :=
  window.deathRows.length - window.pendingPrunings

/-- `next_hash`: the block pruned next. -/
def nextHash (window : RefWindow BlockHash Key) : Option BlockHash :=
  window.deathRows[window.pendingPrunings]?.map DeathRow.hash

/-- `mem_used`. -/
def memUsed (_window : RefWindow BlockHash Key) : Nat :=
  0

/-- `pending`: the number of the block pruned next. -/
def pending (window : RefWindow BlockHash Key) : Nat :=
  window.pendingNumber + window.pendingPrunings

/-- `have_block`: a block of the window not pruned yet. -/
def haveBlock [DecidableEq BlockHash] (window : RefWindow BlockHash Key) (hash : BlockHash) : Bool :=
  (window.deathRows.drop window.pendingPrunings).any fun row => row.hash = hash

/-- `prune_one`: the next death row deleted, its journal record with it, and
the block recorded as the last pruned. -/
def pruneOne (commit : CommitSet BlockHash Key) (window : RefWindow BlockHash Key) :
    RefWindow BlockHash Key × CommitSet BlockHash Key :=
  match window.deathRows[window.pendingPrunings]? with
  | some pruned =>
    let index := window.pendingNumber + window.pendingPrunings
    ({ window with pendingPrunings := window.pendingPrunings + 1 },
      ⟨{ commit.data with deleted := commit.data.deleted ++ pruned.deleted },
        ⟨commit.metadata.inserted ++ [(.lastPruned, .lastPruned index)],
          commit.metadata.deleted ++ [pruned.journalKey]⟩⟩)
  -- `warn!("Trying to prune when there's nothing to prune")`
  | none => (window, commit)

omit [DecidableEq Key] in
/-- `prune_one` shrinks a window that is not empty. -/
theorem windowSize_pruneOne_lt (commit : CommitSet BlockHash Key) {window : RefWindow BlockHash Key}
    (nonempty : 0 < window.windowSize) : (window.pruneOne commit).1.windowSize < window.windowSize := by
  unfold windowSize at nonempty ⊢
  have inRange : window.pendingPrunings < window.deathRows.length := by omega
  unfold pruneOne
  rw [List.getElem?_eq_getElem inRange]
  dsimp only
  omega

/-- `note_canonical`: the canonicalized block's deletions taken out of the
commit into a death row of its own, with its journal record. -/
def noteCanonical (hash : BlockHash) (commit : CommitSet BlockHash Key)
    (window : RefWindow BlockHash Key) : Option (RefWindow BlockHash Key × CommitSet BlockHash Key) :=
  let inserted := commit.data.inserted.map Prod.fst
  let deleted := commit.data.deleted
  let journalRecord : Pruning.JournalRecord BlockHash Key := ⟨hash, inserted, deleted⟩
  let journalKey := MetaKey.pruningJournal (window.pendingNumber + window.deathRows.length)
  let commit : CommitSet BlockHash Key :=
    ⟨{ commit.data with deleted := [] },
      { commit.metadata with
        inserted := commit.metadata.inserted ++ [(journalKey, .pruningJournal journalRecord)] }⟩
  (window.import hash journalKey inserted deleted).map fun window =>
    ({ window with pendingCanonicalizations := window.pendingCanonicalizations + 1 }, commit)

/-- `apply_pending`: the pruned death rows dropped, with their keys in the
index. -/
def applyPending (window : RefWindow BlockHash Key) : Option (RefWindow BlockHash Key) :=
  ((List.range window.pendingPrunings).foldlM (fun (window : RefWindow BlockHash Key) _ =>
      match window.deathRows with
      -- `expect("pending_prunings is always < death_rows.len()")`
      | [] => none
      | pruned :: rest =>
        some { window with
          deathRows := rest
          deathIndex := pruned.deleted.foldl KVMap.remove window.deathIndex
          pendingNumber := window.pendingNumber + 1 })
      { window with pendingCanonicalizations := 0 }).map fun (window : RefWindow BlockHash Key) =>
    { window with pendingPrunings := 0 }

/-- `revert_pending`: the death rows of pending canonicalizations dropped,
with the index entries beyond the window. -/
def revertPending (window : RefWindow BlockHash Key) : RefWindow BlockHash Key :=
  let deathRows := window.deathRows.take (window.deathRows.length - window.pendingCanonicalizations)
  let newMaxBlock := deathRows.length + window.pendingNumber
  { window with
    deathRows
    deathIndex := fun k => (window.deathIndex.lookup k).filter fun block => block < newMaxBlock
    pendingCanonicalizations := 0
    pendingPrunings := 0 }

/-- The journal loop of `new`: the records from block `block` on, imported
in order up to the first missing one. -/
def readJournal (metadata : KVMap MetaKey (MetaValue BlockHash Key)) :
    Nat → Nat → RefWindow BlockHash Key → Option (Except Error (RefWindow BlockHash Key))
  | 0, _, _ => none
  | fuel + 1, block, window =>
    match metadata.lookup (.pruningJournal block) with
    | none => some (.ok window)
    | some (.pruningJournal record) =>
      match window.import record.hash (.pruningJournal block) record.inserted record.deleted with
      | none => none
      | some window => readJournal metadata fuel (block + 1) window
    | some _ => some (.error .decoding)

/-- `new`: the window after the last pruned block, read back from its
journal. -/
def new (fuel : Nat) (db : Database BlockHash Key) :
    Option (Except Error (RefWindow BlockHash Key)) :=
  let start (pendingNumber : Nat) : RefWindow BlockHash Key := ⟨[], KVMap.empty, pendingNumber, 0, 0⟩
  match db.metadata.lookup .lastPruned with
  | none => readJournal db.metadata fuel 0 (start 0)
  | some (.lastPruned number) => readJournal db.metadata fuel (number + 1) (start (number + 1))
  | some _ => some (.error .decoding)

/-! ## Runs against the database -/

/-- The methods of the window that return a commit set. -/
inductive Call (BlockHash Key : Type) where
  | noteCanonical (hash : BlockHash) (commit : CommitSet BlockHash Key)
  | pruneOne
  | applyPending

/-- A call, and the commit set it returns for the client to write. -/
def Call.perform : Call BlockHash Key → RefWindow BlockHash Key →
    Option (RefWindow BlockHash Key × CommitSet BlockHash Key)
  | .noteCanonical hash commit, window => window.noteCanonical hash commit
  | .pruneOne, window => some (window.pruneOne .empty)
  | .applyPending, window => window.applyPending.map fun window => (window, .empty)

/-- Calls performed in order, each commit set written to the database as it
is returned; `none` when a call panics. -/
def run (calls : List (Call BlockHash Key))
    (start : RefWindow BlockHash Key × Database BlockHash Key) :
    Option (RefWindow BlockHash Key × Database BlockHash Key) :=
  calls.foldlM (fun (window, db) call =>
    (call.perform window).map fun (window, commit) => (window, db.commit commit)) start

/-! ## A key deleted twice -/

/-- Blocks `0` and `1` each delete key `7`; block `0` is pruned. -/
def doubleDeletionCalls : List (Call Nat Nat) :=
  [.noteCanonical 0 ⟨⟨[], [7]⟩, .empty⟩, .noteCanonical 1 ⟨⟨[], [7]⟩, .empty⟩, .pruneOne,
    .applyPending]

/-- Pruning the first of two blocks that delete a key drops the key from the
index, though the death row of the second still holds it; the window read
back from the database keeps its entry.  Block `2`, which inserts the key
again, then takes it out of the recovered row only, and pruning block `1`
deletes the key from the window's database but not from the recovered one's. -/
theorem pruning_forgets_later_deletion :
    ∃ window db, run doubleDeletionCalls (⟨[], KVMap.empty, 0, 0, 0⟩, Database.empty) =
        some (window, db) ∧
      window.pendingNumber = 1 ∧ window.deathRows = [⟨1, .pruningJournal 1, [7]⟩] ∧
      window.deathIndex.lookup 7 = none ∧
      ∀ fuel, ∃ recovered, new (fuel + 2) db = some (.ok recovered) ∧
        recovered.pendingNumber = 1 ∧ recovered.deathRows = [⟨1, .pruningJournal 1, [7]⟩] ∧
        recovered.deathIndex.lookup 7 = some 1 ∧
        (run [.noteCanonical 2 ⟨⟨[(7, [])], []⟩, .empty⟩, .pruneOne] (window, db)).map
            (fun (_, db) => db.data.lookup 7) = some none ∧
        (run [.noteCanonical 2 ⟨⟨[(7, [])], []⟩, .empty⟩, .pruneOne] (recovered, db)).map
            (fun (_, db) => db.data.lookup 7) = some (some []) := by
  refine ⟨_, _, rfl, rfl, rfl, rfl, fun fuel =>
    ⟨⟨[⟨1, .pruningJournal 1, [7]⟩], KVMap.empty.insert 7 1, 1, 0, 0⟩, ?_, rfl, rfl, rfl, rfl, rfl⟩⟩
  simp only [new, readJournal]
  rfl

end RefWindow

end OffchainStorage.StateDb
