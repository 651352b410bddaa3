import OffchainStorage.StateDb.Commit
import Mathlib

/-!
# `NonCanonicalOverlay`

The canonicalization window of the state-db: the blocks not yet
canonicalized, by level (`levels[0]` holds the blocks one above the last
canonical block), each with the keys its change set inserted and deleted, the
parent of each block, and the inserted values counted by the number of blocks
that inserted them.  `canonicalize` only queues a block of the first level;
`apply_pending` then pops the level and discards its other blocks with every
block that descends from them.  Each insertion writes a journal record under
`to_journal_key(number, index)`, `index` being the place of the block in its
level, and `new` rebuilds the window by reading those records back.

Every `expect` of the source is a panic, the outer `none` of the functions
here; the `debug_assert!`s are left out, as in a release build.  `HashMap`s
read through `get`, `insert` and `remove` are `KVMap`s; the map of pinned
blocks, whose values `get` iterates, is an `AList`, iterated in its order.
Two loops of the source run until a condition the data guarantees:
`discard_descendants` goes one level down at each call, and stops beyond the
last level, and `new` reads records until the first missing one.  Their
models take a fuel argument, the number of levels below for the first.
-/

namespace OffchainStorage.StateDb

/-- `BlockOverlay`: a block of the window and the keys of its change set. -/
structure BlockOverlay (BlockHash Key : Type) where
  hash : BlockHash
  journalKey : MetaKey
  inserted : List Key
  deleted : List Key
  deriving DecidableEq, Repr

/-- `NonCanonicalOverlay`. -/
structure NonCanonicalOverlay (BlockHash Key : Type) where
  lastCanonicalized : Option (BlockHash × Nat)
  levels : List (List (BlockOverlay BlockHash Key))
  parents : KVMap BlockHash BlockHash
  pendingCanonicalizations : List BlockHash
  pendingInsertions : List BlockHash
  /-- Each inserted value with the number of blocks of the window that
  inserted it. -/
  values : KVMap Key (Nat × DBValue)
  /-- The values of pinned blocks that discarding would have removed. -/
  pinned : AList fun _ : BlockHash => KVMap Key DBValue

/-- `to_journal_key(block, index)`. -/
def toJournalKey (block index : Nat) : MetaKey :=
  .nonCanonicalJournal block index

namespace NonCanonicalOverlay

variable {BlockHash Key : Type} [DecidableEq BlockHash] [DecidableEq Key]

/-! ## The reference-counted values -/

/-- `insert_values`: each inserted value counted once more, a new one with
the count one. -/
def insertValues (values : KVMap Key (Nat × DBValue)) (inserted : List (Key × DBValue)) :
    KVMap Key (Nat × DBValue) :=
  inserted.foldl (fun values entry =>
    -- `values.entry(k).or_insert_with(|| (0, v))`, then the counter raised
    let (counter, value) := (values.lookup entry.1).getD (0, entry.2)
    values.insert entry.1 (counter + 1, value)) values

/-- `discard_values`: each key counted once less; a value no block inserts
any more is removed, and handed to `into` when there is one. -/
def discardValues (values : KVMap Key (Nat × DBValue)) (inserted : List Key)
    (into : Option (KVMap Key DBValue)) :
    KVMap Key (Nat × DBValue) × Option (KVMap Key DBValue) :=
  inserted.foldl (fun (values, into) k =>
    match values.lookup k with
    | some (counter, value) =>
      if counter - 1 = 0 then (values.remove k, into.map fun into => into.insert k value)
      else (values.insert k (counter - 1, value), into)
    -- `debug_assert!(false, "Trying to discard missing value")`
    | none => (values, into)) (values, into)

/-- `discard_values` handed `pinned.get_mut(hash)`: the removed values go to
the pinned map of `hash`, if that block is pinned.  The map is written back
under its key, which is already in `pinned`. -/
def discardValuesInto (values : KVMap Key (Nat × DBValue)) (inserted : List Key)
    (pinned : AList fun _ : BlockHash => KVMap Key DBValue) (hash : BlockHash) :
    KVMap Key (Nat × DBValue) × AList fun _ : BlockHash => KVMap Key DBValue :=
  let (values, into) := discardValues values inserted (pinned.lookup hash)
  (values, into.elim pinned fun into => pinned.insert hash into)

/-! ## Discarding forks -/

/-- The `filter_map` of `discard_descendants` over one level: the blocks
whose parent is `hash` are taken out, with their parent entries and their
values, and listed in order; the others are kept. -/
def takeChildren (hash : BlockHash) :
    List (BlockOverlay BlockHash Key) → NonCanonicalOverlay BlockHash Key →
      Option (List (BlockOverlay BlockHash Key) × List BlockHash ×
        NonCanonicalOverlay BlockHash Key)
  | [], overlay => some ([], [], overlay)
  | child :: rest, overlay =>
    match overlay.parents.lookup child.hash with
    -- `expect("there is a parent entry for each entry in levels; qed")`
    | none => none
    | some parent =>
      if parent = hash then
        -- the values go to the pinned map of `hash`, the parent
        let (values, pinned) := discardValuesInto overlay.values child.inserted overlay.pinned hash
        let overlay := { overlay with parents := overlay.parents.remove child.hash, values, pinned }
        (takeChildren hash rest overlay).map fun (kept, discarded, overlay) =>
          (kept, child.hash :: discarded, overlay)
      else
        (takeChildren hash rest overlay).map fun (kept, discarded, overlay) =>
          (child :: kept, discarded, overlay)

/-- `discard_descendants(levels, values, index, parents, pinned, hash)`: the
children of `hash` taken out of level `index`, then the descendants of each
child, one level further down.  `fuel` counts the levels left to visit. -/
def discardDescendants : Nat → NonCanonicalOverlay BlockHash Key → Nat → BlockHash →
    Option (NonCanonicalOverlay BlockHash Key)
  | 0, overlay, _, _ => some overlay
  | fuel + 1, overlay, index, hash =>
    match overlay.levels[index]? with
    | none => some overlay
    | some level =>
      match takeChildren hash level overlay with
      | none => none
      | some (kept, discarded, overlay) =>
        discarded.foldlM (fun overlay child => discardDescendants fuel overlay (index + 1) child)
          { overlay with levels := overlay.levels.set index kept }

/-- `discard_journals(level_index, ..., hash)` over `levels` from
`level_index` on: the journal keys and hashes of the descendants of `hash`,
appended in the order the source pushes them. -/
def discardJournals (parents : KVMap BlockHash BlockHash) :
    List (List (BlockOverlay BlockHash Key)) → BlockHash → List MetaKey × List BlockHash →
      Option (List MetaKey × List BlockHash)
  | [], _, discarded => some discarded
  | level :: deeper, hash, discarded =>
    level.foldlM (fun (journals, blocks) overlay =>
      match parents.lookup overlay.hash with
      -- `expect("there is a parent entry for each entry in levels; qed")`
      | none => none
      | some parent =>
        if parent = hash then
          discardJournals parents deeper overlay.hash
            (journals ++ [overlay.journalKey], blocks ++ [overlay.hash])
        else
          some (journals, blocks)) discarded

/-! ## Inserting and canonicalizing -/

/-- `front_block_number`: the number of the blocks of the first level. -/
def frontBlockNumber (overlay : NonCanonicalOverlay BlockHash Key) : Nat :=
  (overlay.lastCanonicalized.map fun (_, n) => n + 1).getD 0

/-- The checks of `insert` on the block number and the parent, with the last
canonical block assumed when the window is new. -/
def checkInsert (number : Nat) (parentHash : BlockHash) (overlay : NonCanonicalOverlay BlockHash Key) :
    Except Error (NonCanonicalOverlay BlockHash Key × List (MetaKey × MetaValue BlockHash Key)) :=
  let front := overlay.frontBlockNumber
  if overlay.levels.isEmpty ∧ overlay.lastCanonicalized.isNone ∧ 0 < number then
    -- assume that parent was canonicalized
    .ok ({ overlay with lastCanonicalized := some (parentHash, number - 1) },
      [(.lastCanonical, .lastCanonical parentHash (number - 1))])
  else if overlay.lastCanonicalized.isSome then
    if number < front ∨ front + overlay.levels.length + 1 ≤ number then
      .error .invalidBlockNumber
    else if number = front then
      if overlay.lastCanonicalized.any fun (h, n) => h = parentHash ∧ n = number - 1 then
        .ok (overlay, [])
      else
        .error .invalidParent
    else if overlay.parents.contains parentHash then
      .ok (overlay, [])
    else
      .error .invalidParent
  else
    .ok (overlay, [])

/-- `insert`: the block appended to its level, a new one at the back when it
is one above the last level, and its journal record written under the key of
its place in the level. -/
def insert (hash : BlockHash) (number : Nat) (parentHash : BlockHash)
    (changeset : ChangeSet Key DBValue) (overlay : NonCanonicalOverlay BlockHash Key) :
    Option (Except Error (NonCanonicalOverlay BlockHash Key × CommitSet BlockHash Key)) :=
  -- the front block number is read before the last canonical block is assumed
  let front := overlay.frontBlockNumber
  match checkInsert number parentHash overlay with
  | .error e => some (.error e)
  | .ok (overlay, lastCanonical) =>
    let (levels, levelIndex) :=
      if overlay.levels.isEmpty ∨ number = front + overlay.levels.length then
        (overlay.levels ++ [[]], overlay.levels.length)
      else
        (overlay.levels, number - front)
    match levels[levelIndex]? with
    -- `expect("number is [front_block_number .. front_block_number + levels.len()) ...")`
    | none => none
    | some level =>
      let journalKey := toJournalKey number level.length
      let blockOverlay : BlockOverlay BlockHash Key :=
        ⟨hash, journalKey, changeset.inserted.map Prod.fst, changeset.deleted⟩
      let journalRecord : NonCanonical.JournalRecord BlockHash Key :=
        ⟨hash, parentHash, changeset.inserted, changeset.deleted⟩
      some (.ok
        ({ overlay with
            levels := levels.set levelIndex (level ++ [blockOverlay])
            parents := overlay.parents.insert hash parentHash
            values := insertValues overlay.values changeset.inserted
            pendingInsertions := overlay.pendingInsertions ++ [hash] },
          ⟨.empty, ⟨lastCanonical ++ [(journalKey, .nonCanonicalJournal journalRecord)], []⟩⟩))

/-- The loop of `canonicalize` over the first pending level: every block's
journal key, each after those of the descendants of the blocks other than
the canonicalized one. -/
def discardLevelJournals (parents : KVMap BlockHash BlockHash)
    (deeper : List (List (BlockOverlay BlockHash Key))) (index : Nat)
    (level : List (BlockOverlay BlockHash Key)) : Option (List MetaKey × List BlockHash) :=
  level.zipIdx.foldlM (fun discarded (overlay, i) => do
    let (journals, blocks) ←
      if i ≠ index then discardJournals parents deeper overlay.hash discarded else some discarded
    pure (journals ++ [overlay.journalKey], blocks ++ [overlay.hash])) ([], [])

/-- `canonicalize`: a block of the first pending level queued, and the commit
extended with its values, its deletions, the deletion of every journal record
of the level and of the forks it discards, and the new last canonical block. -/
def canonicalize (hash : BlockHash) (commit : CommitSet BlockHash Key)
    (overlay : NonCanonicalOverlay BlockHash Key) :
    Option (Except Error (NonCanonicalOverlay BlockHash Key × CommitSet BlockHash Key)) :=
  let pending := overlay.pendingCanonicalizations.length
  match overlay.levels[pending]? with
  | none => some (.error .invalidBlock)
  | some level =>
    match level.findFinIdx? (fun overlay => decide (overlay.hash = hash)) with
    | none => some (.error .invalidBlock)
    | some index =>
      match discardLevelJournals overlay.parents (overlay.levels.drop (pending + 1)) index level with
      | none => none
      | some (discardedJournals, _) =>
        let canonical := level[index]
        -- `expect("For each key in overlays there's a value in values")`
        match canonical.inserted.mapM (fun k => (overlay.values.lookup k).map fun (_, v) => (k, v)) with
        | none => none
        | some inserted =>
          let canonicalized := (hash, overlay.frontBlockNumber + pending)
          some (.ok
            ({ overlay with pendingCanonicalizations := overlay.pendingCanonicalizations ++ [hash] },
              ⟨⟨commit.data.inserted ++ inserted, commit.data.deleted ++ canonical.deleted⟩,
                ⟨commit.metadata.inserted ++
                    [(.lastCanonical, .lastCanonical canonicalized.1 canonicalized.2)],
                  commit.metadata.deleted ++ discardedJournals⟩⟩))

/-- One canonicalization applied: the first level popped, every block of it
taken with its values, and the forks of the blocks other than `hash`
discarded. -/
def applyCanonicalization (overlay : NonCanonicalOverlay BlockHash Key) (hash : BlockHash) :
    Option (NonCanonicalOverlay BlockHash Key) :=
  match overlay.levels with
  -- `expect("Hash validity is checked in canonicalize")`
  | [] => none
  | level :: rest =>
    match level.findIdx? (fun overlay => decide (overlay.hash = hash)) with
    | none => none
    | some index =>
      level.zipIdx.foldlM (fun overlay (block, i) => do
        let overlay := { overlay with parents := overlay.parents.remove block.hash }
        let overlay ←
          if i ≠ index then discardDescendants (overlay.levels.length + 1) overlay 0 block.hash
          else some overlay
        let (values, pinned) := discardValuesInto overlay.values block.inserted overlay.pinned block.hash
        pure { overlay with values, pinned }) { overlay with levels := rest }

/-- `apply_canonicalizations`: the queued canonicalizations applied in order,
and the last of them recorded as the last canonical block. -/
def applyCanonicalizations (overlay : NonCanonicalOverlay BlockHash Key) :
    Option (NonCanonicalOverlay BlockHash Key) :=
  let last := overlay.pendingCanonicalizations.getLast?
  let count := overlay.pendingCanonicalizations.length
  (overlay.pendingCanonicalizations.foldlM applyCanonicalization
      { overlay with pendingCanonicalizations := [] }).map fun overlay =>
    match last with
    | some hash =>
      { overlay with
        lastCanonicalized :=
          some (hash, (overlay.lastCanonicalized.map fun (_, n) => n + count).getD (count - 1)) }
    | none => overlay

/-! ## Reading, reverting and pinning -/

/-- `get`: an inserted value, else a value kept for a pinned block. -/
def get (overlay : NonCanonicalOverlay BlockHash Key) (key : Key) : Option DBValue :=
  match overlay.values.lookup key with
  | some (_, value) => some value
  | none => overlay.pinned.entries.findSome? fun pinned => pinned.2.lookup key

/-- `have_block`. -/
def haveBlock (overlay : NonCanonicalOverlay BlockHash Key) (hash : BlockHash) : Bool :=
  (overlay.parents.contains hash || overlay.pendingInsertions.contains hash) &&
    !overlay.pendingCanonicalizations.contains hash

/-- `revert_one`: the last level popped, with its parents, its values and its
journal records. -/
def revertOne (overlay : NonCanonicalOverlay BlockHash Key) :
    NonCanonicalOverlay BlockHash Key × Option (CommitSet BlockHash Key) :=
  match overlay.levels.getLast? with
  | none => (overlay, none)
  | some level =>
    let (overlay, commit) := level.foldl (fun (overlay, commit) block =>
      ({ overlay with
          parents := overlay.parents.remove block.hash
          values := (discardValues overlay.values block.inserted none).1 },
        { commit with metadata := { commit.metadata with
            deleted := commit.metadata.deleted ++ [block.journalKey] } }))
      ({ overlay with levels := overlay.levels.dropLast }, CommitSet.empty)
    (overlay, some commit)

/-- The `position` of `revert_insertions`: the first level whose last block
is `hash`; a panic at an empty level before it. -/
def levelEndingWith (hash : BlockHash) :
    List (List (BlockOverlay BlockHash Key)) → Nat → Option (Option Nat)
  | [], _ => some none
  | level :: rest, index =>
    match level.getLast? with
    -- `expect("Hash is added in insert in reverse order")`
    | none => none
    | some last => if last.hash = hash then some (some index) else levelEndingWith hash rest (index + 1)

/-- One insertion reverted: its parent entry removed, and the last block of
the level that ends with it popped with its values; the last level is popped
when that level is left empty. -/
def revertInsertion (overlay : NonCanonicalOverlay BlockHash Key) (hash : BlockHash) :
    Option (NonCanonicalOverlay BlockHash Key) :=
  let overlay := { overlay with parents := overlay.parents.remove hash }
  match levelEndingWith hash overlay.levels 0 with
  | none => none
  -- `expect("Hash is added in insert")`
  | some none => none
  | some (some levelIndex) =>
    -- the level found, and its last block, exist
    match overlay.levels[levelIndex]? with
    | none => none
    | some level =>
      match level.getLast? with
      | none => none
      | some block =>
        let levels := overlay.levels.set levelIndex level.dropLast
        let overlay := { overlay with
          levels := if level.dropLast.isEmpty then levels.dropLast else levels
          values := (discardValues overlay.values block.inserted none).1 }
        some overlay

/-- `revert_insertions`: the pending insertions reverted, last first. -/
def revertInsertions (overlay : NonCanonicalOverlay BlockHash Key) :
    Option (NonCanonicalOverlay BlockHash Key) :=
  overlay.pendingInsertions.reverse.foldlM revertInsertion { overlay with pendingInsertions := [] }

/-! ## Recovery from the journal -/

/-- The inner loop of `new`: the records of level `block` read at indices
`index`, `index + 1`, ... up to the first missing one, each added to the
level, the parents and the values. -/
def readLevel (metadata : KVMap MetaKey (MetaValue BlockHash Key)) (block : Nat) :
    Nat → Nat →
      List (BlockOverlay BlockHash Key) × KVMap BlockHash BlockHash × KVMap Key (Nat × DBValue) →
      Option (Except Error
        (List (BlockOverlay BlockHash Key) × KVMap BlockHash BlockHash × KVMap Key (Nat × DBValue)))
  | 0, _, _ => none
  | fuel + 1, index, (level, parents, values) =>
    let journalKey := toJournalKey block index
    match metadata.lookup journalKey with
    | none => some (.ok (level, parents, values))
    | some (.nonCanonicalJournal record) =>
      readLevel metadata block fuel (index + 1)
        (level ++ [⟨record.hash, journalKey, record.inserted.map Prod.fst, record.deleted⟩],
          parents.insert record.hash record.parentHash, insertValues values record.inserted)
    | some _ => some (.error .decoding)

/-- The outer loop of `new`: levels read from block `block` on, up to the
first empty one. -/
def readLevels (metadata : KVMap MetaKey (MetaValue BlockHash Key)) :
    Nat → Nat →
      List (List (BlockOverlay BlockHash Key)) × KVMap BlockHash BlockHash ×
        KVMap Key (Nat × DBValue) →
      Option (Except Error (List (List (BlockOverlay BlockHash Key)) × KVMap BlockHash BlockHash ×
        KVMap Key (Nat × DBValue)))
  | 0, _, _ => none
  | fuel + 1, block, (levels, parents, values) =>
    match readLevel metadata block fuel 0 ([], parents, values) with
    | none => none
    | some (.error e) => some (.error e)
    | some (.ok (level, parents, values)) =>
      if level.isEmpty then some (.ok (levels, parents, values))
      else readLevels metadata fuel (block + 1) (levels ++ [level], parents, values)

/-- The window of a database without a last canonical block. -/
def empty : NonCanonicalOverlay BlockHash Key :=
  ⟨none, [], KVMap.empty, [], [], KVMap.empty, ∅⟩

/-- `new`: the last canonical block, and the levels above it read back from
their journal records; nothing pending or pinned. -/
def new (fuel : Nat) (db : Database BlockHash Key) :
    Option (Except Error (NonCanonicalOverlay BlockHash Key)) :=
  match db.metadata.lookup .lastCanonical with
  | none => some (.ok empty)
  | some (.lastCanonical hash block) =>
    (readLevels db.metadata fuel (block + 1) ([], KVMap.empty, KVMap.empty)).map fun read =>
      read.map fun (levels, parents, values) => ⟨some (hash, block), levels, parents, [], [], values, ∅⟩
  | some _ => some (.error .decoding)

/-- `apply_pending`. -/
def applyPending (overlay : NonCanonicalOverlay BlockHash Key) :
    Option (NonCanonicalOverlay BlockHash Key) :=
  (applyCanonicalizations overlay).map fun overlay => { overlay with pendingInsertions := [] }

/-- `revert_pending`. -/
def revertPending (overlay : NonCanonicalOverlay BlockHash Key) :
    Option (NonCanonicalOverlay BlockHash Key) :=
  revertInsertions { overlay with pendingCanonicalizations := [] }

/-- `pin`: an empty map of kept values for the block. -/
def pin (overlay : NonCanonicalOverlay BlockHash Key) (hash : BlockHash) :
    NonCanonicalOverlay BlockHash Key :=
  { overlay with pinned := overlay.pinned.insert hash KVMap.empty }

/-- `unpin`. -/
def unpin (overlay : NonCanonicalOverlay BlockHash Key) (hash : BlockHash) :
    NonCanonicalOverlay BlockHash Key :=
  { overlay with pinned := overlay.pinned.erase hash }

/-! ## Runs against the database -/

/-- The public methods of the window. -/
inductive Call (BlockHash Key : Type) where
  | insert (hash : BlockHash) (number : Nat) (parentHash : BlockHash)
      (changeset : ChangeSet Key DBValue)
  | canonicalize (hash : BlockHash)
  | applyPending
  | revertPending
  | revertOne
  | pin (hash : BlockHash)
  | unpin (hash : BlockHash)

/-- A call, and the commit set it returns for the client to write: empty for
a call that fails or returns none.  A call that fails changes nothing. -/
def Call.perform : Call BlockHash Key → NonCanonicalOverlay BlockHash Key →
    Option (NonCanonicalOverlay BlockHash Key × CommitSet BlockHash Key)
  | .insert hash number parentHash changeset, overlay =>
    (overlay.insert hash number parentHash changeset).map fun
      | .ok result => result
      | .error _ => (overlay, .empty)
  | .canonicalize hash, overlay =>
    (overlay.canonicalize hash .empty).map fun
      | .ok result => result
      | .error _ => (overlay, .empty)
  | .applyPending, overlay => overlay.applyPending.map fun overlay => (overlay, .empty)
  | .revertPending, overlay => overlay.revertPending.map fun overlay => (overlay, .empty)
  | .revertOne, overlay => some (overlay.revertOne.1, overlay.revertOne.2.getD .empty)
  | .pin hash, overlay => some (overlay.pin hash, .empty)
  | .unpin hash, overlay => some (overlay.unpin hash, .empty)

/-- Calls performed in order, each commit set written to the database as it
is returned; `none` when a call panics. -/
def run (calls : List (Call BlockHash Key))
    (start : NonCanonicalOverlay BlockHash Key × Database BlockHash Key) :
    Option (NonCanonicalOverlay BlockHash Key × Database BlockHash Key) :=
  calls.foldlM (fun (overlay, db) call =>
    (call.perform overlay).map fun (overlay, commit) => (overlay, db.commit commit)) start

end NonCanonicalOverlay

end OffchainStorage.StateDb
