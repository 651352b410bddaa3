import OffchainStorage.StateDb.NonCanonical
import OffchainStorage.StateDb.Pruning

/-!
# `StateDbSync`

The state-db itself: the canonicalization window, the pruning window in the
constrained mode, and the pin counts of blocks whose state is in use.  In
`ArchiveAll` mode nothing is kept back: a block's change set is written at
once, without its deletions.  In the other modes a block's nodes stay in the
window until it is canonicalized; a canonicalized block's deletions are kept
in the pruning window (`Constrained`) or dropped (`ArchiveCanonical`).

`StateDb` is this structure behind a lock; its methods are those of
`StateDbSync`.  A constrained mode with `max_mem` set is `unimplemented!()`,
a panic of `new`.
-/

namespace OffchainStorage.StateDb

/-- `Constraints`. -/
structure Constraints where
  maxBlocks : Option Nat
  maxMem : Option Nat
  deriving DecidableEq, Repr

/-- `PruningMode`. -/
inductive PruningMode where
  | constrained (constraints : Constraints)
  | archiveAll
  | archiveCanonical
  deriving DecidableEq, Repr

/-- `PruningMode::id`, the text stored under `PRUNING_MODE`. -/
def PruningMode.id : PruningMode → String
  | .archiveAll => "archive"
  | .archiveCanonical => "archive_canonical"
  | .constrained _ => "constrained"

/-- `PinError`. -/
inductive PinError where
  | invalidBlock
  deriving DecidableEq, Repr

/-- `StateDbSync`. -/
structure StateDbSync (BlockHash Key : Type) where
  mode : PruningMode
  nonCanonical : NonCanonicalOverlay BlockHash Key
  pruning : Option (RefWindow BlockHash Key)
  /-- The number of pins of each pinned block. -/
  pinned : KVMap BlockHash Nat

namespace StateDbSync

variable {BlockHash Key : Type} [DecidableEq BlockHash] [DecidableEq Key]

/-- `check_meta`: the mode stored in the database, if any, is `mode`. -/
def checkMeta (mode : PruningMode) (db : Database BlockHash Key) : Except Error Unit :=
  match db.metadata.lookup .mode with
  | some (.mode id) => if id = mode.id then .ok () else .error (.invalidPruningMode id)
  | some _ => .error .decoding
  | none => .ok ()

/-- `new`: the windows read back from the database; nothing pinned. -/
def new (mode : PruningMode) (fuel : Nat) (db : Database BlockHash Key) :
    Option (Except Error (StateDbSync BlockHash Key)) :=
  match checkMeta mode db with
  | .error e => some (.error e)
  | .ok () =>
    match NonCanonicalOverlay.new fuel db with
    | none => none
    | some (.error e) => some (.error e)
    | some (.ok nonCanonical) =>
      match mode with
      -- `unimplemented!()`
      | .constrained ⟨_, some _⟩ => none
      | .constrained _ =>
        (RefWindow.new fuel db).map fun window =>
          window.map fun window => ⟨mode, nonCanonical, some window, KVMap.empty⟩
      | .archiveAll | .archiveCanonical => some (.ok ⟨mode, nonCanonical, none, KVMap.empty⟩)

/-- `insert_block`: in `ArchiveAll` the change set, without its deletions, at
once; otherwise the block inserted into the window.  The mode is written with
the first block. -/
def insertBlock (hash : BlockHash) (number : Nat) (parentHash : BlockHash)
    (changeset : ChangeSet Key DBValue) (sync : StateDbSync BlockHash Key) :
    Option (Except Error (StateDbSync BlockHash Key × CommitSet BlockHash Key)) :=
  let modeRecord : List (MetaKey × MetaValue BlockHash Key) :=
    if number = 0 then [(.mode, .mode sync.mode.id)] else []
  match sync.mode with
  | .archiveAll => some (.ok (sync, ⟨{ changeset with deleted := [] }, ⟨modeRecord, []⟩⟩))
  | .constrained _ | .archiveCanonical =>
    (sync.nonCanonical.insert hash number parentHash changeset).map fun result =>
      result.map fun (nonCanonical, commit) =>
        ({ sync with nonCanonical },
          { commit with metadata := { commit.metadata with
              inserted := commit.metadata.inserted ++ modeRecord } })

/-- `prune`: the oldest blocks of the window pruned while it holds more
than `max_blocks` and the next one is not pinned. -/
def prune (constraints : Constraints) (pinned : KVMap BlockHash Nat) (pruning : RefWindow BlockHash Key)
    (commit : CommitSet BlockHash Key) : RefWindow BlockHash Key × CommitSet BlockHash Key :=
  if _ : pruning.windowSize ≤ constraints.maxBlocks.getD 0 then
    (pruning, commit)
  else if constraints.maxMem.any fun m => m < pruning.memUsed then
    (pruning, commit)
  else if pruning.nextHash.any pinned.contains then
    (pruning, commit)
  else
    prune constraints pinned (pruning.pruneOne commit).1 (pruning.pruneOne commit).2
termination_by pruning.windowSize
decreasing_by
  exact RefWindow.windowSize_pruneOne_lt commit (by omega)

/-- `canonicalize_block`: the block canonicalized in the window; in
`ArchiveCanonical` its deletions dropped, in `Constrained` kept in the
pruning window, which is then pruned. -/
def canonicalizeBlock (hash : BlockHash) (sync : StateDbSync BlockHash Key) :
    Option (Except Error (StateDbSync BlockHash Key × CommitSet BlockHash Key)) :=
  match sync.mode with
  | .archiveAll => some (.ok (sync, .empty))
  | mode =>
    match sync.nonCanonical.canonicalize hash .empty with
    | none => none
    | some (.error e) => some (.error e)
    | some (.ok (nonCanonical, commit)) =>
      let commit :=
        if mode = .archiveCanonical then { commit with data := { commit.data with deleted := [] } }
        else commit
      let sync := { sync with nonCanonical }
      match sync.pruning, mode with
      | some pruning, .constrained constraints =>
        (pruning.noteCanonical hash commit).map fun (pruning, commit) =>
          let (pruning, commit) := prune constraints sync.pinned pruning commit
          .ok ({ sync with pruning := some pruning }, commit)
      | some pruning, _ =>
        (pruning.noteCanonical hash commit).map fun (pruning, commit) =>
          .ok ({ sync with pruning := some pruning }, commit)
      | none, _ => some (.ok (sync, commit))

/-- `revert_one`. -/
def revertOne (sync : StateDbSync BlockHash Key) :
    StateDbSync BlockHash Key × Option (CommitSet BlockHash Key) :=
  match sync.mode with
  | .archiveAll => (sync, some .empty)
  | .constrained _ | .archiveCanonical =>
    let (nonCanonical, commit) := sync.nonCanonical.revertOne
    ({ sync with nonCanonical }, commit)

/-- `pin`: a block of either window pinned once more; its values are kept
from the first pin on. -/
def pin (hash : BlockHash) (sync : StateDbSync BlockHash Key) :
    StateDbSync BlockHash Key × Except PinError Unit :=
  match sync.mode with
  | .archiveAll => (sync, .ok ())
  | .constrained _ | .archiveCanonical =>
    if sync.nonCanonical.haveBlock hash || sync.pruning.any fun pruning => pruning.haveBlock hash then
      let refs := sync.pinned.get hash
      let nonCanonical := if refs = 0 then sync.nonCanonical.pin hash else sync.nonCanonical
      ({ sync with nonCanonical, pinned := sync.pinned.insert hash (refs + 1) }, .ok ())
    else
      (sync, .error .invalidBlock)

/-- `unpin`: one pin released; the kept values dropped with the last. -/
def unpin (hash : BlockHash) (sync : StateDbSync BlockHash Key) : StateDbSync BlockHash Key :=
  match sync.pinned.lookup hash with
  | some refs =>
    if refs - 1 = 0 then
      { sync with pinned := sync.pinned.remove hash, nonCanonical := sync.nonCanonical.unpin hash }
    else
      { sync with pinned := sync.pinned.insert hash (refs - 1) }
  | none => sync

/-- `get`: the window's value, else the database's. -/
def get (key : Key) (db : Database BlockHash Key) (sync : StateDbSync BlockHash Key) :
    Option DBValue :=
  match sync.nonCanonical.get key with
  | some value => some value
  | none => db.data.lookup key

/-- `apply_pending`. -/
def applyPending (sync : StateDbSync BlockHash Key) : Option (StateDbSync BlockHash Key) := do
  let nonCanonical ← sync.nonCanonical.applyPending
  let pruning ← match sync.pruning with
    | some pruning => pruning.applyPending.map some
    | none => some none
  pure { sync with nonCanonical, pruning }

/-- `revert_pending`. -/
def revertPending (sync : StateDbSync BlockHash Key) : Option (StateDbSync BlockHash Key) :=
  let pruning := sync.pruning.map RefWindow.revertPending
  (sync.nonCanonical.revertPending).map fun nonCanonical => { sync with nonCanonical, pruning }

/-! ## Runs against the database -/

/-- The methods of `StateDb` that change it. -/
inductive Call (BlockHash Key : Type) where
  | insertBlock (hash : BlockHash) (number : Nat) (parentHash : BlockHash)
      (changeset : ChangeSet Key DBValue)
  | canonicalizeBlock (hash : BlockHash)
  | applyPending
  | revertPending
  | revertOne
  | pin (hash : BlockHash)
  | unpin (hash : BlockHash)

/-- A call, and the commit set it returns for the client to write: empty for
a call that fails or returns none.  A call that fails changes nothing. -/
def Call.perform : Call BlockHash Key → StateDbSync BlockHash Key →
    Option (StateDbSync BlockHash Key × CommitSet BlockHash Key)
  | .insertBlock hash number parentHash changeset, sync =>
    (sync.insertBlock hash number parentHash changeset).map fun
      | .ok result => result
      | .error _ => (sync, .empty)
  | .canonicalizeBlock hash, sync =>
    (sync.canonicalizeBlock hash).map fun
      | .ok result => result
      | .error _ => (sync, .empty)
  | .applyPending, sync => sync.applyPending.map fun sync => (sync, .empty)
  | .revertPending, sync => sync.revertPending.map fun sync => (sync, .empty)
  | .revertOne, sync => some (sync.revertOne.1, sync.revertOne.2.getD .empty)
  | .pin hash, sync => some ((sync.pin hash).1, .empty)
  | .unpin hash, sync => some (sync.unpin hash, .empty)

/-- Calls performed in order, each commit set written to the database as it
is returned; `none` when a call panics. -/
def run (calls : List (Call BlockHash Key))
    (start : StateDbSync BlockHash Key × Database BlockHash Key) :
    Option (StateDbSync BlockHash Key × Database BlockHash Key) :=
  calls.foldlM (fun (sync, db) call =>
    (call.perform sync).map fun (sync, commit) => (sync, db.commit commit)) start

end StateDbSync

end OffchainStorage.StateDb
