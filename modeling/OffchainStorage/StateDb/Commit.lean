import OffchainStorage.Lib.KVMap

/-!
# State-db change sets and the backing database

`client/state-db` keeps the trie nodes of recent blocks out of the database
until their block is canonicalized or pruned.  Each of its operations returns
a `CommitSet` for the client to write: state nodes inserted and deleted, and
metadata (the journals and the last canonical and pruned blocks) inserted and
deleted.  The client writes a commit set in the order `apply_state_commit`
takes it: node insertions, node deletions, metadata insertions, metadata
deletions (`Database.commit`).

Metadata keys are `to_meta_key(suffix, data)`, the encoding of `data`
followed by a suffix naming the record.  Every suffix, with the encoding of
its data, gives keys of its own length, so distinct records never share a key;
`MetaKey` names each kind of record by a constructor.  A metadata value is
the encoding of a record, and decoding the bytes of a record of another kind
fails; `MetaValue` keeps the record itself, with one constructor per kind.
The database never fails to read, so `Error::Db` does not arise.
-/

namespace OffchainStorage.StateDb

/-- `DBValue`. -/
abbrev DBValue : Type :=
  List UInt8

/-- `ChangeSet`: the entries inserted and the keys deleted. -/
structure ChangeSet (H V : Type) where
  inserted : List (H × V)
  deleted : List H
  deriving DecidableEq, Repr

/-- `ChangeSet::default()`. -/
def ChangeSet.empty {H V : Type} : ChangeSet H V :=
  ⟨[], []⟩

/-- The metadata keys, one constructor per suffix of `to_meta_key`. -/
inductive MetaKey where
  /-- `to_meta_key(LAST_CANONICAL, &())`. -/
  | lastCanonical
  /-- `to_journal_key(block, index)` of the non-canonical overlay. -/
  | nonCanonicalJournal (block index : Nat)
  /-- `to_meta_key(PRUNING_MODE, &())`. -/
  | mode
  /-- `to_meta_key(LAST_PRUNED, &())`. -/
  | lastPruned
  /-- `to_journal_key(block)` of the pruning window. -/
  | pruningJournal (block : Nat)
  deriving DecidableEq, Repr

namespace NonCanonical

/-- `noncanonical::JournalRecord`: a block, its parent and its change set. -/
structure JournalRecord (BlockHash Key : Type) where
  hash : BlockHash
  parentHash : BlockHash
  inserted : List (Key × DBValue)
  deleted : List Key
  deriving DecidableEq, Repr

end NonCanonical

namespace Pruning

/-- `pruning::JournalRecord`: a canonical block and the keys of its change
set. -/
structure JournalRecord (BlockHash Key : Type) where
  hash : BlockHash
  inserted : List Key
  deleted : List Key
  deriving DecidableEq, Repr

end Pruning

/-- A metadata value: the record its key names. -/
inductive MetaValue (BlockHash Key : Type) where
  /-- `(BlockHash, u64)`, the last canonical block. -/
  | lastCanonical (hash : BlockHash) (number : Nat)
  | nonCanonicalJournal (record : NonCanonical.JournalRecord BlockHash Key)
  /-- `PruningMode::id()`. -/
  | mode (id : String)
  /-- `u64`, the last pruned block. -/
  | lastPruned (number : Nat)
  | pruningJournal (record : Pruning.JournalRecord BlockHash Key)
  deriving DecidableEq, Repr

/-- `CommitSet`; the field `meta` of the source is a keyword of Lean. -/
structure CommitSet (BlockHash Key : Type) where
  data : ChangeSet Key DBValue
  metadata : ChangeSet MetaKey (MetaValue BlockHash Key)
  deriving DecidableEq, Repr

/-- `CommitSet::default()`. -/
def CommitSet.empty {BlockHash Key : Type} : CommitSet BlockHash Key :=
  ⟨.empty, .empty⟩

/-- The module's `Error`, without `Db`: the database never fails to read. -/
inductive Error where
  | decoding
  | invalidBlock
  | invalidBlockNumber
  | invalidParent
  | invalidPruningMode (expected : String)
  deriving DecidableEq, Repr

/-- The backing database: the state column and the metadata column. -/
structure Database (BlockHash Key : Type) where
  data : KVMap Key DBValue
  metadata : KVMap MetaKey (MetaValue BlockHash Key)

/-- The empty database. -/
def Database.empty {BlockHash Key : Type} : Database BlockHash Key :=
  ⟨KVMap.empty, KVMap.empty⟩

variable {BlockHash Key : Type} [DecidableEq Key]

/-- The writes of a change set: its insertions, then its deletions. -/
def ChangeSet.apply {H V : Type} [DecidableEq H] (changes : ChangeSet H V) (map : KVMap H V) :
    KVMap H V :=
  changes.deleted.foldl KVMap.remove
    (changes.inserted.foldl (fun map entry => map.insert entry.1 entry.2) map)

/-- `apply_state_commit`: a commit set written to the database. -/
def Database.commit (db : Database BlockHash Key) (commit : CommitSet BlockHash Key) :
    Database BlockHash Key :=
  ⟨commit.data.apply db.data, commit.metadata.apply db.metadata⟩

end OffchainStorage.StateDb
