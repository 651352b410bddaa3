import OffchainStorage.Lib.AListFold
import OffchainStorage.Lib.RustInt
import Mathlib

/-!
# `OverlayedChanges`

The state machine keeps the changes a block makes to storage in two change
sets: the prospective one, which the current extrinsic writes and which can
be discarded, and the committed one.  Each change set holds the top-level
changes and, per child storage key, the changes of that child trie.  A
change is an `OverlayedValue`: the new value (`None` for a deletion) and,
when changes tries are configured, the indices of the extrinsics that made
it.

`BTreeMap` and `HashMap` are Mathlib's `AList`; their loops are folds of
`AList.upsert` over the map's keys or entries (`deleteWhere`, `mergeInto`),
whose lookups `Lib.AListFold` gives.  The `OwnedChildInfo` kept beside each
child map and its `debug_assert!(updatable)` are left out: no modelled
function reads them, and the assertion changes no state.
-/

namespace OffchainStorage.Overlay

/-- `OverlayedValue`: the current value, `None` once deleted, and the indices
of the extrinsics that changed it, kept only when changes tries are on. -/
structure OverlayedValue where
  value : Option (List UInt8)
  extrinsics : Option (Finset Nat)
  deriving DecidableEq

instance : Inhabited OverlayedValue :=
  ⟨⟨none, none⟩⟩

/-- `BTreeMap<Vec<u8>, OverlayedValue>`. -/
abbrev ChangeMap : Type :=
  AList fun _ : List UInt8 => OverlayedValue

/-- `OverlayedChangeSet`: the top-level changes and the changes of each child
trie. -/
structure OverlayedChangeSet where
  top : ChangeMap
  children : AList fun _ : List UInt8 => ChangeMap

/-- `OverlayedChangeSet::default()`, also what `clear` leaves. -/
def OverlayedChangeSet.empty : OverlayedChangeSet :=
  ⟨∅, ∅⟩

def OverlayedChangeSet.isEmpty (changes : OverlayedChangeSet) : Bool :=
  changes.top.isEmpty && changes.children.isEmpty

/-- `ChangesTrieConfiguration`; only whether one is installed matters here. -/
structure ChangesTrieConfiguration where
  digestInterval : Nat
  digestLevels : Nat

structure OverlayedChanges where
  prospective : OverlayedChangeSet
  committed : OverlayedChangeSet
  changesTrieConfig : Option ChangesTrieConfiguration

/-- `NO_EXTRINSIC_INDEX`. -/
def noExtrinsicIndex : Nat :=
  0xffffffff

/-- `well_known_keys::EXTRINSIC_INDEX`, the bytes of `:extrinsic_index`. -/
def extrinsicIndexKey : List UInt8 :=
  [58, 101, 120, 116, 114, 105, 110, 115, 105, 99, 95, 105, 110, 100, 101, 120]

namespace OverlayedChanges

/-- The prospective change, else the committed one: `None` sends the query to
the backend, `Some(None)` is a deletion. -/
def storage (overlay : OverlayedChanges) (key : List UInt8) : Option (Option (List UInt8)) :=
  ((overlay.prospective.top.lookup key).or (overlay.committed.top.lookup key)).map
    OverlayedValue.value

def childStorage (overlay : OverlayedChanges) (storageKey key : List UInt8) :
    Option (Option (List UInt8)) :=
  match (overlay.prospective.children.lookup storageKey).bind fun map => map.lookup key with
  | some val => some val.value
  | none =>
    ((overlay.committed.children.lookup storageKey).bind fun map => map.lookup key).map
      OverlayedValue.value

/-- The index of the current extrinsic, decoded from the `u32` stored under
`:extrinsic_index`, when a changes trie is configured. -/
def extrinsicIndex (overlay : OverlayedChanges) : Option Nat :=
  match overlay.changesTrieConfig with
  | some _ =>
    some (((overlay.storage extrinsicIndexKey).bind fun stored =>
      stored.bind fun bytes => (RustInt.decodeLE 4 bytes).map Prod.fst).getD noExtrinsicIndex)
  | none => none

end OverlayedChanges

namespace OverlayedValue

/-- `entry.extrinsics.get_or_insert_with(Default::default).insert(extrinsic)`,
when there is an extrinsic index. -/
def noteExtrinsic (extrinsicIndex : Option Nat) (entry : OverlayedValue) : OverlayedValue :=
  match extrinsicIndex with
  | some extrinsic => { entry with extrinsics := some (insert extrinsic (entry.extrinsics.getD ∅)) }
  | none => entry

/-- A write through `entry(key).or_default()`: the value, and the extrinsic
that wrote it. -/
def write (extrinsicIndex : Option Nat) (value : Option (List UInt8))
    (entry : Option OverlayedValue) : OverlayedValue :=
  noteExtrinsic extrinsicIndex { entry.getD default with value := value }

/-- The committed entry a prospective `val` is merged into: the prospective
value, and the union of the extrinsic indices. -/
def merge (val : OverlayedValue) (entry : Option OverlayedValue) : OverlayedValue :=
  let entry := { entry.getD default with value := val.value }
  match val.extrinsics with
  | some prospectiveExtrinsics =>
    { entry with extrinsics := some (entry.extrinsics.getD ∅ ∪ prospectiveExtrinsics) }
  | none => entry

@[simp]
theorem noteExtrinsic_value (extrinsicIndex : Option Nat) (entry : OverlayedValue) :
    (noteExtrinsic extrinsicIndex entry).value = entry.value := by
  cases extrinsicIndex <;> rfl

@[simp]
theorem write_value (extrinsicIndex : Option Nat) (value : Option (List UInt8))
    (entry : Option OverlayedValue) : (write extrinsicIndex value entry).value = value := by
  simp [write]

@[simp]
theorem merge_value (val : OverlayedValue) (entry : Option OverlayedValue) :
    (merge val entry).value = val.value := by
  unfold merge
  cases val.extrinsics <;> rfl

/-- Merged into nothing, a prospective entry is kept as it is. -/
theorem merge_none (val : OverlayedValue) : merge val none = val := by
  obtain ⟨value, extrinsics⟩ := val
  cases extrinsics <;> simp [merge, default, Finset.empty_union]

end OverlayedValue

/-- The deletion loops of the clearing functions: every key of `keys` the
scope test accepts is written `None` in `map`. -/
def deleteWhere (extrinsicIndex : Option Nat) (inScope : List UInt8 → Bool)
    (keys : List (List UInt8)) (map : ChangeMap) : ChangeMap :=
  keys.foldl (fun map key =>
    if inScope key then map.upsert key (OverlayedValue.write extrinsicIndex none) else map) map

/-- The merge loop of `commit_prospective`: every prospective entry written
into the committed map. -/
def mergeInto (committed prospective : ChangeMap) : ChangeMap :=
  prospective.entries.foldl (fun committed entry =>
    committed.upsert entry.1 (OverlayedValue.merge entry.2)) committed

/-- After a deletion loop over distinct keys, a key of the loop that the scope
accepts holds a deletion, and every other key holds what it held. -/
theorem lookup_deleteWhere (extrinsicIndex : Option Nat) (inScope : List UInt8 → Bool)
    {keys : List (List UInt8)} (distinct : keys.Nodup) (map : ChangeMap) (key : List UInt8) :
    (deleteWhere extrinsicIndex inScope keys map).lookup key =
      if key ∈ keys ∧ inScope key = true then
        some (OverlayedValue.write extrinsicIndex none (map.lookup key))
      else map.lookup key := by
  unfold deleteWhere
  rw [AList.lookup_foldl_upsert_keys_if distinct]
  -- only the instance deciding membership differs
  congr 1

/-- The values after a deletion loop over the keys of a map `keysOf`: a key of
`keysOf` in scope holds a deletion, every other key its old value. -/
theorem value_deleteWhere (extrinsicIndex : Option Nat) (inScope : List UInt8 → Bool)
    (keysOf map : ChangeMap) (key : List UInt8) :
    ((deleteWhere extrinsicIndex inScope keysOf.keys map).lookup key).map OverlayedValue.value =
      if inScope key && (keysOf.lookup key).isSome then some none
      else (map.lookup key).map OverlayedValue.value := by
  rw [lookup_deleteWhere _ _ (AList.keys_nodup keysOf)]
  by_cases accepted : inScope key = true
  · by_cases member : key ∈ keysOf.keys
    · simp [accepted, member, (AList.mem_keys_iff_isSome keysOf key).mp member]
    · simp [accepted, member, (AList.mem_keys_iff_isSome keysOf key).not.mp member]
  · simp [accepted]

/-- After the merge loop, a key with a prospective entry holds that entry merged
into the committed one, and every other key its committed entry. -/
theorem lookup_mergeInto (committed prospective : ChangeMap) (key : List UInt8) :
    (mergeInto committed prospective).lookup key =
      match prospective.lookup key with
      | some val => some (val.merge (committed.lookup key))
      | none => committed.lookup key := by
  unfold mergeInto
  rw [AList.lookup_foldl_upsert_entries]
  cases prospective.lookup key <;> rfl

namespace OverlayedChanges

variable (overlay : OverlayedChanges)

/-- `set_storage`: the prospective entry of the key. -/
def setStorage (key : List UInt8) (val : Option (List UInt8)) : OverlayedChanges :=
  let extrinsicIndex := overlay.extrinsicIndex
  { overlay with
    prospective := { overlay.prospective with
      top := overlay.prospective.top.upsert key (OverlayedValue.write extrinsicIndex val) } }

/-- `set_child_storage`: the prospective entry of the key in the child map,
created empty if missing. -/
def setChildStorage (storageKey key : List UInt8) (val : Option (List UInt8)) :
    OverlayedChanges :=
  let extrinsicIndex := overlay.extrinsicIndex
  { overlay with
    prospective := { overlay.prospective with
      children := overlay.prospective.children.upsert storageKey fun map =>
        (map.getD ∅).upsert key (OverlayedValue.write extrinsicIndex val) } }

/-- `clear_child_storage`: every prospective entry of the child map deleted,
then a deletion for every committed key of the child the prospective map
lacks, carrying the committed extrinsics. -/
def clearChildStorage (storageKey : List UInt8) : OverlayedChanges :=
  let extrinsicIndex := overlay.extrinsicIndex
  let map := (overlay.prospective.children.lookup storageKey).getD ∅
  let map := deleteWhere extrinsicIndex (fun _ => true) map.keys map
  let map :=
    match overlay.committed.children.lookup storageKey with
    | some committedMap =>
      committedMap.entries.foldl (fun map entry =>
        if entry.1 ∈ map then map
        else map.insert entry.1 ⟨none, extrinsicIndex.map fun extrinsic =>
          insert extrinsic (entry.2.extrinsics.getD ∅)⟩) map
    | none => map
  { overlay with
    prospective := { overlay.prospective with
      children := overlay.prospective.children.insert storageKey map } }

/-- `clear_prefix`: the prospective keys with the prefix, then the committed
ones, written `None` in the prospective map. -/
def clearPrefix (keyPrefix : List UInt8) : OverlayedChanges :=
  let extrinsicIndex := overlay.extrinsicIndex
  let top := deleteWhere extrinsicIndex keyPrefix.isPrefixOf overlay.prospective.top.keys
    overlay.prospective.top
  let top := deleteWhere extrinsicIndex keyPrefix.isPrefixOf overlay.committed.top.keys top
  { overlay with prospective := { overlay.prospective with top := top } }

/-- `clear_child_prefix`: `clear_prefix` within one child map, created empty
if missing. -/
def clearChildPrefix (storageKey keyPrefix : List UInt8) : OverlayedChanges :=
  let extrinsicIndex := overlay.extrinsicIndex
  let map := (overlay.prospective.children.lookup storageKey).getD ∅
  let map := deleteWhere extrinsicIndex keyPrefix.isPrefixOf map.keys map
  let map :=
    match overlay.committed.children.lookup storageKey with
    | some childCommitted => deleteWhere extrinsicIndex keyPrefix.isPrefixOf childCommitted.keys map
    | none => map
  { overlay with
    prospective := { overlay.prospective with
      children := overlay.prospective.children.insert storageKey map } }

def discardProspective : OverlayedChanges :=
  { overlay with prospective := OverlayedChangeSet.empty }

/-- `commit_prospective`: a swap of the two change sets when nothing is
committed yet, and otherwise every prospective entry merged into the
committed maps. -/
def commitProspective : OverlayedChanges :=
  if overlay.committed.isEmpty then
    { overlay with prospective := overlay.committed, committed := overlay.prospective }
  else
    { overlay with
      prospective := OverlayedChangeSet.empty
      committed :=
        ⟨mergeInto overlay.committed.top overlay.prospective.top,
          overlay.prospective.children.entries.foldl (fun children entry =>
            children.upsert entry.1 fun content => mergeInto (content.getD ∅) entry.2)
            overlay.committed.children⟩ }

end OverlayedChanges

end OffchainStorage.Overlay
