import OffchainStorage.Overlay.Changes
import OffchainStorage.Lib.TwoLayerMap
import OffchainStorage.Lib.Transition

/-!
# The overlay is a two-layer map

Seen through the values it holds, `OverlayedChanges` is a `TwoLayerMap` over
locations (a top-level key, or a key of a child trie): the committed change
set is the committed layer, the prospective one the pending layer.  This
module proves that every operation of the overlay is the matching operation
of the two-layer map (`abstraction_apply`), hence that every run is
(`abstraction_perform`), that the overlay's reads are the map's reads, and
that committing merges each prospective entry into the committed one, the
extrinsic indices included, on both of its paths.
-/

namespace OffchainStorage.Overlay

/-- Where a change lives: under a top-level key, or under a key of a child
trie. -/
inductive Location where
  | top (key : List UInt8)
  | child (storageKey key : List UInt8)
  deriving DecidableEq

namespace Location

/-- The scope of `clear_prefix`. -/
def underTopPrefix (keyPrefix : List UInt8) : Location → Bool
  | top key => keyPrefix.isPrefixOf key
  | child _ _ => false

/-- The scope of `clear_child_storage`. -/
def inChild (storageKey : List UInt8) : Location → Bool
  | top _ => false
  | child childKey _ => childKey == storageKey

/-- The scope of `clear_child_prefix`. -/
def underChildPrefix (storageKey keyPrefix : List UInt8) : Location → Bool
  | top _ => false
  | child childKey key => childKey == storageKey && keyPrefix.isPrefixOf key

end Location

/-- The change a change set holds at a location. -/
def OverlayedChangeSet.find (changes : OverlayedChangeSet) : Location → Option OverlayedValue
  | .top key => changes.top.lookup key
  | .child storageKey key => (changes.children.lookup storageKey).bind fun map => map.lookup key

/-- The values of the two change sets, as the layers of a two-layer map. -/
def abstraction (overlay : OverlayedChanges) : TwoLayerMap Location (Option (List UInt8)) :=
  ⟨fun location => (overlay.committed.find location).map OverlayedValue.value,
    fun location => (overlay.prospective.find location).map OverlayedValue.value⟩

/-- The operations the overlay offers for writing. -/
inductive Operation where
  | setStorage (key : List UInt8) (val : Option (List UInt8))
  | setChildStorage (storageKey key : List UInt8) (val : Option (List UInt8))
  | clearPrefix (keyPrefix : List UInt8)
  | clearChildStorage (storageKey : List UInt8)
  | clearChildPrefix (storageKey keyPrefix : List UInt8)
  | commitProspective
  | discardProspective

def Operation.apply : Operation → OverlayedChanges → OverlayedChanges
  | .setStorage key val, overlay => overlay.setStorage key val
  | .setChildStorage storageKey key val, overlay => overlay.setChildStorage storageKey key val
  | .clearPrefix keyPrefix, overlay => overlay.clearPrefix keyPrefix
  | .clearChildStorage storageKey, overlay => overlay.clearChildStorage storageKey
  | .clearChildPrefix storageKey keyPrefix, overlay => overlay.clearChildPrefix storageKey keyPrefix
  | .commitProspective, overlay => overlay.commitProspective
  | .discardProspective, overlay => overlay.discardProspective

/-- The operation of the two-layer map each overlay operation should be: a
write, a clearing to `None` of its scope, a commit or a discard. -/
def Operation.abstract : Operation → TwoLayerMap.Operation Location (Option (List UInt8))
  | .setStorage key val => .write (.top key) val
  | .setChildStorage storageKey key val => .write (.child storageKey key) val
  | .clearPrefix keyPrefix => .clearWhere (Location.underTopPrefix keyPrefix) none
  | .clearChildStorage storageKey => .clearWhere (Location.inChild storageKey) none
  | .clearChildPrefix storageKey keyPrefix =>
    .clearWhere (Location.underChildPrefix storageKey keyPrefix) none
  | .commitProspective => .commit
  | .discardProspective => .discard

/-! ## Reads -/

section Reads

variable (overlay : OverlayedChanges)

theorem storage_eq_read (key : List UInt8) :
    overlay.storage key = (abstraction overlay).read (.top key) := by
  simp [OverlayedChanges.storage, TwoLayerMap.read, abstraction, OverlayedChangeSet.find,
    Option.map_or]

theorem childStorage_eq_read (storageKey key : List UInt8) :
    overlay.childStorage storageKey key = (abstraction overlay).read (.child storageKey key) := by
  unfold OverlayedChanges.childStorage
  -- the prospective child entry answers when there is one
  cases found : (overlay.prospective.children.lookup storageKey).bind fun map => map.lookup key <;>
    simp [TwoLayerMap.read, abstraction, OverlayedChangeSet.find, found]

end Reads

/-! ## One operation -/

/-- A child map read through `getD ∅`, as the clearing and setting functions
create it. -/
theorem lookup_getD_empty (children : AList fun _ : List UInt8 => ChangeMap)
    (storageKey key : List UInt8) :
    ((children.lookup storageKey).getD ∅).lookup key =
      (children.lookup storageKey).bind fun map => map.lookup key := by
  cases children.lookup storageKey <;> rfl

theorem find_of_isEmpty {changes : OverlayedChangeSet} (empty : changes.isEmpty = true)
    (location : Location) : changes.find location = none := by
  obtain ⟨topEmpty, childrenEmpty⟩ := Bool.and_eq_true_iff.mp empty
  cases location with
  | top key =>
      exact AList.lookup_of_isEmpty topEmpty key
  | child storageKey key =>
      simp [OverlayedChangeSet.find, AList.lookup_of_isEmpty childrenEmpty]

@[simp]
theorem find_empty (location : Location) : OverlayedChangeSet.empty.find location = none := by
  cases location <;> rfl

section Operations

variable (overlay : OverlayedChanges)

theorem abstraction_setStorage (key : List UInt8) (val : Option (List UInt8)) :
    abstraction (overlay.setStorage key val) = (abstraction overlay).write (.top key) val := by
  apply TwoLayerMap.ext
  · rfl
  · funext location
    cases location with
    | top other =>
        by_cases same : other = key
        · subst same
          simp [abstraction, OverlayedChanges.setStorage, OverlayedChangeSet.find, TwoLayerMap.write]
        · simp [abstraction, OverlayedChanges.setStorage, OverlayedChangeSet.find, TwoLayerMap.write,
            AList.lookup_upsert_of_ne _ _ same, same]
    | child storageKey other =>
        simp [abstraction, OverlayedChanges.setStorage, OverlayedChangeSet.find, TwoLayerMap.write]

theorem abstraction_setChildStorage (storageKey key : List UInt8) (val : Option (List UInt8)) :
    abstraction (overlay.setChildStorage storageKey key val) =
      (abstraction overlay).write (.child storageKey key) val := by
  apply TwoLayerMap.ext
  · rfl
  · funext location
    cases location with
    | top other =>
        simp [abstraction, OverlayedChanges.setChildStorage, OverlayedChangeSet.find,
          TwoLayerMap.write]
    | child otherStorageKey other =>
        by_cases sameChild : otherStorageKey = storageKey
        · subst sameChild
          by_cases same : other = key
          · subst same
            simp [abstraction, OverlayedChanges.setChildStorage, OverlayedChangeSet.find,
              TwoLayerMap.write]
          · simp [abstraction, OverlayedChanges.setChildStorage, OverlayedChangeSet.find,
              TwoLayerMap.write, AList.lookup_upsert_of_ne _ _ same, same, lookup_getD_empty]
        · simp [abstraction, OverlayedChanges.setChildStorage, OverlayedChangeSet.find,
            TwoLayerMap.write, AList.lookup_upsert_of_ne _ _ sameChild, sameChild]

theorem abstraction_clearPrefix (keyPrefix : List UInt8) :
    abstraction (overlay.clearPrefix keyPrefix) =
      (abstraction overlay).clearWhere (Location.underTopPrefix keyPrefix) none := by
  apply TwoLayerMap.ext
  · rfl
  · funext location
    cases location with
    | top key =>
        -- both deletion loops, the prospective keys first, then the committed ones
        simp only [abstraction, OverlayedChanges.clearPrefix, OverlayedChangeSet.find,
          TwoLayerMap.clearWhere, Location.underTopPrefix,
          lookup_deleteWhere _ _ (AList.keys_nodup _), AList.mem_keys_iff_isSome, Option.isSome_map]
        by_cases accepted : keyPrefix.isPrefixOf key = true <;>
          by_cases pending : (overlay.prospective.top.lookup key).isSome = true <;>
          by_cases committed : (overlay.committed.top.lookup key).isSome = true <;>
          simp [accepted, pending, committed]
    | child storageKey key =>
        rfl

/-- The prospective child map after `clear_child_storage`: every key either
change set knows in the child holds a deletion. -/
theorem clearChildStorage_lookup (storageKey key : List UInt8) :
    (((overlay.clearChildStorage storageKey).prospective.children.lookup storageKey).bind
        fun map => map.lookup key).map OverlayedValue.value =
      if ((overlay.prospective.children.lookup storageKey).bind fun map => map.lookup key).isSome ||
          ((overlay.committed.children.lookup storageKey).bind fun map => map.lookup key).isSome
      then some none
      else ((overlay.prospective.children.lookup storageKey).bind fun map => map.lookup key).map
        OverlayedValue.value := by
  simp only [OverlayedChanges.clearChildStorage, AList.lookup_insert, Option.bind_some]
  cases committedChild : overlay.committed.children.lookup storageKey with
  | none =>
      simp only [value_deleteWhere, lookup_getD_empty, Option.bind_none, Option.isSome_none,
        Bool.or_false, Bool.true_and]
  | some committedMap =>
      -- a committed key of the child that the prospective map lacks gets a deletion
      simp only [Option.bind_some, AList.lookup_foldl_insert_if_absent]
      split
      · rename_i found
        rw [Option.map_or, value_deleteWhere, lookup_getD_empty]
        cases (overlay.prospective.children.lookup storageKey).bind fun map => map.lookup key <;>
          simp [found]
      · rename_i absent
        simp [value_deleteWhere, lookup_getD_empty, absent]

theorem abstraction_clearChildStorage (storageKey : List UInt8) :
    abstraction (overlay.clearChildStorage storageKey) =
      (abstraction overlay).clearWhere (Location.inChild storageKey) none := by
  apply TwoLayerMap.ext
  · rfl
  · funext location
    cases location with
    | top key =>
        rfl
    | child otherStorageKey key =>
        by_cases sameChild : otherStorageKey = storageKey
        · subst sameChild
          simp only [abstraction, TwoLayerMap.clearWhere, Location.inChild, OverlayedChangeSet.find,
            clearChildStorage_lookup, Option.isSome_map, beq_self_eq_true, Bool.true_and]
        · simp [abstraction, OverlayedChanges.clearChildStorage, OverlayedChangeSet.find,
            TwoLayerMap.clearWhere, Location.inChild, sameChild]

/-- The prospective child map after `clear_child_prefix`: every key with the
prefix that either change set knows in the child holds a deletion. -/
theorem clearChildPrefix_lookup (storageKey keyPrefix key : List UInt8) :
    (((overlay.clearChildPrefix storageKey keyPrefix).prospective.children.lookup storageKey).bind
        fun map => map.lookup key).map OverlayedValue.value =
      if keyPrefix.isPrefixOf key &&
          (((overlay.prospective.children.lookup storageKey).bind fun map => map.lookup key).isSome ||
            ((overlay.committed.children.lookup storageKey).bind fun map => map.lookup key).isSome)
      then some none
      else ((overlay.prospective.children.lookup storageKey).bind fun map => map.lookup key).map
        OverlayedValue.value := by
  simp only [OverlayedChanges.clearChildPrefix, AList.lookup_insert, Option.bind_some]
  cases committedChild : overlay.committed.children.lookup storageKey with
  | none =>
      simp only [value_deleteWhere, lookup_getD_empty, Option.bind_none, Option.isSome_none,
        Bool.or_false]
  | some committedMap =>
      -- the committed keys of the child are cleared after the prospective ones
      simp only [value_deleteWhere, lookup_getD_empty, Option.bind_some]
      by_cases accepted : keyPrefix.isPrefixOf key = true <;>
        by_cases committedKnown : (committedMap.lookup key).isSome = true <;>
        simp [accepted, committedKnown]

theorem abstraction_clearChildPrefix (storageKey keyPrefix : List UInt8) :
    abstraction (overlay.clearChildPrefix storageKey keyPrefix) =
      (abstraction overlay).clearWhere (Location.underChildPrefix storageKey keyPrefix) none := by
  apply TwoLayerMap.ext
  · rfl
  · funext location
    cases location with
    | top key =>
        rfl
    | child otherStorageKey key =>
        by_cases sameChild : otherStorageKey = storageKey
        · subst sameChild
          simp only [abstraction, TwoLayerMap.clearWhere, Location.underChildPrefix,
            OverlayedChangeSet.find, clearChildPrefix_lookup, Option.isSome_map, beq_self_eq_true,
            Bool.true_and]
        · simp [abstraction, OverlayedChanges.clearChildPrefix, OverlayedChangeSet.find,
            TwoLayerMap.clearWhere, Location.underChildPrefix, sameChild]

theorem abstraction_discardProspective :
    abstraction overlay.discardProspective = (abstraction overlay).discard := by
  apply TwoLayerMap.ext
  · rfl
  · funext location
    simp [abstraction, OverlayedChanges.discardProspective, TwoLayerMap.discard]

/-- `commit_prospective` on both of its paths: the committed change at every
location is the prospective one merged into the committed one, and nothing
is left prospective. -/
theorem commitProspective_find (location : Location) :
    overlay.commitProspective.committed.find location =
        (match overlay.prospective.find location with
          | some val => some (val.merge (overlay.committed.find location))
          | none => overlay.committed.find location) ∧
      overlay.commitProspective.prospective.find location = none := by
  unfold OverlayedChanges.commitProspective
  split
  · -- the swap: the committed set was empty, so merging into it keeps each entry
    rename_i empty
    refine ⟨?_, find_of_isEmpty empty location⟩
    simp only [find_of_isEmpty empty location]
    cases overlay.prospective.find location <;> simp [OverlayedValue.merge_none]
  · refine ⟨?_, find_empty location⟩
    cases location with
    | top key =>
        exact lookup_mergeInto _ _ key
    | child storageKey key =>
        simp only [OverlayedChangeSet.find, AList.lookup_foldl_upsert_entries]
        cases overlay.prospective.children.lookup storageKey with
        | none => rfl
        | some prospectiveMap =>
            -- split on the prospective entry first, so that both matches reduce
            cases found : prospectiveMap.lookup key <;>
              simp only [Option.bind_some, lookup_mergeInto, lookup_getD_empty, found]

theorem abstraction_commitProspective :
    abstraction overlay.commitProspective = (abstraction overlay).commit := by
  apply TwoLayerMap.ext
  · funext location
    obtain ⟨committed, _⟩ := commitProspective_find overlay location
    simp only [abstraction, TwoLayerMap.commit, TwoLayerMap.read, committed]
    cases overlay.prospective.find location <;> simp
  · funext location
    simp [abstraction, TwoLayerMap.commit, (commitProspective_find overlay location).2]

end Operations

/-- Every operation of the overlay is, on its values, the matching operation
of the two-layer map. -/
theorem abstraction_apply (operation : Operation) (overlay : OverlayedChanges) :
    abstraction (operation.apply overlay) = operation.abstract.apply (abstraction overlay) := by
  cases operation with
  | setStorage key val => exact abstraction_setStorage overlay key val
  | setChildStorage storageKey key val => exact abstraction_setChildStorage overlay storageKey key val
  | clearPrefix keyPrefix => exact abstraction_clearPrefix overlay keyPrefix
  | clearChildStorage storageKey => exact abstraction_clearChildStorage overlay storageKey
  | clearChildPrefix storageKey keyPrefix =>
      exact abstraction_clearChildPrefix overlay storageKey keyPrefix
  | commitProspective => exact abstraction_commitProspective overlay
  | discardProspective => exact abstraction_discardProspective overlay

/-- The overlay's reads are a two-layer map's reads: for every overlay, the
prospective change else the committed one, at top level and in child tries;
every run of its writing operations is, on its values, the run of the
matching two-layer map operations (writes to the pending layer, clearings of
their scope to `None`, commits and discards); and committing, on both its
paths, merges every prospective change into the committed one, extrinsic
indices included, and leaves nothing prospective. -/
theorem overlay_refines_two_layer_map :
    (∀ (overlay : OverlayedChanges) (key : List UInt8),
        overlay.storage key = (abstraction overlay).read (.top key)) ∧
      (∀ (overlay : OverlayedChanges) (storageKey key : List UInt8),
        overlay.childStorage storageKey key = (abstraction overlay).read (.child storageKey key)) ∧
      (∀ (overlay : OverlayedChanges) (operations : List Operation),
        abstraction (Transition.perform Operation.apply overlay operations) =
          Transition.perform TwoLayerMap.Operation.apply (abstraction overlay)
            (operations.map Operation.abstract)) ∧
      ∀ (overlay : OverlayedChanges) (location : Location),
        overlay.commitProspective.committed.find location =
            (match overlay.prospective.find location with
              | some val => some (val.merge (overlay.committed.find location))
              | none => overlay.committed.find location) ∧
          overlay.commitProspective.prospective.find location = none :=
  ⟨storage_eq_read, childStorage_eq_read,
    Transition.perform_simulation Operation.apply TwoLayerMap.Operation.apply abstraction
      Operation.abstract abstraction_apply,
    commitProspective_find⟩

end OffchainStorage.Overlay
