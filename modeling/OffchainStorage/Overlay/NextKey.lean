import OffchainStorage.Overlay.Changes
import OffchainStorage.Lib.OrderedMap
import Mathlib

/-!
# Key iteration through the overlay

`Ext::next_storage_key` merges two sources lazily: the backend's next key,
and the overlay's next change, itself the lesser of the next keys of the
committed and the prospective change sets (`next_storage_key_change`).  A
change that deletes its key is skipped by searching again from that key.
The backend is a finite map of the top-level storage and of each child trie,
whose next key is its least key above the one asked for; its `expect` never
fails on such a map.

The top-level and the child functions of the source differ only in the maps
they read: each is `nextKeyThrough` at its own maps.  It returns the least
key above the one asked for at which the merged view (`Ext::storage`,
`Ext::child_storage`) holds a value (`next_storage_key_exact`); its recursion
terminates since each round restarts from a key of the overlay above the
last one.
-/

namespace OffchainStorage.Overlay

open OrderedMap

/-- A storage map of the backend. -/
abbrev StorageMap : Type :=
  AList fun _ : List UInt8 => List UInt8

/-- A backend: the top-level storage and each child trie, as finite maps. -/
structure Backend where
  top : StorageMap
  children : AList fun _ : List UInt8 => StorageMap

section Maps

variable {V : Type}

/-- A read of a map that may be missing, as `children.get(storage_key)` gives. -/
def lookupIn (map : Option (AList fun _ : List UInt8 => V)) (key : List UInt8) : Option V :=
  map.bind fun map => map.lookup key

/-- `map.and_then(|map| map.range(..).next())`: the next entry of a map that
may be missing. -/
def nextEntryIn (map : Option (AList fun _ : List UInt8 => V)) (key : List UInt8) :
    Option (List UInt8 × V) :=
  map.bind fun map => nextEntry map key

/-- The keys of a map that may be missing. -/
def keysIn (map : Option (AList fun _ : List UInt8 => V)) : List (List UInt8) :=
  (map.map AList.keys).getD []

theorem nextEntryIn_eq_some {map : Option (AList fun _ : List UInt8 => V)} {key next : List UInt8}
    {value : V} (found : nextEntryIn map key = some (next, value)) :
    lookupIn map next = some value ∧ IsNextAbove (fun k => (lookupIn map k).isSome) key next ∧
      next ∈ keysIn map := by
  cases map with
  | none => cases found
  | some map => exact ⟨(nextEntry_eq_some found).1, (nextEntry_eq_some found).2, nextEntry_mem found⟩

theorem nextEntryIn_eq_none {map : Option (AList fun _ : List UInt8 => V)} {key : List UInt8}
    (missing : nextEntryIn map key = none) : NoneAbove (fun k => (lookupIn map k).isSome) key := by
  cases map with
  | none => exact fun _ _ present => by simp [lookupIn] at present
  | some map => exact nextEntry_eq_none missing

/-- What `nextEntryIn` finds is the least key of the map above `key`. -/
theorem nextEntryIn_answers (map : Option (AList fun _ : List UInt8 => V)) (key : List UInt8) :
    AnswersNext (fun k => (lookupIn map k).isSome) key ((nextEntryIn map key).map Prod.fst) := by
  cases found : nextEntryIn map key with
  | none => exact nextEntryIn_eq_none found
  | some entry => exact (nextEntryIn_eq_some found).2.1

end Maps

/-! ## The backend -/

/-- The backend's next key in one of its maps; `None` for a child trie it
does not have. -/
def nextBackendKey (map : Option StorageMap) (key : List UInt8) : Option (List UInt8) :=
  (nextEntryIn map key).map Prod.fst

namespace Backend

def storage (backend : Backend) (key : List UInt8) : Option (List UInt8) :=
  lookupIn (some backend.top) key

def childStorage (backend : Backend) (storageKey key : List UInt8) : Option (List UInt8) :=
  lookupIn (backend.children.lookup storageKey) key

/-- `next_storage_key`. -/
def nextStorageKey (backend : Backend) (key : List UInt8) : Option (List UInt8) :=
  nextBackendKey (some backend.top) key

/-- `next_child_storage_key`. -/
def nextChildStorageKey (backend : Backend) (storageKey key : List UInt8) : Option (List UInt8) :=
  nextBackendKey (backend.children.lookup storageKey) key

end Backend

/-! ## The overlay -/

/-- The `match` of `next_storage_key_change` and
`next_child_storage_key_change` over the committed and the prospective map
of one storage: the lesser next key, the prospective one on a tie. -/
def nextChange (committed prospective : Option ChangeMap) (key : List UInt8) :
    Option (List UInt8 × OverlayedValue) :=
  match nextEntryIn committed key, nextEntryIn prospective key with
  | some committedKey, some prospectiveKey =>
    -- committed is strictly less than prospective
    if committedKey.1 < prospectiveKey.1 then some committedKey else some prospectiveKey
  | committedKey, none => committedKey
  | none, some prospectiveKey => some prospectiveKey

namespace OverlayedChanges

/-- `next_storage_key_change`. -/
def nextStorageKeyChange (overlay : OverlayedChanges) (key : List UInt8) :
    Option (List UInt8 × OverlayedValue) :=
  nextChange (some overlay.committed.top) (some overlay.prospective.top) key

/-- `next_child_storage_key_change`. -/
def nextChildStorageKeyChange (overlay : OverlayedChanges) (storageKey key : List UInt8) :
    Option (List UInt8 × OverlayedValue) :=
  nextChange (overlay.committed.children.lookup storageKey)
    (overlay.prospective.children.lookup storageKey) key

end OverlayedChanges

/-- The change the overlay holds for a key of one storage: the prospective
one, else the committed one. -/
def overlayEntry (committed prospective : Option ChangeMap) (key : List UInt8) :
    Option OverlayedValue :=
  (lookupIn prospective key).or (lookupIn committed key)

section NextChange

variable {committed prospective : Option ChangeMap} {key next : List UInt8} {value : OverlayedValue}

/-- Which map `next_change` takes its entry from: the committed one when
its next key is below the prospective one's, the prospective one otherwise. -/
theorem nextChange_cases (found : nextChange committed prospective key = some (next, value)) :
    (nextEntryIn committed key = some (next, value) ∧
        (nextEntryIn prospective key).all fun entry => next < entry.1) ∨
      (nextEntryIn prospective key = some (next, value) ∧
        (nextEntryIn committed key).all fun entry => next ≤ entry.1) := by
  unfold nextChange at found
  cases committedFound : nextEntryIn committed key with
  | none =>
    cases prospectiveFound : nextEntryIn prospective key with
    | none => simp [committedFound, prospectiveFound] at found
    | some prospectiveKey =>
      simp only [committedFound, prospectiveFound] at found
      exact .inr ⟨found, rfl⟩
  | some committedKey =>
    cases prospectiveFound : nextEntryIn prospective key with
    | none =>
      simp only [committedFound, prospectiveFound] at found
      exact .inl ⟨found, rfl⟩
    | some prospectiveKey =>
      simp only [committedFound, prospectiveFound] at found
      -- the committed key wins only when strictly below
      split at found <;> cases found
      · rename_i first
        exact .inl ⟨rfl, by simpa using first⟩
      · rename_i notFirst
        exact .inr ⟨rfl, by simpa using not_lt.mp notFirst⟩

/-- The key `next_change` finds is a key of the overlay above `key`. -/
theorem nextChange_mem (found : nextChange committed prospective key = some (next, value)) :
    key < next ∧ next ∈ keysIn committed ++ keysIn prospective := by
  rcases nextChange_cases found with ⟨committedFound, -⟩ | ⟨prospectiveFound, -⟩
  · obtain ⟨-, ⟨above, -⟩, mem⟩ := nextEntryIn_eq_some committedFound
    exact ⟨above, List.mem_append_left _ mem⟩
  · obtain ⟨-, ⟨above, -⟩, mem⟩ := nextEntryIn_eq_some prospectiveFound
    exact ⟨above, List.mem_append_right _ mem⟩

/-- What `next_change` finds: the least key above `key` with a change in
either map, and the change the overlay holds for it. -/
theorem nextChange_eq_some (found : nextChange committed prospective key = some (next, value)) :
    overlayEntry committed prospective next = some value ∧
      IsNextAbove (fun k => (lookupIn prospective k).isSome ∨ (lookupIn committed k).isSome) key next := by
  rcases nextChange_cases found with ⟨committedFound, prospectiveLater⟩ | ⟨prospectiveFound, committedLater⟩
  · -- the prospective map has no key up to the committed one
    obtain ⟨committedValue, committedNext, -⟩ := nextEntryIn_eq_some committedFound
    have later : ((nextEntryIn prospective key).map Prod.fst).all (fun k => next < k) := by
      rw [Option.all_map]
      exact prospectiveLater
    have quiet := (nextEntryIn_answers prospective key).quiet_upTo later
    have missing : lookupIn prospective next = none :=
      Option.not_isSome_iff_eq_none.mp (quiet next committedNext.1 le_rfl)
    exact ⟨by simp [overlayEntry, missing, committedValue],
      committedNext.or_left fun k lower upper => quiet k lower upper.le⟩
  · obtain ⟨prospectiveValue, prospectiveNext, -⟩ := nextEntryIn_eq_some prospectiveFound
    have later : ((nextEntryIn committed key).map Prod.fst).all (fun k => next ≤ k) := by
      rw [Option.all_map]
      exact committedLater
    have quiet := (nextEntryIn_answers committed key).quiet_below later
    exact ⟨by simp [overlayEntry, prospectiveValue], prospectiveNext.or_right quiet⟩

/-- With no next change, the overlay has no change above `key`. -/
theorem nextChange_eq_none (missing : nextChange committed prospective key = none) :
    NoneAbove (fun k => (lookupIn prospective k).isSome ∨ (lookupIn committed k).isSome) key := by
  unfold nextChange at missing
  cases committedFound : nextEntryIn committed key with
  | none =>
    cases prospectiveFound : nextEntryIn prospective key with
    | none => exact (nextEntryIn_eq_none prospectiveFound).or (nextEntryIn_eq_none committedFound)
    | some prospectiveKey => simp [committedFound, prospectiveFound] at missing
  | some committedKey =>
    cases prospectiveFound : nextEntryIn prospective key with
    | none => simp [committedFound, prospectiveFound] at missing
    | some prospectiveKey =>
      simp only [committedFound, prospectiveFound] at missing
      split at missing <;> cases missing

/-- Above `key` and below the next change, the overlay holds no change. -/
theorem overlayEntry_eq_none_below (found : nextChange committed prospective key = some (next, value))
    {k : List UInt8} (lower : key < k) (upper : k < next) : overlayEntry committed prospective k = none := by
  have quiet := (nextChange_eq_some found).2.2.2 k lower upper
  simp only [not_or, Bool.not_eq_true, Option.isSome_eq_false_iff, Option.isNone_iff_eq_none] at quiet
  simp [overlayEntry, quiet.1, quiet.2]

theorem overlayEntry_eq_none_above (missing : nextChange committed prospective key = none)
    {k : List UInt8} (lower : key < k) : overlayEntry committed prospective k = none := by
  have quiet := nextChange_eq_none missing k lower
  simp only [not_or, Bool.not_eq_true, Option.isSome_eq_false_iff, Option.isNone_iff_eq_none] at quiet
  simp [overlayEntry, quiet.1, quiet.2]

end NextChange

/-! ## Merging with the backend -/

/-- A key's value in the merged view of one storage: the overlay's change,
else the backend's value. -/
def mergedValue (backend : Option StorageMap) (committed prospective : Option ChangeMap)
    (key : List UInt8) : Option (List UInt8) :=
  match overlayEntry committed prospective key with
  | some change => change.value
  | none => lookupIn backend key

/-- `Ext::next_storage_key` over the backend's map and the overlay's two
maps of one storage. -/
def nextKeyThrough (backend : Option StorageMap) (committed prospective : Option ChangeMap)
    (key : List UInt8) : Option (List UInt8) :=
  match _found : nextChange committed prospective key with
  | none => nextBackendKey backend key
  | some (overlayKey, value) =>
    let backendKey := nextBackendKey backend key
    -- the arm `(Some(backend_key), Some(overlay_key)) if backend_key < overlay_key`
    if backendKey.any (· < overlayKey) then backendKey
    else if value.value.isSome then some overlayKey
    -- a deleted key: the search starts again from it
    else nextKeyThrough backend committed prospective overlayKey
termination_by ((keysIn committed ++ keysIn prospective).filter fun k => key < k).length
decreasing_by exact length_filter_lt_of_mem (nextChange_mem _found).2 (nextChange_mem _found).1

/-- What the backend finds is its least key above `key`. -/
theorem nextBackendKey_answers (backend : Option StorageMap) (key : List UInt8) :
    AnswersNext (fun k => (lookupIn backend k).isSome) key (nextBackendKey backend key) :=
  nextEntryIn_answers backend key

section Merged

variable {backend : Option StorageMap} {committed prospective : Option ChangeMap}
  {key next : List UInt8} {value : OverlayedValue}

/-- Where the overlay holds no change, the merged view is the backend's. -/
theorem mergedValue_of_overlayEntry_eq_none {k : List UInt8}
    (missing : overlayEntry committed prospective k = none) :
    mergedValue backend committed prospective k = lookupIn backend k := by
  simp [mergedValue, missing]

/-- Below a change that no backend key precedes, the merged view holds no
value. -/
theorem mergedValue_eq_none_below (found : nextChange committed prospective key = some (next, value))
    (notBefore : ¬ (nextBackendKey backend key).any (· < next)) :
    ∀ k, key < k → k < next → ¬ (mergedValue backend committed prospective k).isSome := by
  intro k lower upper
  have backendLater : (nextBackendKey backend key).all fun k => next ≤ k := by
    cases backendFound : nextBackendKey backend key with
    | none => rfl
    | some backendKey => simpa [backendFound] using notBefore
  rw [mergedValue_of_overlayEntry_eq_none (overlayEntry_eq_none_below found lower upper)]
  exact (nextBackendKey_answers backend key).quiet_below backendLater k lower upper

/-- `nextKeyThrough` returns the least key above `key` with a value in the
merged view.  The induction follows its recursion: each deletion it skips is
a key where the merged view holds nothing, with nothing below it. -/
theorem nextKeyThrough_answers (backend : Option StorageMap) (committed prospective : Option ChangeMap)
    (key : List UInt8) :
    AnswersNext (fun k => (mergedValue backend committed prospective k).isSome) key
      (nextKeyThrough backend committed prospective key) := by
  fun_induction nextKeyThrough backend committed prospective key with
  | case1 key missing =>
    -- no change above `key`: the backend's next key
    refine (nextBackendKey_answers backend key).congr fun k lower => ?_
    rw [mergedValue_of_overlayEntry_eq_none (overlayEntry_eq_none_above missing lower)]
  | case2 key overlayKey value found backendNext backendFirst =>
    -- a backend key before the next change, where the merged view is the backend's
    dsimp only [backendNext] at backendFirst ⊢
    have backendAnswer := nextBackendKey_answers backend key
    cases backendFound : nextBackendKey backend key with
    | none => simp [backendFound] at backendFirst
    | some backendKey =>
      rw [backendFound] at backendAnswer backendFirst
      have within : backendKey < overlayKey := by simpa using backendFirst
      have backendNextAbove : IsNextAbove (fun k => (lookupIn backend k).isSome) key backendKey :=
        backendAnswer
      rw [answersNext_some]
      refine backendNextAbove.congr_below (fun k lower upper => ?_) within
      rw [mergedValue_of_overlayEntry_eq_none (overlayEntry_eq_none_below found lower upper)]
  | case3 key overlayKey value found backendNext notBefore live =>
    dsimp only [backendNext] at notBefore
    have atChange : mergedValue backend committed prospective overlayKey = value.value := by
      simp [mergedValue, (nextChange_eq_some found).1]
    exact ⟨(nextChange_mem found).1, by simpa [atChange] using live, mergedValue_eq_none_below found notBefore⟩
  | case4 key overlayKey value found backendNext notBefore deleted ih =>
    dsimp only [backendNext] at notBefore
    -- nothing in the merged view up to the deleted key, which the search restarts from
    have atChange : mergedValue backend committed prospective overlayKey = value.value := by
      simp [mergedValue, (nextChange_eq_some found).1]
    refine ih.skip (nextChange_mem found).1 fun k lower upper => ?_
    rcases lt_or_eq_of_le upper with below | rfl
    · exact mergedValue_eq_none_below found notBefore k lower below
    · simpa [atChange] using deleted

end Merged

/-! ## `Ext` -/

namespace Ext

/-- `Ext::storage`: the overlay's change, else the backend's value. -/
def storage (backend : Backend) (overlay : OverlayedChanges) (key : List UInt8) : Option (List UInt8) :=
  (overlay.storage key).getD (backend.storage key)

/-- `Ext::child_storage`. -/
def childStorage (backend : Backend) (overlay : OverlayedChanges) (storageKey key : List UInt8) :
    Option (List UInt8) :=
  (overlay.childStorage storageKey key).getD (backend.childStorage storageKey key)

/-- `Ext::next_storage_key`: `nextKeyThrough` at the top-level maps, where
it calls `backend.next_storage_key` and `overlay.next_storage_key_change`. -/
def nextStorageKey (backend : Backend) (overlay : OverlayedChanges) (key : List UInt8) :
    Option (List UInt8) :=
  nextKeyThrough (some backend.top) (some overlay.committed.top) (some overlay.prospective.top) key

/-- `Ext::next_child_storage_key`: `nextKeyThrough` at the maps of one child
trie. -/
def nextChildStorageKey (backend : Backend) (overlay : OverlayedChanges) (storageKey key : List UInt8) :
    Option (List UInt8) :=
  nextKeyThrough (backend.children.lookup storageKey) (overlay.committed.children.lookup storageKey)
    (overlay.prospective.children.lookup storageKey) key

variable (backend : Backend) (overlay : OverlayedChanges)

theorem storage_eq_mergedValue (key : List UInt8) :
    storage backend overlay key =
      mergedValue (some backend.top) (some overlay.committed.top) (some overlay.prospective.top) key := by
  unfold storage mergedValue overlayEntry OverlayedChanges.storage Backend.storage
  simp only [lookupIn, Option.bind_some]
  cases (overlay.prospective.top.lookup key).or (overlay.committed.top.lookup key) <;> rfl

theorem childStorage_eq_mergedValue (storageKey key : List UInt8) :
    childStorage backend overlay storageKey key =
      mergedValue (backend.children.lookup storageKey) (overlay.committed.children.lookup storageKey)
        (overlay.prospective.children.lookup storageKey) key := by
  unfold childStorage mergedValue overlayEntry OverlayedChanges.childStorage Backend.childStorage
  -- the prospective child map first, then the committed one
  cases prospectiveChange : (overlay.prospective.children.lookup storageKey).bind fun map => map.lookup key with
  | some change => simp [lookupIn, prospectiveChange]
  | none =>
    cases committedChange : (overlay.committed.children.lookup storageKey).bind fun map => map.lookup key <;>
      simp [lookupIn, prospectiveChange, committedChange]

end Ext

/-- Key iteration through the overlay is exact: `next_storage_key` returns
the least key above `key` at which `Ext::storage` holds a value, and `None`
when there is none; `next_child_storage_key` does the same for every child
trie with `Ext::child_storage`. -/
theorem next_storage_key_exact (backend : Backend) (overlay : OverlayedChanges) (key : List UInt8) :
    AnswersNext (fun k => (Ext.storage backend overlay k).isSome) key
        (Ext.nextStorageKey backend overlay key) ∧
      ∀ storageKey, AnswersNext (fun k => (Ext.childStorage backend overlay storageKey k).isSome) key
        (Ext.nextChildStorageKey backend overlay storageKey key) := by
  constructor
  · simp only [Ext.storage_eq_mergedValue]
    exact nextKeyThrough_answers _ _ _ key
  · intro storageKey
    simp only [Ext.childStorage_eq_mergedValue]
    exact nextKeyThrough_answers _ _ _ key

end OffchainStorage.Overlay
