import Mathlib

/-!
# Loops that update a finite map entry by entry

Rust code changes a `BTreeMap` or a `HashMap` in loops whose body reads one
key, computes a new value from the old one and writes it back
(`map.entry(key).or_default()` followed by writes to the entry, or
`if !map.contains_key(key) { map.insert(key, value) }`).  A model of such a
map is Mathlib's `AList` with values of one type, and such a loop is a
`foldl` of steps that each touch the key of their item only.

This module states that shape once:

* `upsert`, the write through `entry(key)`;
* `LocalStep`, a loop step that writes the key of its item and leaves every
  other key alone;
* `LocalStep.lookup_foldl_of_mem` and `LocalStep.lookup_foldl_of_not_mem`,
  the lookups after the whole loop over items with distinct keys;
* from them, the lookups after the three loops models meet: writes through
  `entry(key)` over the entries of another map, insertions of the keys a map
  lacks, and writes through `entry(key)` over accepted keys.

A model's loops then get their lookup lemmas from these, never by an
induction of their own.
-/

universe u v w

namespace AList

variable {α : Type u} {V : Type v} [DecidableEq α]

/-- The write through `map.entry(key)`: the value at the key becomes one
computed from the old value, if any. -/
def upsert (map : AList fun _ : α => V) (key : α) (update : Option V → V) :
    AList fun _ : α => V :=
  map.insert key (update (map.lookup key))

@[simp]
theorem lookup_upsert_self (map : AList fun _ : α => V) (key : α) (update : Option V → V) :
    (map.upsert key update).lookup key = some (update (map.lookup key)) :=
  lookup_insert map

theorem lookup_upsert_of_ne (map : AList fun _ : α => V) {key other : α}
    (update : Option V → V) (different : other ≠ key) :
    (map.upsert key update).lookup other = map.lookup other :=
  lookup_insert_ne different

/-- An empty map, `BTreeMap::is_empty`. -/
def isEmpty (map : AList fun _ : α => V) : Bool :=
  map.entries.isEmpty

theorem lookup_of_isEmpty {map : AList fun _ : α => V} (empty : map.isEmpty = true) (key : α) :
    map.lookup key = none := by
  have noEntries : map.entries = [] := List.isEmpty_iff.mp empty
  rw [lookup_eq_none, mem_keys, keys, noEntries]
  exact List.not_mem_nil

section Fold

variable {γ : Type w} (key : γ → α) (update : γ → Option V → Option V)
  (step : (AList fun _ : α => V) → γ → AList fun _ : α => V)

/-- A loop step that writes the entry of its item's key, as `update` says, and
no other entry. -/
structure LocalStep : Prop where
  frame : ∀ map item other, other ≠ key item → (step map item).lookup other = map.lookup other
  writes : ∀ map item, (step map item).lookup (key item) = update item (map.lookup (key item))

variable {key update step}

/-- A key that no item names is read as before the loop. -/
theorem LocalStep.lookup_foldl_of_not_mem (stepIsLocal : LocalStep key update step) :
    ∀ (items : List γ) (map : AList fun _ : α => V) {other : α},
      (∀ item ∈ items, key item ≠ other) → (items.foldl step map).lookup other = map.lookup other
  | [], _, _, _ => rfl
  | item :: rest, map, other, untouched => by
      have restUntouched : ∀ later ∈ rest, key later ≠ other := fun later member =>
        untouched later (List.mem_cons_of_mem _ member)
      rw [List.foldl_cons, stepIsLocal.lookup_foldl_of_not_mem rest _ restUntouched,
        stepIsLocal.frame map item other (untouched item List.mem_cons_self).symm]

/-- The key of an item, when the items have distinct keys, is read as that
item's step wrote it, from the value before the loop. -/
theorem LocalStep.lookup_foldl_of_mem (stepIsLocal : LocalStep key update step) :
    ∀ (items : List γ), (items.map key).Nodup → ∀ (map : AList fun _ : α => V) {item : γ},
      item ∈ items → (items.foldl step map).lookup (key item) = update item (map.lookup (key item))
  | [], _, _, _, member => absurd member List.not_mem_nil
  | first :: rest, distinct, map, item, member => by
      rw [List.map_cons, List.nodup_cons] at distinct
      rw [List.foldl_cons]
      rcases List.mem_cons.mp member with rfl | later
      · -- the first item writes its key, and no later item names it again
        have untouched : ∀ other ∈ rest, key other ≠ key item := fun other otherMember same =>
          distinct.1 (same ▸ List.mem_map_of_mem otherMember)
        rw [stepIsLocal.lookup_foldl_of_not_mem rest _ untouched, stepIsLocal.writes]
      · have different : key item ≠ key first := fun same =>
          distinct.1 (same ▸ List.mem_map_of_mem later)
        rw [stepIsLocal.lookup_foldl_of_mem rest distinct.2 _ later,
          stepIsLocal.frame map first _ different]

end Fold

/-- `upsert` is a local step, for any way of choosing its key and update. -/
theorem localStep_upsert {γ : Type w} (key : γ → α) (update : γ → Option V → V) :
    LocalStep key (fun item old => some (update item old)) fun map item =>
      map.upsert (key item) (update item) where
  frame map _ _ different := lookup_upsert_of_ne map _ different
  writes map _ := lookup_upsert_self map _ _

/-- A conditional `upsert`, taken for the items a test accepts, is a local
step. -/
theorem localStep_upsert_if {γ : Type w} (key : γ → α) (accepted : γ → Bool)
    (update : γ → Option V → V) :
    LocalStep key (fun item old => if accepted item then some (update item old) else old)
      fun map item => if accepted item then map.upsert (key item) (update item) else map where
  frame map item _ different := by
    split
    · exact lookup_upsert_of_ne map _ different
    · rfl
  writes map item := by
    split
    · exact lookup_upsert_self map _ _
    · rfl

/-- An insertion made only where the key is absent is a local step. -/
theorem localStep_insert_if_absent {γ : Type w} (key : γ → α) (value : γ → V) :
    LocalStep key (fun item old => old.or (some (value item)))
      fun map item => if key item ∈ map then map else map.insert (key item) (value item) where
  frame map item _ different := by
    split
    · rfl
    · exact lookup_insert_ne different
  writes map item := by
    split
    · rename_i present
      obtain ⟨stored, found⟩ := Option.isSome_iff_exists.mp (lookup_isSome.mpr present)
      rw [found]
      rfl
    · rename_i absent
      rw [lookup_insert, lookup_eq_none.mpr absent]
      rfl

theorem lookup_of_mem_entries {map : AList fun _ : α => V} {entry : Sigma fun _ : α => V}
    (member : entry ∈ map.entries) : map.lookup entry.1 = some entry.2 :=
  mem_lookup_iff.mpr member

theorem mem_entries_of_lookup {map : AList fun _ : α => V} {key : α} {value : V}
    (found : map.lookup key = some value) : (⟨key, value⟩ : Sigma fun _ : α => V) ∈ map.entries :=
  mem_lookup_iff.mp found

theorem mem_keys_iff_isSome (map : AList fun _ : α => V) (key : α) :
    key ∈ map.keys ↔ (map.lookup key).isSome :=
  mem_keys.symm.trans lookup_isSome.symm

/-- A key without a value is the key of no entry. -/
theorem key_ne_of_lookup_none {map : AList fun _ : α => V} {key : α} (absent : map.lookup key = none) :
    ∀ entry ∈ map.entries, entry.1 ≠ key := fun entry member same => by
  rw [← same, lookup_of_mem_entries member] at absent
  cases absent

/-! ## Tests over the entries -/

/-- A test holds of some entry exactly when it holds of some key with its
value. -/
theorem any_entries_iff (map : AList fun _ : α => V) (test : (Sigma fun _ : α => V) → Bool) :
    map.entries.any test = true ↔ ∃ key value, map.lookup key = some value ∧ test ⟨key, value⟩ = true := by
  rw [List.any_eq_true]
  constructor
  · rintro ⟨entry, member, passed⟩
    exact ⟨entry.1, entry.2, lookup_of_mem_entries member, passed⟩
  · rintro ⟨key, value, found, passed⟩
    exact ⟨⟨key, value⟩, mem_entries_of_lookup found, passed⟩

/-- A test over the entries splits into the entry of one key and the others. -/
theorem any_entries_eq_lookup_or_others (map : AList fun _ : α => V)
    (test : (Sigma fun _ : α => V) → Bool) (key : α) :
    map.entries.any test = ((map.lookup key).any (fun value => test ⟨key, value⟩) ||
      map.entries.any fun entry => entry.1 != key && test entry) := by
  apply Bool.eq_iff_iff.mpr
  rw [Bool.or_eq_true, any_entries_iff, any_entries_iff]
  constructor
  · rintro ⟨other, value, found, passed⟩
    by_cases same : other = key
    · subst same
      left
      rw [found]
      exact passed
    · right
      exact ⟨other, value, found, by simp [same, passed]⟩
  · rintro (atKey | ⟨other, value, found, passed⟩)
    · obtain ⟨value, found, passed⟩ := (Option.any_eq_true _ _).mp atKey
      exact ⟨key, value, found, passed⟩
    · simp only [Bool.and_eq_true] at passed
      exact ⟨other, value, found, passed.2⟩

theorem any_erase_entries (map : AList fun _ : α => V) (test : (Sigma fun _ : α => V) → Bool) (key : α) :
    (map.erase key).entries.any test = map.entries.any fun entry => entry.1 != key && test entry := by
  apply Bool.eq_iff_iff.mpr
  rw [any_entries_iff, any_entries_iff]
  constructor
  · rintro ⟨other, value, found, passed⟩
    have different : other ≠ key := by
      rintro rfl
      rw [lookup_erase] at found
      cases found
    rw [lookup_erase_ne different] at found
    exact ⟨other, value, found, by simp [different, passed]⟩
  · rintro ⟨other, value, found, passed⟩
    simp only [Bool.and_eq_true, bne_iff_ne, ne_eq] at passed
    exact ⟨other, value, by rw [lookup_erase_ne passed.1]; exact found, passed.2⟩

theorem any_insert_entries (map : AList fun _ : α => V) (test : (Sigma fun _ : α => V) → Bool)
    (key : α) (value : V) :
    (map.insert key value).entries.any test =
      (test ⟨key, value⟩ || map.entries.any fun entry => entry.1 != key && test entry) := by
  rw [entries_insert, List.any_cons]
  congr 1
  exact any_erase_entries map test key

/-! ## The loops -/

section Loops

variable {W : Type w}

/-- `for (key, val) in source { map.entry(key)... }`: the keys of `source`
hold the update of their old value by their entry, and other keys are kept. -/
theorem lookup_foldl_upsert_entries (source : AList fun _ : α => W)
    (update : (Sigma fun _ : α => W) → Option V → V) (map : AList fun _ : α => V) (key : α) :
    (source.entries.foldl (fun map entry => map.upsert entry.1 (update entry)) map).lookup key =
      match source.lookup key with
      | some found => some (update ⟨key, found⟩ (map.lookup key))
      | none => map.lookup key := by
  have stepIsLocal := localStep_upsert (fun entry : Sigma fun _ : α => W => entry.1) update
  cases found : source.lookup key with
  | some found =>
      exact stepIsLocal.lookup_foldl_of_mem source.entries source.nodupKeys map
        (mem_entries_of_lookup found)
  | none =>
      exact stepIsLocal.lookup_foldl_of_not_mem source.entries map (key_ne_of_lookup_none found)

/-- `for (key, val) in source { if !map.contains_key(key) { map.insert(..) } }`:
the keys of `source` the map lacks get their new entry, and the rest is
kept. -/
theorem lookup_foldl_insert_if_absent (source : AList fun _ : α => W)
    (value : (Sigma fun _ : α => W) → V) (map : AList fun _ : α => V) (key : α) :
    (source.entries.foldl (fun map entry =>
        if entry.1 ∈ map then map else map.insert entry.1 (value entry)) map).lookup key =
      match source.lookup key with
      | some found => (map.lookup key).or (some (value ⟨key, found⟩))
      | none => map.lookup key := by
  have stepIsLocal := localStep_insert_if_absent (fun entry : Sigma fun _ : α => W => entry.1) value
  cases found : source.lookup key with
  | some found =>
      exact stepIsLocal.lookup_foldl_of_mem source.entries source.nodupKeys map
        (mem_entries_of_lookup found)
  | none =>
      exact stepIsLocal.lookup_foldl_of_not_mem source.entries map (key_ne_of_lookup_none found)

/-- `for key in keys { if accepted(key) { map.entry(key)... } }` over distinct
keys. -/
theorem lookup_foldl_upsert_keys_if {keys : List α} (distinct : keys.Nodup) (accepted : α → Bool)
    (update : α → Option V → V) (map : AList fun _ : α => V) (key : α) :
    (keys.foldl (fun map key => if accepted key then map.upsert key (update key) else map)
        map).lookup key =
      if key ∈ keys ∧ accepted key = true then some (update key (map.lookup key))
      else map.lookup key := by
  have stepIsLocal := localStep_upsert_if (fun key : α => key) accepted update
  by_cases member : key ∈ keys
  · rw [stepIsLocal.lookup_foldl_of_mem keys (by simpa using distinct) map member]
    by_cases isAccepted : accepted key = true <;> simp [member, isAccepted]
  · have untouched : ∀ other ∈ keys, other ≠ key := fun other otherMember same =>
      member (same ▸ otherMember)
    rw [stepIsLocal.lookup_foldl_of_not_mem keys map untouched]
    simp [member]

end Loops

end AList
