import Mathlib

/-!
# Key-value maps as partial functions

A storage map of a runtime module, or an external key-value store, is read
through three questions: is there a value at a key, what is it, and what does
a read return when there is none.  This module models such a map as a
partial function `key → Option value` with the operations the storage
layers use:

* `contains`, the existence test;
* `get`, the read that falls back to the type's default value;
* `insert` and `remove`, the two writes.

Every operation comes with the lemmas that evaluate its lookups and reads at
the written key and at any other key, so that later proofs never unfold the
operations.
-/

universe u v

/-- A finite map seen through its lookups: `none` is an absent key. -/
def KVMap (key : Type u) (value : Type v) : Type (max u v) :=
  key → Option value

namespace KVMap

variable {key : Type u} {value : Type v}

/-- The map with no entries. -/
def empty : KVMap key value := fun _ => none

/-- The lookup of a key. -/
def lookup (entries : KVMap key value) (tested : key) : Option value :=
  entries tested

/-- Whether a value is stored at the key. -/
def contains (entries : KVMap key value) (tested : key) : Bool :=
  (entries tested).isSome

/-- The stored value, or the default value of its type when the key is
absent. -/
def get [Inhabited value] (entries : KVMap key value) (tested : key) : value :=
  (entries tested).getD default

@[simp]
theorem lookup_empty (tested : key) :
    lookup (empty : KVMap key value) tested = none := rfl

/-- Existence is the lookup being defined. -/
theorem contains_iff (entries : KVMap key value) (tested : key) :
    contains entries tested = true ↔ ∃ stored, lookup entries tested = some stored := by
  simp [contains, lookup, Option.isSome_iff_exists]

theorem contains_eq_isSome (entries : KVMap key value) (tested : key) :
    contains entries tested = (lookup entries tested).isSome := rfl

/-- A present key is read back exactly. -/
theorem get_of_lookup [Inhabited value] {entries : KVMap key value} {tested : key}
    {stored : value} (found : lookup entries tested = some stored) :
    get entries tested = stored := by
  simp only [lookup] at found
  simp [get, found]

/-- An absent key reads as the default value. -/
theorem get_of_lookup_none [Inhabited value] {entries : KVMap key value}
    {tested : key} (absent : lookup entries tested = none) :
    get entries tested = default := by
  simp only [lookup] at absent
  simp [get, absent]

theorem contains_of_lookup {entries : KVMap key value} {tested : key} {stored : value}
    (found : lookup entries tested = some stored) : contains entries tested = true := by
  rw [contains_eq_isSome, found, Option.isSome_some]

theorem contains_of_lookup_none {entries : KVMap key value} {tested : key}
    (absent : lookup entries tested = none) : contains entries tested = false := by
  rw [contains_eq_isSome, absent, Option.isSome_none]

section Writes

variable [DecidableEq key]

/-- Store a value at a key, replacing any previous value. -/
def insert (entries : KVMap key value) (written : key) (stored : value) :
    KVMap key value :=
  fun tested => if tested = written then some stored else entries tested

/-- Delete the value at a key, if any. -/
def remove (entries : KVMap key value) (written : key) : KVMap key value :=
  fun tested => if tested = written then none else entries tested

@[simp]
theorem lookup_insert_self (entries : KVMap key value) (written : key)
    (stored : value) :
    lookup (insert entries written stored) written = some stored := by
  simp [lookup, insert]

theorem lookup_insert_of_ne (entries : KVMap key value) {written tested : key}
    (stored : value) (different : tested ≠ written) :
    lookup (insert entries written stored) tested = lookup entries tested := by
  simp [lookup, insert, different]

theorem lookup_insert (entries : KVMap key value) (written tested : key)
    (stored : value) :
    lookup (insert entries written stored) tested =
      if tested = written then some stored else lookup entries tested := rfl

theorem contains_insert (entries : KVMap key value) (written tested : key) (stored : value) :
    contains (insert entries written stored) tested = (decide (tested = written) || contains entries tested) := by
  by_cases same : tested = written <;> simp [contains, insert, same]

@[simp]
theorem lookup_remove_self (entries : KVMap key value) (written : key) :
    lookup (remove entries written) written = none := by
  simp [lookup, remove]

theorem lookup_remove_of_ne (entries : KVMap key value) {written tested : key}
    (different : tested ≠ written) :
    lookup (remove entries written) tested = lookup entries tested := by
  simp [lookup, remove, different]

theorem lookup_remove (entries : KVMap key value) (written tested : key) :
    lookup (remove entries written) tested =
      if tested = written then none else lookup entries tested := rfl

theorem contains_remove (entries : KVMap key value) (written tested : key) :
    contains (remove entries written) tested = (!decide (tested = written) && contains entries tested) := by
  by_cases same : tested = written <;> simp [contains, remove, same]

@[simp]
theorem get_insert_self [Inhabited value] (entries : KVMap key value) (written : key)
    (stored : value) : get (insert entries written stored) written = stored := by
  simp [get, insert]

theorem get_insert_of_ne [Inhabited value] (entries : KVMap key value) {written tested : key}
    (stored : value) (different : tested ≠ written) :
    get (insert entries written stored) tested = get entries tested := by
  simp [get, insert, different]

@[simp]
theorem get_remove_self [Inhabited value] (entries : KVMap key value) (written : key) :
    get (remove entries written) written = default := by
  simp [get, remove]

theorem get_remove_of_ne [Inhabited value] (entries : KVMap key value) {written tested : key}
    (different : tested ≠ written) : get (remove entries written) tested = get entries tested := by
  simp [get, remove, different]

end Writes

end KVMap
