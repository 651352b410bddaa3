import Mathlib
import OffchainStorage.Lib.RustInt

/-!
# The size accounting of the storage cache's `LRUMap`

`LRUMap(map, used, limit)` is a linked hash map, oldest entry first, with
`used` the estimated bytes of its keys and values.  A `Vec<u8>` is estimated
by its capacity, but two vectors are equal when their bytes are, so a key
passed to `remove` can be equal to the stored one and have another size.
`remove` subtracts the size of the key it is given, and the count then drifts
from the entries, or underflows.
-/

namespace OffchainStorage.ClientDb

open RustInt

/-- `EstimateSize`. -/
class EstimateSize (α : Type) where
  estimateSize : α → Nat

open EstimateSize

/-- `Vec<u8>`: its bytes and its capacity. -/
structure Vec where
  bytes : List UInt8
  capacity : Nat
  fits : bytes.length ≤ capacity

/-- Vectors are equal when their bytes are, whatever their capacities. -/
instance : BEq Vec :=
  ⟨fun a b => a.bytes == b.bytes⟩

instance : EstimateSize Vec :=
  ⟨Vec.capacity⟩

instance : EstimateSize (Option Vec) :=
  ⟨fun value => (value.map Vec.capacity).getD 0⟩

/-- `OptionHOut`: a hash, estimated by its length. -/
structure OptionHOut where
  out : Option (List UInt8)

instance : EstimateSize OptionHOut :=
  ⟨fun value => (value.out.map List.length).getD 0⟩

instance {α : Type} [EstimateSize α] : EstimateSize (α × α) :=
  ⟨fun pair => estimateSize pair.1 + estimateSize pair.2⟩

/-- `LRUMap`: the entries, oldest first, the used size and the limit. -/
structure LRUMap (K V : Type) where
  entries : List (K × V)
  usedSize : Nat
  limit : Nat

namespace LRUMap

section Operations

variable {K V : Type} [BEq K] [EstimateSize K] [EstimateSize V]

/-- The entry of the linked hash map whose key equals `key`, with the entries
before and after it. -/
def locate (key : K) : List (K × V) → Option (List (K × V) × (K × V) × List (K × V))
  | [] => none
  | entry :: rest =>
    if entry.1 == key then some ([], entry, rest)
    else (locate key rest).map fun (before, found, after) => (entry :: before, found, after)

/-- `remove`: the size of the key given is subtracted, not that of the stored one. -/
def remove (key : K) (map : LRUMap K V) : Option (LRUMap K V) :=
  match locate key map.entries with
  | none => some map
  | some (before, (_, value), after) => do
    let used ← checkedSub map.usedSize (estimateSize key)
    let used ← checkedSub used (estimateSize value)
    pure { map with entries := before ++ after, usedSize := used }

/-- The eviction loop of `add`: pop the oldest entry while the size is over the limit. -/
def evict (limit : Nat) : List (K × V) → Nat → Option (List (K × V) × Nat)
  | [], used => some ([], used)
  | (key, value) :: rest, used =>
    if used > limit then do
      let used ← checkedSub used (estimateSize key)
      let used ← checkedSub used (estimateSize value)
      evict limit rest used
    else some ((key, value) :: rest, used)

/-- `add`: an occupied entry keeps its key and place and only its value is
replaced; a vacant one is pushed at the back. -/
def add (key : K) (value : V) (map : LRUMap K V) : Option (LRUMap K V) := do
  let klen := estimateSize key
  let used := map.usedSize + estimateSize value
  let (entries, used) ← match locate key map.entries with
    | some (before, (stored, old), after) => do
      let used ← checkedSub used (estimateSize old)
      pure (before ++ (stored, value) :: after, used)
    | none => pure (map.entries ++ [(key, value)], used + klen)
  let (entries, used) ← evict map.limit entries used
  pure { map with entries := entries, usedSize := used }

/-- `get`, through `get_refresh`: a found entry moves to the back. -/
def get (key : K) (map : LRUMap K V) : Option V × LRUMap K V :=
  match locate key map.entries with
  | none => (none, map)
  | some (before, (stored, value), after) => (some value, { map with entries := before ++ after ++ [(stored, value)] })

def clear (map : LRUMap K V) : LRUMap K V :=
  { map with entries := [], usedSize := 0 }

/-- The calls on an `LRUMap`. -/
inductive Operation (K V : Type) where
  | add (key : K) (value : V)
  | remove (key : K)
  | get (key : K)
  | clear

def apply : Operation K V → LRUMap K V → Option (LRUMap K V)
  | .add key value, map => map.add key value
  | .remove key, map => map.remove key
  | .get key, map => some (map.get key).2
  | .clear, map => some map.clear

def run : List (Operation K V) → LRUMap K V → Option (LRUMap K V)
  | [], map => some map
  | operation :: rest, map => (apply operation map).bind (run rest)

/-- The estimated size of the entries. -/
def totalSize (entries : List (K × V)) : Nat :=
  (entries.map fun entry => estimateSize entry.1 + estimateSize entry.2).sum

/-- The used size is the estimated size of the entries. -/
def Accounted (map : LRUMap K V) : Prop :=
  map.usedSize = totalSize map.entries

/-- The keys of `exact` have the size their content fixes: two equal ones have one size. -/
def SizedByContent (exact : K → Prop) : Prop :=
  ∀ a b, exact a → exact b → (a == b) = true → estimateSize a = estimateSize b

/-- The accounting, with every stored key in `exact`. -/
structure Tracked (exact : K → Prop) (map : LRUMap K V) : Prop where
  accounted : map.Accounted
  exactKeys : ∀ entry ∈ map.entries, exact entry.1

/-- The key an operation passes is in `exact`. -/
def Operation.Keyed (exact : K → Prop) : Operation K V → Prop
  | .add key _ => exact key
  | .remove key => exact key
  | .get _ => True
  | .clear => True

end Operations

section Sizes

variable {K V : Type} [EstimateSize K] [EstimateSize V]

@[simp]
theorem totalSize_nil : totalSize ([] : List (K × V)) = 0 :=
  rfl

@[simp]
theorem totalSize_cons (key : K) (value : V) (rest : List (K × V)) :
    totalSize ((key, value) :: rest) = estimateSize key + estimateSize value + totalSize rest := by
  simp [totalSize]

@[simp]
theorem totalSize_append (first second : List (K × V)) :
    totalSize (first ++ second) = totalSize first + totalSize second := by
  simp [totalSize]

/-- The eviction loop stops under the limit, or with no entry left. -/
theorem evict_within (limit : Nat) :
    ∀ (entries : List (K × V)) (used : Nat) {kept : List (K × V)} {left : Nat},
      evict limit entries used = some (kept, left) → left ≤ limit ∨ kept = [] := by
  intro entries
  induction entries with
  | nil =>
    intro used kept left evicted
    cases evicted
    exact Or.inr rfl
  | cons entry rest ih =>
    intro used kept left evicted
    obtain ⟨key, value⟩ := entry
    by_cases full : used > limit
    · rw [evict, if_pos full] at evicted
      obtain ⟨less, -, evicted⟩ := Option.bind_eq_some_iff.mp evicted
      obtain ⟨least, -, evicted⟩ := Option.bind_eq_some_iff.mp evicted
      exact ih least evicted
    · rw [evict, if_neg full, Option.some.injEq, Prod.mk.injEq] at evicted
      exact Or.inl (evicted.2 ▸ Nat.le_of_not_lt full)

/-- On accounted entries the eviction loop never underflows, and keeps a
suffix of the entries, accounted. -/
theorem evict_accounted (limit : Nat) :
    ∀ (entries : List (K × V)) (used : Nat), used = totalSize entries →
      ∃ kept, evict limit entries used = some (kept, totalSize kept) ∧ kept <:+ entries := by
  intro entries
  induction entries with
  | nil =>
    intro used accounted
    exact ⟨[], by rw [accounted]; rfl, List.suffix_refl []⟩
  | cons entry rest ih =>
    intro used accounted
    obtain ⟨key, value⟩ := entry
    rw [totalSize_cons] at accounted
    by_cases full : used > limit
    · obtain ⟨kept, evicted, suffix⟩ := ih (used - estimateSize key - estimateSize value) (by omega)
      refine ⟨kept, ?_, suffix.trans (List.suffix_cons _ _)⟩
      simp only [evict, if_pos full, checkedSub_of_le (show estimateSize key ≤ used by omega), Option.bind_eq_bind,
        Option.bind_some, checkedSub_of_le (show estimateSize value ≤ used - estimateSize key by omega), evicted]
    · refine ⟨(key, value) :: rest, ?_, List.suffix_refl _⟩
      rw [evict, if_neg full, totalSize_cons, accounted]

theorem evicted_within {limit : Nat} {entries : List (K × V)} {used : Nat} {next : LRUMap K V}
    (built : ((evict limit entries used).bind fun kept =>
      some { entries := kept.1, usedSize := kept.2, limit := limit }) = some next) :
    next.usedSize ≤ next.limit ∨ next.entries = [] := by
  obtain ⟨⟨kept, left⟩, evicted, built⟩ := Option.bind_eq_some_iff.mp built
  cases built
  exact evict_within limit entries used evicted

end Sizes

section Located

variable {K V : Type} [BEq K]

/-- A located entry splits the entries, and its key equals the one asked for. -/
theorem locate_eq_some {key : K} {entries : List (K × V)} :
    ∀ {before : List (K × V)} {found : K × V} {after : List (K × V)},
      locate key entries = some (before, found, after) → entries = before ++ found :: after ∧ (found.1 == key) = true := by
  induction entries with
  | nil =>
    intro before found after located
    cases located
  | cons entry rest ih =>
    intro before found after located
    by_cases same : (entry.1 == key) = true
    · rw [locate, if_pos same, Option.some.injEq] at located
      simp only [Prod.mk.injEq] at located
      obtain ⟨rfl, rfl, rfl⟩ := located
      exact ⟨rfl, same⟩
    · rw [locate, if_neg same] at located
      obtain ⟨⟨inner, innerFound, innerAfter⟩, innerLocated, shifted⟩ := Option.map_eq_some_iff.mp located
      simp only [Prod.mk.injEq] at shifted
      obtain ⟨rfl, rfl, rfl⟩ := shifted
      obtain ⟨split, matched⟩ := ih innerLocated
      exact ⟨by rw [split, List.cons_append], matched⟩

end Located

section Tracking

variable {K V : Type} [BEq K] [EstimateSize K] [EstimateSize V]

/-- `remove` of a located entry, when neither subtraction underflows. -/
theorem remove_of_le {map : LRUMap K V} {key stored : K} {value : V} {before after : List (K × V)}
    (located : locate key map.entries = some (before, (stored, value), after))
    (enough : estimateSize key + estimateSize value ≤ map.usedSize) :
    map.remove key =
      some { map with entries := before ++ after, usedSize := map.usedSize - estimateSize key - estimateSize value } := by
  simp only [remove, located, checkedSub_of_le (show estimateSize key ≤ map.usedSize by omega), Option.bind_eq_bind,
    Option.bind_some, checkedSub_of_le (show estimateSize value ≤ map.usedSize - estimateSize key by omega),
    Option.pure_def]

/-- The used size of accounted entries around a located one. -/
theorem usedSize_of_located {map : LRUMap K V} (accounted : map.Accounted) {key stored : K} {value : V}
    {before after : List (K × V)} (located : locate key map.entries = some (before, (stored, value), after)) :
    map.usedSize = totalSize before + (estimateSize stored + estimateSize value) + totalSize after := by
  rw [accounted, (locate_eq_some located).1, totalSize_append, totalSize_cons]
  omega

/-- A `remove` whose key has the size of the stored one keeps the accounting. -/
theorem remove_tracked {exact : K → Prop} (coherent : SizedByContent exact) {map : LRUMap K V}
    (tracked : Tracked exact map) {key : K} (exactKey : exact key) :
    ∃ next, map.remove key = some next ∧ Tracked exact next := by
  cases located : locate key map.entries with
  | none => exact ⟨map, by rw [remove, located], tracked⟩
  | some split =>
    obtain ⟨before, ⟨stored, value⟩, after⟩ := split
    obtain ⟨entries, matched⟩ := locate_eq_some located
    have storedExact : exact stored := tracked.exactKeys (stored, value) (by rw [entries]; simp)
    have resized : estimateSize stored = estimateSize key := coherent stored key storedExact exactKey matched
    have total := usedSize_of_located tracked.accounted located
    refine ⟨_, remove_of_le located (by omega), ⟨?_, ?_⟩⟩
    · show map.usedSize - estimateSize key - estimateSize value = totalSize (before ++ after)
      rw [totalSize_append]
      omega
    · intro entry member
      apply tracked.exactKeys
      rw [entries]
      simp only [List.mem_append, List.mem_cons] at member ⊢
      tauto

/-- An `add` keeps the accounting, whatever the size of its key. -/
theorem add_tracked {exact : K → Prop} {map : LRUMap K V} (tracked : Tracked exact map) {key : K}
    (exactKey : exact key) (value : V) :
    ∃ next, map.add key value = some next ∧ Tracked exact next := by
  have used := tracked.accounted
  cases located : locate key map.entries with
  | none =>
    have total : map.usedSize + estimateSize value + estimateSize key = totalSize (map.entries ++ [(key, value)]) := by
      rw [totalSize_append, totalSize_cons, totalSize_nil, ← used]
      omega
    obtain ⟨kept, evicted, suffix⟩ := evict_accounted map.limit _ _ total
    refine ⟨{ map with entries := kept, usedSize := totalSize kept }, ?_, ⟨rfl, ?_⟩⟩
    · simp only [add, located, Option.pure_def, Option.bind_eq_bind, Option.bind_some, evicted]
    · intro entry member
      rcases List.mem_append.mp (suffix.subset member) with stored | pushed
      · exact tracked.exactKeys entry stored
      · rw [List.mem_singleton.mp pushed]
        exact exactKey
  | some split =>
    obtain ⟨before, ⟨stored, old⟩, after⟩ := split
    have entries := (locate_eq_some located).1
    have total := usedSize_of_located used located
    -- the stored key stays, with the new value in the old one's place
    have replaced : map.usedSize + estimateSize value - estimateSize old =
        totalSize (before ++ (stored, value) :: after) := by
      rw [totalSize_append, totalSize_cons]
      omega
    obtain ⟨kept, evicted, suffix⟩ := evict_accounted map.limit _ _ replaced
    refine ⟨{ map with entries := kept, usedSize := totalSize kept }, ?_, ⟨rfl, ?_⟩⟩
    · simp only [add, located, checkedSub_of_le (show estimateSize old ≤ map.usedSize + estimateSize value by omega),
        Option.pure_def, Option.bind_eq_bind, Option.bind_some, evicted]
    · intro entry member
      have kept := suffix.subset member
      simp only [List.mem_append, List.mem_cons] at kept
      rcases kept with earlier | rfl | later
      · exact tracked.exactKeys entry (by rw [entries]; exact List.mem_append_left _ earlier)
      · exact tracked.exactKeys (stored, old) (by rw [entries]; simp)
      · exact tracked.exactKeys entry (by rw [entries]; simp [later])

/-- Whenever `add` returns, the used size is within the limit or the map is empty. -/
theorem add_within {map next : LRUMap K V} {key : K} {value : V} (added : map.add key value = some next) :
    next.usedSize ≤ next.limit ∨ next.entries = [] := by
  cases located : locate key map.entries with
  | none =>
    simp only [add, located, Option.pure_def, Option.bind_eq_bind, Option.bind_some] at added
    exact evicted_within added
  | some split =>
    obtain ⟨before, ⟨stored, old⟩, after⟩ := split
    simp only [add, located, Option.pure_def, Option.bind_eq_bind] at added
    obtain ⟨used, -, added⟩ := Option.bind_eq_some_iff.mp added
    rw [Option.bind_some] at added
    exact evicted_within added

theorem get_tracked {exact : K → Prop} {map : LRUMap K V} (tracked : Tracked exact map) (key : K) :
    Tracked exact (map.get key).2 := by
  cases located : locate key map.entries with
  | none =>
    rw [get, located]
    exact tracked
  | some split =>
    obtain ⟨before, ⟨stored, value⟩, after⟩ := split
    have entries := (locate_eq_some located).1
    have total := usedSize_of_located tracked.accounted located
    rw [get, located]
    constructor
    · show _ = totalSize (before ++ after ++ [(stored, value)])
      simp only [totalSize_append, totalSize_cons, totalSize_nil]
      omega
    · intro entry member
      apply tracked.exactKeys
      rw [entries]
      simp only [List.mem_append, List.mem_cons] at member ⊢
      tauto

theorem apply_tracked {exact : K → Prop} (coherent : SizedByContent exact) {map : LRUMap K V}
    (tracked : Tracked exact map) {operation : Operation K V} (keyed : operation.Keyed exact) :
    ∃ next, apply operation map = some next ∧ Tracked exact next := by
  cases operation with
  | add key value => exact add_tracked tracked keyed value
  | remove key => exact remove_tracked coherent tracked keyed
  | get key => exact ⟨_, rfl, get_tracked tracked key⟩
  | clear => exact ⟨_, rfl, ⟨rfl, by simp [clear]⟩⟩

/-- Over every run whose keys have the size their content fixes, no
subtraction underflows and the used size stays the size of the entries. -/
theorem run_tracked {exact : K → Prop} (coherent : SizedByContent exact) :
    ∀ (operations : List (Operation K V)) {map : LRUMap K V}, (∀ operation ∈ operations, operation.Keyed exact) →
      Tracked exact map → ∃ next, run operations map = some next ∧ Tracked exact next := by
  intro operations
  induction operations with
  | nil =>
    intro map _ tracked
    exact ⟨map, rfl, tracked⟩
  | cons operation rest ih =>
    intro map keyed tracked
    obtain ⟨after, applied, afterTracked⟩ := apply_tracked coherent tracked (keyed operation (List.mem_cons_self ..))
    obtain ⟨next, ran, nextTracked⟩ := ih (fun later member => keyed later (List.mem_cons_of_mem _ member)) afterTracked
    exact ⟨next, by rw [run, applied, Option.bind_some, ran], nextTracked⟩

/-- A vector whose capacity is its length, as a clone makes it, has the size its bytes fix. -/
theorem exactCapacity_sizedByContent : SizedByContent fun key : Vec => key.capacity = key.bytes.length := by
  intro a b exactA exactB same
  have bytes : a.bytes = b.bytes := eq_of_beq (show (a.bytes == b.bytes) = true from same)
  show a.capacity = b.capacity
  rw [exactA, exactB, bytes]

/-- Pairs of such keys, the keys of the child storage, have the size their content fixes. -/
theorem pair_sizedByContent {α : Type} [BEq α] [EstimateSize α] {exact : α → Prop} (coherent : SizedByContent exact) :
    SizedByContent fun key : α × α => exact key.1 ∧ exact key.2 := by
  rintro ⟨a, b⟩ ⟨c, d⟩ ⟨exactA, exactB⟩ ⟨exactC, exactD⟩ same
  have both : (a == c && b == d) = true := same
  rw [Bool.and_eq_true] at both
  show estimateSize a + estimateSize b = estimateSize c + estimateSize d
  rw [coherent a c exactA exactC both.1, coherent b d exactB exactD both.2]

/-- A `remove` by a key equal to the stored one but of another size underflows,
or leaves a used size that is not the size of the entries. -/
theorem remove_by_resized_key_breaks_accounting {map : LRUMap K V} (accounted : map.Accounted) {key stored : K}
    {value : V} {before after : List (K × V)} (located : locate key map.entries = some (before, (stored, value), after))
    (resized : estimateSize key ≠ estimateSize stored) :
    map.remove key = none ∨ ∃ next, map.remove key = some next ∧ ¬ next.Accounted := by
  have total := usedSize_of_located accounted located
  by_cases enough : estimateSize key + estimateSize value ≤ map.usedSize
  · right
    refine ⟨_, remove_of_le located enough, ?_⟩
    intro balanced
    have balanced : map.usedSize - estimateSize key - estimateSize value = totalSize (before ++ after) := balanced
    rw [totalSize_append] at balanced
    omega
  · left
    by_cases first : estimateSize key ≤ map.usedSize
    · simp only [remove, located, checkedSub_of_le first, Option.bind_eq_bind, Option.bind_some,
        checkedSub_of_lt (show map.usedSize - estimateSize key < estimateSize value by omega), Option.bind_none]
    · simp only [remove, located, checkedSub_of_lt (show map.usedSize < estimateSize key by omega),
        Option.bind_eq_bind, Option.bind_none]

theorem remove_by_resized_key_breaks_accounting_at_capacity_ten :
    (⟨[((⟨[1], 1, by decide⟩ : Vec), (none : Option Vec))], 1, 100⟩ : LRUMap Vec (Option Vec)).Accounted ∧
      locate (⟨[1], 10, by decide⟩ : Vec) [((⟨[1], 1, by decide⟩ : Vec), (none : Option Vec))] =
        some ([], (⟨[1], 1, by decide⟩, none), []) ∧
      estimateSize (⟨[1], 10, by decide⟩ : Vec) ≠ estimateSize (⟨[1], 1, by decide⟩ : Vec) ∧
      ((⟨[((⟨[1], 1, by decide⟩ : Vec), (none : Option Vec))], 1, 100⟩ : LRUMap Vec (Option Vec)).remove
          (⟨[1], 10, by decide⟩ : Vec) = none ∨
        ∃ next, (⟨[((⟨[1], 1, by decide⟩ : Vec), (none : Option Vec))], 1, 100⟩ : LRUMap Vec (Option Vec)).remove
          (⟨[1], 10, by decide⟩ : Vec) = some next ∧ ¬ next.Accounted) :=
  ⟨rfl, rfl, by decide,
    remove_by_resized_key_breaks_accounting (by exact rfl) (by exact rfl) (by decide)⟩

-- a clone of capacity one is stored, and the removal by a key of capacity ten underflows
example : (run [.add (⟨[1], 1, by decide⟩ : Vec) (none : Option Vec), .remove ⟨[1], 10, by decide⟩]
    ⟨[], 0, 100⟩).isNone = true := by
  decide

-- the other way round the used size stays at nine bytes with no entry left
example : ((run [.add (⟨[1], 10, by decide⟩ : Vec) (none : Option Vec), .remove ⟨[1], 1, by decide⟩]
    ⟨[], 0, 100⟩).map fun map => (map.usedSize, map.entries.length)) = some (9, 0) := by
  decide

end Tracking

end LRUMap

end OffchainStorage.ClientDb
