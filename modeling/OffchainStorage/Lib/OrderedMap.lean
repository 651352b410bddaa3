import Mathlib

/-!
# The next key of an ordered map

A `BTreeMap` read through `range((Excluded(key), Unbounded)).next()` gives
its least key above `key`.  Over a map kept as an `AList` that is the least
of its keys above `key` (`nextAbove`, `nextEntry`), and it is characterised
by the gap it leaves: the key is above `key`, and no key of the map lies
strictly between the two.  `IsNextAbove` states that gap for any predicate on
keys, so that a lazy merge of several maps can be compared with the least
key of a merged view; `IsNextAbove.skip` moves the start of the search over
a stretch where the predicate fails.

Byte strings are ordered lexicographically by core's `List.lt`;
`byteStringOrder` makes that order a `LinearOrder` with the same `<`.  It is
scoped to this namespace, so that the byte strings of other modules keep
core's instances.
-/

namespace OrderedMap

/-- The lexicographic order of byte strings, core's `<` and `≤` on
`List UInt8`, as a linear order. -/
scoped instance byteStringOrder : LinearOrder (List UInt8) where
  le := (· ≤ ·)
  lt := (· < ·)
  le_refl := List.le_refl
  le_trans := fun _ _ _ => List.le_trans
  le_antisymm := fun _ _ => List.le_antisymm
  le_total := List.le_total
  lt_iff_le_not_ge := fun _ _ => by
    constructor
    · intro lt
      exact ⟨List.not_lt.mp (List.lt_asymm lt), fun le => le lt⟩
    · rintro ⟨-, notLe⟩
      exact Classical.not_not.mp notLe
  toDecidableLE := fun a b => inferInstanceAs (Decidable (a ≤ b))
  toDecidableLT := fun a b => inferInstanceAs (Decidable (a < b))
  compare a b := compareOfLessAndEq a b
  compare_eq_compareOfLessAndEq := fun _ _ => rfl

section Gap

variable {K : Type} [LinearOrder K] (live : K → Prop)

/-- `next` is the least key above `key` at which `live` holds. -/
def IsNextAbove (key next : K) : Prop :=
  key < next ∧ live next ∧ ∀ k, key < k → k < next → ¬ live k

/-- `live` holds at no key above `key`. -/
def NoneAbove (key : K) : Prop :=
  ∀ k, key < k → ¬ live k

/-- What a search for the least key above `key` at which `live` holds
returns: that key, or `none` when there is none. -/
def AnswersNext (key : K) : Option K → Prop
  | some next => IsNextAbove live key next
  | none => NoneAbove live key

variable {live}

@[simp] theorem answersNext_some {key next : K} :
    AnswersNext live key (some next) ↔ IsNextAbove live key next :=
  Iff.rfl

@[simp] theorem answersNext_none {key : K} : AnswersNext live key none ↔ NoneAbove live key :=
  Iff.rfl

/-- A search from `mid` answers one from `key` below it when `live` fails
from `key`, excluded, up to `mid`, included. -/
theorem IsNextAbove.skip {key mid next : K} (below : key < mid)
    (quiet : ∀ k, key < k → k ≤ mid → ¬ live k) (found : IsNextAbove live mid next) :
    IsNextAbove live key next := by
  obtain ⟨above, isLive, gap⟩ := found
  refine ⟨lt_trans below above, isLive, fun k lower upper => ?_⟩
  rcases le_or_gt k mid with early | late
  · exact quiet k lower early
  · exact gap k late upper

theorem NoneAbove.skip {key mid : K} (quiet : ∀ k, key < k → k ≤ mid → ¬ live k)
    (empty : NoneAbove live mid) : NoneAbove live key := by
  intro k lower
  rcases le_or_gt k mid with early | late
  · exact quiet k lower early
  · exact empty k late

theorem AnswersNext.skip {key mid : K} {answer : Option K} (below : key < mid)
    (quiet : ∀ k, key < k → k ≤ mid → ¬ live k) (answers : AnswersNext live mid answer) :
    AnswersNext live key answer := by
  cases answer with
  | none => exact NoneAbove.skip quiet answers
  | some next => exact IsNextAbove.skip below quiet answers

/-- An answer that is at least `bound`, or none, leaves `live` false below
`bound`. -/
theorem AnswersNext.quiet_below {key bound : K} {answer : Option K}
    (answers : AnswersNext live key answer) (atLeast : answer.all fun next => bound ≤ next) :
    ∀ k, key < k → k < bound → ¬ live k := by
  intro k lower upper
  cases answer with
  | none => exact answers k lower
  | some next =>
    have boundLe : bound ≤ next := by simpa using atLeast
    exact answers.2.2 k lower (lt_of_lt_of_le upper boundLe)

/-- An answer above `bound`, or none, leaves `live` false up to `bound`. -/
theorem AnswersNext.quiet_upTo {key bound : K} {answer : Option K}
    (answers : AnswersNext live key answer) (above : answer.all fun next => bound < next) :
    ∀ k, key < k → k ≤ bound → ¬ live k := by
  intro k lower upper
  cases answer with
  | none => exact answers k lower
  | some next =>
    have boundLt : bound < next := by simpa using above
    exact answers.2.2 k lower (lt_of_le_of_lt upper boundLt)

variable {other : K → Prop}

/-- The least key where `live` holds is the least where `live` or `other`
holds when `other` fails below it. -/
theorem IsNextAbove.or_right {key next : K} (found : IsNextAbove live key next)
    (quiet : ∀ k, key < k → k < next → ¬ other k) :
    IsNextAbove (fun k => live k ∨ other k) key next :=
  ⟨found.1, .inl found.2.1, fun k lower upper => not_or.mpr ⟨found.2.2 k lower upper, quiet k lower upper⟩⟩

theorem IsNextAbove.or_left {key next : K} (found : IsNextAbove other key next)
    (quiet : ∀ k, key < k → k < next → ¬ live k) :
    IsNextAbove (fun k => live k ∨ other k) key next :=
  ⟨found.1, .inr found.2.1, fun k lower upper => not_or.mpr ⟨quiet k lower upper, found.2.2 k lower upper⟩⟩

theorem NoneAbove.or {key : K} (empty : NoneAbove live key) (otherEmpty : NoneAbove other key) :
    NoneAbove (fun k => live k ∨ other k) key :=
  fun k lower => not_or.mpr ⟨empty k lower, otherEmpty k lower⟩

/-- A key found below `bound` is found for any predicate that agrees up to
`bound`. -/
theorem IsNextAbove.congr_below {key next bound : K}
    (agree : ∀ k, key < k → k < bound → (live k ↔ other k)) (within : next < bound)
    (found : IsNextAbove live key next) : IsNextAbove other key next := by
  obtain ⟨above, isLive, gap⟩ := found
  refine ⟨above, (agree next above within).mp isLive, fun k lower upper => ?_⟩
  exact (agree k lower (lt_trans upper within)).not.mp (gap k lower upper)

/-- Two predicates that agree above `key` have the same answers. -/
theorem AnswersNext.congr {key : K} {answer : Option K}
    (agree : ∀ k, key < k → (live k ↔ other k)) (answers : AnswersNext live key answer) :
    AnswersNext other key answer := by
  cases answer with
  | none => exact fun k lower => (agree k lower).not.mp (answers k lower)
  | some next =>
    obtain ⟨above, isLive, gap⟩ := answers
    exact ⟨above, (agree next above).mp isLive,
      fun k lower upper => (agree k lower).not.mp (gap k lower upper)⟩

end Gap

section Keys

variable {K : Type} [LinearOrder K]

/-- The least of `keys` above `key`. -/
def nextAbove (keys : List K) (key : K) : Option K :=
  (keys.filter fun k => key < k).min?

theorem nextAbove_eq_some_iff {keys : List K} {key next : K} :
    nextAbove keys key = some next ↔ next ∈ keys ∧ key < next ∧ ∀ k ∈ keys, key < k → next ≤ k := by
  simp only [nextAbove, List.min?_eq_some_iff, List.mem_filter, decide_eq_true_eq, and_imp]
  constructor
  · rintro ⟨⟨mem, above⟩, least⟩
    exact ⟨mem, above, least⟩
  · rintro ⟨mem, above, least⟩
    exact ⟨⟨mem, above⟩, least⟩

theorem nextAbove_eq_none_iff {keys : List K} {key : K} :
    nextAbove keys key = none ↔ ∀ k ∈ keys, ¬ key < k := by
  simp [nextAbove, List.filter_eq_nil_iff]

/-- Fewer keys lie above a key of the list than above any key below it: the
measure of a search that restarts from the key it found. -/
theorem length_filter_lt_of_mem {keys : List K} {key next : K} (mem : next ∈ keys)
    (above : key < next) :
    (keys.filter fun k => next < k).length < (keys.filter fun k => key < k).length := by
  induction keys with
  | nil => cases mem
  | cons head rest ih =>
    rcases List.mem_cons.mp mem with rfl | inRest
    · -- the found key counts above `key` and not above itself
      have fewer : (rest.filter fun k => next < k).length ≤ (rest.filter fun k => key < k).length :=
        List.Sublist.length_le (List.monotone_filter_right rest fun k higher => by
          rw [decide_eq_true_eq] at higher ⊢
          exact lt_trans above higher)
      simp [above]
      omega
    · have step := ih inRest
      by_cases high : next < head
      · simp [high, lt_trans above high]
        omega
      · by_cases low : key < head
        · simp [high, low]
          omega
        · simp [high, low]
          omega

end Keys

section Entries

variable {K V : Type} [LinearOrder K]

/-- `map.range((Excluded(key), Unbounded)).next()`: the entry of the least
key above `key`. -/
def nextEntry (map : AList fun _ : K => V) (key : K) : Option (K × V) :=
  (nextAbove map.keys key).bind fun k => (map.lookup k).map fun v => (k, v)

theorem nextEntry_eq_some {map : AList fun _ : K => V} {key next : K} {value : V}
    (found : nextEntry map key = some (next, value)) :
    map.lookup next = some value ∧ IsNextAbove (fun k => (map.lookup k).isSome) key next := by
  obtain ⟨k, least, entry⟩ := Option.bind_eq_some_iff.mp found
  obtain ⟨v, looked, same⟩ := Option.map_eq_some_iff.mp entry
  cases same
  obtain ⟨-, above, smallest⟩ := nextAbove_eq_some_iff.mp least
  refine ⟨looked, above, by simp [looked], fun k lower upper => ?_⟩
  -- a key of the map strictly between would be a smaller key above `key`
  intro present
  have mem : k ∈ map.keys := AList.mem_keys.mpr (AList.lookup_isSome.mp present)
  exact absurd (smallest k mem lower) (not_le.mpr upper)

theorem nextEntry_mem {map : AList fun _ : K => V} {key next : K} {value : V}
    (found : nextEntry map key = some (next, value)) : next ∈ map.keys :=
  AList.mem_keys.mpr (AList.lookup_isSome.mp (by simp [(nextEntry_eq_some found).1]))

theorem nextEntry_eq_none {map : AList fun _ : K => V} {key : K}
    (missing : nextEntry map key = none) : NoneAbove (fun k => (map.lookup k).isSome) key := by
  intro k lower present
  have mem : k ∈ map.keys := AList.mem_keys.mpr (AList.lookup_isSome.mp present)
  -- a key above `key` makes `nextAbove` find one, whose entry exists
  cases least : nextAbove map.keys key with
  | none => exact nextAbove_eq_none_iff.mp least k mem lower
  | some next =>
    obtain ⟨inMap, -, -⟩ := nextAbove_eq_some_iff.mp least
    obtain ⟨v, looked⟩ := Option.isSome_iff_exists.mp (AList.lookup_isSome.mpr (AList.mem_keys.mp inMap))
    simp [nextEntry, least, looked] at missing

end Entries

end OrderedMap
