import Mathlib

/-!
# Vector operations of the Rust standard library

The data structures under verification mutate `Vec`s with operations whose
effect on the order of the elements matters.  This module gives the ones the
models use, over lists, with the facts the proofs need:

* `swapRemove`, `Vec::swap_remove`, which moves the last element into the
  gap: the result is a permutation of the list without the removed element,
  the removed element with the result is a permutation of the list, and the
  elements before the gap stay in place;
* `binarySearchBy` and `binarySearchByKey`, the halving search of
  `<[T]>::binary_search_by`: on a vector sorted by the key, the position it
  answers (found or not) splits the vector into the elements at most the key
  and those at least the key, so `Vec::insert` there keeps the vector sorted;
* `List.modify` and `List.set`, writes through `v[i]`: a write that keeps a
  field keeps the list of that field, and setting the flag of one unflagged
  element adds it to the flagged ones;
* `List.mapM` in `Option`, `collect::<Option<Vec<_>>>()` or a loop that may
  panic: every result comes from an element, and it is defined when every
  element's is.
-/

universe u v

namespace VecOps

variable {α : Type u}

/-- `Vec::swap_remove`: remove the element at `index` and move the last
element into its place (for an index in range). -/
def swapRemove (items : List α) (index : Nat) : List α :=
  match items.getLast? with
  | none => []
  | some last =>
      if index + 1 = items.length then items.dropLast
      else items.dropLast.set index last

/-- `swap_remove` loses exactly the element at the index: up to order the
result is `eraseIdx`. -/
theorem swapRemove_perm (items : List α) {index : Nat} (valid : index < items.length) :
    (swapRemove items index).Perm (items.eraseIdx index) := by
  obtain ⟨rest, last, rfl⟩ : ∃ rest last, items = rest ++ [last] := by
    cases split : items.getLast? with
    | none =>
        simp_all
    | some last =>
        obtain ⟨rest, equality⟩ := List.getLast?_eq_some_iff.mp split
        exact ⟨rest, last, equality⟩
  simp only [List.length_append, List.length_singleton] at valid
  by_cases isLast : index = rest.length
  · subst index
    have erased : (rest ++ [last]).eraseIdx rest.length = rest := by
      rw [show rest.length = (rest ++ [last]).length - 1 by simp,
        List.eraseIdx_length_sub_one, List.dropLast_concat]
    simp [swapRemove, erased]
  · have inRest : index < rest.length := by omega
    have notLast : index + 1 ≠ rest.length + 1 := by omega
    simp only [swapRemove, List.getLast?_concat, List.length_append,
      List.length_singleton, notLast, if_false, List.dropLast_concat,
      List.eraseIdx_append_of_lt_length inRest, List.set_eq_take_append_cons_drop,
      inRest, if_true, List.eraseIdx_eq_take_drop_succ]
    exact (List.perm_middle).trans (List.perm_append_singleton _ _).symm

/-- `swap_remove` at the position `position` finds for an element of a
vector without repeats removes exactly that element. -/
theorem swapRemove_findIdx_perm [DecidableEq α] {items : List α} {element : α} {index : Nat}
    (nodup : items.Nodup) (found : items.findIdx? (· == element) = some index) :
    (swapRemove items index).Perm (items.erase element) := by
  obtain ⟨valid, atIndex, _⟩ := List.findIdx?_eq_some_iff_getElem.mp found
  have same : items[index] = element := beq_iff_eq.mp atIndex
  rw [← same, nodup.erase_getElem index valid]
  exact swapRemove_perm items valid

/-- The removed element and what `swap_remove` leaves are the list, up to
order. -/
theorem cons_swapRemove_perm (items : List α) {index : Nat} (valid : index < items.length) :
    (items[index] :: swapRemove items index).Perm items :=
  ((swapRemove_perm items valid).cons _).trans (List.getElem_cons_eraseIdx_perm valid)

/-- `swap_remove` leaves the elements before the index in place. -/
theorem take_swapRemove (items : List α) {index : Nat} (valid : index < items.length) :
    (swapRemove items index).take index = items.take index := by
  rcases List.eq_nil_or_concat items with rfl | ⟨rest, last, rfl⟩
  · simp at valid
  · rw [List.concat_eq_append] at valid ⊢
    simp only [List.length_append, List.length_singleton] at valid
    by_cases isLast : index + 1 = rest.length + 1
    · have atEnd : index = rest.length := by omega
      subst atEnd
      simp [swapRemove]
    · have inRest : index ≤ rest.length := by omega
      simp only [swapRemove, List.getLast?_concat, List.length_append, List.length_singleton, isLast,
        if_false, List.dropLast_concat, List.take_set_of_le (Nat.le_refl index),
        List.take_append_of_le_length inRest]

/-! ## `binary_search_by` and `insert` -/

/-- The halving loop of `<[T]>::binary_search_by`: `size` elements are left
from `base`, and `f` compares an element with the sought one.  The probe `mid`
is in range whenever `base + size` is. -/
def searchLoop (f : α → Ordering) (items : List α) (base size : Nat) : Nat :=
  if size > 1 then
    let half := size / 2
    let mid := base + half
    searchLoop f items (if items[mid]?.map f = some .gt then base else mid) (size - half)
  else
    base
termination_by size
decreasing_by omega

/-- `<[T]>::binary_search_by`: `Ok` with the position of an element `f` finds
equal, or `Err` with the position where the sought element belongs. -/
def binarySearchBy (items : List α) (f : α → Ordering) : Except Nat Nat :=
  if items.length = 0 then
    .error 0
  else
    let base := searchLoop f items 0 items.length
    match items[base]?.map f with
    | some .eq => .ok base
    | some .lt => .error (base + 1)
    | _ => .error base

def binarySearchByKey {β : Type v} [Ord β] (items : List α) (b : β) (f : α → β) :
    Except Nat Nat :=
  binarySearchBy items fun k => compare (f k) b

/-- `.unwrap_or_else(|i| i)` on the answer of a search: the position it names,
found or not. -/
def unwrapOrElse : Except Nat Nat → Nat
  | .ok index => index
  | .error index => index

/-- `Vec::insert` places the element before the one at the index. -/
theorem insertIdx_eq_take_append_drop (element : α) :
    ∀ (items : List α) {index : Nat}, index ≤ items.length →
      items.insertIdx index element = items.take index ++ element :: items.drop index
  | [], 0, _ => rfl
  | _ :: _, 0, _ => rfl
  | item :: rest, index + 1, inRange => by
      rw [List.insertIdx_succ_cons, insertIdx_eq_take_append_drop element rest
        (by simpa using inRange)]
      rfl

section Sorted

variable {β : Type v} [LinearOrder β] {f : α → β} {b : β} {items : List α}

theorem le_of_sorted (sorted : items.Pairwise fun x y => f x ≤ f y) {i j : Nat}
    (hi : i < items.length) (hj : j < items.length) (ordered : i ≤ j) :
    f items[i] ≤ f items[j] := by
  rcases Nat.eq_or_lt_of_le ordered with rfl | earlier
  · exact le_rfl
  · exact List.pairwise_iff_getElem.mp sorted i j hi hj earlier

/-- The elements before `index` are at most `b` and those after it above
`b`. -/
def Splits (f : α → β) (b : β) (items : List α) (low high : Nat) : Prop :=
  (∀ j (hj : j < items.length), j < low → f items[j] ≤ b) ∧
    ∀ j (hj : j < items.length), high ≤ j → b < f items[j]

/-- The loop invariant: the elements before `base` are at most the key and
those from `base + size` on above it; the loop ends on one element with the
same split around it. -/
theorem searchLoop_splits (sorted : items.Pairwise fun x y => f x ≤ f y) (base size : Nat)
    (nonempty : 0 < size) (inRange : base + size ≤ items.length)
    (splits : Splits f b items base (base + size)) :
    searchLoop (fun k => compare (f k) b) items base size < items.length ∧
      Splits f b items (searchLoop (fun k => compare (f k) b) items base size)
        (searchLoop (fun k => compare (f k) b) items base size + 1) := by
  fun_induction searchLoop (fun k => compare (f k) b) items base size with
  | case1 base size more half mid inductionHypothesis =>
      simp only [dite_eq_ite] at inductionHypothesis
      have midInRange : mid < items.length := by omega
      have probe : items[mid]?.map (fun k => compare (f k) b) =
          some (compare (f items[mid]) b) := by
        rw [List.getElem?_eq_getElem midInRange, Option.map_some]
      by_cases greater : compare (f items[mid]) b = .gt
      · -- the sought element lies before `mid`: keep `base`, halve the size
        have midAbove : b < f items[mid] := compare_gt_iff_gt.mp greater
        rw [probe, greater, if_pos rfl] at inductionHypothesis ⊢
        refine inductionHypothesis (by omega) (by omega) ⟨splits.1, fun j hj later => ?_⟩
        exact lt_of_lt_of_le midAbove (le_of_sorted sorted midInRange hj (by omega))
      · -- `mid` is at most the sought element: move `base` to it
        have midBelow : f items[mid] ≤ b := compare_le_iff_le.mp greater
        have notGreater : some (compare (f items[mid]) b) ≠ some .gt := by
          simpa using greater
        rw [probe, if_neg notGreater] at inductionHypothesis ⊢
        refine inductionHypothesis (by omega) (by omega) ⟨fun j hj earlier => ?_, ?_⟩
        · exact le_trans (le_of_sorted sorted hj midInRange (by omega)) midBelow
        · exact fun j hj later => splits.2 j hj (by omega)
  | case2 base size notMore =>
      have single : size = 1 := by omega
      subst single
      exact ⟨by omega, splits⟩

/-- A split by positions is a split of the vector into a prefix and a
suffix. -/
theorem take_drop_of_split {index : Nat}
    (below : ∀ j (hj : j < items.length), j < index → f items[j] ≤ b)
    (above : ∀ j (hj : j < items.length), index ≤ j → b ≤ f items[j]) :
    (∀ item ∈ items.take index, f item ≤ b) ∧ ∀ item ∈ items.drop index, b ≤ f item := by
  constructor
  · intro item member
    obtain ⟨j, inPrefix, rfl⟩ := List.mem_take_iff_getElem.mp member
    exact below j (by omega) (by omega)
  · intro item member
    obtain ⟨j, inSuffix, rfl⟩ := List.mem_drop_iff_getElem.mp member
    exact above (index + j) (by omega) (by omega)

/-- On a vector sorted by the key, the position a search for `b` names splits
the vector into the elements at most `b` and those at least `b`. -/
theorem binarySearchByKey_splits (sorted : items.Pairwise fun x y => f x ≤ f y) :
    unwrapOrElse (binarySearchByKey items b f) ≤ items.length ∧
      (∀ item ∈ items.take (unwrapOrElse (binarySearchByKey items b f)), f item ≤ b) ∧
      ∀ item ∈ items.drop (unwrapOrElse (binarySearchByKey items b f)), b ≤ f item := by
  unfold binarySearchByKey binarySearchBy
  split
  · rename_i empty
    rw [List.length_eq_zero_iff] at empty
    subst empty
    simp [unwrapOrElse]
  · rename_i nonempty
    -- the loop ends on one element, with the smaller ones before it and the larger after
    obtain ⟨inRange, below, above⟩ := searchLoop_splits sorted 0 items.length (by omega)
      (by omega) ⟨fun j _ before => absurd before (Nat.not_lt_zero j),
        fun j hj after => absurd hj (by omega)⟩
    generalize searchLoop (fun k => compare (f k) b) items 0 items.length = base
      at inRange below above
    dsimp only
    rw [List.getElem?_eq_getElem inRange, Option.map_some]
    cases probe : compare (f items[base]) b with
    | lt =>
        have baseBelow : f items[base] < b := compare_lt_iff_lt.mp probe
        refine ⟨inRange, take_drop_of_split (fun j hj before => ?_)
          fun j hj after => le_of_lt (above j hj after)⟩
        rcases Nat.lt_succ_iff_lt_or_eq.mp before with earlier | rfl
        · exact below j hj earlier
        · exact le_of_lt baseBelow
    | eq =>
        have found : f items[base] = b := compare_eq_iff_eq.mp probe
        refine ⟨Nat.le_of_lt inRange, take_drop_of_split below fun j hj after => ?_⟩
        rcases Nat.eq_or_lt_of_le after with rfl | later
        · exact le_of_eq found.symm
        · exact le_of_lt (above j hj later)
    | gt =>
        have baseAbove : b < f items[base] := compare_gt_iff_gt.mp probe
        refine ⟨Nat.le_of_lt inRange, take_drop_of_split below fun j hj after => ?_⟩
        rcases Nat.eq_or_lt_of_le after with rfl | later
        · exact le_of_lt baseAbove
        · exact le_of_lt (above j hj later)

/-- The loop either ends on the `base` it started from or on an element that
is not above the key: it only moves `base` onto such an element. -/
theorem searchLoop_stays_or_not_above (base size : Nat) :
    searchLoop (fun k => compare (f k) b) items base size = base ∨
      items[searchLoop (fun k => compare (f k) b) items base size]?.map
        (fun k => compare (f k) b) ≠ some .gt := by
  fun_induction searchLoop (fun k => compare (f k) b) items base size with
  | case1 base size more half mid inductionHypothesis =>
      by_cases greater : items[mid]?.map (fun k => compare (f k) b) = some .gt
      · simp only [greater, if_pos] at inductionHypothesis ⊢
        exact inductionHypothesis
      · simp only [greater, if_neg, not_false_eq_true] at inductionHypothesis ⊢
        rcases inductionHypothesis with stays | notAbove
        · exact Or.inr (stays ▸ greater)
        · exact Or.inr notAbove
  | case2 base size notMore =>
      exact Or.inl rfl

/-- On a vector sorted by the key, the search answers `Ok` exactly when an
element has the key. -/
theorem binarySearchByKey_isOk_iff (sorted : items.Pairwise fun x y => f x ≤ f y) :
    (binarySearchByKey items b f).isOk = true ↔ ∃ item ∈ items, f item = b := by
  unfold binarySearchByKey binarySearchBy
  split
  · rename_i empty
    rw [List.length_eq_zero_iff] at empty
    subst empty
    simp [Except.isOk, Except.toBool]
  · rename_i nonempty
    obtain ⟨inRange, below, above⟩ := searchLoop_splits sorted 0 items.length (by omega)
      (by omega) ⟨fun j _ before => absurd before (Nat.not_lt_zero j),
        fun j hj after => absurd hj (by omega)⟩
    have stays : searchLoop (fun k => compare (f k) b) items 0 items.length = 0 ∨
        items[searchLoop (fun k => compare (f k) b) items 0 items.length]?.map
          (fun k => compare (f k) b) ≠ some .gt :=
      searchLoop_stays_or_not_above 0 items.length
    generalize searchLoop (fun k => compare (f k) b) items 0 items.length = base
      at inRange below above stays
    -- an element with the key sits at `base`, or nowhere: those before `base`
    -- are at most the one there and those after it above the key
    have absent : (∀ j (hj : j < items.length), j < base → f items[j] ≠ b) →
        f items[base] ≠ b → ¬∃ item ∈ items, f item = b := by
      rintro before atBase ⟨item, member, found⟩
      obtain ⟨j, hj, rfl⟩ := List.getElem_of_mem member
      rcases Nat.lt_trichotomy j base with earlier | rfl | later
      · exact before j hj earlier found
      · exact atBase found
      · exact absurd found (ne_of_gt (above j hj later))
    dsimp only
    rw [List.getElem?_eq_getElem inRange, Option.map_some]
    cases probe : compare (f items[base]) b with
    | lt =>
        have baseBelow : f items[base] < b := compare_lt_iff_lt.mp probe
        refine iff_of_false (by simp [Except.isOk, Except.toBool]) (absent (fun j hj earlier => ?_)
          (ne_of_lt baseBelow))
        exact ne_of_lt (lt_of_le_of_lt (le_of_sorted sorted hj inRange (le_of_lt earlier)) baseBelow)
    | eq =>
        exact iff_of_true rfl ⟨items[base], List.getElem_mem inRange, compare_eq_iff_eq.mp probe⟩
    | gt =>
        have baseAbove : b < f items[base] := compare_gt_iff_gt.mp probe
        -- the loop never moved onto an element above the key, so it never moved
        have atStart : base = 0 := by
          rcases stays with atStart | notAbove
          · exact atStart
          · rw [List.getElem?_eq_getElem inRange, Option.map_some, probe] at notAbove
            exact absurd rfl notAbove
        refine iff_of_false (by simp [Except.isOk, Except.toBool]) (absent (fun j _ earlier => ?_)
          (ne_of_gt baseAbove))
        exact absurd earlier (by omega)

/-- Inserting an element at the position a search for its key names keeps a
vector sorted by the key. -/
theorem pairwise_insertIdx_binarySearchByKey (sorted : items.Pairwise fun x y => f x ≤ f y)
    (element : α) :
    (items.insertIdx (unwrapOrElse (binarySearchByKey items (f element) f)) element).Pairwise
      fun x y => f x ≤ f y := by
  obtain ⟨inRange, before, after⟩ := binarySearchByKey_splits (b := f element) sorted
  rw [insertIdx_eq_take_append_drop element items inRange]
  rw [← List.take_append_drop (unwrapOrElse (binarySearchByKey items (f element) f)) items]
    at sorted
  rw [List.pairwise_append] at sorted ⊢
  obtain ⟨sortedBefore, sortedAfter, across⟩ := sorted
  refine ⟨sortedBefore, List.pairwise_cons.mpr ⟨after, sortedAfter⟩, fun x xBefore y yAfter => ?_⟩
  rcases List.mem_cons.mp yAfter with rfl | yRest
  · exact before x xBefore
  · exact across x xBefore y yRest

/-! ## Iterator adapters -/

/-- `iter().take_while(|x| key(x) <= bound).filter(|x| key(x) == bound)` on a
vector sorted by the key keeps every element whose key is the bound: after the
first element beyond the bound all are beyond it. -/
theorem filter_takeWhile_of_sorted (bound : β) :
    ∀ {items : List α}, items.Pairwise (fun x y => f x ≤ f y) →
      (items.takeWhile fun item => decide (f item ≤ bound)).filter
          (fun item => decide (f item = bound)) =
        items.filter fun item => decide (f item = bound)
  | [], _ => rfl
  | item :: rest, sorted => by
      obtain ⟨itemFirst, restSorted⟩ := List.pairwise_cons.mp sorted
      by_cases within : f item ≤ bound
      · rw [List.takeWhile_cons_of_pos (by simpa using within), List.filter_cons,
          List.filter_cons, filter_takeWhile_of_sorted bound restSorted]
      · -- the first element beyond the bound ends the scan, and no later one is at the bound
        have beyond : ∀ later ∈ item :: rest, ¬decide (f later = bound) = true := by
          intro later member atBound
          rw [decide_eq_true_eq] at atBound
          rcases List.mem_cons.mp member with rfl | inRest
          · exact within (le_of_eq atBound)
          · exact within (atBound ▸ itemFirst later inRest)
        rw [List.takeWhile_cons_of_neg (by simpa using within), List.filter_nil,
          List.filter_eq_nil_iff.mpr beyond]

end Sorted

/-! ## Writes through an index -/

theorem map_modify {β : Type v} (g : α → β) {f : α → α} (preserves : ∀ x, g (f x) = g x)
    (items : List α) (index : Nat) : (items.modify index f).map g = items.map g := by
  apply List.ext_getElem (by simp)
  intro position _ _
  simp only [List.getElem_map, List.getElem_modify]
  split
  · exact preserves _
  · rfl

end VecOps
