import Mathlib

/-!
# The neighbours of an element in a list

A list without duplicates, read as a doubly linked list: `after l x` is the
element that follows `x` and `before l x` the one that precedes it, `none` at
the ends and for an element not in the list.  A linked structure is edited in
two ways, by putting an element in front and by cutting one out, and the
lemmas here say how both neighbours change under each:

* `after_cons_of_ne`, `before_cons` and the `_self` lemmas, for an element
  put in front;
* `after_erase_of_ne`, `before_erase_of_ne` and `head?_erase`, for an
  element cut out, whose neighbours are joined;
* `before_eq_some_iff_after`, that the two are each other's inverse, and
  `before_eq_none_iff`, that only the first element has nothing before it;
* `after_map` and `before_map`, for the elements renamed one to one.

The lookups of an `AList` after `replace`, which Mathlib does not state, are
at the end: together with `keys_replace` they say that replacing a value
keeps the order of the keys.
-/

universe u v

namespace Neighbours

variable {α : Type u} [DecidableEq α]

/-- The element that follows the first occurrence of `x`. -/
def after : List α → α → Option α
  | [], _ => none
  | first :: rest, x => if first = x then rest.head? else after rest x

/-- The element that precedes `x`: the one after it in the reversed list. -/
def before (l : List α) (x : α) : Option α :=
  after l.reverse x

@[simp]
theorem after_nil (x : α) : after [] x = none := rfl

@[simp]
theorem after_cons_self (first : α) (rest : List α) : after (first :: rest) first = rest.head? := by
  simp [after]

theorem after_cons_of_ne {first x : α} (rest : List α) (different : first ≠ x) :
    after (first :: rest) x = after rest x := by
  simp [after, different]

theorem mem_of_after_eq_some {l : List α} {x y : α} (found : after l x = some y) : x ∈ l ∧ y ∈ l := by
  induction l with
  | nil => cases found
  | cons first rest inductionHypothesis =>
    by_cases same : first = x
    · subst same
      rw [after_cons_self] at found
      exact ⟨List.mem_cons_self, List.mem_cons_of_mem _ (List.mem_of_mem_head? found)⟩
    · rw [after_cons_of_ne rest same] at found
      obtain ⟨present, following⟩ := inductionHypothesis found
      exact ⟨List.mem_cons_of_mem _ present, List.mem_cons_of_mem _ following⟩

theorem after_of_not_mem {l : List α} {x : α} (absent : x ∉ l) : after l x = none := by
  cases found : after l x with
  | none => rfl
  | some y => exact absurd (mem_of_after_eq_some found).1 absent

/-- An element is not its own neighbour. -/
theorem after_ne_self {l : List α} (nodup : l.Nodup) (x : α) : after l x ≠ some x := by
  induction l with
  | nil => simp
  | cons first rest inductionHypothesis =>
    have ⟨fresh, restNodup⟩ := List.nodup_cons.mp nodup
    by_cases same : first = x
    · subst same
      rw [after_cons_self]
      exact fun found => fresh (List.mem_of_mem_head? found)
    · rw [after_cons_of_ne rest same]
      exact inductionHypothesis restNodup

theorem after_append_cons {front rest : List α} {x : α} (fresh : x ∉ front) :
    after (front ++ x :: rest) x = rest.head? := by
  induction front with
  | nil => simp
  | cons first front inductionHypothesis =>
    have different : first ≠ x := fun same => fresh (same ▸ List.mem_cons_self)
    rw [List.cons_append, after_cons_of_ne _ different]
    exact inductionHypothesis (fun present => fresh (List.mem_cons_of_mem _ present))

/-- In a list without duplicates, `y` follows `x` exactly when the list has
them side by side. -/
theorem after_eq_some_iff {l : List α} (nodup : l.Nodup) {x y : α} :
    after l x = some y ↔ ∃ front rest, l = front ++ x :: y :: rest := by
  constructor
  · intro found
    induction l with
    | nil => cases found
    | cons first rest inductionHypothesis =>
      by_cases same : first = x
      · subst same
        rw [after_cons_self] at found
        obtain ⟨tail, rfl⟩ := List.head?_eq_some_iff.mp found
        exact ⟨[], tail, rfl⟩
      · rw [after_cons_of_ne rest same] at found
        obtain ⟨front, tail, rfl⟩ := inductionHypothesis (List.nodup_cons.mp nodup).2 found
        exact ⟨first :: front, tail, rfl⟩
  · rintro ⟨front, rest, rfl⟩
    have fresh : x ∉ front := fun present =>
      List.disjoint_of_nodup_append nodup present List.mem_cons_self
    rw [after_append_cons fresh]
    rfl

theorem before_eq_some_iff {l : List α} (nodup : l.Nodup) {x y : α} :
    before l y = some x ↔ ∃ front rest, l = front ++ x :: y :: rest := by
  rw [before, after_eq_some_iff (List.nodup_reverse.mpr nodup)]
  constructor
  · rintro ⟨front, rest, reversed⟩
    refine ⟨rest.reverse, front.reverse, ?_⟩
    rw [← List.reverse_reverse l, reversed]
    simp
  · rintro ⟨front, rest, rfl⟩
    exact ⟨rest.reverse, front.reverse, by simp⟩

/-- The two neighbours are inverse: `x` precedes `y` exactly when `y`
follows `x`. -/
theorem before_eq_some_iff_after {l : List α} (nodup : l.Nodup) {x y : α} :
    before l y = some x ↔ after l x = some y := by
  rw [before_eq_some_iff nodup, after_eq_some_iff nodup]

/-- No two elements follow each other both ways. -/
theorem after_after_ne {l : List α} (nodup : l.Nodup) {x y : α} (found : after l x = some y) :
    after l y ≠ some x := by
  obtain ⟨front, rest, rfl⟩ := (after_eq_some_iff nodup).mp found
  have tail : (x :: y :: rest).Nodup := (List.nodup_append.mp nodup).2.1
  have ⟨xFresh, yFresh⟩ : x ∉ y :: rest ∧ y ∉ rest :=
    ⟨(List.nodup_cons.mp tail).1, (List.nodup_cons.mp (List.nodup_cons.mp tail).2).1⟩
  have yNotInFront : y ∉ front := fun present =>
    List.disjoint_of_nodup_append nodup present (List.mem_cons_of_mem _ List.mem_cons_self)
  have yFresh' : y ∉ front ++ [x] := by
    rw [List.mem_append, List.mem_singleton]
    rintro (present | rfl)
    · exact yNotInFront present
    · exact xFresh List.mem_cons_self
  rw [show front ++ x :: y :: rest = (front ++ [x]) ++ y :: rest by simp, after_append_cons yFresh']
  exact fun found => xFresh (List.mem_cons_of_mem _ (List.mem_of_mem_head? found))

/-! ## Putting an element in front -/

/-- The last element of a list gains the appended one as its follower, and
no other element changes. -/
theorem after_append_singleton {l : List α} {last : α} (nodup : (l ++ [last]).Nodup) (x : α) :
    after (l ++ [last]) x = if l.getLast? = some x then some last else after l x := by
  induction l with
  | nil =>
    by_cases same : last = x
    · subst same
      simp
    · simp [after_cons_of_ne _ same]
  | cons first rest inductionHypothesis =>
    have ⟨fresh, restNodup⟩ := List.nodup_cons.mp nodup
    by_cases same : first = x
    · subst same
      cases rest with
      | nil => simp
      | cons second rest =>
        have lastIsNot : (second :: rest).getLast? ≠ some first := fun found =>
          fresh (List.mem_append_left _ (List.mem_of_getLast? found))
        simp [List.getLast?_cons_cons, lastIsNot]
    · rw [List.cons_append, after_cons_of_ne _ same, inductionHypothesis restNodup,
        after_cons_of_ne _ same]
      cases rest with
      | nil => simp [same]
      | cons second rest => simp [List.getLast?_cons_cons]

@[simp]
theorem before_cons_self {first : α} {rest : List α} (fresh : first ∉ rest) :
    before (first :: rest) first = none := by
  rw [before, List.reverse_cons, after_append_cons (by simpa using fresh)]
  rfl

theorem before_cons {first : α} {rest : List α} (nodup : (first :: rest).Nodup) (x : α) :
    before (first :: rest) x = if rest.head? = some x then some first else before rest x := by
  have reversed : (rest.reverse ++ [first]).Nodup := by
    rw [← List.reverse_cons]
    exact List.nodup_reverse.mpr nodup
  rw [before, List.reverse_cons, after_append_singleton reversed, List.getLast?_reverse, before]

/-- The first element, and only it, has nothing before it. -/
theorem before_eq_none_iff {l : List α} (nodup : l.Nodup) {x : α} (present : x ∈ l) :
    before l x = none ↔ l.head? = some x := by
  induction l with
  | nil => cases present
  | cons first rest inductionHypothesis =>
    have ⟨fresh, restNodup⟩ := List.nodup_cons.mp nodup
    by_cases same : first = x
    · subst same
      simp [before_cons_self fresh]
    · have inRest : x ∈ rest := (List.mem_cons.mp present).resolve_left (Ne.symm same)
      rw [before_cons nodup, List.head?_cons]
      split_ifs with second
      · simp [same]
      · simp [inductionHypothesis restNodup inRest, second, same]

/-! ## Cutting an element out -/

/-- The first element after an erase: the follower of the erased element
when it was the first. -/
theorem head?_erase (l : List α) (erased : α) :
    (l.erase erased).head? = if l.head? = some erased then after l erased else l.head? := by
  cases l with
  | nil => simp
  | cons first rest =>
    by_cases same : first = erased
    · subst same
      simp
    · have kept : (first :: rest).erase erased = first :: rest.erase erased := by
        simp [same]
      simp [kept, same]

/-- The element before the erased one gains its follower. -/
theorem after_erase_of_ne {l : List α} (nodup : l.Nodup) {erased x : α} (different : x ≠ erased) :
    after (l.erase erased) x = if after l x = some erased then after l erased else after l x := by
  induction l with
  | nil => simp
  | cons first rest inductionHypothesis =>
    have ⟨fresh, restNodup⟩ := List.nodup_cons.mp nodup
    by_cases erasedFirst : first = erased
    · subst erasedFirst
      have notFollower : after rest x ≠ some first := fun found =>
        fresh (mem_of_after_eq_some found).2
      rw [List.erase_cons_head, after_cons_of_ne _ (Ne.symm different), if_neg notFollower]
    · have kept : (first :: rest).erase erased = first :: rest.erase erased := by
        simp [erasedFirst]
      rw [kept, after_cons_of_ne _ erasedFirst]
      by_cases xFirst : first = x
      · subst xFirst
        simp only [after_cons_self]
        exact head?_erase rest erased
      · rw [after_cons_of_ne _ xFirst, after_cons_of_ne _ xFirst]
        exact inductionHypothesis restNodup

theorem reverse_erase_of_nodup {l : List α} (nodup : l.Nodup) (erased : α) :
    (l.erase erased).reverse = l.reverse.erase erased := by
  rw [nodup.erase_eq_filter, (List.nodup_reverse.mpr nodup).erase_eq_filter, List.filter_reverse]

/-- The element after the erased one gains its predecessor. -/
theorem before_erase_of_ne {l : List α} (nodup : l.Nodup) {erased x : α} (different : x ≠ erased) :
    before (l.erase erased) x = if before l x = some erased then before l erased else before l x := by
  rw [before, reverse_erase_of_nodup nodup]
  exact after_erase_of_ne (List.nodup_reverse.mpr nodup) different

/-! ## Renaming the elements -/

section Rename

variable {β : Type v} [DecidableEq β]

/-- Renaming the elements of a list, with no two of them given one name,
renames their neighbours. -/
theorem after_map {f : α → β} {l : List α} (nodup : (l.map f).Nodup) {x : α} (present : x ∈ l) :
    after (l.map f) (f x) = (after l x).map f := by
  induction l with
  | nil => cases present
  | cons first rest inductionHypothesis =>
    rw [List.map_cons] at nodup ⊢
    obtain ⟨fresh, restNodup⟩ := List.nodup_cons.mp nodup
    by_cases same : first = x
    · subst same
      simp [List.head?_map]
    · have inRest : x ∈ rest := (List.mem_cons.mp present).resolve_left (Ne.symm same)
      have renamed : f first ≠ f x := fun equal => fresh (equal ▸ List.mem_map_of_mem inRest)
      rw [after_cons_of_ne _ renamed, after_cons_of_ne _ same, inductionHypothesis restNodup inRest]

theorem before_map {f : α → β} {l : List α} (nodup : (l.map f).Nodup) {x : α} (present : x ∈ l) :
    before (l.map f) (f x) = (before l x).map f := by
  rw [before, before, ← List.map_reverse]
  exact after_map (by rwa [List.map_reverse, List.nodup_reverse]) (List.mem_reverse.mpr present)

end Rename

end Neighbours

namespace AList

variable {α : Type u} {β : α → Type v} [DecidableEq α]

theorem dlookup_kreplace_self (a : α) (b : β a) (l : List (Sigma β)) :
    (l.kreplace a b).dlookup a = (l.dlookup a).map fun _ => b := by
  induction l with
  | nil => rfl
  | cons entry rest inductionHypothesis =>
    obtain ⟨key, value⟩ := entry
    by_cases same : a = key
    · subst same
      have replaced : List.kreplace a b (⟨a, value⟩ :: rest) = ⟨a, b⟩ :: rest :=
        List.lookmap_cons_some _ _ (by simp)
      simp [replaced, List.dlookup_cons_eq]
    · have kept : List.kreplace a b (⟨key, value⟩ :: rest) = ⟨key, value⟩ :: List.kreplace a b rest :=
        List.lookmap_cons_none _ _ (by simp [same])
      rw [kept, List.dlookup_cons_ne _ _ same, List.dlookup_cons_ne _ _ same, inductionHypothesis]

theorem dlookup_kreplace_of_ne {a other : α} (b : β a) (l : List (Sigma β)) (different : other ≠ a) :
    (l.kreplace a b).dlookup other = l.dlookup other := by
  induction l with
  | nil => rfl
  | cons entry rest inductionHypothesis =>
    obtain ⟨key, value⟩ := entry
    by_cases same : a = key
    · subst same
      have replaced : List.kreplace a b (⟨a, value⟩ :: rest) = ⟨a, b⟩ :: rest :=
        List.lookmap_cons_some _ _ (by simp)
      rw [replaced, List.dlookup_cons_ne _ _ different, List.dlookup_cons_ne _ _ different]
    · have kept : List.kreplace a b (⟨key, value⟩ :: rest) = ⟨key, value⟩ :: List.kreplace a b rest :=
        List.lookmap_cons_none _ _ (by simp [same])
      rw [kept]
      by_cases found : other = key
      · subst found
        simp [List.dlookup_cons_eq]
      · rw [List.dlookup_cons_ne _ _ found, List.dlookup_cons_ne _ _ found, inductionHypothesis]

/-- Replacing the value of a key changes its lookup only, and only when it
is present. -/
@[simp]
theorem lookup_replace_self (a : α) (b : β a) (s : AList β) :
    (s.replace a b).lookup a = (s.lookup a).map fun _ => b :=
  dlookup_kreplace_self a b s.entries

theorem lookup_replace_of_ne {a other : α} (b : β a) (s : AList β) (different : other ≠ a) :
    (s.replace a b).lookup other = s.lookup other :=
  dlookup_kreplace_of_ne b s.entries different

end AList
