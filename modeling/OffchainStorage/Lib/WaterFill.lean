import Mathlib

/-!
# Pouring a budget over sorted levels

A budget poured over containers filled to levels `t₀ ≤ t₁ ≤ …` raises the
lowest of them to one common level.  A greedy pass decides how many: it
takes the levels in order and stops at the first one that the budget,
spread over the levels before it, cannot reach, the first `t` with
`budget + t₀ + … + t_{i-1} < t * i`.

`Reached budget filled` is what that pass keeps for the levels it has
taken: each of them, times their number, is at most the budget plus their
sum (`Reached.push` is one more level).  From it every filled level lies at
or below the common level `(budget + sum) / count` (`Reached.le_level`), the
level that stopped the pass lies above it (`level_lt_of_beyond`), and the
amounts poured to raise the filled levels to it fall short of the budget by
less than their number (`Reached.sum_raise_le`, `Reached.budget_lt_sum_raise`).
-/

namespace WaterFill

/-- The common level the budget raises the `filled` levels to. -/
def level (budget : Nat) (filled : List Nat) : Nat :=
  (budget + filled.sum) / filled.length

/-- Every filled level is within reach: the budget and the filled levels
together could lift all of them to it. -/
def Reached (budget : Nat) (filled : List Nat) : Prop :=
  ∀ t ∈ filled, t * filled.length ≤ budget + filled.sum

theorem reached_nil (budget : Nat) : Reached budget [] := by
  intro t member
  cases member

/-- One more level, at least every filled one, that the budget reaches over
the filled ones. -/
theorem Reached.push {budget next : Nat} {filled : List Nat} (reached : Reached budget filled)
    (above : ∀ t ∈ filled, t ≤ next) (fits : next * filled.length ≤ budget + filled.sum) :
    Reached budget (filled ++ [next]) := by
  intro t member
  rw [List.length_append, List.length_singleton, List.sum_append, List.sum_singleton, Nat.mul_succ]
  rcases List.mem_append.mp member with old | new
  · -- an old level gains one more copy of itself, at most the new one
    have before := reached t old
    have lower := above t old
    omega
  · rw [List.mem_singleton.mp new]
    omega

/-- The filled levels lie at or below their common level. -/
theorem Reached.le_level {budget : Nat} {filled : List Nat} (reached : Reached budget filled) :
    ∀ t ∈ filled, t ≤ level budget filled := by
  intro t member
  have nonempty : 0 < filled.length := List.length_pos_of_mem member
  exact (Nat.le_div_iff_mul_le nonempty).mpr (reached t member)

/-- The level that stops the pass lies above the common level of those
before it. -/
theorem level_lt_of_beyond {budget next : Nat} {filled : List Nat} (nonempty : filled ≠ [])
    (beyond : budget + filled.sum < next * filled.length) : level budget filled < next :=
  (Nat.div_lt_iff_lt_mul (List.length_pos_of_ne_nil nonempty)).mpr beyond

/-- Raising levels at or below `target` to it pours `target` for each of them,
less what they held. -/
theorem sum_raise_add_sum {target : Nat} {filled : List Nat} (below : ∀ t ∈ filled, t ≤ target) :
    (filled.map (target - ·)).sum + filled.sum = target * filled.length := by
  induction filled with
  | nil => simp
  | cons t rest ih =>
    have restBelow : ∀ u ∈ rest, u ≤ target := fun u member => below u (List.mem_cons_of_mem t member)
    have tBelow := below t List.mem_cons_self
    rw [List.map_cons, List.sum_cons, List.sum_cons, List.length_cons, Nat.mul_succ, ← ih restBelow]
    omega

/-- The poured amounts do not exceed the budget. -/
theorem Reached.sum_raise_le {budget : Nat} {filled : List Nat} (reached : Reached budget filled) :
    (filled.map (level budget filled - ·)).sum ≤ budget := by
  have poured := sum_raise_add_sum reached.le_level
  have rounded : level budget filled * filled.length ≤ budget + filled.sum := Nat.div_mul_le_self _ _
  omega

/-- They fall short of the budget by less than the number of filled levels:
the remainder of the division. -/
theorem Reached.budget_lt_sum_raise {budget : Nat} {filled : List Nat} (reached : Reached budget filled)
    (nonempty : filled ≠ []) : budget < (filled.map (level budget filled - ·)).sum + filled.length := by
  have poured := sum_raise_add_sum reached.le_level
  have rounded : budget + filled.sum < level budget filled * filled.length + filled.length :=
    Nat.lt_div_mul_add (List.length_pos_of_ne_nil nonempty)
  omega

end WaterFill
