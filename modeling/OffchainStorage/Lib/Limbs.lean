import Mathlib

/-!
# Numbers as lists of digits

A multi-precision number keeps its digits in a vector of machine words, and
the loops of its arithmetic read and write one digit at a time.  This module
reads a list of digits in base `b`, least significant first, through
Mathlib's `Nat.ofDigits`, with what those loops need:

* writing one digit changes the value by the difference at its place
  (`ofDigits_set`);
* the digits below a place make the value modulo its power
  (`ofDigits_take_succ` adds one more digit), and digits that are zero from a
  place on add nothing (`ofDigits_eq_take_of_zero`);
* a list stored most significant first is read through its reverse: leading
  zeros add nothing (`ofDigits_reverse_replicate_append`), a nonzero leading
  digit puts the value at or above the power of its place
  (`pow_le_ofDigits_reverse_cons`), and of two lists of one length the one
  with the larger leading digit is the larger (`ofDigits_reverse_cons_lt`).
-/

namespace Limbs

variable {b : Nat}

/-- Writing `v` at place `i` takes off the digit there and adds `v`. -/
theorem ofDigits_set (b : Nat) (l : List Nat) {i : Nat} (within : i < l.length) (v : Nat) :
    Nat.ofDigits b (l.set i v) + l[i] * b ^ i = Nat.ofDigits b l + v * b ^ i := by
  induction l generalizing i with
  | nil => cases within
  | cons head tail ih =>
    cases i with
    | zero =>
      simp only [List.set_cons_zero, Nat.ofDigits_cons, List.getElem_cons_zero, pow_zero, Nat.mul_one]
      omega
    | succ i =>
      have inTail : i < tail.length := Nat.lt_of_succ_lt_succ within
      have scaled := congrArg (b * ·) (ih inTail)
      simp only [Nat.mul_add] at scaled
      simp only [List.set_cons_succ, Nat.ofDigits_cons, List.getElem_cons_succ, pow_succ]
      have regrouped : tail[i] * (b ^ i * b) = b * (tail[i] * b ^ i) := by ring
      have regroupedV : v * (b ^ i * b) = b * (v * b ^ i) := by ring
      rw [regrouped, regroupedV]
      omega

/-- The digits below place `j + 1` are those below `j` and the digit at `j`,
zero past the end of the list. -/
theorem ofDigits_take_succ (b : Nat) (l : List Nat) (j : Nat) :
    Nat.ofDigits b (l.take (j + 1)) = Nat.ofDigits b (l.take j) + l.getD j 0 * b ^ j := by
  rw [List.take_add_one, Nat.ofDigits_append]
  by_cases within : j < l.length
  · rw [List.getElem?_eq_getElem within, Option.toList_some, Nat.ofDigits_singleton,
      List.length_take_of_le (Nat.le_of_lt within), List.getD_eq_getElem _ _ within, Nat.mul_comm]
  · have past : l.length ≤ j := Nat.le_of_not_lt within
    rw [List.getElem?_eq_none past, Option.toList_none, Nat.ofDigits_nil, Nat.mul_zero,
      List.getD_eq_default _ _ past, Nat.zero_mul]

/-- Digits that are zero from place `j` on add nothing. -/
theorem ofDigits_eq_take_of_zero (b : Nat) (l : List Nat) (j : Nat)
    (zero : ∀ i, j ≤ i → l.getD i 0 = 0) : Nat.ofDigits b l = Nat.ofDigits b (l.take j) := by
  have zeros : l.drop j = List.replicate (l.drop j).length 0 := by
    refine List.eq_replicate_iff.mpr ⟨rfl, fun digit member => ?_⟩
    obtain ⟨k, within, found⟩ := List.getElem_of_mem member
    rw [List.getElem_drop] at found
    have atPlace := zero (j + k) (Nat.le_add_right j k)
    rwa [List.getD_eq_getElem _ _ (by simp at within; omega), found] at atPlace
  conv_lhs => rw [← List.take_append_drop j l, zeros]
  exact Nat.ofDigits_append_replicate_zero _

/-- The digits below a place are worth less than its power. -/
theorem ofDigits_take_lt (hb : 1 < b) {l : List Nat} (digits : ∀ d ∈ l, d < b) (j : Nat) :
    Nat.ofDigits b (l.take j) < b ^ j := by
  rw [← Nat.ofDigits_mod_pow_eq_ofDigits_take j (Nat.zero_lt_of_lt hb) l digits]
  exact Nat.mod_lt _ (Nat.pow_pos (Nat.zero_lt_of_lt hb))

/-! ## Most significant digit first -/

/-- Leading zeros of a list stored most significant first add nothing. -/
theorem ofDigits_reverse_replicate_append (b k : Nat) (l : List Nat) :
    Nat.ofDigits b (List.replicate k 0 ++ l).reverse = Nat.ofDigits b l.reverse := by
  rw [List.reverse_append, List.reverse_replicate, Nat.ofDigits_append_replicate_zero]

/-- A nonzero leading digit puts the value at or above the power of its place. -/
theorem pow_le_ofDigits_reverse_cons {d : Nat} (nonzero : d ≠ 0) (l : List Nat) :
    b ^ l.length ≤ Nat.ofDigits b (d :: l).reverse := by
  rw [Nat.ofDigits_reverse_cons]
  have atLeast : b ^ l.length ≤ b ^ l.length * d := Nat.le_mul_of_pos_right _ (Nat.pos_of_ne_zero nonzero)
  omega

/-- Of two lists of digits of one length, the one with the smaller leading
digit is the smaller. -/
theorem ofDigits_reverse_cons_lt (hb : 1 < b) {d e : Nat} {l m : List Nat} (smaller : d < e)
    (sameLength : l.length = m.length) (digits : ∀ x ∈ l, x < b) :
    Nat.ofDigits b (d :: l).reverse < Nat.ofDigits b (e :: m).reverse := by
  have below : Nat.ofDigits b l.reverse < b ^ l.length := by
    have bounded := @Nat.ofDigits_lt_base_pow_length b l.reverse hb
      (fun x member => digits x (List.mem_reverse.mp member))
    rwa [List.length_reverse] at bounded
  have stepUp : b ^ l.length * d + b ^ l.length ≤ b ^ l.length * e := by
    rw [← Nat.mul_succ]
    exact Nat.mul_le_mul_left _ smaller
  rw [Nat.ofDigits_reverse_cons, Nat.ofDigits_reverse_cons, ← sameLength]
  omega

end Limbs
