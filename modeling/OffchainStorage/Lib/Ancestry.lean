import Mathlib

/-!
# Ancestry in a rooted tree of ranked elements

Clients of a block tree ask one question of the chain: is `base` a strict
ancestor of `block`?  The answers of a rooted tree in which every block's
number exceeds its parent's satisfy four laws, which are all the proofs over
block ancestry use:

* an ancestor has a smaller rank (so nothing is its own ancestor);
* ancestry is transitive;
* the ancestors of any element are totally ordered (the tree has no joins).

Two relations over lists of blocks follow: `InOrder`, no block comes after
one of its descendants, and `Apart`, two blocks lie on different branches.

`Ancestry.chain` is the smallest example: a single chain of numbered blocks.
-/

universe u v

/-- A strict ancestor relation of a rooted tree whose elements carry a rank
that grows from ancestor to descendant. -/
structure Ancestry (α : Type u) (ρ : Type v) [LinearOrder ρ] where
  /-- `isAncestor base block`: `base` is a strict ancestor of `block`. -/
  isAncestor : α → α → Bool
  rank : α → ρ
  rank_lt : ∀ {base block}, isAncestor base block = true → rank base < rank block
  trans : ∀ {first second third},
    isAncestor first second = true → isAncestor second third = true →
      isAncestor first third = true
  comparable : ∀ {first second block},
    isAncestor first block = true → isAncestor second block = true →
      first = second ∨ isAncestor first second = true ∨ isAncestor second first = true

namespace Ancestry

variable {α : Type u} {ρ : Type v} [LinearOrder ρ] (ancestry : Ancestry α ρ)

@[simp]
theorem isAncestor_self (element : α) : ancestry.isAncestor element element = false := by
  cases same : ancestry.isAncestor element element with
  | false => rfl
  | true => exact absurd (ancestry.rank_lt same) (lt_irrefl _)

theorem not_isAncestor_of_isAncestor {base block : α}
    (below : ancestry.isAncestor base block = true) :
    ancestry.isAncestor block base = false := by
  cases back : ancestry.isAncestor block base with
  | false => rfl
  | true =>
      have loop := ancestry.trans below back
      simp at loop

/-- Two elements that are each the block or one of its ancestors are equal
or one is an ancestor of the other. -/
theorem comparable_of_ancestorOrSelf {first second block : α}
    (firstBelow : first = block ∨ ancestry.isAncestor first block = true)
    (secondBelow : second = block ∨ ancestry.isAncestor second block = true) :
    first = second ∨ ancestry.isAncestor first second = true ∨
      ancestry.isAncestor second first = true := by
  rcases firstBelow with rfl | firstAncestor
  · rcases secondBelow with rfl | secondAncestor
    · exact Or.inl rfl
    · exact Or.inr (Or.inr secondAncestor)
  · rcases secondBelow with rfl | secondAncestor
    · exact Or.inr (Or.inl firstAncestor)
    · exact ancestry.comparable firstAncestor secondAncestor

/-- No element of the list comes after one of its descendants. -/
def InOrder (elements : List α) : Prop :=
  elements.Pairwise fun earlier later => ancestry.isAncestor later earlier = false

instance decidableInOrder (elements : List α) : Decidable (ancestry.InOrder elements) :=
  inferInstanceAs (Decidable (List.Pairwise _ _))

/-- Two elements on different branches: neither is the other or one of its
ancestors. -/
def Apart (first second : α) : Prop :=
  first ≠ second ∧ ancestry.isAncestor first second = false ∧
    ancestry.isAncestor second first = false

theorem Apart.symm {first second : α} (apart : ancestry.Apart first second) :
    ancestry.Apart second first :=
  ⟨fun same => apart.1 same.symm, apart.2.2, apart.2.1⟩

end Ancestry

/-- The chain `0 - 1 - 2 - ...`: every smaller number is an ancestor. -/
def Ancestry.chain : Ancestry Nat Nat where
  isAncestor base block := decide (base < block)
  rank block := block
  rank_lt below := by simpa using below
  trans first second := by
    simp only [decide_eq_true_eq] at first second ⊢
    omega
  comparable first second := by
    simp only [decide_eq_true_eq] at first second ⊢
    omega
