import Mathlib

/-!
# Tilings of an interval by points

A point `r` with a width `w r` covers the numbers of `(r - w r, r]`.  A list
of points `Tiles w low high` when they go up from `low` to `high`, each
covering the numbers just above the one before it: every number of
`(low, high]` is covered by exactly one of them (`Tiles.covers`,
`Tiles.unique`), and the points rise strictly within the interval
(`Tiles.bounds`, `Tiles.sorted`).
-/

namespace Tiling

/-- The points cover `(low, high]`, in order and without gaps or overlaps. -/
def Tiles (width : Nat → Nat) : Nat → Nat → List Nat → Prop
  | low, high, [] => low = high
  | low, high, point :: rest => 0 < width point ∧ point = low + width point ∧ Tiles width point high rest

variable {width : Nat → Nat}

/-- A point covers `x` when `x` lies in `(point - width point, point]`. -/
def Covers (width : Nat → Nat) (point x : Nat) : Prop :=
  point - width point < x ∧ x ≤ point

@[simp]
theorem tiles_nil {low high : Nat} : Tiles width low high [] ↔ low = high :=
  Iff.rfl

@[simp]
theorem tiles_cons {low high point : Nat} {rest : List Nat} :
    Tiles width low high (point :: rest) ↔ 0 < width point ∧ point = low + width point ∧ Tiles width point high rest :=
  Iff.rfl

theorem Tiles.append {low middle high : Nat} :
    ∀ {front back : List Nat}, Tiles width low middle front → Tiles width middle high back →
      Tiles width low high (front ++ back)
  | [], _, tiled, rest => by
    rw [tiles_nil] at tiled
    subst tiled
    exact rest
  | point :: front, _, ⟨positive, placed, tiled⟩, rest => ⟨positive, placed, Tiles.append tiled rest⟩

theorem Tiles.bounds {low high : Nat} :
    ∀ {points : List Nat}, Tiles width low high points → low ≤ high ∧ ∀ point ∈ points, low < point ∧ point ≤ high
  | [], tiled => by
    rw [tiles_nil] at tiled
    simp [tiled]
  | point :: rest, ⟨positive, placed, tiled⟩ => by
    obtain ⟨ordered, within⟩ := Tiles.bounds tiled
    refine ⟨by omega, ?_⟩
    intro other member
    rcases List.mem_cons.mp member with rfl | inRest
    · omega
    · have := within other inRest
      omega

theorem Tiles.sorted {low high : Nat} :
    ∀ {points : List Nat}, Tiles width low high points → points.Pairwise (· < ·)
  | [], _ => List.Pairwise.nil
  | point :: rest, ⟨_, _, tiled⟩ => by
    refine List.Pairwise.cons (fun other member => ((Tiles.bounds tiled).2 other member).1) ?_
    exact Tiles.sorted tiled

/-- Every number of `(low, high]` is covered by one of the points, and only
those are. -/
theorem Tiles.covers {low high : Nat} :
    ∀ {points : List Nat}, Tiles width low high points →
      ∀ x, (low < x ∧ x ≤ high ↔ ∃ point ∈ points, Covers width point x)
  | [], tiled, x => by
    rw [tiles_nil] at tiled
    subst tiled
    simp only [List.not_mem_nil, false_and, exists_false, iff_false]
    omega
  | point :: rest, ⟨positive, placed, tiled⟩, x => by
    have restCovers := Tiles.covers tiled x
    have restOrdered := (Tiles.bounds tiled).1
    simp only [List.mem_cons, exists_eq_or_imp]
    rw [← restCovers, Covers]
    omega

/-- No number is covered by two points. -/
theorem Tiles.unique {low high : Nat} :
    ∀ {points : List Nat}, Tiles width low high points →
      ∀ x, ∀ first ∈ points, ∀ second ∈ points, Covers width first x → Covers width second x → first = second
  | [], _, _ => by
    intro first member
    simp at member
  | point :: rest, ⟨positive, placed, tiled⟩, x => by
    have above : ∀ other ∈ rest, Covers width other x → point < x := by
      intro other member covered
      have := (Tiles.covers tiled x).mpr ⟨other, member, covered⟩
      omega
    intro first firstMember second secondMember firstCovers secondCovers
    rcases List.mem_cons.mp firstMember with rfl | firstInRest <;>
      rcases List.mem_cons.mp secondMember with rfl | secondInRest
    · rfl
    · have := above second secondInRest secondCovers
      exact absurd firstCovers.2 (by omega)
    · have := above first firstInRest firstCovers
      exact absurd secondCovers.2 (by omega)
    · exact Tiles.unique tiled x first firstInRest second secondInRest firstCovers secondCovers

end Tiling
