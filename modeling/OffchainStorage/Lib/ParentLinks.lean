import Mathlib

/-!
# Forests given by parent links

A store of nodes in which each node has a depth and a link to its parent: the
parent of a node of positive depth is stored one level up, and the link of a
root leads out of the store.  `Reaches ancestor node` says that `ancestor` is
`node` or is met by following links from it.

Two nodes met on one path that have the same depth are equal, so the nodes a
node reaches form a chain (`Reaches.total`).  The walks that look for the lowest
common ancestor of two nodes replace one of them by a node higher on its path,
and `Covers higher first second` is what such a replacement needs: `higher` is
on the path of `first`, and every common ancestor of `first` and `second` is
above it.  Then the lowest common ancestor does not change
(`IsLowestCommon.of_covers`).  Two steps cover: one to an ancestor still at or
below the other node's depth (`covers_of_depth_le`), and one to the parent of a
node that is not an ancestor of the other (`covers_parent`).
-/

universe u

/-- A store of nodes with a depth and a parent link each: the parent of a node
of positive depth is stored one level up, and a root's parent is not stored. -/
structure ParentLinks (α : Type u) where
  lookup : α → Option (Nat × α)
  parent_stored : ∀ {node : α} {depth : Nat} {parent : α}, lookup node = some (depth + 1, parent) →
    ∃ grandparent, lookup parent = some (depth, grandparent)
  root_parent : ∀ {node parent : α}, lookup node = some (0, parent) → lookup parent = none

namespace ParentLinks

variable {α : Type u} (links : ParentLinks α)

/-- The depth of a stored node. -/
def depth (node : α) : Nat :=
  ((links.lookup node).map Prod.fst).getD 0

/-- `Reaches ancestor node`: `ancestor` is the stored `node`, or is reached
from it by the links of nodes of positive depth. -/
inductive Reaches (links : ParentLinks α) : α → α → Prop
  | refl {node : α} {entry : Nat × α} : links.lookup node = some entry → Reaches links node node
  | parent {ancestor node : α} {depth : Nat} {parent : α} :
      links.lookup node = some (depth + 1, parent) → Reaches links ancestor parent →
        Reaches links ancestor node

/-- `common` is reached from both nodes, and every node reached from both is
reached from it. -/
structure IsLowestCommon (common first second : α) : Prop where
  left : links.Reaches common first
  right : links.Reaches common second
  lowest : ∀ other, links.Reaches other first → links.Reaches other second → links.Reaches other common

/-- `higher` is on the path of `first`, and every node reached from both
`first` and `second` is reached from `higher`. -/
structure Covers (higher first second : α) : Prop where
  reaches : links.Reaches higher first
  above : ∀ other, links.Reaches other first → links.Reaches other second → links.Reaches other higher

/-- The first `count` nodes of the path up from `node`: the node, its parent,
and so on. -/
def climb : Nat → α → List α
  | 0, _ => []
  | count + 1, node => node :: ((links.lookup node).map fun entry => climb count entry.2).getD []

variable {links}

theorem depth_eq {node : α} {depth : Nat} {parent : α} (stored : links.lookup node = some (depth, parent)) :
    links.depth node = depth := by
  rw [ParentLinks.depth, stored]
  rfl

/-! ## Paths -/

section Reaches

variable {ancestor node other : α}

theorem Reaches.stored_left (reaches : links.Reaches ancestor node) : ∃ entry, links.lookup ancestor = some entry := by
  induction reaches with
  | refl stored => exact ⟨_, stored⟩
  | parent _ _ ih => exact ih

theorem Reaches.stored_right (reaches : links.Reaches ancestor node) : ∃ entry, links.lookup node = some entry := by
  cases reaches with
  | refl stored => exact ⟨_, stored⟩
  | parent stored _ => exact ⟨_, stored⟩

theorem reaches_parent {depth : Nat} {parent : α} (stored : links.lookup node = some (depth + 1, parent)) :
    links.Reaches parent node := by
  obtain ⟨grandparent, parentStored⟩ := links.parent_stored stored
  exact .parent stored (.refl parentStored)

/-- Going up never goes deeper. -/
theorem Reaches.depth_le (reaches : links.Reaches ancestor node) : links.depth ancestor ≤ links.depth node := by
  induction reaches with
  | refl => exact le_refl _
  | parent stored _ ih =>
    obtain ⟨grandparent, parentStored⟩ := links.parent_stored stored
    rw [depth_eq stored]
    rw [depth_eq parentStored] at ih
    omega

/-- A node reached at a depth no smaller than the start is the start. -/
theorem Reaches.eq_of_depth_le (reaches : links.Reaches ancestor node)
    (deep : links.depth node ≤ links.depth ancestor) : ancestor = node := by
  cases reaches with
  | refl => rfl
  | parent stored above =>
    obtain ⟨grandparent, parentStored⟩ := links.parent_stored stored
    have higher := above.depth_le
    rw [depth_eq parentStored] at higher
    rw [depth_eq stored] at deep
    omega

/-- A node other than the start is reached through the start's parent. -/
theorem Reaches.parent_of_ne {depth : Nat} {parent : α} (reaches : links.Reaches ancestor node)
    (stored : links.lookup node = some (depth + 1, parent)) (apart : ancestor ≠ node) : links.Reaches ancestor parent := by
  cases reaches with
  | refl => exact absurd rfl apart
  | parent linked above =>
    rw [stored] at linked
    cases linked
    exact above

/-- The start of a path through another node has a positive depth and a
parent on the path. -/
theorem Reaches.exists_parent (reaches : links.Reaches ancestor node) (apart : ancestor ≠ node) :
    ∃ depth parent, links.lookup node = some (depth + 1, parent) ∧ links.Reaches ancestor parent := by
  cases reaches with
  | refl => exact absurd rfl apart
  | parent stored above => exact ⟨_, _, stored, above⟩

theorem Reaches.trans (first : links.Reaches ancestor node) (second : links.Reaches other ancestor) :
    links.Reaches other node := by
  induction first with
  | refl => exact second
  | parent stored _ ih => exact .parent stored ih

/-- The nodes reached from one node form a chain: the higher of two is reached
from the lower. -/
theorem Reaches.total (reaches : links.Reaches ancestor node) (reachesOther : links.Reaches other node)
    (higher : links.depth ancestor ≤ links.depth other) : links.Reaches ancestor other := by
  induction reaches generalizing other with
  | refl stored =>
    rw [reachesOther.eq_of_depth_le higher]
    exact .refl stored
  | @parent start depth parent stored above ih =>
    by_cases same : other = start
    · rw [same]
      exact .parent stored above
    · exact ih (reachesOther.parent_of_ne stored same) higher

/-- Two nodes of one depth on one path are the same node. -/
theorem Reaches.eq_of_depth_eq (reaches : links.Reaches ancestor node) (reachesOther : links.Reaches other node)
    (level : links.depth ancestor = links.depth other) : ancestor = other :=
  (reaches.total reachesOther (le_of_eq level)).eq_of_depth_le (le_of_eq level.symm)

theorem climb_succ {count : Nat} {entry : Nat × α} (stored : links.lookup node = some entry) :
    links.climb (count + 1) node = node :: links.climb count entry.2 := by
  rw [climb, stored, Option.map_some, Option.getD_some]

/-- The path up from `node` passes its ancestor after as many nodes as their
depths differ by. -/
theorem Reaches.climb_add (reaches : links.Reaches ancestor node) (count : Nat) :
    links.climb (links.depth node - links.depth ancestor + count) node =
      links.climb (links.depth node - links.depth ancestor) node ++ links.climb count ancestor := by
  induction reaches with
  | refl => rw [Nat.sub_self, Nat.zero_add, climb, List.nil_append]
  | @parent start depth parent stored above ih =>
    obtain ⟨grandparent, parentStored⟩ := links.parent_stored stored
    have higher := above.depth_le
    rw [depth_eq parentStored] at higher ih
    rw [depth_eq stored, show depth + 1 - links.depth ancestor + count = depth - links.depth ancestor + count + 1 by omega,
      show depth + 1 - links.depth ancestor = depth - links.depth ancestor + 1 by omega, climb_succ stored,
      climb_succ stored, ih, List.cons_append]

end Reaches

/-! ## Lowest common ancestors -/

section Lowest

variable {common first second higher : α}

theorem IsLowestCommon.symm (lowest : links.IsLowestCommon common first second) :
    links.IsLowestCommon common second first :=
  ⟨lowest.right, lowest.left, fun other reachesSecond reachesFirst => lowest.lowest other reachesFirst reachesSecond⟩

theorem isLowestCommon_self {entry : Nat × α} (stored : links.lookup first = some entry) :
    links.IsLowestCommon first first first :=
  ⟨.refl stored, .refl stored, fun _ reaches _ => reaches⟩

/-- A lowest common ancestor is unique. -/
theorem IsLowestCommon.unique {another : α} (lowest : links.IsLowestCommon common first second)
    (lowestAnother : links.IsLowestCommon another first second) : common = another := by
  have up := lowest.lowest another lowestAnother.left lowestAnother.right
  have down := lowestAnother.lowest common lowest.left lowest.right
  exact up.eq_of_depth_le down.depth_le |>.symm

theorem covers_self {entry : Nat × α} (stored : links.lookup first = some entry) : links.Covers first first second :=
  ⟨.refl stored, fun _ reaches _ => reaches⟩

theorem Covers.trans {highest : α} (lower : links.Covers higher first second)
    (upper : links.Covers highest higher second) : links.Covers highest first second :=
  ⟨lower.reaches.trans upper.reaches, fun other reachesFirst reachesSecond =>
    upper.above other (lower.above other reachesFirst reachesSecond) reachesSecond⟩

/-- A node on the path of `first` no deeper than `second` covers: every common
ancestor is at most as deep as `second`. -/
theorem covers_of_depth_le (reaches : links.Reaches higher first) (level : links.depth second ≤ links.depth higher) :
    links.Covers higher first second :=
  ⟨reaches, fun _ reachesFirst reachesSecond =>
    reachesFirst.total reaches (le_trans reachesSecond.depth_le level)⟩

/-- The node reached from `first` at the lesser of its depth and a bound no
smaller than the depth of `second` covers. -/
theorem covers_of_depth_eq_min {bound : Nat} (reaches : links.Reaches higher first)
    (level : links.depth higher = min bound (links.depth first)) (below : links.depth second ≤ bound) :
    links.Covers higher first second := by
  by_cases shallow : links.depth first ≤ bound
  · rw [reaches.eq_of_depth_le (by omega)]
    obtain ⟨entry, stored⟩ := reaches.stored_right
    exact covers_self stored
  · exact covers_of_depth_le reaches (by omega)

/-- The parent of a node that `second` does not reach covers. -/
theorem covers_parent {depth : Nat} {parent : α} (stored : links.lookup first = some (depth + 1, parent))
    (notAbove : ¬links.Reaches first second) : links.Covers parent first second :=
  ⟨reaches_parent stored, fun _ reachesFirst reachesSecond =>
    reachesFirst.parent_of_ne stored (fun same => notAbove (same ▸ reachesSecond))⟩

/-- Replacing `first` by a node that covers it keeps the lowest common
ancestor. -/
theorem IsLowestCommon.of_covers (covers : links.Covers higher first second)
    (lowest : links.IsLowestCommon common higher second) : links.IsLowestCommon common first second :=
  ⟨covers.reaches.trans lowest.left, lowest.right, fun other reachesFirst reachesSecond =>
    lowest.lowest other (covers.above other reachesFirst reachesSecond) reachesSecond⟩

end Lowest

end ParentLinks
