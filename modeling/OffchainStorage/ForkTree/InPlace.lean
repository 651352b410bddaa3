import Mathlib
import OffchainStorage.Lib.Atomic
import OffchainStorage.ForkTree.Ancestors

/-!
# The methods on `&mut self`

The methods of `ForkTree` write to `self` as they go, and an `Err` returned
by `?` leaves what was written.  Here each method is modelled that way, as a
function from the tree before the call to an `EStateM.Result` carrying the
tree at the exit: `Node::import` changes the child it walks into before a
later error can surface, and `finalize` reads the roots again after
`finalize_root`.  Each in-place method equals the functional one of
`ForkTree.Tree` with the old tree kept on error (`importInPlace_eq`,
`finalizeInPlace_eq`, ...): a node that hands the block back is unchanged,
and `finalize_root` writes nothing when it finds no root.  So every error
leaves the tree as it was.
-/

namespace OffchainStorage.Fork

variable {H N V E : Type} [DecidableEq H] [LinearOrder N] {isDescendentOf : H → H → Except E Bool}

/-! ## `Node::import` -/

mutual

/-- `Node::import` on `&mut self`: the node at the exit, also on `Err`. -/
def Node.importInPlace (isDescendentOf : H → H → Except E Bool)
    (hash : H) (number : N) (data : V) :
    Node H N V → EStateM.Result (Error E) (Node H N V) (Option (H × N × V))
  | ⟨selfHash, selfNumber, selfData, children⟩ =>
      if selfHash = hash then
        .error .duplicate ⟨selfHash, selfNumber, selfData, children⟩
      else if number ≤ selfNumber then
        .ok (some (hash, number, data)) ⟨selfHash, selfNumber, selfData, children⟩
      else
        match Node.importChildrenInPlace isDescendentOf hash number data children with
        | .error failure children => .error failure ⟨selfHash, selfNumber, selfData, children⟩
        | .ok none children => .ok none ⟨selfHash, selfNumber, selfData, children⟩
        | .ok (some (hash, number, data)) children =>
            match isDescendentOf selfHash hash with
            | .error failure => .error (.client failure) ⟨selfHash, selfNumber, selfData, children⟩
            | .ok true =>
                .ok none ⟨selfHash, selfNumber, selfData, children ++ [Node.leaf hash number data]⟩
            | .ok false => .ok (some (hash, number, data)) ⟨selfHash, selfNumber, selfData, children⟩

/-- The loop `for node in self.children.iter_mut()`: each child is changed in
place, and `?` returns with the children as they are. -/
def Node.importChildrenInPlace (isDescendentOf : H → H → Except E Bool)
    (hash : H) (number : N) (data : V) :
    List (Node H N V) → EStateM.Result (Error E) (List (Node H N V)) (Option (H × N × V))
  | [] => .ok (some (hash, number, data)) []
  | node :: rest =>
      match Node.importInPlace isDescendentOf hash number data node with
      | .error failure node => .error failure (node :: rest)
      | .ok none node => .ok none (node :: rest)
      | .ok (some (hash, number, data)) node =>
          match Node.importChildrenInPlace isDescendentOf hash number data rest with
          | .error failure rest => .error failure (node :: rest)
          | .ok result rest => .ok result (node :: rest)

end

mutual

/-- A node that hands the block back is unchanged. -/
theorem Node.import_handsBack :
    ∀ (hash : H) (number : N) (data : V) (node : Node H N V) (handed : H × N × V) (updated : Node H N V),
      node.import isDescendentOf hash number data = .ok (some handed, updated) → updated = node
  | hash, number, data, ⟨selfHash, selfNumber, selfData, children⟩, handed, updated, imports => by
      rw [Node.import] at imports
      split_ifs at imports with duplicate lower
      · cases imports
        rfl
      · -- the children are walked; only a child that takes the block changes
        split at imports
        · cases imports
        · cases imports
        · rename_i handedOn walked outcome
          have unchanged := Node.importChildren_handsBack hash number data children _ walked outcome
          subst unchanged
          split at imports
          · cases imports
          · cases imports
          · cases imports
            rfl

/-- Children that hand the block back are unchanged. -/
theorem Node.importChildren_handsBack :
    ∀ (hash : H) (number : N) (data : V) (children : List (Node H N V)) (handed : H × N × V)
      (updated : List (Node H N V)),
      Node.importChildren isDescendentOf hash number data children = .ok (some handed, updated) →
        updated = children
  | hash, number, data, [], handed, updated, imports => by
      rw [Node.importChildren] at imports
      cases imports
      rfl
  | hash, number, data, node :: rest, handed, updated, imports => by
      rw [Node.importChildren] at imports
      split at imports
      · cases imports
      · cases imports
      · rename_i handedOn walked outcome
        have unchanged := Node.import_handsBack hash number data node _ walked outcome
        subst unchanged
        split at imports
        · cases imports
        · rename_i result rest' restOutcome
          cases imports
          rw [Node.importChildren_handsBack _ _ _ rest _ _ restOutcome]

end

mutual

/-- In-place `Node::import` is the functional one with the node kept on
error: before an error only children that hand the block back were walked. -/
theorem Node.importInPlace_eq :
    ∀ (hash : H) (number : N) (data : V) (node : Node H N V),
      node.importInPlace isDescendentOf hash number data =
        Atomic.ofExcept node (node.import isDescendentOf hash number data)
  | hash, number, data, ⟨selfHash, selfNumber, selfData, children⟩ => by
      rw [Node.importInPlace, Node.import, Node.importChildrenInPlace_eq]
      split_ifs with duplicate lower
      · rfl
      · rfl
      · rcases walked : Node.importChildren isDescendentOf hash number data children with
          failure | ⟨_ | handed, updated⟩
        · rfl
        · rfl
        · -- the children handed the block back, so they are as they were
          have unchanged := Node.importChildren_handsBack hash number data children handed updated walked
          subst unchanged
          obtain ⟨handedHash, handedNumber, handedData⟩ := handed
          dsimp only [Atomic.ofExcept]
          cases isDescendentOf selfHash handedHash with
          | error => rfl
          | ok answer => cases answer <;> rfl

theorem Node.importChildrenInPlace_eq :
    ∀ (hash : H) (number : N) (data : V) (children : List (Node H N V)),
      Node.importChildrenInPlace isDescendentOf hash number data children =
        Atomic.ofExcept children (Node.importChildren isDescendentOf hash number data children)
  | hash, number, data, [] => rfl
  | hash, number, data, node :: rest => by
      rw [Node.importChildrenInPlace, Node.importChildren, Node.importInPlace_eq]
      rcases walked : Node.import isDescendentOf hash number data node with
        failure | ⟨_ | handed, updated⟩
      · rfl
      · rfl
      · have unchanged := Node.import_handsBack hash number data node handed updated walked
        subst unchanged
        obtain ⟨handedHash, handedNumber, handedData⟩ := handed
        dsimp only [Atomic.ofExcept]
        rw [Node.importChildrenInPlace_eq]
        rcases Node.importChildren isDescendentOf handedHash handedNumber handedData rest with
          failure | ⟨result, restUpdated⟩ <;> rfl

end

/-! ## The methods of `ForkTree` -/

/-- The loop `for root in self.roots.iter_mut()` of `ForkTree::import`, with
each root changed in place. -/
def ForkTree.importRootsInPlace (isDescendentOf : H → H → Except E Bool)
    (hash : H) (number : N) (data : V) :
    List (Node H N V) → EStateM.Result (Error E) (List (Node H N V)) (Option (H × N × V))
  | [] => .ok (some (hash, number, data)) []
  | root :: rest =>
      if root.hash = hash then
        .error .duplicate (root :: rest)
      else
        match root.importInPlace isDescendentOf hash number data with
        | .error failure root => .error failure (root :: rest)
        | .ok none root => .ok none (root :: rest)
        | .ok (some (hash, number, data)) root =>
            match importRootsInPlace isDescendentOf hash number data rest with
            | .error failure rest => .error failure (root :: rest)
            | .ok result rest => .ok result (root :: rest)

def ForkTree.importInPlace (tree : ForkTree H N V) (hash : H) (number : N) (data : V)
    (isDescendentOf : H → H → Except E Bool) : EStateM.Result (Error E) (ForkTree H N V) Bool :=
  if tree.belowFinalized number then
    .error .revert tree
  else
    match importRootsInPlace isDescendentOf hash number data tree.roots with
    | .error failure roots => .error failure { tree with roots := roots }
    | .ok none roots => .ok false { tree with roots := roots }
    | .ok (some (hash, number, data)) roots =>
        .ok true { tree with roots := roots ++ [Node.leaf hash number data] }

/-- `ForkTree::finalize` on `&mut self`: the check of the roots reads the tree
that `finalize_root` left. -/
def ForkTree.finalizeInPlace (tree : ForkTree H N V) (hash : H) (number : N)
    (isDescendentOf : H → H → Except E Bool) :
    EStateM.Result (Error E) (ForkTree H N V) (FinalizationResult V) :=
  if tree.belowFinalized number then
    .error .revert tree
  else
    match tree.finalizeRoot hash with
    | (some root, finalized) => .ok (.changed (some root)) finalized
    | (none, current) =>
        match checkRootsNotAncestor isDescendentOf hash number current.roots with
        | .error failure => .error failure current
        | .ok () =>
            let retain := fun (root : Node H N V) =>
              decide (root.number > number) && unwrapOrFalse (isDescendentOf hash root.hash)
            let changed := current.roots.any fun root => !retain root
            .ok (if changed then .changed none else .unchanged) ⟨current.roots.filter retain, some number⟩

/-- `ForkTree::finalize_with_ancestors` on `&mut self`: the loop walks the
roots that `finalize_root` left. -/
def ForkTree.finalizeWithAncestorsInPlace (tree : ForkTree H N V) (hash : H) (number : N)
    (isDescendentOf : H → H → Except E Bool) :
    EStateM.Result (Error E) (ForkTree H N V) (FinalizationResult V) :=
  if tree.belowFinalized number then
    .error .revert tree
  else
    match tree.finalizeRoot hash with
    | (some root, finalized) => .ok (.changed (some root)) finalized
    | (none, current) =>
        match ancestorsLoop isDescendentOf hash number current.roots 0 false with
        | .inl root => .ok (.changed (some root.data)) ⟨root.children, some root.number⟩
        | .inr (roots, changed) => .ok (if changed then .changed none else .unchanged) ⟨roots, some number⟩

/-- `ForkTree::finalize_with_descendent_if` on `&mut self`: the search loop
reads the roots, and the writes follow it. -/
def ForkTree.finalizeWithDescendentIfInPlace (tree : ForkTree H N V) (hash : H) (number : N)
    (isDescendentOf : H → H → Except E Bool) (predicate : V → Bool) :
    EStateM.Result (Error E) (ForkTree H N V) (FinalizationResult V) :=
  if tree.belowFinalized number then
    .error .revert tree
  else
    match findPosition isDescendentOf hash number predicate tree.roots 0 with
    | .error failure => .error failure tree
    | .ok position =>
        let opened := tree.openRoot position
        let retain := fun (root : Node H N V) =>
          (decide (root.number > number) && unwrapOrFalse (isDescendentOf hash root.hash)) ||
            (decide (root.number = number) && decide (root.hash = hash)) ||
            unwrapOrFalse (isDescendentOf root.hash hash)
        let changed := opened.2.roots.any fun root => !retain root
        let pruned : ForkTree H N V := ⟨opened.2.roots.filter retain, some number⟩
        match opened.1, changed with
        | some data, _ => .ok (.changed (some data)) pruned
        | none, true => .ok (.changed none) pruned
        | none, false => .ok .unchanged pruned

/-- `ForkTree::prune` on `&mut self`: `find_node_where` borrows the tree, and
the roots are replaced after it. -/
def ForkTree.pruneInPlace (tree : ForkTree H N V) (hash : H) (number : N)
    (isDescendentOf : H → H → Except E Bool) (predicate : V → Bool) :
    EStateM.Result (Error E) (ForkTree H N V) Unit :=
  match tree.findNodeWhere hash number isDescendentOf predicate with
  | .error failure => .error failure tree
  | .ok none => .ok () tree
  | .ok (some root) =>
      let children := (root.children.filter fun node =>
        (decide (node.number = number) && decide (node.hash = hash)) ||
          (decide (node.number < number) && unwrapOrFalse (isDescendentOf node.hash hash))).take 1
      .ok () { tree with roots := [{ root with children := children }] }

/-! ## Refinement of the functional model -/

theorem ForkTree.importRootsInPlace_eq (hash : H) (number : N) (data : V) :
    ∀ roots : List (Node H N V), ForkTree.importRootsInPlace isDescendentOf hash number data roots =
      Atomic.ofExcept roots (ForkTree.importRoots isDescendentOf hash number data roots) := by
  intro roots
  -- the block handed back by a root goes on to the rest of the roots
  induction roots generalizing hash number data with
  | nil => rfl
  | cons root rest ih =>
    rw [ForkTree.importRootsInPlace, ForkTree.importRoots]
    split_ifs with duplicate
    · rfl
    · rw [Node.importInPlace_eq]
      rcases walked : root.import isDescendentOf hash number data with failure | ⟨_ | handed, updated⟩
      · rfl
      · rfl
      · -- a root that hands the block back is unchanged
        have unchanged := Node.import_handsBack hash number data root handed updated walked
        subst unchanged
        obtain ⟨handedHash, handedNumber, handedData⟩ := handed
        dsimp only [Atomic.ofExcept]
        rw [ih handedHash handedNumber handedData]
        rcases ForkTree.importRoots isDescendentOf handedHash handedNumber handedData rest with
          failure | ⟨result, restUpdated⟩ <;> rfl

theorem ForkTree.importInPlace_eq (tree : ForkTree H N V) (hash : H) (number : N) (data : V) :
    tree.importInPlace hash number data isDescendentOf =
      Atomic.ofExcept tree (tree.import hash number data isDescendentOf) := by
  rw [ForkTree.importInPlace, ForkTree.import, ForkTree.importRootsInPlace_eq]
  split_ifs with below
  · rfl
  · rcases ForkTree.importRoots isDescendentOf hash number data tree.roots with
      failure | ⟨_ | ⟨handedHash, handedNumber, handedData⟩, roots⟩ <;> rfl

omit [DecidableEq H] [LinearOrder N] in
/-- `finalize_root` that finds no root writes nothing. -/
theorem ForkTree.finalizeRoot_none [DecidableEq H] {tree current : ForkTree H N V} {hash : H}
    (finalizes : tree.finalizeRoot hash = (none, current)) : current = tree := by
  rcases ForkTree.finalizeRoot_cases tree hash with ⟨-, notRoot⟩ | ⟨root, -, -, finalizesRoot⟩
  · rw [notRoot] at finalizes
    cases finalizes
    rfl
  · rw [finalizesRoot] at finalizes
    cases finalizes

theorem ForkTree.finalizeInPlace_eq (tree : ForkTree H N V) (hash : H) (number : N) :
    tree.finalizeInPlace hash number isDescendentOf =
      Atomic.ofExcept tree (tree.finalize hash number isDescendentOf) := by
  rw [ForkTree.finalizeInPlace, ForkTree.finalize]
  split_ifs with below
  · rfl
  · rcases finalizes : tree.finalizeRoot hash with ⟨_ | root, current⟩
    · -- the check reads the roots `finalize_root` left, which are the old ones
      rw [ForkTree.finalizeRoot_none finalizes]
      dsimp only
      rcases ForkTree.checkRootsNotAncestor isDescendentOf hash number tree.roots with failure | ⟨⟩ <;> rfl
    · rfl

theorem ForkTree.finalizeWithAncestorsInPlace_eq (tree : ForkTree H N V) (hash : H) (number : N) :
    tree.finalizeWithAncestorsInPlace hash number isDescendentOf =
      Atomic.ofExcept tree (tree.finalizeWithAncestors hash number isDescendentOf) := by
  rw [ForkTree.finalizeWithAncestorsInPlace, ForkTree.finalizeWithAncestors]
  split_ifs with below
  · rfl
  · rcases finalizes : tree.finalizeRoot hash with ⟨_ | root, current⟩
    · rw [ForkTree.finalizeRoot_none finalizes]
      dsimp only
      rcases ForkTree.ancestorsLoop isDescendentOf hash number tree.roots 0 false with
        root | ⟨roots, changed⟩ <;> rfl
    · rfl

theorem ForkTree.finalizeWithDescendentIfInPlace_eq (tree : ForkTree H N V) (hash : H) (number : N)
    (predicate : V → Bool) :
    tree.finalizeWithDescendentIfInPlace hash number isDescendentOf predicate =
      Atomic.ofExcept tree (tree.finalizeWithDescendentIf hash number isDescendentOf predicate) := by
  rw [ForkTree.finalizeWithDescendentIfInPlace, ForkTree.finalizeWithDescendentIf]
  split_ifs with below
  · rfl
  · rcases ForkTree.findPosition isDescendentOf hash number predicate tree.roots 0 with failure | position
    · rfl
    · dsimp only
      -- the functional side matches on the same answers; where the two
      -- matches share their matcher, `split` splits both at once
      split <;> simp only [*, Atomic.ofExcept_ok]

theorem ForkTree.pruneInPlace_eq (tree : ForkTree H N V) (hash : H) (number : N) (predicate : V → Bool) :
    tree.pruneInPlace hash number isDescendentOf predicate =
      Atomic.ofExcept tree ((tree.prune hash number isDescendentOf predicate).map fun pruned => ((), pruned)) := by
  rw [ForkTree.pruneInPlace, ForkTree.prune]
  rcases tree.findNodeWhere hash number isDescendentOf predicate with failure | _ | root <;> rfl

/-- For every client, also one that fails at any call, an `Err` of `import`,
`finalize`, `finalize_with_ancestors`, `finalize_with_descendent_if` or
`prune` leaves the roots and the best finalized number as they were. -/
theorem inPlace_fails_atomically (tree : ForkTree H N V) (isDescendentOf : H → H → Except E Bool)
    (hash : H) (number : N) (data : V) (predicate : V → Bool) :
    Atomic.FailsAtomically tree (tree.importInPlace hash number data isDescendentOf) ∧
      Atomic.FailsAtomically tree (tree.finalizeInPlace hash number isDescendentOf) ∧
      Atomic.FailsAtomically tree (tree.finalizeWithAncestorsInPlace hash number isDescendentOf) ∧
      Atomic.FailsAtomically tree (tree.finalizeWithDescendentIfInPlace hash number isDescendentOf predicate) ∧
      Atomic.FailsAtomically tree (tree.pruneInPlace hash number isDescendentOf predicate) := by
  rw [ForkTree.importInPlace_eq, ForkTree.finalizeInPlace_eq, ForkTree.finalizeWithAncestorsInPlace_eq,
    ForkTree.finalizeWithDescendentIfInPlace_eq, ForkTree.pruneInPlace_eq]
  exact ⟨Atomic.failsAtomically_ofExcept _ _, Atomic.failsAtomically_ofExcept _ _,
    Atomic.failsAtomically_ofExcept _ _, Atomic.failsAtomically_ofExcept _ _, Atomic.failsAtomically_ofExcept _ _⟩

end OffchainStorage.Fork
