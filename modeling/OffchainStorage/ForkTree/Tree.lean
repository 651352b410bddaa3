import OffchainStorage.ForkTree.Node

/-!
# `ForkTree`

The tree is a list of roots and the number of the last finalized block.  Its
methods are modelled as functions from the tree to `Except (Error E)` of the
result and the new tree.  No method of the source writes to `self` before it
returns an error, so an erroring call leaves the tree as it was; the
operations of a run (`Operation.apply`) keep the old tree on `Err`.

Four entry points refuse a block at or below the finalized number with
`Revert`; `finalize_root` has no such guard.  The closures that call
`is_descendent_of(..).unwrap_or(false)` read a client error as `false`
(`unwrapOrFalse`); the loops that use `?` turn it into `Error::Client`.
-/

namespace OffchainStorage.Fork

structure ForkTree (H N V : Type) where
  roots : List (Node H N V)
  bestFinalizedNumber : Option N
  deriving Repr

variable {H N V E : Type} [DecidableEq H] [LinearOrder N]

def ForkTree.new : ForkTree H N V :=
  ⟨[], none⟩

/-- The `Revert` guard: the block is at or below the best finalized
number. -/
def ForkTree.belowFinalized (tree : ForkTree H N V) (number : N) : Bool :=
  match tree.bestFinalizedNumber with
  | some best => decide (number ≤ best)
  | none => false

/-- `is_descendent_of(..).unwrap_or(false)`. -/
def ForkTree.unwrapOrFalse : Except E Bool → Bool
  | .ok answer => answer
  | .error _ => false

/-- `node.hash == *hash || is_descendent_of(&node.hash, hash)?`. -/
def ForkTree.isOnBranch (isDescendentOf : H → H → Except E Bool) (hash : H)
    (node : Node H N V) : Except (Error E) Bool :=
  if node.hash = hash then
    .ok true
  else
    match isDescendentOf node.hash hash with
    | .error failure => .error (.client failure)
    | .ok answer => .ok answer

/-! ## `import` -/

/-- The loop `for root in self.roots.iter_mut()` of `ForkTree::import`: each
root is compared with the hash before its own `import` compares it again. -/
def ForkTree.importRoots (isDescendentOf : H → H → Except E Bool)
    (hash : H) (number : N) (data : V) :
    List (Node H N V) → Except (Error E) (Option (H × N × V) × List (Node H N V))
  | [] => .ok (some (hash, number, data), [])
  | root :: rest =>
      if root.hash = hash then
        .error .duplicate
      else
        match root.import isDescendentOf hash number data with
        | .error failure => .error failure
        | .ok (none, root) => .ok (none, root :: rest)
        | .ok (some (hash, number, data), root) =>
            match importRoots isDescendentOf hash number data rest with
            | .error failure => .error failure
            | .ok (result, rest) => .ok (result, root :: rest)

/-- `ForkTree::import`: `true` when the block becomes a new root. -/
def ForkTree.import (tree : ForkTree H N V) (hash : H) (number : N) (data : V)
    (isDescendentOf : H → H → Except E Bool) :
    Except (Error E) (Bool × ForkTree H N V) :=
  if tree.belowFinalized number then
    .error .revert
  else
    match importRoots isDescendentOf hash number data tree.roots with
    | .error failure => .error failure
    | .ok (none, roots) => .ok (false, { tree with roots := roots })
    | .ok (some (hash, number, data), roots) =>
        .ok (true, { tree with roots := roots ++ [Node.leaf hash number data] })

/-! ## `find_node_where` and `prune` -/

/-- The loop over the roots of `ForkTree::find_node_where`. -/
def ForkTree.findInRoots (isDescendentOf : H → H → Except E Bool)
    (hash : H) (number : N) (predicate : V → Bool) :
    List (Node H N V) → Except (Error E) (Option (Node H N V))
  | [] => .ok none
  | root :: rest =>
      match root.findNodeWhere isDescendentOf hash number predicate with
      | .error failure => .error failure
      | .ok (.found node) => .ok (some node)
      | .ok _ => findInRoots isDescendentOf hash number predicate rest

def ForkTree.findNodeWhere (tree : ForkTree H N V) (hash : H) (number : N)
    (isDescendentOf : H → H → Except E Bool) (predicate : V → Bool) :
    Except (Error E) (Option (Node H N V)) :=
  findInRoots isDescendentOf hash number predicate tree.roots

/-- `ForkTree::prune`: re-root the tree at the deepest ancestor of the block
that passes the predicate, keeping at most one child: the block itself or its
ancestor. -/
def ForkTree.prune (tree : ForkTree H N V) (hash : H) (number : N)
    (isDescendentOf : H → H → Except E Bool) (predicate : V → Bool) :
    Except (Error E) (ForkTree H N V) :=
  match tree.findNodeWhere hash number isDescendentOf predicate with
  | .error failure => .error failure
  | .ok none => .ok tree
  | .ok (some root) =>
      let children := (root.children.filter fun node =>
        (decide (node.number = number) && decide (node.hash = hash)) ||
          (decide (node.number < number) &&
            unwrapOrFalse (isDescendentOf node.hash hash))).take 1
      .ok { tree with roots := [{ root with children := children }] }

/-! ## Finalization -/

/-- `finalize_root_at`: the root's children become the roots and its number
the best finalized number (the `swap_remove` is overwritten at once). -/
def ForkTree.finalizeRootAt (tree : ForkTree H N V) (position : Fin tree.roots.length) :
    V × ForkTree H N V :=
  let node := tree.roots.get position
  (node.data, ⟨node.children, some node.number⟩)

def ForkTree.finalizeRoot (tree : ForkTree H N V) (hash : H) : Option V × ForkTree H N V :=
  match tree.roots.findFinIdx? (fun node => decide (node.hash = hash)) with
  | none => (none, tree)
  | some position =>
      let (data, finalized) := tree.finalizeRootAt position
      (some data, finalized)

/-- The loop of `finalize` refusing a block below a root:
`number > root.number && is_descendent_of(&root.hash, hash)?`. -/
def ForkTree.checkRootsNotAncestor (isDescendentOf : H → H → Except E Bool)
    (hash : H) (number : N) : List (Node H N V) → Except (Error E) Unit
  | [] => .ok ()
  | root :: rest =>
      if number > root.number then
        match isDescendentOf root.hash hash with
        | .error failure => .error (.client failure)
        | .ok true => .error .unfinalizedAncestor
        | .ok false => checkRootsNotAncestor isDescendentOf hash number rest
      else
        checkRootsNotAncestor isDescendentOf hash number rest

def ForkTree.finalize (tree : ForkTree H N V) (hash : H) (number : N)
    (isDescendentOf : H → H → Except E Bool) :
    Except (Error E) (FinalizationResult V × ForkTree H N V) :=
  if tree.belowFinalized number then
    .error .revert
  else
    match tree.finalizeRoot hash with
    | (some root, finalized) => .ok (.changed (some root), finalized)
    | (none, _) =>
        match checkRootsNotAncestor isDescendentOf hash number tree.roots with
        | .error failure => .error failure
        | .ok () =>
            let retain := fun (root : Node H N V) =>
              decide (root.number > number) &&
                unwrapOrFalse (isDescendentOf hash root.hash)
            let changed := tree.roots.any fun root => !retain root
            .ok (if changed then .changed none else .unchanged,
              ⟨tree.roots.filter retain, some number⟩)

/-- The loop of `finalize_with_ancestors`: keep the descendants of the block,
open its ancestors (their children join the roots) and drop the rest.  It
stops with the root of that very block, if it meets it. -/
def ForkTree.ancestorsLoop (isDescendentOf : H → H → Except E Bool) (hash : H) (number : N)
    (roots : List (Node H N V)) (index : Nat) (changed : Bool) :
    Node H N V ⊕ (List (Node H N V) × Bool) :=
  if valid : index < roots.length then
    let root := roots.get ⟨index, valid⟩
    let isFinalized := decide (root.hash = hash)
    let isDescendant := !isFinalized && decide (root.number > number) &&
      unwrapOrFalse (isDescendentOf hash root.hash)
    let isAncestor := !isFinalized && !isDescendant && decide (root.number < number) &&
      unwrapOrFalse (isDescendentOf root.hash hash)
    if isFinalized then
      .inl root
    else if isDescendant then
      ancestorsLoop isDescendentOf hash number roots (index + 1) changed
    else if isAncestor then
      ancestorsLoop isDescendentOf hash number
        (VecOps.swapRemove roots index ++ root.children) index true
    else
      ancestorsLoop isDescendentOf hash number (VecOps.swapRemove roots index) index true
  else
    .inr (roots, changed)
termination_by 2 * Node.forestSize roots - index
decreasing_by
  · have := Node.length_le_forestSize roots
    omega
  · have removed := Node.forestSize_swapRemove roots valid
    have bounded := Node.length_le_forestSize roots
    simp only [Node.forestSize, Node.forestNodes_append, List.length_append,
      Node.nodes_eq, List.length_cons] at removed bounded ⊢
    omega
  · have removed := Node.forestSize_swapRemove roots valid
    have bounded := Node.length_le_forestSize roots
    simp only [Node.nodes_eq, List.length_cons] at removed
    omega

def ForkTree.finalizeWithAncestors (tree : ForkTree H N V) (hash : H) (number : N)
    (isDescendentOf : H → H → Except E Bool) :
    Except (Error E) (FinalizationResult V × ForkTree H N V) :=
  if tree.belowFinalized number then
    .error .revert
  else
    match tree.finalizeRoot hash with
    | (some root, finalized) => .ok (.changed (some root), finalized)
    | (none, _) =>
        match ancestorsLoop isDescendentOf hash number tree.roots 0 false with
        | .inl root => .ok (.changed (some root.data), ⟨root.children, some root.number⟩)
        | .inr (roots, changed) =>
            .ok (if changed then .changed none else .unchanged, ⟨roots, some number⟩)

/-- The loop over the children of the node to be finalized, shared by
`finalizes_any_with_descendent_if` and `finalize_with_descendent_if`:
`node.number <= number && is_descendent_of(&node.hash, &hash)?`. -/
def ForkTree.checkChildrenNotAncestor (isDescendentOf : H → H → Except E Bool)
    (hash : H) (number : N) : List (Node H N V) → Except (Error E) Unit
  | [] => .ok ()
  | node :: rest =>
      if node.number ≤ number then
        match isDescendentOf node.hash hash with
        | .error failure => .error (.client failure)
        | .ok true => .error .unfinalizedAncestor
        | .ok false => checkChildrenNotAncestor isDescendentOf hash number rest
      else
        checkChildrenNotAncestor isDescendentOf hash number rest

/-- The loop `for node in self.node_iter()` of
`finalizes_any_with_descendent_if`. -/
def ForkTree.searchNodes (tree : ForkTree H N V) (isDescendentOf : H → H → Except E Bool)
    (hash : H) (number : N) (predicate : V → Bool) :
    List (Node H N V) → Except (Error E) (Option Bool)
  | [] => .ok none
  | node :: rest =>
      if predicate node.data then
        match isOnBranch isDescendentOf hash node with
        | .error failure => .error failure
        | .ok true =>
            match checkChildrenNotAncestor isDescendentOf hash number node.children with
            | .error failure => .error failure
            | .ok () => .ok (some (tree.roots.any fun root => decide (root.hash = node.hash)))
        | .ok false => searchNodes tree isDescendentOf hash number predicate rest
      else
        searchNodes tree isDescendentOf hash number predicate rest

def ForkTree.finalizesAnyWithDescendentIf (tree : ForkTree H N V) (hash : H) (number : N)
    (isDescendentOf : H → H → Except E Bool) (predicate : V → Bool) :
    Except (Error E) (Option Bool) :=
  if tree.belowFinalized number then
    .error .revert
  else
    searchNodes tree isDescendentOf hash number predicate
      (ForkTreeIterator.toList tree.roots)

/-- The loop `for (i, root) in self.roots.iter().enumerate()` of
`finalize_with_descendent_if`. -/
def ForkTree.findPosition (isDescendentOf : H → H → Except E Bool)
    (hash : H) (number : N) (predicate : V → Bool) :
    List (Node H N V) → Nat → Except (Error E) (Option Nat)
  | [], _ => .ok none
  | root :: rest, index =>
      if predicate root.data then
        match isOnBranch isDescendentOf hash root with
        | .error failure => .error failure
        | .ok true =>
            match checkChildrenNotAncestor isDescendentOf hash number root.children with
            | .error failure => .error failure
            | .ok () => .ok (some index)
        | .ok false => findPosition isDescendentOf hash number predicate rest (index + 1)
      else
        findPosition isDescendentOf hash number predicate rest (index + 1)

/-- The closure `position.map(|i| ...)` of `finalize_with_descendent_if`: the
chosen root's children replace the roots and its number becomes the best
finalized number. -/
def ForkTree.openRoot (tree : ForkTree H N V) (position : Option Nat) :
    Option V × ForkTree H N V :=
  match position.bind fun index => tree.roots[index]? with
  | some node => (some node.data, ⟨node.children, some node.number⟩)
  | none => (none, tree)

def ForkTree.finalizeWithDescendentIf (tree : ForkTree H N V) (hash : H) (number : N)
    (isDescendentOf : H → H → Except E Bool) (predicate : V → Bool) :
    Except (Error E) (FinalizationResult V × ForkTree H N V) :=
  if tree.belowFinalized number then
    .error .revert
  else
    match findPosition isDescendentOf hash number predicate tree.roots 0 with
    | .error failure => .error failure
    | .ok position =>
        let opened := tree.openRoot position
        let retain := fun (root : Node H N V) =>
          (decide (root.number > number) && unwrapOrFalse (isDescendentOf hash root.hash)) ||
            (decide (root.number = number) && decide (root.hash = hash)) ||
            unwrapOrFalse (isDescendentOf root.hash hash)
        let changed := opened.2.roots.any fun root => !retain root
        let pruned : ForkTree H N V := ⟨opened.2.roots.filter retain, some number⟩
        match opened.1, changed with
        | some data, _ => .ok (.changed (some data), pruned)
        | none, true => .ok (.changed none, pruned)
        | none, false => .ok (.unchanged, pruned)

/-! ## Runs of operations -/

/-- The public operations that change a fork tree. -/
inductive ForkTree.Operation (H N V : Type) where
  | import (hash : H) (number : N) (data : V)
  | finalizeRoot (hash : H)
  | finalize (hash : H) (number : N)
  | finalizeWithAncestors (hash : H) (number : N)
  | finalizeWithDescendentIf (hash : H) (number : N) (predicate : V → Bool)
  | prune (hash : H) (number : N) (predicate : V → Bool)

/-- Keep the old tree when an operation errs. -/
def ForkTree.orKeep (tree : ForkTree H N V) {α : Type} :
    Except (Error E) (α × ForkTree H N V) → ForkTree H N V
  | .ok (_, updated) => updated
  | .error _ => tree

/-- The tree after an operation. -/
def ForkTree.Operation.apply (isDescendentOf : H → H → Except E Bool) :
    ForkTree.Operation H N V → ForkTree H N V → ForkTree H N V
  | .import hash number data, tree =>
      orKeep tree (tree.import hash number data isDescendentOf)
  | .finalizeRoot hash, tree => (tree.finalizeRoot hash).2
  | .finalize hash number, tree =>
      orKeep tree (tree.finalize hash number isDescendentOf)
  | .finalizeWithAncestors hash number, tree =>
      orKeep tree (tree.finalizeWithAncestors hash number isDescendentOf)
  | .finalizeWithDescendentIf hash number predicate, tree =>
      orKeep tree (tree.finalizeWithDescendentIf hash number isDescendentOf predicate)
  | .prune hash number predicate, tree =>
      match tree.prune hash number isDescendentOf predicate with
      | .ok pruned => pruned
      | .error _ => tree


/-- On the chain `0 - 1 - 2 - ...` (block `n` has number `n`): import block
`1`, finalize block `2` with a predicate that fails on block `1` (which
`finalize_with_descendent_if` keeps as a root), then finalize root `1`:
the best finalized number goes from `2` back to `1`, and block `2`, at the
number finalized before, is imported afterwards. -/
theorem finalizeRoot_lowers_best_finalized :
    (([.import 1 1 0, .finalizeWithDescendentIf 2 2 (fun _ => false), .finalizeRoot 1,
        .import 2 2 0] : List (ForkTree.Operation Nat Nat Nat)).scanl
        (fun tree operation => operation.apply
          (fun base block => (.ok (decide (base < block)) : Except Unit Bool)) tree)
        ForkTree.new).map ForkTree.bestFinalizedNumber =
      [none, none, some 2, some 1, some 1] ∧
    ((([.import 1 1 0, .finalizeWithDescendentIf 2 2 (fun _ => false), .finalizeRoot 1,
        .import 2 2 0] : List (ForkTree.Operation Nat Nat Nat)).foldl
        (fun tree operation => operation.apply
          (fun base block => (.ok (decide (base < block)) : Except Unit Bool)) tree)
        ForkTree.new).roots.map fun root => (root.hash, root.number)) = [(2, 2)] := by
  decide

end OffchainStorage.Fork
