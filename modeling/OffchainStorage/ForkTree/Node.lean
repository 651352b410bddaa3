import Mathlib
import OffchainStorage.Lib.VecOps

/-!
# Fork-tree nodes

`utils/fork-tree` stores data attached to blocks across competing forks.  A
`Node` carries a block hash, its number, the data, and the child nodes; the
client supplies `is_descendent_of base block`, which may fail with an error of
its own type `E`.

This module models the recursive methods of `Node`:

* `Node::import`, which walks the children first-fit and hands the imported
  triple back (`Some`) when it does not belong below this node;
* `Node::find_node_where`, the backtracking depth-first search used by
  `ForkTree::prune`;

and the stack iterator `ForkTreeIterator`.  Each loop over children is its
own function, defined together with the node method by structural recursion
on the tree.
-/

namespace OffchainStorage.Fork

inductive Error (E : Type) where
  | duplicate
  | unfinalizedAncestor
  | revert
  | client (error : E)
  deriving DecidableEq, Repr

inductive FinalizationResult (V : Type) where
  | changed (value : Option V)
  | unchanged
  deriving DecidableEq, Repr

structure Node (H N V : Type) where
  hash : H
  number : N
  data : V
  children : List (Node H N V)
  deriving Repr

inductive FindOutcome (T : Type) where
  | found (node : T)
  | failure (descendent : Bool)
  | abort

variable {H N V E : Type}

/-- A leaf node, as `import` pushes it. -/
def Node.leaf (hash : H) (number : N) (data : V) : Node H N V :=
  ⟨hash, number, data, []⟩

/-! ## `Node::import` -/

section Search

variable [DecidableEq H] [LinearOrder N]

mutual

/-- `Node::import`: the new node of the call's `&mut self` and the triple
handed back (`Some`) when the block does not go below this node. -/
def Node.import (isDescendentOf : H → H → Except E Bool)
    (hash : H) (number : N) (data : V) :
    Node H N V → Except (Error E) (Option (H × N × V) × Node H N V)
  | ⟨selfHash, selfNumber, selfData, children⟩ =>
      if selfHash = hash then
        .error .duplicate
      else if number ≤ selfNumber then
        .ok (some (hash, number, data), ⟨selfHash, selfNumber, selfData, children⟩)
      else
        match Node.importChildren isDescendentOf hash number data children with
        | .error failure => .error failure
        | .ok (none, children) => .ok (none, ⟨selfHash, selfNumber, selfData, children⟩)
        | .ok (some (hash, number, data), children) =>
            match isDescendentOf selfHash hash with
            | .error failure => .error (.client failure)
            | .ok true =>
                .ok (none, ⟨selfHash, selfNumber, selfData,
                  children ++ [Node.leaf hash number data]⟩)
            | .ok false =>
                .ok (some (hash, number, data), ⟨selfHash, selfNumber, selfData, children⟩)

/-- The loop `for node in self.children.iter_mut()` of `Node::import`: the
first child that takes the block ends the loop. -/
def Node.importChildren (isDescendentOf : H → H → Except E Bool)
    (hash : H) (number : N) (data : V) :
    List (Node H N V) →
      Except (Error E) (Option (H × N × V) × List (Node H N V))
  | [] => .ok (some (hash, number, data), [])
  | node :: rest =>
      match Node.import isDescendentOf hash number data node with
      | .error failure => .error failure
      | .ok (none, node) => .ok (none, node :: rest)
      | .ok (some (hash, number, data), node) =>
          match Node.importChildren isDescendentOf hash number data rest with
          | .error failure => .error failure
          | .ok (result, rest) => .ok (result, node :: rest)

end

/-! ## `Node::find_node_where` -/

mutual

/-- `Node::find_node_where`: the deepest node on the block's branch whose
data passes the predicate, backtracking when the predicate fails. -/
def Node.findNodeWhere (isDescendentOf : H → H → Except E Bool)
    (hash : H) (number : N) (predicate : V → Bool) :
    Node H N V → Except (Error E) (FindOutcome (Node H N V))
  | ⟨selfHash, selfNumber, selfData, children⟩ =>
      if number < selfNumber then
        .ok (.failure false)
      else
        match Node.findInChildren isDescendentOf hash number predicate children with
        | .error failure => .error failure
        | .ok .abort => .ok .abort
        | .ok (.found node) => .ok (.found node)
        | .ok (.failure knownDescendentOf) =>
            let isDescendent : Except (Error E) Bool :=
              if knownDescendentOf then .ok true
              else
                match isDescendentOf selfHash hash with
                | .error failure => .error (.client failure)
                | .ok answer => .ok answer
            match isDescendent with
            | .error failure => .error failure
            | .ok true =>
                if predicate selfData then
                  .ok (.found ⟨selfHash, selfNumber, selfData, children⟩)
                else
                  .ok (.failure true)
            | .ok false => .ok (.failure false)

/-- The loop over the children of `Node::find_node_where`: `Abort` and
`Found` return at once, `Failure(true)` breaks with the block known to be a
descendent, and running out of children is `Failure(false)`. -/
def Node.findInChildren (isDescendentOf : H → H → Except E Bool)
    (hash : H) (number : N) (predicate : V → Bool) :
    List (Node H N V) → Except (Error E) (FindOutcome (Node H N V))
  | [] => .ok (.failure false)
  | node :: rest =>
      match Node.findNodeWhere isDescendentOf hash number predicate node with
      | .error failure => .error failure
      | .ok .abort => .ok .abort
      | .ok (.found found) => .ok (.found found)
      | .ok (.failure true) => .ok (.failure true)
      | .ok (.failure false) =>
          Node.findInChildren isDescendentOf hash number predicate rest

end

end Search

/-! ## Nodes of a tree -/

mutual

/-- The node followed by all its descendants, each before its own
descendants. -/
def Node.nodes : Node H N V → List (Node H N V)
  | ⟨hash, number, data, children⟩ =>
      ⟨hash, number, data, children⟩ :: Node.forestNodes children

/-- All nodes of a list of trees. -/
def Node.forestNodes : List (Node H N V) → List (Node H N V)
  | [] => []
  | node :: rest => Node.nodes node ++ Node.forestNodes rest

end

@[simp]
theorem Node.nodes_eq (node : Node H N V) :
    node.nodes = node :: Node.forestNodes node.children := by
  cases node
  rfl

@[simp]
theorem Node.forestNodes_nil : Node.forestNodes ([] : List (Node H N V)) = [] := rfl

@[simp]
theorem Node.forestNodes_cons (node : Node H N V) (rest : List (Node H N V)) :
    Node.forestNodes (node :: rest) = node.nodes ++ Node.forestNodes rest := rfl

@[simp]
theorem Node.forestNodes_append (first second : List (Node H N V)) :
    Node.forestNodes (first ++ second) =
      Node.forestNodes first ++ Node.forestNodes second := by
  induction first with
  | nil =>
      rfl
  | cons node rest inductionHypothesis =>
      simp [inductionHypothesis]

/-! ## `ForkTreeIterator` -/

/-- The number of nodes of a list of trees, which bounds the iterator. -/
def Node.forestSize (nodes : List (Node H N V)) : Nat :=
  (Node.forestNodes nodes).length

/-- Popping a node and pushing its children leaves one node fewer on the
stack. -/
theorem Node.forestSize_pop {stack rest : List (Node H N V)} {node : Node H N V}
    (popped : stack = rest ++ [node]) :
    Node.forestSize (rest ++ node.children) + 1 = Node.forestSize stack := by
  subst popped
  simp only [Node.forestSize, Node.forestNodes_append, Node.forestNodes_cons,
    Node.nodes_eq, Node.forestNodes_nil, List.length_append, List.length_cons,
    List.append_nil]
  omega

/-- The roots keep their nodes, one per root. -/
theorem Node.length_le_forestSize (roots : List (Node H N V)) :
    roots.length ≤ Node.forestSize roots := by
  induction roots with
  | nil =>
      simp [Node.forestSize]
  | cons root rest inductionHypothesis =>
      simp only [Node.forestSize, Node.forestNodes_cons, Node.nodes_eq,
        List.length_append, List.length_cons] at inductionHypothesis ⊢
      omega

theorem Node.forestNodes_eq_flatMap (forest : List (Node H N V)) :
    Node.forestNodes forest = forest.flatMap Node.nodes := by
  induction forest with
  | nil =>
      rfl
  | cons root rest inductionHypothesis =>
      simp only [Node.forestNodes_cons, List.flatMap_cons, inductionHypothesis]

/-- `swap_remove` of a root removes exactly that root's nodes. -/
theorem Node.forestSize_swapRemove (roots : List (Node H N V)) {index : Nat}
    (valid : index < roots.length) :
    Node.forestSize (VecOps.swapRemove roots index) +
        (roots.get ⟨index, valid⟩).nodes.length =
      Node.forestSize roots := by
  have permuted := ((VecOps.swapRemove_perm roots valid).flatMap_right Node.nodes).length_eq
  have split : roots = roots.take index ++ roots.get ⟨index, valid⟩ :: roots.drop (index + 1) := by
    simp
  have whole : (roots.flatMap Node.nodes).length =
      ((roots.eraseIdx index).flatMap Node.nodes).length +
        (roots.get ⟨index, valid⟩).nodes.length := by
    conv_lhs => rw [split]
    simp only [List.eraseIdx_eq_take_drop_succ, List.flatMap_append,
      List.flatMap_cons, List.length_append]
    omega
  simp only [Node.forestSize, Node.forestNodes_eq_flatMap, permuted, whole]

/-- `ForkTreeIterator`: pop the top of the stack (the end of the vector),
push its children, and yield it.  The list of yielded nodes. -/
def ForkTreeIterator.toList (stack : List (Node H N V)) : List (Node H N V) :=
  match _popped : stack.getLast? with
  | none => []
  | some node => node :: ForkTreeIterator.toList (stack.dropLast ++ node.children)
termination_by Node.forestSize stack
decreasing_by
  obtain ⟨rest, split⟩ := List.getLast?_eq_some_iff.mp _popped
  have smaller := Node.forestSize_pop split
  rw [split, List.dropLast_concat]
  rw [split] at smaller
  omega

end OffchainStorage.Fork
