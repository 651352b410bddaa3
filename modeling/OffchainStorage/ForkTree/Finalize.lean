import OffchainStorage.ForkTree.Import

/-!
# Finalization and pruning keep the tree represented

`finalize_root`, `finalize`, `finalize_with_ancestors` and
`finalize_with_descendent_if` only drop roots, open roots (their children
become roots) and filter the roots.  Whatever the client answers, the nodes of
the new forest are therefore a sub-multiset of the old ones, and the forest
stays represented (`Represents.of_subperm`).  `prune` is the one operation
that builds a node: the node found by `find_node_where` with its children cut
down to at most one.
-/

namespace OffchainStorage.Fork

variable {H N V E : Type}

/-! ## Nodes of forests that lose roots -/

theorem Node.forestNodes_perm {first second : List (Node H N V)} (perm : first.Perm second) :
    (Node.forestNodes first).Perm (Node.forestNodes second) := by
  rw [Node.forestNodes_eq_flatMap, Node.forestNodes_eq_flatMap]
  exact perm.flatMap_right Node.nodes

theorem Node.forestNodes_children_sublist_of_mem {forest : List (Node H N V)}
    {root : Node H N V} (member : root ∈ forest) :
    List.Sublist (Node.forestNodes root.children) (Node.forestNodes forest) :=
  (Node.forestNodes_children_sublist root).trans (Node.nodes_sublist_of_mem member)

/-- Removing a root with `swap_remove` splits the forest's nodes into the
root's and the rest. -/
theorem Node.forestNodes_swapRemove_perm (roots : List (Node H N V)) {index : Nat}
    (valid : index < roots.length) :
    (roots[index].nodes ++ Node.forestNodes (VecOps.swapRemove roots index)).Perm
      (Node.forestNodes roots) := by
  have perm := Node.forestNodes_perm (VecOps.cons_swapRemove_perm roots valid)
  rwa [Node.forestNodes_cons] at perm

theorem Node.forestNodes_swapRemove_subperm (roots : List (Node H N V)) {index : Nat}
    (valid : index < roots.length) :
    (Node.forestNodes (VecOps.swapRemove roots index)).Subperm (Node.forestNodes roots) :=
  (List.sublist_append_right _ _).subperm.trans
    (Node.forestNodes_swapRemove_perm roots valid).subperm

/-- Opening a root: its children take its place among the roots. -/
theorem Node.forestNodes_open_subperm (roots : List (Node H N V)) {index : Nat}
    (valid : index < roots.length) :
    (Node.forestNodes (VecOps.swapRemove roots index ++ roots[index].children)).Subperm
      (Node.forestNodes roots) := by
  rw [Node.forestNodes_append]
  have rootNodes : roots[index].nodes =
      roots[index] :: Node.forestNodes roots[index].children := Node.nodes_eq _
  -- the children's nodes come after the root itself among the root's nodes
  have childrenFirst : List.Subperm
      (Node.forestNodes roots[index].children ++
        Node.forestNodes (VecOps.swapRemove roots index))
      (roots[index].nodes ++ Node.forestNodes (VecOps.swapRemove roots index)) := by
    rw [rootNodes]
    exact (List.sublist_cons_self _ _).subperm
  exact List.perm_append_comm.subperm.trans
    (childrenFirst.trans (Node.forestNodes_swapRemove_perm roots valid).subperm)

/-! ## The node `find_node_where` finds -/

section Search

variable [LinearOrder N] {isDescendentOf : H → H → Except E Bool}
  {hash : H} {number : N} {predicate : V → Bool}

mutual

/-- `find_node_where` finds a node of the tree it searches. -/
theorem Node.mem_nodes_of_findNodeWhere :
    ∀ (node : Node H N V) {found : Node H N V},
      node.findNodeWhere isDescendentOf hash number predicate = .ok (.found found) →
        found ∈ node.nodes
  | ⟨selfHash, selfNumber, selfData, children⟩, found, search => by
      rw [Node.findNodeWhere] at search
      split at search
      · cases search
      · split at search
        · cases search
        · cases search
        · -- found in a child's subtree
          rename_i below
          cases search
          exact Node.mem_nodes_iff.mpr
            (Or.inr (Node.mem_forestNodes_of_findInChildren children below))
        · -- the node itself passed the predicate
          rename_i knownDescendentOf _
          have isSelf : found = ⟨selfHash, selfNumber, selfData, children⟩ := by
            revert search
            cases knownDescendentOf with
            | false =>
                cases isDescendentOf selfHash hash with
                | error failure => simp
                | ok answer =>
                    cases answer <;> cases predicate selfData <;> simp [eq_comm]
            | true =>
                cases predicate selfData <;> simp [eq_comm]
          rw [isSelf]
          exact Node.mem_nodes_self _

/-- The loop over the children finds a node of one of them. -/
theorem Node.mem_forestNodes_of_findInChildren :
    ∀ (forest : List (Node H N V)) {found : Node H N V},
      Node.findInChildren isDescendentOf hash number predicate forest = .ok (.found found) →
        found ∈ Node.forestNodes forest
  | [], found, search => by
      cases search
  | node :: rest, found, search => by
      rw [Node.findInChildren] at search
      rw [Node.forestNodes_cons, List.mem_append]
      split at search
      · cases search
      · cases search
      · rename_i inNode
        cases search
        exact Or.inl (Node.mem_nodes_of_findNodeWhere node inNode)
      · cases search
      · exact Or.inr (Node.mem_forestNodes_of_findInChildren rest search)

end

/-- `ForkTree::find_node_where` finds a node of the forest. -/
theorem ForkTree.mem_forestNodes_of_findInRoots :
    ∀ (roots : List (Node H N V)) {found : Node H N V},
      ForkTree.findInRoots isDescendentOf hash number predicate roots = .ok (some found) →
        found ∈ Node.forestNodes roots
  | [], found, search => by
      cases search
  | root :: rest, found, search => by
      rw [ForkTree.findInRoots] at search
      rw [Node.forestNodes_cons, List.mem_append]
      split at search
      · cases search
      · rename_i inRoot
        cases search
        exact Or.inl (Node.mem_nodes_of_findNodeWhere root inRoot)
      · exact Or.inr (ForkTree.mem_forestNodes_of_findInRoots rest search)

end Search

/-! ## The finalizing operations only drop and open roots -/

section Finalizing

variable [DecidableEq H] [LinearOrder N] {isDescendentOf : H → H → Except E Bool}
  {tree finalized : ForkTree H N V} {hash : H} {number : N}

omit [LinearOrder N] in
theorem ForkTree.finalizeRoot_sublist (tree : ForkTree H N V) (hash : H) :
    List.Sublist (Node.forestNodes (tree.finalizeRoot hash).2.roots)
      (Node.forestNodes tree.roots) := by
  unfold ForkTree.finalizeRoot
  split
  · exact List.Sublist.refl _
  · exact Node.forestNodes_children_sublist_of_mem (List.get_mem _ _)

theorem ForkTree.finalize_sublist {result : FinalizationResult V}
    (finalizes : tree.finalize hash number isDescendentOf = .ok (result, finalized)) :
    List.Sublist (Node.forestNodes finalized.roots) (Node.forestNodes tree.roots) := by
  unfold ForkTree.finalize at finalizes
  split at finalizes
  · cases finalizes
  · have rootSublist := ForkTree.finalizeRoot_sublist tree hash
    rcases finalizedRoot : tree.finalizeRoot hash with ⟨_ | rootData, finalizedTree⟩
    · -- not a root: the roots that descend from the block are kept
      rw [finalizedRoot] at finalizes
      dsimp only at finalizes
      split at finalizes
      · cases finalizes
      · cases finalizes
        exact Node.forestNodes_sublist_of_sublist List.filter_sublist
    · rw [finalizedRoot] at finalizes rootSublist
      cases finalizes
      exact rootSublist

/-- The roots `finalize_with_ancestors` ends with: those it kept and the
children of the roots it opened, or the children of the block's own root. -/
theorem ForkTree.ancestorsLoop_subperm (isDescendentOf : H → H → Except E Bool) (hash : H)
    (number : N) (roots : List (Node H N V)) (index : Nat) (changed : Bool) :
    (Node.forestNodes ((ForkTree.ancestorsLoop isDescendentOf hash number roots index
      changed).elim Node.children Prod.fst)).Subperm (Node.forestNodes roots) := by
  fun_induction ForkTree.ancestorsLoop isDescendentOf hash number roots index changed with
  | case1 roots index changed valid root =>
      -- the block's own root: its children become the roots
      exact (Node.forestNodes_children_sublist_of_mem (List.get_mem _ _)).subperm
  | case2 roots index changed valid root _ _ _ _ inductionHypothesis =>
      exact inductionHypothesis
  | case3 roots index changed valid root _ _ _ _ _ _ inductionHypothesis =>
      exact inductionHypothesis.trans (Node.forestNodes_open_subperm roots valid)
  | case4 roots index changed valid root _ _ _ _ _ _ inductionHypothesis =>
      exact inductionHypothesis.trans (Node.forestNodes_swapRemove_subperm roots valid)
  | case5 roots index changed =>
      exact List.Subperm.refl _

theorem ForkTree.finalizeWithAncestors_subperm {result : FinalizationResult V}
    (finalizes : tree.finalizeWithAncestors hash number isDescendentOf = .ok (result, finalized)) :
    (Node.forestNodes finalized.roots).Subperm (Node.forestNodes tree.roots) := by
  unfold ForkTree.finalizeWithAncestors at finalizes
  split at finalizes
  · cases finalizes
  · have rootSublist := ForkTree.finalizeRoot_sublist tree hash
    rcases finalizedRoot : tree.finalizeRoot hash with ⟨_ | rootData, finalizedTree⟩
    · rw [finalizedRoot] at finalizes
      dsimp only at finalizes
      have loop := ForkTree.ancestorsLoop_subperm isDescendentOf hash number tree.roots 0 false
      rcases ended : ForkTree.ancestorsLoop isDescendentOf hash number tree.roots 0 false with
        root | ⟨roots, changed⟩
      · rw [ended] at finalizes loop
        cases finalizes
        exact loop
      · rw [ended] at finalizes loop
        cases finalizes
        exact loop
    · rw [finalizedRoot] at finalizes rootSublist
      cases finalizes
      exact rootSublist.subperm

omit [DecidableEq H] [LinearOrder N] in
theorem ForkTree.openRoot_sublist (tree : ForkTree H N V) (position : Option Nat) :
    List.Sublist (Node.forestNodes (tree.openRoot position).2.roots)
      (Node.forestNodes tree.roots) := by
  unfold ForkTree.openRoot
  split
  · rename_i node chosen
    obtain ⟨index, _, found⟩ := Option.bind_eq_some_iff.mp chosen
    exact Node.forestNodes_children_sublist_of_mem (List.mem_of_getElem? found)
  · exact List.Sublist.refl _

theorem ForkTree.finalizeWithDescendentIf_sublist {predicate : V → Bool}
    {result : FinalizationResult V}
    (finalizes : tree.finalizeWithDescendentIf hash number isDescendentOf predicate =
      .ok (result, finalized)) :
    List.Sublist (Node.forestNodes finalized.roots) (Node.forestNodes tree.roots) := by
  unfold ForkTree.finalizeWithDescendentIf at finalizes
  split at finalizes
  · cases finalizes
  · rcases search : ForkTree.findPosition isDescendentOf hash number predicate tree.roots 0 with
      failure | position
    · rw [search] at finalizes
      cases finalizes
    · rw [search] at finalizes
      dsimp only at finalizes
      -- the chosen root, if any, is opened; then the roots are filtered
      split at finalizes <;> cases finalizes <;>
        exact (Node.forestNodes_sublist_of_sublist List.filter_sublist).trans
          (ForkTree.openRoot_sublist tree position)

end Finalizing

/-! ## `prune` -/

section Prune

variable [LinearOrder N] {ancestry : Ancestry H N}

/-- `prune` leaves the tree, or makes a node of it the only root with a
sublist of its children. -/
theorem ForkTree.prune_cases [DecidableEq H] {isDescendentOf : H → H → Except E Bool}
    {tree pruned : ForkTree H N V} {hash : H} {number : N} {predicate : V → Bool}
    (prunes : tree.prune hash number isDescendentOf predicate = .ok pruned) :
    pruned = tree ∨ ∃ root ∈ Node.forestNodes tree.roots, ∃ kept : List (Node H N V),
      List.Sublist kept root.children ∧
        pruned = { tree with roots := [{ root with children := kept }] } := by
  unfold ForkTree.prune at prunes
  split at prunes
  · cases prunes
  · cases prunes
    exact Or.inl rfl
  · rename_i root found
    cases prunes
    refine Or.inr ⟨root, ForkTree.mem_forestNodes_of_findInRoots tree.roots found, _, ?_, rfl⟩
    exact (List.take_sublist _ _).trans List.filter_sublist

/-- A node whose children are cut down to a sublist still represents its
blocks: the hashes below it are among the old ones, and a hash below it was
below it before. -/
theorem Represents.prune_root {root : Node H N V} (represents : Represents ancestry [root])
    {kept : List (Node H N V)} (sublist : List.Sublist kept root.children) :
    Represents ancestry [{ root with children := kept }] := by
  have keptHashes : List.Sublist (Node.forestHashes kept) (Node.forestHashes root.children) :=
    (Node.forestNodes_sublist_of_sublist sublist).map Node.hash
  have keptBelow : Node.forestNodes kept ⊆ Node.forestNodes [root] := by
    rw [Node.forestNodes_singleton]
    exact ((Node.forestNodes_sublist_of_sublist sublist).trans
      (Node.forestNodes_children_sublist root)).subset
  have rootMember : root ∈ Node.forestNodes [root] := by simp
  have oldNodup := represents.nodup
  rw [Node.forestHashes, Node.forestNodes_singleton, Node.hashes_nodes] at oldNodup
  have rootNotBelow : root.hash ∉ Node.forestHashes kept := fun below =>
    (List.nodup_cons.mp oldNodup).1 (keptHashes.subset below)
  have newNodes : Node.forestNodes [{ root with children := kept }] =
      { root with children := kept } :: Node.forestNodes kept := by simp
  constructor
  · rw [Node.forestHashes, newNodes, List.map_cons]
    exact (keptHashes.cons_cons root.hash).nodup oldNodup
  · intro node member
    rw [newNodes, List.mem_cons] at member
    rcases member with rfl | below
    · exact represents.numbered root rootMember
    · exact represents.numbered node (keptBelow below)
  · intro node nodeMember other otherMember
    rw [newNodes, List.mem_cons] at nodeMember otherMember
    rcases nodeMember with rfl | nodeBelow
    · rcases otherMember with rfl | otherBelow
      · simpa using rootNotBelow
      · -- a kept node lies below the root, in the new tree as in the old
        have otherOld := keptBelow otherBelow
        rw [← represents.descendants root rootMember other otherOld]
        simp only [Node.hash_mem_forestHashes otherBelow, true_iff]
        exact keptHashes.subset (Node.hash_mem_forestHashes otherBelow)
    · rcases otherMember with rfl | otherBelow
      · exact represents.descendants node (keptBelow nodeBelow) root rootMember
      · exact represents.descendants node (keptBelow nodeBelow) other (keptBelow otherBelow)

end Prune

end OffchainStorage.Fork
