import OffchainStorage.ForkTree.Finalize
import OffchainStorage.Lib.Transition

/-!
# Runs of fork-tree operations

A client drives a fork tree through the public operations, in any order and
with any arguments; an operation that errs leaves the tree as it was.  When
the client's `is_descendent_of` is the ancestry of a block tree, imports
carry block numbers and no block is imported after one of its descendants,
every tree reached represents its blocks (`ForkTree.run_consistent`).  The
proof is one step lemma, `ForkTree.Consistent.apply`, and the invariant rule
of `Transition.perform`.
-/

namespace OffchainStorage.Fork

variable {H N V E : Type} [DecidableEq H] [LinearOrder N]

/-- The tree after performing the operations in order from `ForkTree::new()`. -/
def ForkTree.run (isDescendentOf : H → H → Except E Bool)
    (operations : List (ForkTree.Operation H N V)) : ForkTree H N V :=
  Transition.perform (ForkTree.Operation.apply isDescendentOf) ForkTree.new operations

/-- The block an operation imports. -/
def ForkTree.Operation.importedHash : ForkTree.Operation H N V → Option H
  | .import hash _ _ => some hash
  | _ => none

/-- The blocks imported by a sequence of operations, in order. -/
def ForkTree.importedHashes (operations : List (ForkTree.Operation H N V)) : List H :=
  operations.filterMap ForkTree.Operation.importedHash

/-- An import carries its block's number. -/
def ForkTree.Operation.Numbered (ancestry : Ancestry H N) :
    ForkTree.Operation H N V → Prop
  | .import hash number _ => number = ancestry.rank hash
  | _ => True

instance ForkTree.Operation.decidableNumbered (ancestry : Ancestry H N)
    (operation : ForkTree.Operation H N V) : Decidable (operation.Numbered ancestry) :=
  match operation with
  | .import hash number _ => inferInstanceAs (Decidable (number = ancestry.rank hash))
  | .finalizeRoot _ => isTrue trivial
  | .finalize _ _ => isTrue trivial
  | .finalizeWithAncestors _ _ => isTrue trivial
  | .finalizeWithDescendentIf _ _ _ => isTrue trivial
  | .prune _ _ _ => isTrue trivial

/-- No block is imported after one of its descendants. -/
def ForkTree.ImportsInOrder (ancestry : Ancestry H N)
    (operations : List (ForkTree.Operation H N V)) : Prop :=
  (ForkTree.importedHashes operations).Pairwise fun earlier later =>
    ancestry.isAncestor later earlier = false

instance ForkTree.decidableImportsInOrder (ancestry : Ancestry H N)
    (operations : List (ForkTree.Operation H N V)) :
    Decidable (ForkTree.ImportsInOrder ancestry operations) :=
  inferInstanceAs (Decidable (List.Pairwise _ _))

/-- The invariant of runs: the tree represents its blocks, all of which were
imported. -/
structure ForkTree.Consistent (ancestry : Ancestry H N) (imported : List H)
    (tree : ForkTree H N V) : Prop where
  represents : Represents ancestry tree.roots
  imported : ∀ hash ∈ Node.forestHashes tree.roots, hash ∈ imported

omit [DecidableEq H] [LinearOrder N] in
@[simp]
theorem ForkTree.importedHashes_append (first second : List (ForkTree.Operation H N V)) :
    ForkTree.importedHashes (first ++ second) =
      ForkTree.importedHashes first ++ ForkTree.importedHashes second :=
  List.filterMap_append

omit [DecidableEq H] [LinearOrder N] in
@[simp]
theorem ForkTree.importedHashes_singleton (operation : ForkTree.Operation H N V) :
    ForkTree.importedHashes [operation] = operation.importedHash.toList := by
  cases operation <;> rfl

omit [DecidableEq H] in
theorem Represents.nil (ancestry : Ancestry H N) :
    Represents ancestry ([] : List (Node H N V)) where
  nodup := List.nodup_nil
  numbered _ member := absurd member List.not_mem_nil
  descendants _ member := absurd member List.not_mem_nil

omit [DecidableEq H] [LinearOrder N] in
@[simp]
theorem ForkTree.orKeep_ok {α : Type} (tree updated : ForkTree H N V) (answer : α) :
    ForkTree.orKeep tree (.ok (answer, updated) : Except (Error E) _) = updated := rfl

omit [DecidableEq H] [LinearOrder N] in
@[simp]
theorem ForkTree.orKeep_error {α : Type} (tree : ForkTree H N V) (failure : Error E) :
    ForkTree.orKeep tree (.error failure : Except (Error E) (α × ForkTree H N V)) = tree := rfl

omit [DecidableEq H] [LinearOrder N] in
/-- An operation that errs leaves the tree; one that succeeds hands back the
tree it keeps. -/
theorem ForkTree.orKeep_cases {α : Type} (tree : ForkTree H N V)
    (result : Except (Error E) (α × ForkTree H N V)) :
    ForkTree.orKeep tree result = tree ∨
      ∃ answer, result = .ok (answer, ForkTree.orKeep tree result) := by
  cases result with
  | error failure =>
      exact Or.inl rfl
  | ok success =>
      exact Or.inr ⟨success.1, rfl⟩

section Consistent

variable {ancestry : Ancestry H N} {imported : List H} {tree : ForkTree H N V}

omit [DecidableEq H] in
/-- Dropping and opening roots keeps a consistent tree consistent. -/
theorem ForkTree.Consistent.of_subperm (consistent : ForkTree.Consistent ancestry imported tree)
    {smaller : ForkTree H N V}
    (subperm : (Node.forestNodes smaller.roots).Subperm (Node.forestNodes tree.roots)) :
    ForkTree.Consistent ancestry imported smaller where
  represents := consistent.represents.of_subperm subperm
  imported hash member := by
    obtain ⟨node, nodeMember, rfl⟩ := Node.mem_forestHashes.mp member
    exact consistent.imported _ (Node.hash_mem_forestHashes (subperm.subset nodeMember))

omit [DecidableEq H] in
theorem ForkTree.Consistent.mono (consistent : ForkTree.Consistent ancestry imported tree)
    {more : List H} (subset : imported ⊆ more) : ForkTree.Consistent ancestry more tree where
  represents := consistent.represents
  imported hash member := subset (consistent.imported hash member)

omit [DecidableEq H] in
/-- An operation that keeps the tree on an error, and otherwise leaves one
whose nodes are among the old ones, keeps it consistent. -/
theorem ForkTree.Consistent.orKeep {α : Type} (consistent : ForkTree.Consistent ancestry imported tree)
    {result : Except (Error E) (α × ForkTree H N V)}
    (shrinks : ∀ answer smaller, result = .ok (answer, smaller) →
      (Node.forestNodes smaller.roots).Subperm (Node.forestNodes tree.roots)) :
    ForkTree.Consistent ancestry imported (ForkTree.orKeep tree result) := by
  rcases ForkTree.orKeep_cases tree result with kept | ⟨answer, succeeds⟩
  · rw [kept]
    exact consistent
  · exact consistent.of_subperm (shrinks answer _ succeeds)

/-- `prune` keeps a consistent tree consistent. -/
theorem ForkTree.Consistent.prune (consistent : ForkTree.Consistent ancestry imported tree)
    {isDescendentOf : H → H → Except E Bool} {hash : H} {number : N} {predicate : V → Bool}
    {pruned : ForkTree H N V}
    (prunes : tree.prune hash number isDescendentOf predicate = .ok pruned) :
    ForkTree.Consistent ancestry imported pruned := by
  rcases ForkTree.prune_cases prunes with rfl | ⟨root, rootMember, kept, sublist, rfl⟩
  · exact consistent
  · have rootConsistent : ForkTree.Consistent ancestry imported
        { tree with roots := [root] } :=
      consistent.of_subperm (by
        simpa using (Node.nodes_sublist_forestNodes tree.roots rootMember).subperm)
    refine ⟨rootConsistent.represents.prune_root sublist, fun member present => ?_⟩
    -- the hashes of the new root are the old root's and hashes of its subtree
    apply rootConsistent.imported
    have keptHashes : Node.forestHashes kept ⊆ Node.forestHashes root.children :=
      ((Node.forestNodes_sublist_of_sublist sublist).map Node.hash).subset
    simp only [Node.forestHashes, Node.forestNodes_singleton, Node.hashes_nodes,
      List.mem_cons] at present ⊢
    rcases present with same | below
    · exact Or.inl same
    · exact Or.inr (keptHashes below)

/-- One operation keeps the tree consistent with the blocks imported so far,
when an import carries its block's number and no block imported before is a
descendant of the new one. -/
theorem ForkTree.Consistent.apply {isDescendentOf : H → H → Except E Bool}
    (decides : Decides ancestry isDescendentOf)
    (consistent : ForkTree.Consistent ancestry imported tree)
    {operation : ForkTree.Operation H N V} (numbered : operation.Numbered ancestry)
    (ordered : ∀ hash ∈ operation.importedHash, ∀ earlier ∈ imported,
      ancestry.isAncestor hash earlier = false) :
    ForkTree.Consistent ancestry (imported ++ operation.importedHash.toList)
      (operation.apply isDescendentOf tree) := by
  cases operation with
  | «import» hash number data =>
      have extended : imported ⊆ imported ++ [hash] := List.subset_append_left _ _
      have noDescendant : ∀ node ∈ Node.forestNodes tree.roots,
          ancestry.isAncestor hash node.hash = false := fun node member =>
        ordered hash rfl node.hash (consistent.imported _ (Node.hash_mem_forestHashes member))
      simp only [ForkTree.Operation.importedHash, Option.toList_some, ForkTree.Operation.apply]
      rcases ForkTree.import_spec decides data numbered consistent.represents with
        ⟨_, refused⟩ | ⟨_, _, refused⟩ | ⟨_, fresh, deepest, deepestAt, attached⟩ |
          ⟨_, fresh, noAncestor, added⟩
      · rw [refused, ForkTree.orKeep_error]
        exact consistent.mono extended
      · rw [refused, ForkTree.orKeep_error]
        exact consistent.mono extended
      · rw [attached, ForkTree.orKeep_ok]
        refine ⟨consistent.represents.attachLeafForest numbered fresh noDescendant deepestAt,
          fun member present => ?_⟩
        rcases (Node.mem_forestHashes_attachLeafForest tree.roots).mp present with
          old | ⟨rfl, _⟩
        · exact extended (consistent.imported member old)
        · exact List.mem_append_right _ (List.mem_singleton_self _)
      · rw [added, ForkTree.orKeep_ok]
        refine ⟨consistent.represents.append_leaf numbered fresh noDescendant noAncestor,
          fun member present => ?_⟩
        rw [Node.forestHashes_append, Node.forestHashes_leaf, List.mem_append] at present
        rcases present with old | leaf
        · exact extended (consistent.imported member old)
        · exact List.mem_append_right _ leaf
  | finalizeRoot hash =>
      simp only [ForkTree.Operation.importedHash, Option.toList_none, List.append_nil,
        ForkTree.Operation.apply]
      exact consistent.of_subperm (ForkTree.finalizeRoot_sublist tree hash).subperm
  | finalize hash number =>
      simp only [ForkTree.Operation.importedHash, Option.toList_none, List.append_nil,
        ForkTree.Operation.apply]
      exact consistent.orKeep fun _ _ finalizes => (ForkTree.finalize_sublist finalizes).subperm
  | finalizeWithAncestors hash number =>
      simp only [ForkTree.Operation.importedHash, Option.toList_none, List.append_nil,
        ForkTree.Operation.apply]
      exact consistent.orKeep fun _ _ finalizes => ForkTree.finalizeWithAncestors_subperm finalizes
  | finalizeWithDescendentIf hash number predicate =>
      simp only [ForkTree.Operation.importedHash, Option.toList_none, List.append_nil,
        ForkTree.Operation.apply]
      exact consistent.orKeep fun _ _ finalizes =>
        (ForkTree.finalizeWithDescendentIf_sublist finalizes).subperm
  | prune hash number predicate =>
      simp only [ForkTree.Operation.importedHash, Option.toList_none, List.append_nil,
        ForkTree.Operation.apply]
      split
      · rename_i pruned prunes
        exact consistent.prune prunes
      · exact consistent

end Consistent

/-- Every run whose imports carry block numbers and come ancestor before
descendant ends in a tree that represents its blocks, all imported. -/
theorem ForkTree.run_consistent {ancestry : Ancestry H N}
    {isDescendentOf : H → H → Except E Bool} (decides : Decides ancestry isDescendentOf)
    (operations : List (ForkTree.Operation H N V))
    (numbered : ∀ operation ∈ operations, operation.Numbered ancestry)
    (ordered : ForkTree.ImportsInOrder ancestry operations) :
    ForkTree.Consistent ancestry (ForkTree.importedHashes operations)
      (ForkTree.run isDescendentOf operations) := by
  -- the invariant carries the hypotheses of the prefix performed so far
  refine Transition.perform_invariant (ForkTree.Operation.apply isDescendentOf)
    (fun done tree => (∀ operation ∈ done, operation.Numbered ancestry) →
      ForkTree.ImportsInOrder ancestry done →
        ForkTree.Consistent ancestry (ForkTree.importedHashes done) tree)
    (fun _ _ => ⟨Represents.nil ancestry, fun _ member => absurd member List.not_mem_nil⟩)
    (fun done tree operation inductionHypothesis doneNumbered doneOrdered => ?_)
    operations numbered ordered
  unfold ForkTree.ImportsInOrder at doneOrdered
  rw [ForkTree.importedHashes_append, ForkTree.importedHashes_singleton,
    List.pairwise_append] at doneOrdered
  obtain ⟨prefixOrdered, _, lastOrdered⟩ := doneOrdered
  have prefixConsistent := inductionHypothesis
    (fun operation member => doneNumbered operation (List.mem_append_left _ member))
    prefixOrdered
  rw [ForkTree.importedHashes_append, ForkTree.importedHashes_singleton]
  exact prefixConsistent.apply decides
    (doneNumbered operation (List.mem_append_right _ (List.mem_singleton_self _)))
    (fun hash chosen earlier member =>
      lastOrdered earlier member hash (Option.mem_toList.mpr chosen))

end OffchainStorage.Fork

/-! ## What the trees of a run look like -/

namespace OffchainStorage.Fork

variable {H N V E : Type} [DecidableEq H] [LinearOrder N]

/-- Every tree reached by a run whose imports carry block numbers and come
ancestor before descendant has distinct hashes, holds below each node exactly
the node's descendants, and numbers children above their parents; `import`
of a block with its number then reverts exactly at or below the best
finalized number, refuses a duplicate exactly for a block in the tree above
that number, and otherwise attaches the block below its deepest ancestor in
the tree, answering `true` exactly when it has none. -/
theorem run_represents_blocks (ancestry : Ancestry H N)
    (isDescendentOf : H → H → Except E Bool) (decides : Decides ancestry isDescendentOf)
    (operations : List (ForkTree.Operation H N V))
    (numbered : ∀ operation ∈ operations, operation.Numbered ancestry)
    (ordered : ForkTree.ImportsInOrder ancestry operations) {tree : ForkTree H N V}
    (reached : ForkTree.run isDescendentOf operations = tree) :
    (Node.forestHashes tree.roots).Nodup ∧
      (∀ node ∈ Node.forestNodes tree.roots, ∀ member ∈ Node.forestNodes tree.roots,
        member ∈ Node.forestNodes node.children ↔
          ancestry.isAncestor node.hash member.hash = true) ∧
      (∀ node ∈ Node.forestNodes tree.roots, ∀ child ∈ node.children,
        node.number < child.number) ∧
      ∀ (hash : H) (number : N) (data : V), number = ancestry.rank hash →
        (tree.import hash number data isDescendentOf = .error .revert ↔
            tree.belowFinalized number = true) ∧
          (tree.import hash number data isDescendentOf = .error .duplicate ↔
            hash ∈ Node.forestHashes tree.roots ∧ tree.belowFinalized number = false) ∧
          (tree.belowFinalized number = false → hash ∉ Node.forestHashes tree.roots →
            (∀ deepest, DeepestAncestor ancestry tree.roots hash deepest →
              tree.import hash number data isDescendentOf =
                .ok (false, { tree with
                  roots := Node.attachLeafForest deepest.hash hash number data tree.roots })) ∧
            ((∀ node ∈ Node.forestNodes tree.roots,
                ancestry.isAncestor node.hash hash = false) →
              tree.import hash number data isDescendentOf =
                .ok (true, { tree with roots := tree.roots ++ [Node.leaf hash number data] }))) := by
  have represents : Represents ancestry tree.roots := by
    rw [← reached]
    exact (ForkTree.run_consistent decides operations numbered ordered).represents
  refine ⟨represents.nodup, fun node nodeMember member memberInTree =>
    represents.mem_descendants_iff nodeMember memberInTree,
    fun node nodeMember child isChild => represents.number_lt_of_mem_children nodeMember isChild,
    fun hash number data blockNumber =>
      ForkTree.import_outcomes decides represents data blockNumber⟩

/-- The run of the witness: blocks `1` and `2` of the chain imported in
order. -/
theorem run_represents_blocks_on_chain :
    (∀ operation ∈ ([.import 1 1 0, .import 2 2 0] : List (ForkTree.Operation Nat Nat Nat)),
        operation.Numbered Ancestry.chain) ∧
      ForkTree.ImportsInOrder Ancestry.chain
        ([.import 1 1 0, .import 2 2 0] : List (ForkTree.Operation Nat Nat Nat)) ∧
      (Node.forestHashes (ForkTree.run (fun base block => .ok (decide (base < block)) :
        Nat → Nat → Except Unit Bool) [.import 1 1 0, .import 2 2 0]).roots).Nodup :=
  ⟨by decide, by decide,
    (run_represents_blocks Ancestry.chain (fun base block => .ok (decide (base < block)))
      (fun _ _ => rfl) [.import 1 1 0, .import 2 2 0] (by decide) (by decide) rfl).1⟩

/-- On the chain, after importing block `1` and finalizing block `2` with a
predicate that fails (which keeps root `1`), block `1` is in the tree but a
new import of it reverts instead of being refused as a duplicate. -/
theorem import_in_tree_reverts :
    Node.forestHashes (ForkTree.run (fun base block => .ok (decide (base < block)) :
        Nat → Nat → Except Unit Bool)
        ([.import 1 1 0, .finalizeWithDescendentIf 2 2 fun _ => false] :
          List (ForkTree.Operation Nat Nat Nat))).roots = [1] ∧
      ((ForkTree.run (fun base block => .ok (decide (base < block)) :
          Nat → Nat → Except Unit Bool)
          ([.import 1 1 0, .finalizeWithDescendentIf 2 2 fun _ => false] :
            List (ForkTree.Operation Nat Nat Nat))).import 1 1 0
          (fun base block => .ok (decide (base < block)) :
            Nat → Nat → Except Unit Bool)).map Prod.fst = .error .revert := by
  decide

end OffchainStorage.Fork
