import Mathlib
import OffchainStorage.ForkTree.Search

/-!
# `finalize_with_ancestors` keeps exactly the descendants

The loop of `finalize_with_ancestors` walks the roots: it keeps a descendant
of the block, opens an ancestor (its children join the roots) and drops any
other root, and it stops at the block's own node.  On a represented tree with
a client that decides, a root that is neither the block, its ancestor nor its
descendant holds none of them below it, and an opened ancestor is neither the
block nor a descendant.  So every node at or below the block survives each
step (`keeps_of_open`, `keeps_of_drop`); when the roots run out they are all
descendants, and the tree holds exactly the block's strict descendants with
their subtrees.  `changed` is set exactly when a node that is no descendant
was dropped.
-/

namespace OffchainStorage.Fork

variable {H N V E : Type} [DecidableEq H] [LinearOrder N] {ancestry : Ancestry H N}
  {isDescendentOf : H → H → Except E Bool} {hash : H} {number : N}

/-- The block itself or one of its descendants. -/
def AtOrBelow (ancestry : Ancestry H N) (hash : H) (node : Node H N V) : Prop :=
  node.hash = hash ∨ ancestry.isAncestor hash node.hash = true

section Step

variable {roots : List (Node H N V)} {index : Nat}

/-- The loop's test for a descendant, on a node of a represented forest. -/
theorem Represents.descendantFlag (decides : Decides ancestry isDescendentOf)
    (numbered : number = ancestry.rank hash) (represents : Represents ancestry roots) {root : Node H N V}
    (member : root ∈ Node.forestNodes roots) :
    (!decide (root.hash = hash) && decide (root.number > number) &&
        ForkTree.unwrapOrFalse (isDescendentOf hash root.hash)) =
      ancestry.isAncestor hash root.hash := by
  rw [Bool.and_assoc, decides, ForkTree.unwrapOrFalse, represents.numbered root member, numbered]
  by_cases same : root.hash = hash
  · rw [same, ancestry.isAncestor_self]
    simp
  · cases below : ancestry.isAncestor hash root.hash
    · simp
    · simp [same, ancestry.rank_lt below]

/-- The loop's test for an ancestor, on a node of a represented forest. -/
theorem Represents.ancestorFlag (decides : Decides ancestry isDescendentOf)
    (numbered : number = ancestry.rank hash) (represents : Represents ancestry roots) {root : Node H N V}
    (member : root ∈ Node.forestNodes roots) :
    (!decide (root.hash = hash) &&
        !(!decide (root.hash = hash) && decide (root.number > number) &&
          ForkTree.unwrapOrFalse (isDescendentOf hash root.hash)) &&
        decide (root.number < number) && ForkTree.unwrapOrFalse (isDescendentOf root.hash hash)) =
      ancestry.isAncestor root.hash hash := by
  rw [represents.descendantFlag decides numbered member, Bool.and_assoc, decides, ForkTree.unwrapOrFalse,
    represents.numbered root member, numbered]
  cases above : ancestry.isAncestor root.hash hash
  · simp
  · -- an ancestor is neither the block nor below it
    have notSame : root.hash ≠ hash := fun same => by
      rw [same, ancestry.isAncestor_self] at above
      cases above
    simp [notSame, ancestry.not_isAncestor_of_isAncestor above, ancestry.rank_lt above]

omit [DecidableEq H] in
/-- Opening an ancestor of the block keeps every node at or below the block:
the ancestor itself is neither. -/
theorem keeps_of_open (valid : index < roots.length)
    (above : ancestry.isAncestor roots[index].hash hash = true) {node : Node H N V}
    (member : node ∈ Node.forestNodes roots) (atOrBelow : AtOrBelow ancestry hash node) :
    node ∈ Node.forestNodes (VecOps.swapRemove roots index ++ roots[index].children) := by
  rw [Node.forestNodes_append, List.mem_append]
  rcases List.mem_append.mp ((Node.forestNodes_swapRemove_perm roots valid).symm.subset member) with
    inRoot | inRest
  · rcases Node.mem_nodes_iff.mp inRoot with rfl | below
    · -- the opened ancestor is not the block, nor below it
      rcases atOrBelow with same | below
      · rw [same, ancestry.isAncestor_self] at above
        cases above
      · rw [ancestry.not_isAncestor_of_isAncestor above] at below
        cases below
    · exact Or.inr below
  · exact Or.inl inRest

omit [DecidableEq H] in
/-- Dropping a root that is neither the block, its ancestor nor its
descendant keeps every node at or below the block: none lies below it. -/
theorem Represents.keeps_of_drop (represents : Represents ancestry roots) (valid : index < roots.length)
    (notSame : roots[index].hash ≠ hash) (notBelow : ancestry.isAncestor hash roots[index].hash = false)
    (notAbove : ancestry.isAncestor roots[index].hash hash = false) {node : Node H N V}
    (member : node ∈ Node.forestNodes roots) (atOrBelow : AtOrBelow ancestry hash node) :
    node ∈ Node.forestNodes (VecOps.swapRemove roots index) := by
  rcases List.mem_append.mp ((Node.forestNodes_swapRemove_perm roots valid).symm.subset member) with
    inRoot | inRest
  · exfalso
    have rootMember : roots[index] ∈ Node.forestNodes roots :=
      Node.mem_forestNodes.mpr ⟨_, List.getElem_mem valid, Node.mem_nodes_self _⟩
    rcases Node.mem_nodes_iff.mp inRoot with rfl | below
    · rcases atOrBelow with same | below
      · exact notSame same
      · rw [notBelow] at below
        cases below
    · -- a node at or below the block under the root makes the root comparable with the block
      have rootAbove := represents.isAncestor_of_mem rootMember below
      rcases atOrBelow with same | nodeBelow
      · rw [same, notAbove] at rootAbove
        cases rootAbove
      · rcases ancestry.comparable rootAbove nodeBelow with same | rootAboveBlock | blockAboveRoot
        · exact notSame same
        · rw [notAbove] at rootAboveBlock
          cases rootAboveBlock
        · rw [notBelow] at blockAboveRoot
          cases blockAboveRoot
  · exact inRest

end Step

/-! ## The loop -/

omit [DecidableEq H] in
/-- The nodes below descendants of the block are descendants. -/
theorem Represents.below_of_roots_below {roots : List (Node H N V)} (represents : Represents ancestry roots)
    (rootsBelow : ∀ root ∈ roots, ancestry.isAncestor hash root.hash = true) :
    ∀ node ∈ Node.forestNodes roots, ancestry.isAncestor hash node.hash = true := by
  intro node member
  obtain ⟨root, isRoot, inRoot⟩ := Node.mem_forestNodes.mp member
  rcases Node.mem_nodes_iff.mp inRoot with rfl | below
  · exact rootsBelow node isRoot
  · have rootMember : root ∈ Node.forestNodes roots :=
      Node.mem_forestNodes.mpr ⟨root, isRoot, Node.mem_nodes_self _⟩
    exact ancestry.trans (rootsBelow root isRoot) (represents.isAncestor_of_mem rootMember below)

theorem elim_imp_elim {α β : Type} {P P' : α → Prop} {Q Q' : β → Prop} (result : α ⊕ β)
    (onLeft : ∀ a, P a → P' a) (onRight : ∀ b, Q b → Q' b) : result.elim P Q → result.elim P' Q' := by
  cases result with
  | inl a => exact onLeft a
  | inr b => exact onRight b

omit [DecidableEq H] [LinearOrder N] in
theorem Node.mem_forestNodes_of_mem {roots : List (Node H N V)} {root : Node H N V} (isRoot : root ∈ roots) :
    root ∈ Node.forestNodes roots :=
  Node.mem_forestNodes.mpr ⟨root, isRoot, Node.mem_nodes_self _⟩

/-- Where the loop of `finalize_with_ancestors` ends, from roots whose first
`index` are descendants of the block: at the block's own node, or with roots
below the block that keep every node at or below it, having changed exactly
when some node was no descendant. -/
theorem ForkTree.ancestorsLoop_spec (decides : Decides ancestry isDescendentOf)
    (numbered : number = ancestry.rank hash) (roots : List (Node H N V)) (index : Nat) (changed : Bool)
    (represents : Represents ancestry roots)
    (prefixBelow : ∀ root ∈ roots.take index, ancestry.isAncestor hash root.hash = true) :
    (ForkTree.ancestorsLoop isDescendentOf hash number roots index changed).elim
      (fun root => root ∈ Node.forestNodes roots ∧ root.hash = hash)
      (fun ended =>
        (∀ node ∈ Node.forestNodes roots, AtOrBelow ancestry hash node → node ∈ Node.forestNodes ended.1) ∧
          (∀ node ∈ Node.forestNodes ended.1, ancestry.isAncestor hash node.hash = true) ∧
          (ended.2 = true ↔
            changed = true ∨ ∃ node ∈ Node.forestNodes roots, ancestry.isAncestor hash node.hash = false)) := by
  fun_induction ForkTree.ancestorsLoop isDescendentOf hash number roots index changed with
  | case1 roots index changed valid root isFinalizedFlag isFinalized =>
    -- the block's own root ends the loop
    exact ⟨Node.mem_forestNodes_of_mem (List.getElem_mem valid), of_decide_eq_true isFinalized⟩
  | case2 roots index changed valid root isFinalizedFlag isDescendantFlag _ isDescendant ih =>
    -- a descendant stays, and the prefix of descendants grows by it
    have rootMember : roots[index] ∈ Node.forestNodes roots := Node.mem_forestNodes_of_mem (List.getElem_mem valid)
    have below : ancestry.isAncestor hash roots[index].hash = true :=
      (represents.descendantFlag decides numbered rootMember).symm.trans isDescendant
    apply ih represents
    intro other kept
    rw [List.take_add_one, List.getElem?_eq_getElem valid, Option.toList_some, List.mem_append,
      List.mem_singleton] at kept
    rcases kept with inPrefix | rfl
    · exact prefixBelow other inPrefix
    · exact below
  | case3 roots index changed valid root isFinalizedFlag isDescendantFlag isAncestorFlag _ _ isAncestor ih =>
    -- an ancestor is opened: its children join the roots
    have rootMember : roots[index] ∈ Node.forestNodes roots := Node.mem_forestNodes_of_mem (List.getElem_mem valid)
    have above : ancestry.isAncestor roots[index].hash hash = true :=
      (represents.ancestorFlag decides numbered rootMember).symm.trans isAncestor
    have opened := represents.of_subperm (Node.forestNodes_open_subperm roots valid)
    have openedPrefix : (VecOps.swapRemove roots index ++ roots[index].children).take index =
        roots.take index := by
      have shorter : index ≤ (VecOps.swapRemove roots index).length := by
        rw [(VecOps.swapRemove_perm roots valid).length_eq, List.length_eraseIdx_of_lt valid]
        omega
      rw [List.take_append_of_le_length shorter, VecOps.take_swapRemove roots valid]
    refine elim_imp_elim _ (fun found inOpened =>
      ⟨(Node.forestNodes_open_subperm roots valid).subset inOpened.1, inOpened.2⟩) ?_
      (ih opened (openedPrefix ▸ prefixBelow))
    rintro ⟨final, changedAfter⟩ ⟨keeps, allBelow, changedIff⟩
    refine ⟨fun node member atOrBelow =>
      keeps node (keeps_of_open valid above member atOrBelow) atOrBelow, allBelow, ?_⟩
    -- the opened ancestor is no descendant, so both sides hold
    have notBelow : ancestry.isAncestor hash roots[index].hash = false :=
      ancestry.not_isAncestor_of_isAncestor above
    exact ⟨fun _ => Or.inr ⟨_, rootMember, notBelow⟩, fun _ => changedIff.mpr (Or.inl rfl)⟩
  | case4 roots index changed valid root isFinalizedFlag isDescendantFlag isAncestorFlag notFinalized
      notDescendant notAncestor ih =>
    -- any other root is dropped
    have rootMember : roots[index] ∈ Node.forestNodes roots := Node.mem_forestNodes_of_mem (List.getElem_mem valid)
    have notSame : roots[index].hash ≠ hash := fun same => notFinalized (decide_eq_true same)
    have notBelow : ancestry.isAncestor hash roots[index].hash = false := by
      rw [← represents.descendantFlag decides numbered rootMember]
      exact Bool.eq_false_iff.mpr notDescendant
    have notAbove : ancestry.isAncestor roots[index].hash hash = false := by
      rw [← represents.ancestorFlag decides numbered rootMember]
      exact Bool.eq_false_iff.mpr notAncestor
    have dropped := represents.of_subperm (Node.forestNodes_swapRemove_subperm roots valid)
    refine elim_imp_elim _ (fun found inDropped =>
      ⟨(Node.forestNodes_swapRemove_subperm roots valid).subset inDropped.1, inDropped.2⟩) ?_
      (ih dropped (VecOps.take_swapRemove roots valid ▸ prefixBelow))
    rintro ⟨final, changedAfter⟩ ⟨keeps, allBelow, changedIff⟩
    refine ⟨fun node member atOrBelow =>
      keeps node (represents.keeps_of_drop valid notSame notBelow notAbove member atOrBelow) atOrBelow,
      allBelow, ?_⟩
    exact ⟨fun _ => Or.inr ⟨_, rootMember, notBelow⟩, fun _ => changedIff.mpr (Or.inl rfl)⟩
  | case5 roots index changed ended =>
    -- every root is a descendant, and so is every node below one
    rw [List.take_of_length_le (Nat.le_of_not_lt ended)] at prefixBelow
    have allBelow := represents.below_of_roots_below prefixBelow
    refine ⟨fun node member _ => member, allBelow, ⟨Or.inl, ?_⟩⟩
    rintro (changed | ⟨node, member, notBelow⟩)
    · exact changed
    · rw [allBelow node member] at notBelow
      cases notBelow

/-! ## The descendants of the block -/

/-- A sub-multiset of a list without duplicates that holds exactly the
elements passing a test is a permutation of the filtered list. -/
theorem perm_filter_of_subperm {α : Type} {smaller larger : List α} {test : α → Bool}
    (subperm : smaller.Subperm larger) (nodup : larger.Nodup) (passing : ∀ x ∈ smaller, test x = true)
    (kept : ∀ x ∈ larger, test x = true → x ∈ smaller) : smaller.Perm (larger.filter test) := by
  rw [List.perm_ext_iff_of_nodup (nodup_of_subperm subperm nodup) (nodup.filter test)]
  intro x
  rw [List.mem_filter]
  exact ⟨fun member => ⟨subperm.subset member, passing x member⟩, fun ⟨member, passes⟩ => kept x member passes⟩

theorem filter_perm_self_iff {α : Type} {l : List α} {test : α → Bool} :
    (l.filter test).Perm l ↔ ∀ x ∈ l, test x = true := by
  constructor
  · intro perm x member
    exact (List.mem_filter.mp (perm.mem_iff.mpr member)).2
  · intro allPass
    rw [List.filter_eq_self.mpr allPass]

omit [DecidableEq H] in
theorem Represents.nodes_nodup {forest : List (Node H N V)} (represents : Represents ancestry forest) :
    (Node.forestNodes forest).Nodup :=
  List.Nodup.of_map Node.hash represents.nodup

omit [DecidableEq H] in
/-- Below the block's node lie exactly the block's descendants. -/
theorem Represents.children_perm_descendants {forest : List (Node H N V)}
    (represents : Represents ancestry forest) {node : Node H N V} (member : node ∈ Node.forestNodes forest)
    (sameHash : node.hash = hash) :
    (Node.forestNodes node.children).Perm
      ((Node.forestNodes forest).filter fun other => ancestry.isAncestor hash other.hash) := by
  have sublist := (Node.forestNodes_children_sublist node).trans (Node.nodes_sublist_forestNodes forest member)
  apply perm_filter_of_subperm sublist.subperm represents.nodes_nodup
  · intro other below
    exact sameHash ▸ represents.isAncestor_of_mem member below
  · intro other otherMember below
    exact (represents.mem_descendants_iff member otherMember).mpr (sameHash ▸ below)

omit [DecidableEq H] in
/-- A node with the block's hash is not among the nodes strictly below it. -/
theorem not_perm_of_mem_hash {forest final : List (Node H N V)} {node : Node H N V}
    (member : node ∈ Node.forestNodes forest) (sameHash : node.hash = hash)
    (allBelow : ∀ other ∈ Node.forestNodes final, ancestry.isAncestor hash other.hash = true) :
    ¬(Node.forestNodes final).Perm (Node.forestNodes forest) := by
  intro perm
  have kept := allBelow node (perm.mem_iff.mpr member)
  rw [sameHash, ancestry.isAncestor_self] at kept
  cases kept

omit [LinearOrder N] in
/-- `finalize_root`: a root with the block's hash is finalized, and without
one the tree is kept. -/
theorem ForkTree.finalizeRoot_cases (tree : ForkTree H N V) (hash : H) :
    ((∀ root ∈ tree.roots, root.hash ≠ hash) ∧ tree.finalizeRoot hash = (none, tree)) ∨
      ∃ root ∈ tree.roots, root.hash = hash ∧
        tree.finalizeRoot hash = (some root.data, ⟨root.children, some root.number⟩) := by
  unfold ForkTree.finalizeRoot
  split
  next found =>
    left
    refine ⟨fun root isRoot same => ?_, rfl⟩
    exact List.findFinIdx?_eq_none_iff.mp found root isRoot (decide_eq_true same)
  next position found =>
    right
    have sameHash := of_decide_eq_true (List.findFinIdx?_eq_some_iff.mp found).1
    exact ⟨_, List.get_mem _ _, sameHash, rfl⟩

section Finalize

variable {tree : ForkTree H N V}

omit [DecidableEq H] in
theorem ForkTree.belowFinalized_eq_false (above : ∀ best, tree.bestFinalizedNumber = some best → best < number) :
    tree.belowFinalized number = false := by
  unfold ForkTree.belowFinalized
  cases best : tree.bestFinalizedNumber with
  | none => rfl
  | some best' => simp [above best' best]

variable (decides : Decides ancestry isDescendentOf) (numbered : number = ancestry.rank hash)
  (represents : Represents ancestry tree.roots)
  (above : ∀ best, tree.bestFinalizedNumber = some best → best < number)
include decides numbered represents above

/-- With the block in the tree, its node is finalized: as a root by
`finalize_root`, or reached by the loop. -/
theorem ForkTree.finalizeWithAncestors_of_mem {node : Node H N V} (member : node ∈ Node.forestNodes tree.roots)
    (sameHash : node.hash = hash) :
    tree.finalizeWithAncestors hash number isDescendentOf =
      .ok (.changed (some node.data), ⟨node.children, some number⟩) := by
  unfold ForkTree.finalizeWithAncestors
  rw [ForkTree.belowFinalized_eq_false above, if_neg Bool.false_ne_true]
  rcases ForkTree.finalizeRoot_cases tree hash with ⟨_, notRoot⟩ | ⟨root, isRoot, rootHash, finalizesRoot⟩
  · rw [notRoot]
    dsimp only
    have ended := ForkTree.ancestorsLoop_spec decides numbered tree.roots 0 false represents (by simp)
    revert ended
    cases ForkTree.ancestorsLoop isDescendentOf hash number tree.roots 0 false with
    | inl found =>
      rintro ⟨foundMember, foundHash⟩
      dsimp only
      rw [represents.eq_of_hash_eq foundMember member (foundHash.trans sameHash.symm),
        represents.numbered node member, sameHash, ← numbered]
    | inr ended =>
      -- the loop would keep the block's node, which is no strict descendant
      rintro ⟨keeps, allBelow, -⟩
      have kept := allBelow node (keeps node member (Or.inl sameHash))
      rw [sameHash, ancestry.isAncestor_self] at kept
      cases kept
  · have rootMember := Node.mem_forestNodes_of_mem isRoot
    rw [finalizesRoot, represents.eq_of_hash_eq rootMember member (rootHash.trans sameHash.symm),
      represents.numbered node member, sameHash, ← numbered]

/-- Without the block in the tree, the loop runs to its end. -/
theorem ForkTree.finalizeWithAncestors_of_not_mem (missing : ∀ node ∈ Node.forestNodes tree.roots, node.hash ≠ hash) :
    ∃ final changed, tree.finalizeWithAncestors hash number isDescendentOf =
        .ok (if changed then .changed none else .unchanged, ⟨final, some number⟩) ∧
      (Node.forestNodes final).Subperm (Node.forestNodes tree.roots) ∧
      (∀ node ∈ Node.forestNodes tree.roots, AtOrBelow ancestry hash node → node ∈ Node.forestNodes final) ∧
      (∀ node ∈ Node.forestNodes final, ancestry.isAncestor hash node.hash = true) ∧
      (changed = true ↔ ∃ node ∈ Node.forestNodes tree.roots, ancestry.isAncestor hash node.hash = false) := by
  unfold ForkTree.finalizeWithAncestors
  rw [ForkTree.belowFinalized_eq_false above, if_neg Bool.false_ne_true]
  rcases ForkTree.finalizeRoot_cases tree hash with ⟨_, notRoot⟩ | ⟨root, isRoot, rootHash, -⟩
  · rw [notRoot]
    dsimp only
    have ended := ForkTree.ancestorsLoop_spec decides numbered tree.roots 0 false represents (by simp)
    have subperm := ForkTree.ancestorsLoop_subperm isDescendentOf hash number tree.roots 0 false
    revert ended subperm
    cases ForkTree.ancestorsLoop isDescendentOf hash number tree.roots 0 false with
    | inl found =>
      rintro ⟨foundMember, foundHash⟩ -
      exact absurd foundHash (missing found foundMember)
    | inr ended =>
      rintro ⟨keeps, allBelow, changedIff⟩ subperm
      simp only [Bool.false_eq_true, false_or] at changedIff
      exact ⟨ended.1, ended.2, rfl, subperm, keeps, allBelow, changedIff⟩
  · exact absurd rootHash (missing root (Node.mem_forestNodes_of_mem isRoot))

end Finalize

/-- On a represented tree, with a client that answers with the ancestry of the
blocks and a block above the best finalized number carrying its own number,
`finalize_with_ancestors` succeeds and keeps exactly the old nodes strictly
below the block, each with its subtree; it reports the block's data when the
block was a node, no change when no node went, and a change without data
otherwise. -/
theorem finalizeWithAncestors_keeps_descendants (ancestry : Ancestry H N) (tree : ForkTree H N V) (hash : H)
    (number : N) (isDescendentOf : H → H → Except E Bool) (represents : Represents ancestry tree.roots)
    (decides : Decides ancestry isDescendentOf) (numbered : number = ancestry.rank hash)
    (above : ∀ best, tree.bestFinalizedNumber = some best → best < number) :
    ∃ result finalized, tree.finalizeWithAncestors hash number isDescendentOf = .ok (result, finalized) ∧
      (Node.forestNodes finalized.roots).Perm
        ((Node.forestNodes tree.roots).filter fun node => ancestry.isAncestor hash node.hash) ∧
      finalized.bestFinalizedNumber = some number ∧
      (∀ data, result = .changed (some data) ↔
        ∃ node ∈ Node.forestNodes tree.roots, node.hash = hash ∧ node.data = data) ∧
      (result = .unchanged ↔ (Node.forestNodes finalized.roots).Perm (Node.forestNodes tree.roots)) ∧
      (result = .changed none ↔ (∀ node ∈ Node.forestNodes tree.roots, node.hash ≠ hash) ∧
        ¬(Node.forestNodes finalized.roots).Perm (Node.forestNodes tree.roots)) := by
  by_cases present : ∃ node ∈ Node.forestNodes tree.roots, node.hash = hash
  · -- the block's node is finalized and its children become the roots
    obtain ⟨node, member, sameHash⟩ := present
    have allBelow : ∀ other ∈ Node.forestNodes node.children, ancestry.isAncestor hash other.hash = true :=
      fun other below => sameHash ▸ represents.isAncestor_of_mem member below
    have changes := not_perm_of_mem_hash member sameHash allBelow
    refine ⟨_, _, ForkTree.finalizeWithAncestors_of_mem decides numbered represents above member sameHash,
      represents.children_perm_descendants member sameHash, rfl, fun data => ⟨?_, ?_⟩,
      ⟨fun unchanged => (by cases unchanged), fun perm => absurd perm changes⟩,
      ⟨fun noData => (by cases noData), fun ⟨missing, _⟩ => absurd sameHash (missing node member)⟩⟩
    · rintro ⟨⟩
      exact ⟨node, member, sameHash, rfl⟩
    · rintro ⟨other, otherMember, otherHash, rfl⟩
      rw [represents.eq_of_hash_eq otherMember member (otherHash.trans sameHash.symm)]
  · -- the loop runs to its end and keeps exactly the descendants
    simp only [not_exists, not_and] at present
    obtain ⟨final, changed, finalizes, subperm, keeps, allBelow, changedIff⟩ :=
      ForkTree.finalizeWithAncestors_of_not_mem decides numbered represents above present
    have descendants : (Node.forestNodes final).Perm
        ((Node.forestNodes tree.roots).filter fun node => ancestry.isAncestor hash node.hash) :=
      perm_filter_of_subperm subperm represents.nodes_nodup allBelow
        fun node member below => keeps node member (Or.inr below)
    have unchangedIff : changed = false ↔ (Node.forestNodes final).Perm (Node.forestNodes tree.roots) := by
      have samePerm : (Node.forestNodes final).Perm (Node.forestNodes tree.roots) ↔
          ((Node.forestNodes tree.roots).filter fun node => ancestry.isAncestor hash node.hash).Perm
            (Node.forestNodes tree.roots) :=
        ⟨descendants.symm.trans, descendants.trans⟩
      rw [samePerm, filter_perm_self_iff, ← Bool.not_eq_true, changedIff]
      simp only [not_exists, not_and, Bool.not_eq_false]
    refine ⟨_, _, finalizes, descendants, rfl, fun data => ⟨?_, ?_⟩, ?_, ?_⟩
    · cases changed <;> simp
    · rintro ⟨node, member, sameHash, -⟩
      exact absurd sameHash (present node member)
    · rw [← unchangedIff]
      cases changed <;> simp
    · rw [← unchangedIff]
      cases changed with
      | false => simp
      | true => simpa using present

theorem finalizeWithAncestors_keeps_descendants_on_chain :
    Represents Ancestry.chain chainTree.roots ∧
      ∃ result finalized, chainTree.finalizeWithAncestors 2 2
          (fun base block => (.ok (decide (base < block)) : Except Unit Bool)) = .ok (result, finalized) ∧
        (Node.forestNodes finalized.roots).Perm
          ((Node.forestNodes chainTree.roots).filter fun node => Ancestry.chain.isAncestor 2 node.hash) := by
  have represents : Represents Ancestry.chain chainTree.roots := ⟨by decide, by decide, by decide⟩
  obtain ⟨result, finalized, finalizes, descendants, -⟩ := finalizeWithAncestors_keeps_descendants
    Ancestry.chain chainTree 2 2 (fun base block => (.ok (decide (base < block)) : Except Unit Bool))
    represents (fun _ _ => rfl) rfl (fun _ noBest => (by cases noBest))
  exact ⟨represents, result, finalized, finalizes, descendants⟩

end OffchainStorage.Fork
