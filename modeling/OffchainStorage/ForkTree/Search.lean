import Mathlib
import OffchainStorage.ForkTree.DryRun

/-!
# `find_node_where` finds the deepest passing ancestor

On a represented tree, with a client that answers with the ancestry of the
blocks, the backtracking search of `Node::find_node_where` returns the deepest
node that is a strict ancestor of the block and passes the predicate.  A node
whose subtree holds such an ancestor is itself an ancestor, so the search may
stop at the first child that reports the block below it; and the ancestors of
one block all lie in one tree of a forest, so the other children and roots
hold none.  `prune` then keeps that node as the only root with at most one
child, the block itself or its ancestor.
-/

namespace OffchainStorage.Fork

variable {H N V E : Type}

section Passing

variable [LinearOrder N]

/-- `found` is the node of the forest that is a strict ancestor of `hash`,
passes the predicate, and lies below every other such node. -/
structure DeepestPassing (ancestry : Ancestry H N) (forest : List (Node H N V)) (hash : H)
    (predicate : V → Bool) (found : Node H N V) : Prop where
  mem : found ∈ Node.forestNodes forest
  isAncestor : ancestry.isAncestor found.hash hash = true
  passes : predicate found.data = true
  deepest : ∀ node ∈ Node.forestNodes forest, ancestry.isAncestor node.hash hash = true →
    predicate node.data = true → node = found ∨ ancestry.isAncestor node.hash found.hash = true

/-- No node of the forest is a strict ancestor of `hash` that passes the
predicate. -/
def NonePassing (ancestry : Ancestry H N) (forest : List (Node H N V)) (hash : H)
    (predicate : V → Bool) : Prop :=
  ∀ node ∈ Node.forestNodes forest, ancestry.isAncestor node.hash hash = true →
    predicate node.data = false

variable {ancestry : Ancestry H N} {hash : H} {number : N} {predicate : V → Bool}

/-- Below a node above the block's number nothing is an ancestor of the
block. -/
theorem Represents.not_isAncestor_of_lt {node : Node H N V} (represents : Represents ancestry [node])
    (numbered : number = ancestry.rank hash) (lower : number < node.number) :
    ∀ member ∈ node.nodes, ancestry.isAncestor member.hash hash = false := by
  intro member inNode
  have nodeMember : node ∈ Node.forestNodes [node] := by simp
  have memberInForest : member ∈ Node.forestNodes [node] := by simpa using inNode
  rw [Bool.eq_false_iff]
  intro above
  have memberLower := represents.number_lt_of_isAncestor memberInForest numbered above
  rcases Node.mem_nodes_iff.mp inNode with rfl | below
  · exact absurd memberLower (not_lt.mpr lower.le)
  · -- the member lies below the node, so its number is larger still
    have ranks := ancestry.rank_lt (represents.isAncestor_of_mem nodeMember below)
    rw [represents.numbered node nodeMember] at lower
    rw [represents.numbered member memberInForest] at memberLower
    exact absurd (lower.trans ranks) (not_lt.mpr memberLower.le)

/-- A node of a later tree is no ancestor of the block when a node of the
first tree is: the ancestors of one block lie on one branch. -/
theorem Represents.not_isAncestor_rest {root : Node H N V} {rest : List (Node H N V)}
    (represents : Represents ancestry (root :: rest)) {first second : Node H N V}
    (inRoot : first ∈ root.nodes) (inRest : second ∈ Node.forestNodes rest)
    (firstAbove : ancestry.isAncestor first.hash hash = true) :
    ancestry.isAncestor second.hash hash = false := by
  rw [Bool.eq_false_iff]
  intro secondAbove
  have firstMember : first ∈ Node.forestNodes (root :: rest) := by
    rw [Node.forestNodes_cons]
    exact List.mem_append_left _ inRoot
  have secondMember : second ∈ Node.forestNodes (root :: rest) := by
    rw [Node.forestNodes_cons]
    exact List.mem_append_right _ inRest
  obtain ⟨differentHash, notAbove⟩ := represents.unrelated_of_mem_rest inRest first inRoot
  rcases represents.below_or_above_of_onBranch firstMember secondMember (Or.inr firstAbove)
      (Or.inr secondAbove) with same | secondBelow | firstBelow
  · exact differentHash (congrArg Node.hash same)
  · rw [(represents.mem_descendants_iff firstMember secondMember).mp secondBelow] at notAbove
    cases notAbove
  · exact represents.not_mem_rest inRoot (Node.mem_forestNodes_of_below inRest firstBelow)

/-- The deepest passing ancestor below a node's children is the deepest of
the node's tree. -/
theorem DeepestPassing.of_children {node found : Node H N V} (represents : Represents ancestry [node])
    (deepestAt : DeepestPassing ancestry node.children hash predicate found) :
    DeepestPassing ancestry [node] hash predicate found where
  mem := by
    rw [Node.forestNodes_singleton]
    exact Node.mem_nodes_iff.mpr (Or.inr deepestAt.mem)
  isAncestor := deepestAt.isAncestor
  passes := deepestAt.passes
  deepest member inTree above passes := by
    rw [Node.forestNodes_singleton] at inTree
    rcases Node.mem_nodes_iff.mp inTree with rfl | below
    · exact Or.inr (represents.isAncestor_of_mem (by simp) deepestAt.mem)
    · exact deepestAt.deepest member below above passes

/-- The deepest passing ancestor of the first tree is the deepest of the
forest. -/
theorem DeepestPassing.of_head {root found : Node H N V} {rest : List (Node H N V)}
    (represents : Represents ancestry (root :: rest))
    (deepestAt : DeepestPassing ancestry [root] hash predicate found) :
    DeepestPassing ancestry (root :: rest) hash predicate found where
  mem := by
    rw [Node.forestNodes_cons]
    exact List.mem_append_left _ (by simpa using deepestAt.mem)
  isAncestor := deepestAt.isAncestor
  passes := deepestAt.passes
  deepest member inForest above passes := by
    rw [Node.forestNodes_cons, List.mem_append] at inForest
    rcases inForest with inRoot | inRest
    · exact deepestAt.deepest member (by simpa using inRoot) above passes
    · have foundInRoot : found ∈ root.nodes := by simpa using deepestAt.mem
      rw [represents.not_isAncestor_rest foundInRoot inRest deepestAt.isAncestor] at above
      exact absurd above Bool.false_ne_true

/-- The deepest passing ancestor of the later trees is the deepest of the
forest when the first tree holds none. -/
theorem DeepestPassing.of_tail {root found : Node H N V} {rest : List (Node H N V)}
    (nonePassing : NonePassing ancestry [root] hash predicate)
    (deepestAt : DeepestPassing ancestry rest hash predicate found) :
    DeepestPassing ancestry (root :: rest) hash predicate found where
  mem := by
    rw [Node.forestNodes_cons]
    exact List.mem_append_right _ deepestAt.mem
  isAncestor := deepestAt.isAncestor
  passes := deepestAt.passes
  deepest member inForest above passes := by
    rw [Node.forestNodes_cons, List.mem_append] at inForest
    rcases inForest with inRoot | inRest
    · rw [nonePassing member (by simpa using inRoot) above] at passes
      exact absurd passes Bool.false_ne_true
    · exact deepestAt.deepest member inRest above passes

theorem NonePassing.cons {root : Node H N V} {rest : List (Node H N V)}
    (onRoot : NonePassing ancestry [root] hash predicate) (onRest : NonePassing ancestry rest hash predicate) :
    NonePassing ancestry (root :: rest) hash predicate := by
  intro member inForest above
  rw [Node.forestNodes_cons, List.mem_append] at inForest
  rcases inForest with inRoot | inRest
  · exact onRoot member (by simpa using inRoot) above
  · exact onRest member inRest above

/-- The deepest passing ancestor is the highest-numbered one. -/
theorem DeepestPassing.number_le {forest : List (Node H N V)} {found : Node H N V}
    (represents : Represents ancestry forest) (deepestAt : DeepestPassing ancestry forest hash predicate found) :
    ∀ node ∈ Node.forestNodes forest, ancestry.isAncestor node.hash hash = true →
      predicate node.data = true → node.number ≤ found.number := by
  intro node member above passes
  rcases deepestAt.deepest node member above passes with rfl | nodeAbove
  · exact le_refl _
  · rw [represents.numbered node member, represents.numbered found deepestAt.mem]
    exact (ancestry.rank_lt nodeAbove).le

end Passing

/-! ## The search -/

section Search

variable [LinearOrder N] {ancestry : Ancestry H N}
  {isDescendentOf : H → H → Except E Bool} {hash : H} {number : N} {predicate : V → Bool}

mutual

/-- `Node::find_node_where` on a represented tree: the deepest passing
ancestor, or a failure that says whether the node is an ancestor. -/
theorem Node.findNodeWhere_spec (decides : Decides ancestry isDescendentOf)
    (numbered : number = ancestry.rank hash) :
    ∀ (node : Node H N V), Represents ancestry [node] →
      (∃ found, DeepestPassing ancestry [node] hash predicate found ∧
        node.findNodeWhere isDescendentOf hash number predicate = .ok (.found found)) ∨
      (NonePassing ancestry [node] hash predicate ∧
        node.findNodeWhere isDescendentOf hash number predicate =
          .ok (.failure (ancestry.isAncestor node.hash hash)))
  | ⟨selfHash, selfNumber, selfData, children⟩, represents => by
      have selfMember : (⟨selfHash, selfNumber, selfData, children⟩ : Node H N V) ∈
          Node.forestNodes [⟨selfHash, selfNumber, selfData, children⟩] := by
        simp
      rw [Node.findNodeWhere]
      by_cases lower : number < selfNumber
      · -- a node above the block's number holds no ancestor of it
        have none := represents.not_isAncestor_of_lt numbered lower
        rw [if_pos lower]
        refine Or.inr ⟨fun member inTree above => ?_, ?_⟩
        · rw [none member (by simpa using inTree)] at above
          exact absurd above Bool.false_ne_true
        · rw [none _ (Node.mem_nodes_self _)]
      · rw [if_neg lower]
        rcases Node.findInChildren_spec decides numbered children represents.children with
          ⟨found, deepestAt, search⟩ | ⟨nonePassing, search⟩
        · rw [search]
          exact Or.inl ⟨found, deepestAt.of_children represents, rfl⟩
        · rw [search]
          dsimp only
          -- a child on the block's branch makes this node an ancestor too
          have consistent : (children.any fun child => ancestry.isAncestor child.hash hash) = true →
              ancestry.isAncestor selfHash hash = true := by
            rw [List.any_eq_true]
            rintro ⟨child, isChild, childAbove⟩
            exact ancestry.trans
              (represents.isAncestor_of_mem selfMember (Node.children_subset_descendants _ isChild))
              childAbove
          -- `known_descendent_of || is_descendent_of(&self.hash, hash)?` is the ancestry
          have isDescendent : (if (children.any fun child => ancestry.isAncestor child.hash hash) = true
              then (.ok true : Except (Error E) Bool) else .ok (ancestry.isAncestor selfHash hash)) =
              .ok (ancestry.isAncestor selfHash hash) := by
            split
            · rename_i known
              rw [consistent known]
            · rfl
          rw [decides selfHash hash]
          dsimp only
          rw [isDescendent]
          have nonePassingSelf : ancestry.isAncestor selfHash hash = true → predicate selfData = false →
              NonePassing ancestry [⟨selfHash, selfNumber, selfData, children⟩] hash predicate := by
            intro _ fails member inTree above
            rw [Node.forestNodes_singleton] at inTree
            rcases Node.mem_nodes_iff.mp inTree with rfl | below
            · exact fails
            · exact nonePassing member below above
          cases selfAbove : ancestry.isAncestor selfHash hash with
          | false =>
            refine Or.inr ⟨fun member inTree above => ?_, rfl⟩
            rw [Node.forestNodes_singleton] at inTree
            rcases Node.mem_nodes_iff.mp inTree with rfl | below
            · rw [selfAbove] at above
              exact absurd above Bool.false_ne_true
            · exact nonePassing member below above
          | true =>
            cases passes : predicate selfData with
            | false =>
              rw [if_neg Bool.false_ne_true]
              exact Or.inr ⟨nonePassingSelf selfAbove passes, rfl⟩
            | true =>
              -- no passing ancestor below: this node is the deepest
              rw [if_pos rfl]
              refine Or.inl ⟨_, ⟨selfMember, selfAbove, passes, fun member inTree above memberPasses => ?_⟩, rfl⟩
              rw [Node.forestNodes_singleton] at inTree
              rcases Node.mem_nodes_iff.mp inTree with same | below
              · exact Or.inl same
              · rw [nonePassing member below above] at memberPasses
                exact absurd memberPasses Bool.false_ne_true

/-- The loop over the children: the deepest passing ancestor of the forest, or
a failure that says whether a child is an ancestor. -/
theorem Node.findInChildren_spec (decides : Decides ancestry isDescendentOf)
    (numbered : number = ancestry.rank hash) :
    ∀ (forest : List (Node H N V)), Represents ancestry forest →
      (∃ found, DeepestPassing ancestry forest hash predicate found ∧
        Node.findInChildren isDescendentOf hash number predicate forest = .ok (.found found)) ∨
      (NonePassing ancestry forest hash predicate ∧
        Node.findInChildren isDescendentOf hash number predicate forest =
          .ok (.failure (forest.any fun node => ancestry.isAncestor node.hash hash)))
  | [], _ => Or.inr ⟨fun _ member => by simp at member, rfl⟩
  | root :: rest, represents => by
      rw [Node.findInChildren]
      rcases Node.findNodeWhere_spec decides numbered root represents.head with
        ⟨found, deepestAt, search⟩ | ⟨nonePassing, search⟩
      · rw [search]
        exact Or.inl ⟨found, deepestAt.of_head represents, rfl⟩
      · rw [search]
        cases rootAbove : ancestry.isAncestor root.hash hash with
        | true =>
          -- the block lies below this child, so no other child holds an ancestor
          refine Or.inr ⟨nonePassing.cons fun member inRest above => ?_, by simp [rootAbove]⟩
          rw [represents.not_isAncestor_rest (Node.mem_nodes_self root) inRest rootAbove] at above
          exact absurd above Bool.false_ne_true
        | false =>
          dsimp only
          rcases Node.findInChildren_spec decides numbered rest represents.tail with
            ⟨found, deepestAt, searchRest⟩ | ⟨nonePassingRest, searchRest⟩
          · exact Or.inl ⟨found, deepestAt.of_tail nonePassing, searchRest⟩
          · refine Or.inr ⟨nonePassing.cons nonePassingRest, ?_⟩
            rw [searchRest, List.any_cons, rootAbove, Bool.false_or]

end

/-- The loop over the roots of `ForkTree::find_node_where`: the deepest
passing ancestor of the forest, or none. -/
theorem ForkTree.findInRoots_spec (decides : Decides ancestry isDescendentOf)
    (numbered : number = ancestry.rank hash) :
    ∀ (roots : List (Node H N V)), Represents ancestry roots →
      (∃ found, DeepestPassing ancestry roots hash predicate found ∧
        ForkTree.findInRoots isDescendentOf hash number predicate roots = .ok (some found)) ∨
      (NonePassing ancestry roots hash predicate ∧
        ForkTree.findInRoots isDescendentOf hash number predicate roots = .ok none)
  | [], _ => Or.inr ⟨fun _ member => by simp at member, rfl⟩
  | root :: rest, represents => by
      rw [ForkTree.findInRoots]
      rcases Node.findNodeWhere_spec decides numbered root represents.head with
        ⟨found, deepestAt, search⟩ | ⟨nonePassing, search⟩
      · rw [search]
        exact Or.inl ⟨found, deepestAt.of_head represents, rfl⟩
      · rw [search]
        dsimp only
        rcases ForkTree.findInRoots_spec decides numbered rest represents.tail with
          ⟨found, deepestAt, searchRest⟩ | ⟨nonePassingRest, searchRest⟩
        · exact Or.inl ⟨found, deepestAt.of_tail nonePassing, searchRest⟩
        · exact Or.inr ⟨nonePassing.cons nonePassingRest, searchRest⟩

end Search

/-! ## `prune` -/

section Prune

variable [DecidableEq H] [LinearOrder N] {ancestry : Ancestry H N}
  {isDescendentOf : H → H → Except E Bool} {hash : H} {number : N} {predicate : V → Bool}

/-- The children of a node that are the block or one of its ancestors. -/
def branchChildren (ancestry : Ancestry H N) (hash : H) (node : Node H N V) : List (Node H N V) :=
  node.children.filter fun child => decide (child.hash = hash) || ancestry.isAncestor child.hash hash

omit [DecidableEq H] [LinearOrder N] in
/-- The roots of a forest are among its nodes, in order. -/
theorem Node.sublist_forestNodes : ∀ forest : List (Node H N V), forest.Sublist (Node.forestNodes forest) := by
  intro forest
  induction forest with
  | nil => exact List.Sublist.slnil
  | cons root rest ih =>
    rw [Node.forestNodes_cons, Node.nodes_eq, List.cons_append]
    exact (ih.trans (List.sublist_append_right _ _)).cons_cons root

omit [DecidableEq H] in
/-- Siblings lie on different branches, so at most one child of a node is the
block or its ancestor. -/
theorem Represents.branchChildren_length_le [DecidableEq H] {forest : List (Node H N V)}
    (represents : Represents ancestry forest) {node : Node H N V} (member : node ∈ Node.forestNodes forest) :
    (branchChildren ancestry hash node).length ≤ 1 := by
  have children := (represents.subtree member).children
  have onBranch : ∀ child ∈ branchChildren ancestry hash node,
      child ∈ node.children ∧ (child.hash = hash ∨ ancestry.isAncestor child.hash hash = true) := by
    intro child kept
    simpa [branchChildren] using kept
  have allEqual : ∀ first ∈ branchChildren ancestry hash node, ∀ second ∈ branchChildren ancestry hash node,
      first = second := by
    intro first firstKept second secondKept
    obtain ⟨firstChild, firstOnBranch⟩ := onBranch first firstKept
    obtain ⟨secondChild, secondOnBranch⟩ := onBranch second secondKept
    have firstMember := Node.mem_forestNodes.mpr ⟨first, firstChild, Node.mem_nodes_self _⟩
    have secondMember := Node.mem_forestNodes.mpr ⟨second, secondChild, Node.mem_nodes_self _⟩
    rcases children.below_or_above_of_onBranch firstMember secondMember firstOnBranch secondOnBranch with
      same | secondBelow | firstBelow
    · exact same
    · exact absurd secondBelow (children.root_not_below secondChild firstMember)
    · exact absurd firstBelow (children.root_not_below firstChild secondMember)
  have nodup : (branchChildren ancestry hash node).Nodup :=
    ((Node.sublist_forestNodes node.children).nodup (List.Nodup.of_map Node.hash children.nodup)).filter _
  generalize branchChildren ancestry hash node = kept at allEqual nodup ⊢
  rcases kept with _ | ⟨first, _ | ⟨second, rest⟩⟩
  · simp
  · simp
  · have same := allEqual first (by simp) second (by simp)
    subst same
    exact absurd List.mem_cons_self (List.nodup_cons.mp nodup).1

/-- `prune` on a represented tree: the node the search returns becomes the
only root, with its children on the block's branch. -/
theorem ForkTree.prune_of_findInRoots (decides : Decides ancestry isDescendentOf)
    (numbered : number = ancestry.rank hash) {tree : ForkTree H N V} (represents : Represents ancestry tree.roots)
    {result : Option (Node H N V)}
    (search : ForkTree.findInRoots isDescendentOf hash number predicate tree.roots = .ok result) :
    tree.prune hash number isDescendentOf predicate =
      .ok (result.elim tree fun found =>
        { tree with roots := [{ found with children := branchChildren ancestry hash found }] }) := by
  unfold ForkTree.prune ForkTree.findNodeWhere
  rw [search]
  cases result with
  | none => rfl
  | some found =>
    have member := ForkTree.mem_forestNodes_of_findInRoots tree.roots search
    -- on the children of a node of the tree the source's test is the branch test
    have sameTest : found.children.filter (fun child =>
        (decide (child.number = number) && decide (child.hash = hash)) ||
          (decide (child.number < number) && ForkTree.unwrapOrFalse (isDescendentOf child.hash hash))) =
        branchChildren ancestry hash found := by
      unfold branchChildren
      apply List.filter_congr
      intro child isChild
      have childMember := Node.mem_forestNodes_of_below member (Node.children_subset_descendants _ isChild)
      have childNumber := represents.numbered child childMember
      rw [decides, ForkTree.unwrapOrFalse, childNumber, numbered]
      by_cases same : child.hash = hash
      · simp [same]
      · cases above : ancestry.isAncestor child.hash hash
        · simp [same]
        · simp [same, ancestry.rank_lt above]
    dsimp only
    rw [sameTest, List.take_of_length_le (represents.branchChildren_length_le member)]
    rfl

/-- On a represented tree, with a client that answers with the ancestry of the
blocks and a block carrying its own number: `find_node_where` returns a node
exactly when some node of the tree is a strict ancestor of the block that
passes the predicate, and then the deepest, highest-numbered such node; and
`prune` makes that node the only root, keeping of its children only the block
itself or its ancestor, at most one. -/
theorem findNodeWhere_deepest_passing (ancestry : Ancestry H N) (tree : ForkTree H N V) (hash : H) (number : N)
    (isDescendentOf : H → H → Except E Bool) (predicate : V → Bool) (represents : Represents ancestry tree.roots)
    (decides : Decides ancestry isDescendentOf) (numbered : number = ancestry.rank hash) :
    ∃ result, tree.findNodeWhere hash number isDescendentOf predicate = .ok result ∧
      ((∃ found, result = some found) ↔ ∃ node ∈ Node.forestNodes tree.roots,
        ancestry.isAncestor node.hash hash = true ∧ predicate node.data = true) ∧
      (∀ found, result = some found → DeepestPassing ancestry tree.roots hash predicate found ∧
        ∀ node ∈ Node.forestNodes tree.roots, ancestry.isAncestor node.hash hash = true →
          predicate node.data = true → node.number ≤ found.number) ∧
      tree.prune hash number isDescendentOf predicate =
        .ok (result.elim tree fun found =>
          { tree with roots := [{ found with children := branchChildren ancestry hash found }] }) ∧
      ∀ found, result = some found → (branchChildren ancestry hash found).length ≤ 1 := by
  rcases ForkTree.findInRoots_spec decides numbered tree.roots represents with
    ⟨found, deepestAt, search⟩ | ⟨nonePassing, search⟩
  · refine ⟨some found, search, ⟨fun _ => ⟨found, deepestAt.mem, deepestAt.isAncestor, deepestAt.passes⟩,
      fun _ => ⟨found, rfl⟩⟩, ?_, ForkTree.prune_of_findInRoots decides numbered represents search, ?_⟩
    · rintro _ ⟨⟩
      exact ⟨deepestAt, deepestAt.number_le represents⟩
    · rintro _ ⟨⟩
      exact represents.branchChildren_length_le deepestAt.mem
  · refine ⟨none, search, ⟨fun ⟨_, noResult⟩ => (by cases noResult), ?_⟩, fun _ noResult => (by cases noResult),
      ForkTree.prune_of_findInRoots decides numbered represents search, fun _ noResult => (by cases noResult)⟩
    rintro ⟨node, member, above, passes⟩
    rw [nonePassing node member above] at passes
    cases passes

/-- The chain `1 - 2 - 3`, each block at its own number. -/
def chainTree : ForkTree Nat Nat Nat :=
  ⟨[⟨1, 1, 10, [⟨2, 2, 20, [⟨3, 3, 30, []⟩]⟩]⟩], none⟩

theorem findNodeWhere_deepest_passing_on_chain :
    Represents Ancestry.chain chainTree.roots ∧
      ∃ result, chainTree.findNodeWhere 3 3 (fun base block => (.ok (decide (base < block)) : Except Unit Bool))
          (fun _ => true) = .ok result ∧
        ((∃ found, result = some found) ↔ ∃ node ∈ Node.forestNodes chainTree.roots,
          Ancestry.chain.isAncestor node.hash 3 = true ∧ (fun _ : Nat => true) node.data = true) := by
  have represents : Represents Ancestry.chain chainTree.roots := ⟨by decide, by decide, by decide⟩
  obtain ⟨result, search, found, -⟩ := findNodeWhere_deepest_passing Ancestry.chain chainTree 3 3
    (fun base block => (.ok (decide (base < block)) : Except Unit Bool)) (fun _ => true) represents
    (fun _ _ => rfl) rfl
  exact ⟨represents, result, search, found⟩

end Prune

end OffchainStorage.Fork
