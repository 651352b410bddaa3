import OffchainStorage.ForkTree.Node
import OffchainStorage.Lib.Ancestry
import Mathlib

/-!
# The representation invariant of a fork tree

A fork tree represents the blocks it holds when

* no hash occurs twice;
* every node's number is its block's number;
* a block's hash lies below a node in the tree exactly when the block
  descends from the node's block.

The third condition mentions a node and the hashes of its own subtree only, so
it passes to every forest made of nodes of a represented forest, and to a node
whose children were cut down (`prune`).  The operations that
remove roots, open roots or keep sublists of children therefore keep the
invariant as soon as they keep hashes distinct, which follows from their
nodes being a sub-multiset of the old ones (`Represents.of_subperm`).
-/

namespace OffchainStorage.Fork

variable {H N V : Type}

/-! ## Nodes of a forest -/

theorem Node.mem_forestNodes {forest : List (Node H N V)} {member : Node H N V} :
    member ∈ Node.forestNodes forest ↔ ∃ root ∈ forest, member ∈ root.nodes := by
  simp only [Node.forestNodes_eq_flatMap, List.mem_flatMap]

theorem Node.mem_nodes_iff {node member : Node H N V} :
    member ∈ node.nodes ↔ member = node ∨ member ∈ Node.forestNodes node.children := by
  simp

theorem Node.mem_nodes_self (node : Node H N V) : node ∈ node.nodes := by
  simp

theorem Node.nodes_sublist_of_mem {forest : List (Node H N V)} {root : Node H N V}
    (member : root ∈ forest) : List.Sublist root.nodes (Node.forestNodes forest) := by
  rw [Node.forestNodes_eq_flatMap, List.flatMap_def]
  exact List.sublist_flatten_of_mem (List.mem_map_of_mem member)

theorem Node.forestNodes_sublist_of_sublist {smaller larger : List (Node H N V)}
    (sublist : List.Sublist smaller larger) :
    List.Sublist (Node.forestNodes smaller) (Node.forestNodes larger) := by
  rw [Node.forestNodes_eq_flatMap, Node.forestNodes_eq_flatMap]
  exact sublist.flatMap Node.nodes

@[simp]
theorem Node.forestNodes_singleton (root : Node H N V) :
    Node.forestNodes [root] = root.nodes := by
  simp

theorem Node.forestNodes_children_sublist (node : Node H N V) :
    List.Sublist (Node.forestNodes node.children) node.nodes := by
  rw [Node.nodes_eq]
  exact List.sublist_cons_self _ _

mutual

/-- The subtree of a node of a tree is a contiguous part of the tree. -/
theorem Node.nodes_sublist_nodes :
    ∀ (node : Node H N V) {member : Node H N V},
      member ∈ node.nodes → List.Sublist member.nodes node.nodes
  | ⟨hash, number, data, children⟩, member, found => by
      rcases Node.mem_nodes_iff.mp found with same | inChildren
      · subst same
        exact List.Sublist.refl _
      · exact (Node.nodes_sublist_forestNodes children inChildren).cons _

/-- The subtree of a node of a forest is a contiguous part of the forest. -/
theorem Node.nodes_sublist_forestNodes :
    ∀ (forest : List (Node H N V)) {member : Node H N V},
      member ∈ Node.forestNodes forest → List.Sublist member.nodes (Node.forestNodes forest)
  | [], member, found => by
      simp at found
  | root :: rest, member, found => by
      rw [Node.forestNodes_cons, List.mem_append] at found
      rcases found with inRoot | inRest
      · exact (Node.nodes_sublist_nodes root inRoot).trans
          (List.sublist_append_left _ _)
      · exact (Node.nodes_sublist_forestNodes rest inRest).trans
          (List.sublist_append_right _ _)

end

theorem Node.forestNodes_subset_of_mem (forest : List (Node H N V)) {member : Node H N V}
    (found : member ∈ Node.forestNodes forest) :
    member.nodes ⊆ Node.forestNodes forest :=
  (Node.nodes_sublist_forestNodes forest found).subset

/-- The descendants of a descendant are descendants. -/
theorem Node.descendants_subset {node member : Node H N V}
    (below : member ∈ Node.forestNodes node.children) :
    Node.forestNodes member.children ⊆ Node.forestNodes node.children :=
  ((Node.forestNodes_children_sublist member).trans
    (Node.nodes_sublist_forestNodes node.children below)).subset

theorem Node.children_subset_descendants (node : Node H N V) :
    node.children ⊆ Node.forestNodes node.children := by
  intro child member
  exact Node.mem_forestNodes.mpr ⟨child, member, Node.mem_nodes_self child⟩

/-- A node below a node of the forest is a node of the forest. -/
theorem Node.mem_forestNodes_of_below {forest : List (Node H N V)} {node member : Node H N V}
    (nodeMember : node ∈ Node.forestNodes forest)
    (below : member ∈ Node.forestNodes node.children) : member ∈ Node.forestNodes forest :=
  Node.forestNodes_subset_of_mem forest nodeMember
    ((Node.forestNodes_children_sublist node).subset below)

/-! ## Sub-multisets of lists -/

theorem subperm_map {α β : Type} (f : α → β) {smaller larger : List α}
    (subperm : smaller.Subperm larger) : (smaller.map f).Subperm (larger.map f) := by
  obtain ⟨middle, permutation, sublist⟩ := subperm
  exact ⟨middle.map f, permutation.map f, sublist.map f⟩

theorem nodup_of_subperm {α : Type} {smaller larger : List α}
    (subperm : smaller.Subperm larger) (nodup : larger.Nodup) : smaller.Nodup := by
  obtain ⟨middle, permutation, sublist⟩ := subperm
  exact permutation.nodup_iff.mp (sublist.nodup nodup)

/-! ## The invariant -/

/-- The hashes of all nodes of a forest, in pre-order. -/
def Node.forestHashes (forest : List (Node H N V)) : List H :=
  (Node.forestNodes forest).map Node.hash

theorem Node.mem_forestHashes {forest : List (Node H N V)} {hash : H} :
    hash ∈ Node.forestHashes forest ↔ ∃ node ∈ Node.forestNodes forest, node.hash = hash :=
  List.mem_map

theorem Node.hash_mem_forestHashes {forest : List (Node H N V)} {node : Node H N V}
    (member : node ∈ Node.forestNodes forest) : node.hash ∈ Node.forestHashes forest :=
  List.mem_map_of_mem member

@[simp]
theorem Node.forestHashes_nil : Node.forestHashes ([] : List (Node H N V)) = [] := rfl

@[simp]
theorem Node.forestHashes_append (first second : List (Node H N V)) :
    Node.forestHashes (first ++ second) =
      Node.forestHashes first ++ Node.forestHashes second := by
  simp [Node.forestHashes]

theorem Node.forestHashes_cons (root : Node H N V) (rest : List (Node H N V)) :
    Node.forestHashes (root :: rest) = root.nodes.map Node.hash ++ Node.forestHashes rest := by
  simp [Node.forestHashes]

theorem Node.forestHashes_children_subset {forest : List (Node H N V)} {node : Node H N V}
    (member : node ∈ Node.forestNodes forest) :
    Node.forestHashes node.children ⊆ Node.forestHashes forest := by
  intro below inChildren
  obtain ⟨other, otherBelow, rfl⟩ := Node.mem_forestHashes.mp inChildren
  exact Node.hash_mem_forestHashes (Node.mem_forestNodes_of_below member otherBelow)

/-- The forest represents the blocks of `ancestry`: distinct hashes, block
numbers, and subtrees whose hashes are exactly the descendants. -/
structure Represents [LinearOrder N] (ancestry : Ancestry H N)
    (forest : List (Node H N V)) : Prop where
  nodup : (Node.forestHashes forest).Nodup
  numbered : ∀ node ∈ Node.forestNodes forest, node.number = ancestry.rank node.hash
  descendants : ∀ node ∈ Node.forestNodes forest, ∀ member ∈ Node.forestNodes forest,
    member.hash ∈ Node.forestHashes node.children ↔
      ancestry.isAncestor node.hash member.hash = true

section Represents

variable [LinearOrder N] {ancestry : Ancestry H N} {forest : List (Node H N V)}

/-- Two nodes of a represented forest with the same hash are the same node. -/
theorem Represents.eq_of_hash_eq (represents : Represents ancestry forest)
    {first second : Node H N V} (firstMember : first ∈ Node.forestNodes forest)
    (secondMember : second ∈ Node.forestNodes forest) (sameHash : first.hash = second.hash) :
    first = second :=
  List.inj_on_of_nodup_map represents.nodup firstMember secondMember sameHash

/-- Every block below a node is a descendant of it. -/
theorem Represents.isAncestor_of_mem (represents : Represents ancestry forest)
    {node member : Node H N V} (nodeMember : node ∈ Node.forestNodes forest)
    (below : member ∈ Node.forestNodes node.children) :
    ancestry.isAncestor node.hash member.hash = true := by
  have memberInForest := Node.mem_forestNodes_of_below nodeMember below
  exact (represents.descendants node nodeMember member memberInForest).mp
    (Node.hash_mem_forestHashes below)

/-- In a represented forest a node lies below another exactly when its block
descends from the other's. -/
theorem Represents.mem_descendants_iff (represents : Represents ancestry forest)
    {node member : Node H N V} (nodeMember : node ∈ Node.forestNodes forest)
    (memberInForest : member ∈ Node.forestNodes forest) :
    member ∈ Node.forestNodes node.children ↔
      ancestry.isAncestor node.hash member.hash = true := by
  rw [← represents.descendants node nodeMember member memberInForest]
  constructor
  · exact Node.hash_mem_forestHashes
  · intro hashBelow
    obtain ⟨other, otherBelow, sameHash⟩ := Node.mem_forestHashes.mp hashBelow
    have otherInForest := Node.mem_forestNodes_of_below nodeMember otherBelow
    rwa [← represents.eq_of_hash_eq otherInForest memberInForest sameHash]

/-- No node lies in two trees of a represented forest. -/
theorem Represents.not_mem_rest {root : Node H N V} {rest : List (Node H N V)}
    (represents : Represents ancestry (root :: rest)) {member : Node H N V}
    (inRoot : member ∈ root.nodes) (inRest : member ∈ Node.forestNodes rest) : False := by
  have nodup := represents.nodup
  rw [Node.forestHashes_cons] at nodup
  exact List.disjoint_of_nodup_append nodup (List.mem_map_of_mem inRoot)
    (Node.hash_mem_forestHashes inRest)

/-- A node's children carry larger numbers. -/
theorem Represents.number_lt_of_mem_children (represents : Represents ancestry forest)
    {node child : Node H N V} (nodeMember : node ∈ Node.forestNodes forest)
    (isChild : child ∈ node.children) : node.number < child.number := by
  have below := Node.children_subset_descendants node isChild
  have childMember := Node.mem_forestNodes_of_below nodeMember below
  rw [represents.numbered node nodeMember, represents.numbered child childMember]
  exact ancestry.rank_lt (represents.isAncestor_of_mem nodeMember below)

/-- A forest whose nodes are a sub-multiset of a represented forest's nodes
is represented. -/
theorem Represents.of_subperm (represents : Represents ancestry forest)
    {smaller : List (Node H N V)}
    (subperm : (Node.forestNodes smaller).Subperm (Node.forestNodes forest)) :
    Represents ancestry smaller where
  nodup := nodup_of_subperm (subperm_map Node.hash subperm) represents.nodup
  numbered node member := represents.numbered node (subperm.subset member)
  descendants node nodeMember other otherMember :=
    represents.descendants node (subperm.subset nodeMember) other (subperm.subset otherMember)

/-! ## Parts of a represented forest -/

/-- The subtree of any node of a represented forest is represented. -/
theorem Represents.subtree (represents : Represents ancestry forest) {node : Node H N V}
    (member : node ∈ Node.forestNodes forest) : Represents ancestry [node] := by
  apply represents.of_subperm
  simpa using (Node.nodes_sublist_forestNodes forest member).subperm

theorem Represents.children {node : Node H N V} (represents : Represents ancestry [node]) :
    Represents ancestry node.children := by
  apply represents.of_subperm
  simpa using (Node.forestNodes_children_sublist node).subperm

theorem Represents.head {root : Node H N V} {rest : List (Node H N V)}
    (represents : Represents ancestry (root :: rest)) : Represents ancestry [root] := by
  apply represents.of_subperm
  simpa using (List.sublist_append_left root.nodes (Node.forestNodes rest)).subperm

theorem Represents.tail {root : Node H N V} {rest : List (Node H N V)}
    (represents : Represents ancestry (root :: rest)) : Represents ancestry rest := by
  apply represents.of_subperm
  simpa using (List.sublist_append_right root.nodes (Node.forestNodes rest)).subperm

/-- A node of a later tree of a represented forest is neither a node of the
first tree nor a descendant of one of its nodes. -/
theorem Represents.unrelated_of_mem_rest {root : Node H N V} {rest : List (Node H N V)}
    (represents : Represents ancestry (root :: rest)) {later : Node H N V}
    (inRest : later ∈ Node.forestNodes rest) :
    ∀ member ∈ root.nodes, member.hash ≠ later.hash ∧
      ancestry.isAncestor member.hash later.hash = false := by
  intro member inRoot
  have memberInForest : member ∈ Node.forestNodes (root :: rest) := by
    rw [Node.forestNodes_cons]
    exact List.mem_append_left _ inRoot
  have laterInForest : later ∈ Node.forestNodes (root :: rest) := by
    rw [Node.forestNodes_cons]
    exact List.mem_append_right _ inRest
  constructor
  · intro sameHash
    have same := represents.eq_of_hash_eq memberInForest laterInForest sameHash
    subst same
    exact represents.not_mem_rest inRoot inRest
  · rw [Bool.eq_false_iff]
    intro isAncestor
    have below := (represents.mem_descendants_iff memberInForest laterInForest).mpr isAncestor
    have laterInRoot : later ∈ root.nodes :=
      (Node.nodes_sublist_nodes root inRoot).subset
        ((Node.forestNodes_children_sublist member).subset below)
    exact represents.not_mem_rest laterInRoot inRest

end Represents

end OffchainStorage.Fork
