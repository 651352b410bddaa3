import OffchainStorage.ForkTree.Forest

/-!
# Attaching an imported leaf

`Node::import` ends, when it succeeds below a node, by pushing a leaf onto the
children of one node.  `Node.attachLeaf parent` describes that effect on a
whole tree: the leaf is appended to the children of the node with hash
`parent`.  The lemmas here say which nodes the new tree has and below which
nodes the leaf lies, so that proofs about `import` never unfold it.
-/

namespace OffchainStorage.Fork

variable {H N V : Type}

@[simp]
theorem Node.leaf_hash (hash : H) (number : N) (data : V) :
    (Node.leaf hash number data).hash = hash := rfl

@[simp]
theorem Node.leaf_number (hash : H) (number : N) (data : V) :
    (Node.leaf hash number data).number = number := rfl

@[simp]
theorem Node.leaf_children (hash : H) (number : N) (data : V) :
    (Node.leaf hash number data).children = [] := rfl

@[simp]
theorem Node.leaf_nodes (hash : H) (number : N) (data : V) :
    (Node.leaf hash number data).nodes = [Node.leaf hash number data] := rfl

@[simp]
theorem Node.forestHashes_leaf (hash : H) (number : N) (data : V) :
    Node.forestHashes [Node.leaf hash number data] = [hash] := rfl

theorem Node.hashes_nodes (node : Node H N V) :
    node.nodes.map Node.hash = node.hash :: Node.forestHashes node.children := by
  simp [Node.forestHashes]

variable [DecidableEq H]

mutual

/-- Append the leaf `(hash, number, data)` to the children of every node
whose hash is `parent`. -/
def Node.attachLeaf (parent hash : H) (number : N) (data : V) :
    Node H N V → Node H N V
  | ⟨selfHash, selfNumber, selfData, children⟩ =>
      ⟨selfHash, selfNumber, selfData,
        Node.attachLeafForest parent hash number data children ++
          (if selfHash = parent then [Node.leaf hash number data] else [])⟩

/-- `Node.attachLeaf` on every tree of a forest. -/
def Node.attachLeafForest (parent hash : H) (number : N) (data : V) :
    List (Node H N V) → List (Node H N V)
  | [] => []
  | node :: rest =>
      Node.attachLeaf parent hash number data node ::
        Node.attachLeafForest parent hash number data rest

end

variable {parent hash : H} {number : N} {data : V}

@[simp]
theorem Node.attachLeaf_hash (node : Node H N V) :
    (node.attachLeaf parent hash number data).hash = node.hash := by
  cases node
  rfl

@[simp]
theorem Node.attachLeaf_number (node : Node H N V) :
    (node.attachLeaf parent hash number data).number = node.number := by
  cases node
  rfl

theorem Node.attachLeaf_children (node : Node H N V) :
    (node.attachLeaf parent hash number data).children =
      Node.attachLeafForest parent hash number data node.children ++
        (if node.hash = parent then [Node.leaf hash number data] else []) := by
  cases node
  rfl

@[simp]
theorem Node.attachLeafForest_nil :
    Node.attachLeafForest parent hash number data ([] : List (Node H N V)) = [] := rfl

@[simp]
theorem Node.attachLeafForest_cons (node : Node H N V) (rest : List (Node H N V)) :
    Node.attachLeafForest parent hash number data (node :: rest) =
      node.attachLeaf parent hash number data ::
        Node.attachLeafForest parent hash number data rest := rfl

@[simp]
theorem Node.attachLeafForest_append (first second : List (Node H N V)) :
    Node.attachLeafForest parent hash number data (first ++ second) =
      Node.attachLeafForest parent hash number data first ++
        Node.attachLeafForest parent hash number data second := by
  induction first with
  | nil =>
      rfl
  | cons node rest inductionHypothesis =>
      simp [inductionHypothesis]

mutual

/-- A tree without the parent hash is left as it is. -/
theorem Node.attachLeaf_of_not_mem :
    ∀ (node : Node H N V), parent ∉ node.nodes.map Node.hash →
      node.attachLeaf parent hash number data = node
  | ⟨selfHash, selfNumber, selfData, children⟩, absent => by
      rw [Node.hashes_nodes, List.mem_cons, not_or] at absent
      have notSelf : selfHash ≠ parent := fun same => absent.1 same.symm
      have childrenKept := Node.attachLeafForest_of_not_mem children absent.2
      simp only [Node.attachLeaf, childrenKept, notSelf, if_false, List.append_nil]

/-- A forest without the parent hash is left as it is. -/
theorem Node.attachLeafForest_of_not_mem :
    ∀ (forest : List (Node H N V)), parent ∉ Node.forestHashes forest →
      Node.attachLeafForest parent hash number data forest = forest
  | [], _ => rfl
  | node :: rest, absent => by
      simp only [Node.forestHashes, Node.forestNodes_cons, List.map_append,
        List.mem_append, not_or] at absent
      rw [Node.attachLeafForest_cons, Node.attachLeaf_of_not_mem node absent.1,
        Node.attachLeafForest_of_not_mem rest absent.2]

end

mutual

/-- The nodes of a tree after attaching: the attached old nodes, and the leaf
when the parent is among them. -/
theorem Node.mem_nodes_attachLeaf :
    ∀ (node : Node H N V) {member : Node H N V},
      member ∈ (node.attachLeaf parent hash number data).nodes ↔
        (∃ old ∈ node.nodes, member = old.attachLeaf parent hash number data) ∨
          (member = Node.leaf hash number data ∧ parent ∈ node.nodes.map Node.hash)
  | ⟨selfHash, selfNumber, selfData, children⟩, member => by
      rw [Node.nodes_eq, Node.attachLeaf_children, List.mem_cons, Node.forestNodes_append,
        List.mem_append, Node.mem_forestNodes_attachLeafForest children, Node.hashes_nodes]
      by_cases isParent : selfHash = parent
      · subst isParent
        simp only [if_true, Node.forestNodes_cons, Node.forestNodes_nil, List.append_nil,
          Node.nodes_eq, List.mem_cons, exists_eq_or_imp, Node.leaf_children, List.not_mem_nil,
          or_false, true_or, and_true]
        constructor
        · rintro (same | (old | ⟨isLeaf, _⟩) | isLeaf)
          · exact Or.inl (Or.inl same)
          · exact Or.inl (Or.inr old)
          · exact Or.inr isLeaf
          · exact Or.inr isLeaf
        · rintro ((same | old) | isLeaf)
          · exact Or.inl same
          · exact Or.inr (Or.inl (Or.inl old))
          · exact Or.inr (Or.inr isLeaf)
      · have notParent : parent ≠ selfHash := fun same => isParent same.symm
        simp only [isParent, if_false, Node.forestNodes_nil, List.not_mem_nil, or_false,
          Node.nodes_eq, List.mem_cons, exists_eq_or_imp, notParent, false_or]
        exact or_assoc.symm

/-- The nodes of a forest after attaching. -/
theorem Node.mem_forestNodes_attachLeafForest :
    ∀ (forest : List (Node H N V)) {member : Node H N V},
      member ∈ Node.forestNodes (Node.attachLeafForest parent hash number data forest) ↔
        (∃ old ∈ Node.forestNodes forest,
            member = old.attachLeaf parent hash number data) ∨
          (member = Node.leaf hash number data ∧ parent ∈ Node.forestHashes forest)
  | [], member => by
      simp [Node.forestHashes]
  | node :: rest, member => by
      rw [Node.attachLeafForest_cons, Node.forestNodes_cons, List.mem_append,
        Node.mem_nodes_attachLeaf node, Node.mem_forestNodes_attachLeafForest rest]
      simp only [Node.forestNodes_cons, List.mem_append, Node.forestHashes, List.map_append]
      constructor
      · rintro ((⟨old, oldMember, rfl⟩ | ⟨rfl, present⟩) | (⟨old, oldMember, rfl⟩ | ⟨rfl, present⟩))
        · exact Or.inl ⟨old, Or.inl oldMember, rfl⟩
        · exact Or.inr ⟨rfl, Or.inl present⟩
        · exact Or.inl ⟨old, Or.inr oldMember, rfl⟩
        · exact Or.inr ⟨rfl, Or.inr present⟩
      · rintro (⟨old, oldMember | oldMember, rfl⟩ | ⟨rfl, present | present⟩)
        · exact Or.inl (Or.inl ⟨old, oldMember, rfl⟩)
        · exact Or.inr (Or.inl ⟨old, oldMember, rfl⟩)
        · exact Or.inl (Or.inr ⟨rfl, present⟩)
        · exact Or.inr (Or.inr ⟨rfl, present⟩)

end

/-! ## Hashes after attaching -/

/-- A hash is in the attached forest when it was in the forest, or it is the
leaf's and the parent was there. -/
theorem Node.mem_forestHashes_attachLeafForest (forest : List (Node H N V)) {member : H} :
    member ∈ Node.forestHashes (Node.attachLeafForest parent hash number data forest) ↔
      member ∈ Node.forestHashes forest ∨
        (member = hash ∧ parent ∈ Node.forestHashes forest) := by
  simp only [Node.mem_forestHashes, Node.mem_forestNodes_attachLeafForest]
  constructor
  · rintro ⟨node, ⟨old, oldMember, rfl⟩ | ⟨rfl, present⟩, rfl⟩
    · exact Or.inl ⟨old, oldMember, (Node.attachLeaf_hash old).symm⟩
    · exact Or.inr ⟨rfl, present⟩
  · rintro (⟨old, oldMember, rfl⟩ | ⟨rfl, present⟩)
    · exact ⟨_, Or.inl ⟨old, oldMember, rfl⟩, Node.attachLeaf_hash old⟩
    · exact ⟨_, Or.inr ⟨rfl, present⟩, rfl⟩

/-- The hashes of a node's children after attaching. -/
theorem Node.mem_forestHashes_attachLeaf_children (node : Node H N V) {member : H} :
    member ∈ Node.forestHashes (node.attachLeaf parent hash number data).children ↔
      member ∈ Node.forestHashes node.children ∨
        (member = hash ∧ (parent ∈ Node.forestHashes node.children ∨ node.hash = parent)) := by
  rw [Node.attachLeaf_children, Node.forestHashes_append, List.mem_append,
    Node.mem_forestHashes_attachLeafForest]
  by_cases isParent : node.hash = parent
  · simp only [isParent, if_true, Node.forestHashes_leaf, List.mem_singleton, or_true, and_true]
    constructor
    · rintro ((old | ⟨isLeaf, _⟩) | isLeaf)
      · exact Or.inl old
      · exact Or.inr isLeaf
      · exact Or.inr isLeaf
    · rintro (old | isLeaf)
      · exact Or.inl (Or.inl old)
      · exact Or.inr isLeaf
  · simp [isParent]

mutual

/-- Attaching adds the leaf's hash once for each occurrence of the parent. -/
theorem Node.hashes_attachLeaf_perm :
    ∀ (node : Node H N V),
      ((node.attachLeaf parent hash number data).nodes.map Node.hash).Perm
        (node.nodes.map Node.hash ++
          List.replicate ((node.nodes.map Node.hash).count parent) hash)
  | ⟨selfHash, selfNumber, selfData, children⟩ => by
      have childrenPerm := Node.forestHashes_attachLeafForest_perm children
      rw [Node.hashes_nodes, Node.hashes_nodes, Node.attachLeaf_children,
        Node.forestHashes_append]
      by_cases isParent : selfHash = parent
      · subst isParent
        simp only [if_true, Node.forestHashes_leaf, List.count_cons_self, List.replicate_succ',
          List.cons_append]
        exact ((childrenPerm.append_right [hash]).trans (by simp)).cons selfHash
      · simp only [isParent, if_false, Node.attachLeaf_hash, Node.forestHashes_nil,
          List.append_nil, List.count_cons_of_ne isParent, List.cons_append]
        exact childrenPerm.cons selfHash

/-- Attaching adds the leaf's hash once for each occurrence of the parent. -/
theorem Node.forestHashes_attachLeafForest_perm :
    ∀ (forest : List (Node H N V)),
      (Node.forestHashes (Node.attachLeafForest parent hash number data forest)).Perm
        (Node.forestHashes forest ++
          List.replicate ((Node.forestHashes forest).count parent) hash)
  | [] => by
      simp [Node.forestHashes]
  | node :: rest => by
      have nodePerm := Node.hashes_attachLeaf_perm node
      have restPerm := Node.forestHashes_attachLeafForest_perm rest
      rw [Node.attachLeafForest_cons, Node.forestHashes_cons, Node.forestHashes_cons,
        List.count_append, List.replicate_add]
      refine (nodePerm.append restPerm).trans (List.perm_iff_count.mpr fun member => ?_)
      simp only [List.count_append]
      omega

end

/-- Attaching a fresh leaf below a parent that occurs once keeps hashes
distinct. -/
theorem Node.nodup_attachLeafForest {forest : List (Node H N V)}
    (nodup : (Node.forestHashes forest).Nodup) (present : parent ∈ Node.forestHashes forest)
    (fresh : hash ∉ Node.forestHashes forest) :
    (Node.forestHashes (Node.attachLeafForest parent hash number data forest)).Nodup := by
  have once := List.count_eq_one_of_mem nodup present
  rw [(Node.forestHashes_attachLeafForest_perm forest).nodup_iff, once]
  exact nodup.append (List.nodup_singleton hash) (by simpa using fresh)

end OffchainStorage.Fork
