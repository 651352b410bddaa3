import OffchainStorage.ForkTree.Run

/-!
# The dry run and the real finalization agree

`finalizes_any_with_descendent_if` walks every node of the tree with the
stack iterator, `finalize_with_descendent_if` walks the roots only.  Both
stop at the first node that passes the predicate and is the block or one of
its ancestors (a candidate).  In a represented tree the candidates are the
ancestors of one block, so they lie on one branch: the iterator, which visits
a node before its descendants, meets the topmost candidate first, and that
candidate is a root exactly when some root is a candidate.

The stack iterator visits the last root first and, below a node, the last
child first: `Node.visitOrder` states that order by structural recursion and
`ForkTreeIterator.toList_eq_forestVisitOrder` connects it to the iterator.
-/

namespace OffchainStorage.Fork

variable {H N V E : Type}

/-! ## The order of the stack iterator -/

mutual

/-- A node, then its subtrees from the last child to the first. -/
def Node.visitOrder : Node H N V → List (Node H N V)
  | ⟨hash, number, data, children⟩ =>
      ⟨hash, number, data, children⟩ :: Node.forestVisitOrder children

/-- The trees of a forest from the last to the first. -/
def Node.forestVisitOrder : List (Node H N V) → List (Node H N V)
  | [] => []
  | node :: rest => Node.forestVisitOrder rest ++ Node.visitOrder node

end

theorem Node.visitOrder_eq (node : Node H N V) :
    node.visitOrder = node :: Node.forestVisitOrder node.children := by
  cases node
  rfl

@[simp]
theorem Node.forestVisitOrder_nil : Node.forestVisitOrder ([] : List (Node H N V)) = [] := rfl

theorem Node.forestVisitOrder_cons (node : Node H N V) (rest : List (Node H N V)) :
    Node.forestVisitOrder (node :: rest) = Node.forestVisitOrder rest ++ node.visitOrder := rfl

theorem Node.forestVisitOrder_append (first second : List (Node H N V)) :
    Node.forestVisitOrder (first ++ second) =
      Node.forestVisitOrder second ++ Node.forestVisitOrder first := by
  induction first with
  | nil =>
      simp
  | cons node rest inductionHypothesis =>
      rw [List.cons_append, Node.forestVisitOrder_cons, Node.forestVisitOrder_cons,
        inductionHypothesis, List.append_assoc]

mutual

/-- The iterator visits every node of the tree. -/
theorem Node.mem_visitOrder :
    ∀ (node : Node H N V) {member : Node H N V}, member ∈ node.visitOrder ↔ member ∈ node.nodes
  | ⟨hash, number, data, children⟩, member => by
      rw [Node.visitOrder_eq, Node.nodes_eq, List.mem_cons, List.mem_cons,
        Node.mem_forestVisitOrder children]

/-- The iterator visits every node of the forest. -/
theorem Node.mem_forestVisitOrder :
    ∀ (forest : List (Node H N V)) {member : Node H N V},
      member ∈ Node.forestVisitOrder forest ↔ member ∈ Node.forestNodes forest
  | [], member => by
      simp
  | node :: rest, member => by
      rw [Node.forestVisitOrder_cons, Node.forestNodes_cons, List.mem_append, List.mem_append,
        Node.mem_forestVisitOrder rest, Node.mem_visitOrder node, or_comm]

end

theorem ForkTreeIterator.toList_nil : ForkTreeIterator.toList ([] : List (Node H N V)) = [] := by
  rw [ForkTreeIterator.toList]
  rfl

/-- One step of the iterator: pop the last node, push its children. -/
theorem ForkTreeIterator.toList_concat (rest : List (Node H N V)) (node : Node H N V) :
    ForkTreeIterator.toList (rest ++ [node]) =
      node :: ForkTreeIterator.toList (rest ++ node.children) := by
  rw [ForkTreeIterator.toList]
  split
  · rename_i empty
    simp at empty
  · rename_i popped last
    rw [List.getLast?_concat] at last
    cases last
    rw [List.dropLast_concat]

/-- The stack iterator visits the forest in `Node.forestVisitOrder`.  The
induction is on the number of nodes left on the stack. -/
theorem ForkTreeIterator.toList_eq_forestVisitOrder :
    ∀ (stack : List (Node H N V)),
      ForkTreeIterator.toList stack = Node.forestVisitOrder stack := by
  intro stack
  induction hsize : Node.forestSize stack using Nat.strong_induction_on generalizing stack with
  | _ size inductionHypothesis =>
      rcases List.eq_nil_or_concat stack with rfl | ⟨rest, node, rfl⟩
      · rw [ForkTreeIterator.toList_nil, Node.forestVisitOrder_nil]
      · rw [List.concat_eq_append] at hsize ⊢
        have smaller := Node.forestSize_pop (rfl : rest ++ [node] = rest ++ [node])
        rw [ForkTreeIterator.toList_concat,
          inductionHypothesis _ (by omega) _ rfl, Node.forestVisitOrder_append,
          Node.forestVisitOrder_append, Node.forestVisitOrder_cons, Node.forestVisitOrder_nil,
          List.nil_append, Node.visitOrder_eq, List.cons_append]

/-! ## Candidates -/

section Candidates

variable [DecidableEq H] [LinearOrder N] {ancestry : Ancestry H N}
  {isDescendentOf : H → H → Except E Bool} {hash : H} {number : N} {predicate : V → Bool}

/-- A node both walks stop at: it passes the predicate and is the block or one
of its ancestors. -/
def Candidate (ancestry : Ancestry H N) (hash : H) (predicate : V → Bool)
    (node : Node H N V) : Bool :=
  predicate node.data && (decide (node.hash = hash) || ancestry.isAncestor node.hash hash)

theorem Candidate.eq_true_iff {node : Node H N V} :
    Candidate ancestry hash predicate node = true ↔
      (node.hash = hash ∨ ancestry.isAncestor node.hash hash = true) ∧
        predicate node.data = true := by
  simp only [Candidate, Bool.and_eq_true, Bool.or_eq_true, decide_eq_true_eq]
  exact and_comm

theorem ForkTree.isOnBranch_of_decides (decides : Decides ancestry isDescendentOf)
    (node : Node H N V) :
    ForkTree.isOnBranch isDescendentOf hash node =
      .ok (decide (node.hash = hash) || ancestry.isAncestor node.hash hash) := by
  unfold ForkTree.isOnBranch
  by_cases same : node.hash = hash
  · simp [same]
  · rw [if_neg same, decides]
    simp [same]

theorem Candidate.onBranch {node : Node H N V}
    (candidate : Candidate ancestry hash predicate node = true) :
    node.hash = hash ∨ ancestry.isAncestor node.hash hash = true := by
  simp only [Candidate, Bool.and_eq_true, Bool.or_eq_true, decide_eq_true_eq] at candidate
  exact candidate.2

omit [DecidableEq H] in
/-- Two nodes of a represented forest on the branch of one block are one node,
or one lies below the other. -/
theorem Represents.below_or_above_of_onBranch {forest : List (Node H N V)}
    (represents : Represents ancestry forest) {first second : Node H N V}
    (firstMember : first ∈ Node.forestNodes forest)
    (secondMember : second ∈ Node.forestNodes forest)
    (firstOnBranch : first.hash = hash ∨ ancestry.isAncestor first.hash hash = true)
    (secondOnBranch : second.hash = hash ∨ ancestry.isAncestor second.hash hash = true) :
    first = second ∨ second ∈ Node.forestNodes first.children ∨
      first ∈ Node.forestNodes second.children := by
  rcases ancestry.comparable_of_ancestorOrSelf firstOnBranch secondOnBranch with
    same | firstAbove | secondAbove
  · exact Or.inl (represents.eq_of_hash_eq firstMember secondMember same)
  · exact Or.inr (Or.inl ((represents.mem_descendants_iff firstMember secondMember).mpr firstAbove))
  · exact Or.inr (Or.inr ((represents.mem_descendants_iff secondMember firstMember).mpr secondAbove))

omit [DecidableEq H] in
/-- A root lies below no node of a represented forest. -/
theorem Represents.root_not_below :
    ∀ {roots : List (Node H N V)}, Represents ancestry roots →
      ∀ {root node : Node H N V}, root ∈ roots → node ∈ Node.forestNodes roots →
        root ∉ Node.forestNodes node.children
  | [], _, _, _, rootMember, _, _ => by
      simp at rootMember
  | first :: rest, represents, root, node, rootMember, nodeMember, below => by
      have nodeAbove : ancestry.isAncestor node.hash root.hash = true :=
        represents.isAncestor_of_mem nodeMember below
      rw [Node.forestNodes_cons, List.mem_append] at nodeMember
      rcases List.mem_cons.mp rootMember with rfl | rootInRest
      · rcases nodeMember with inFirst | inRest
        · -- a node of the first tree above its root: the root itself, or below it
          rcases Node.mem_nodes_iff.mp inFirst with rfl | nodeBelow
          · simp at nodeAbove
          · have firstMember : root ∈ Node.forestNodes (root :: rest) := by
              rw [Node.forestNodes_cons]
              exact List.mem_append_left _ (Node.mem_nodes_self root)
            have rootAbove := represents.isAncestor_of_mem firstMember nodeBelow
            rw [ancestry.not_isAncestor_of_isAncestor rootAbove] at nodeAbove
            exact Bool.false_ne_true nodeAbove
        · exact represents.not_mem_rest (Node.mem_nodes_self root)
            (Node.mem_forestNodes_of_below inRest below)
      · have rootInRestNodes : root ∈ Node.forestNodes rest :=
          Node.nodes_sublist_of_mem rootInRest |>.subset (Node.mem_nodes_self root)
        rcases nodeMember with inFirst | inRest
        · have rootInFirst : root ∈ first.nodes :=
            (Node.nodes_sublist_nodes first inFirst).subset
              ((Node.forestNodes_children_sublist node).subset below)
          exact represents.not_mem_rest rootInFirst rootInRestNodes
        · exact Represents.root_not_below represents.tail rootInRest inRest below

mutual

/-- The first candidate the iterator meets in a tree is above every other
candidate of the tree. -/
theorem Node.find?_visitOrder_top :
    ∀ (node : Node H N V), Represents ancestry [node] → ∀ {top : Node H N V},
      node.visitOrder.find? (Candidate ancestry hash predicate) = some top →
        ∀ member ∈ node.nodes, Candidate ancestry hash predicate member = true →
          member = top ∨ ancestry.isAncestor top.hash member.hash = true
  | ⟨selfHash, selfNumber, selfData, children⟩, represents, top, found, member, inNode,
      candidate => by
      rw [Node.visitOrder_eq, List.find?_cons] at found
      have selfMember : (⟨selfHash, selfNumber, selfData, children⟩ : Node H N V) ∈
          Node.forestNodes [⟨selfHash, selfNumber, selfData, children⟩] := by
        simp
      cases selfCandidate : Candidate ancestry hash predicate
          ⟨selfHash, selfNumber, selfData, children⟩ with
      | true =>
          -- the iterator stops at this node, above all of its subtree
          rw [selfCandidate] at found
          cases found
          rcases Node.mem_nodes_iff.mp inNode with same | below
          · exact Or.inl same
          · exact Or.inr (represents.isAncestor_of_mem selfMember below)
      | false =>
          rw [selfCandidate] at found
          rcases Node.mem_nodes_iff.mp inNode with rfl | below
          · rw [selfCandidate] at candidate
            exact absurd candidate Bool.false_ne_true
          · exact Node.find?_forestVisitOrder_top children represents.children found member
              below candidate

/-- The first candidate the iterator meets in a forest is above every other
candidate of the forest: the candidates all lie in one tree. -/
theorem Node.find?_forestVisitOrder_top :
    ∀ (forest : List (Node H N V)), Represents ancestry forest → ∀ {top : Node H N V},
      (Node.forestVisitOrder forest).find? (Candidate ancestry hash predicate) = some top →
        ∀ member ∈ Node.forestNodes forest, Candidate ancestry hash predicate member = true →
          member = top ∨ ancestry.isAncestor top.hash member.hash = true
  | [], _, top, found, _, _, _ => by
      simp at found
  | node :: rest, represents, top, found, member, inForest, candidate => by
      rw [Node.forestVisitOrder_cons, List.find?_append] at found
      rw [Node.forestNodes_cons, List.mem_append] at inForest
      cases inRestFound : (Node.forestVisitOrder rest).find? (Candidate ancestry hash predicate)
        with
      | some restTop =>
          rw [inRestFound, Option.some_or] at found
          have sameTop : restTop = top := Option.some.inj found
          subst sameTop
          have topInRest : restTop ∈ Node.forestNodes rest :=
            (Node.mem_forestVisitOrder rest).mp (List.mem_of_find?_eq_some inRestFound)
          rcases inForest with inNode | inRest
          · -- a candidate of the first tree would share the branch of the later one
            have topCandidate := List.find?_some inRestFound
            have memberInForest : member ∈ Node.forestNodes (node :: rest) := by
              rw [Node.forestNodes_cons]
              exact List.mem_append_left _ inNode
            have topInForest : restTop ∈ Node.forestNodes (node :: rest) := by
              rw [Node.forestNodes_cons]
              exact List.mem_append_right _ topInRest
            exfalso
            rcases represents.below_or_above_of_onBranch memberInForest topInForest
                (Candidate.onBranch candidate) (Candidate.onBranch topCandidate) with
              rfl | topBelow | memberBelow
            · exact represents.not_mem_rest inNode topInRest
            · exact represents.not_mem_rest
                ((Node.nodes_sublist_nodes node inNode).subset
                  ((Node.forestNodes_children_sublist member).subset topBelow))
                topInRest
            · exact represents.not_mem_rest inNode
                (Node.mem_forestNodes_of_below topInRest memberBelow)
          · exact Node.find?_forestVisitOrder_top rest represents.tail inRestFound member inRest
              candidate
      | none =>
          rw [inRestFound, Option.none_or] at found
          rcases inForest with inNode | inRest
          · exact Node.find?_visitOrder_top node represents.head found member inNode candidate
          · have noCandidate := List.find?_eq_none.mp inRestFound member
              ((Node.mem_forestVisitOrder rest).mpr inRest)
            exact absurd candidate noCandidate

end

end Candidates

/-! ## The two walks -/

section Walks

variable [DecidableEq H] [LinearOrder N] {ancestry : Ancestry H N}
  {isDescendentOf : H → H → Except E Bool} {hash : H} {number : N} {predicate : V → Bool}

theorem ForkTree.searchNodes_cons_of_not_candidate (decides : Decides ancestry isDescendentOf)
    (tree : ForkTree H N V) {node : Node H N V} (rest : List (Node H N V))
    (notCandidate : Candidate ancestry hash predicate node = false) :
    tree.searchNodes isDescendentOf hash number predicate (node :: rest) =
      tree.searchNodes isDescendentOf hash number predicate rest := by
  rw [ForkTree.searchNodes]
  split
  · rename_i passes
    simp only [Candidate, passes, Bool.true_and] at notCandidate
    rw [ForkTree.isOnBranch_of_decides decides, notCandidate]
  · rfl

theorem ForkTree.searchNodes_cons_of_candidate (decides : Decides ancestry isDescendentOf)
    (tree : ForkTree H N V) {node : Node H N V} (rest : List (Node H N V))
    (candidate : Candidate ancestry hash predicate node = true) :
    tree.searchNodes isDescendentOf hash number predicate (node :: rest) =
      (ForkTree.checkChildrenNotAncestor isDescendentOf hash number node.children).map
        fun _ => some (tree.roots.any fun root => decide (root.hash = node.hash)) := by
  simp only [Candidate, Bool.and_eq_true] at candidate
  rw [ForkTree.searchNodes, if_pos candidate.1, ForkTree.isOnBranch_of_decides decides,
    candidate.2]
  cases ForkTree.checkChildrenNotAncestor isDescendentOf hash number node.children <;> rfl

/-- The node walk of `finalizes_any_with_descendent_if` stops at the first
candidate and checks its children. -/
theorem ForkTree.searchNodes_eq (decides : Decides ancestry isDescendentOf)
    (tree : ForkTree H N V) :
    ∀ nodes : List (Node H N V),
      tree.searchNodes isDescendentOf hash number predicate nodes =
        match nodes.find? (Candidate ancestry hash predicate) with
        | none => .ok none
        | some node =>
            (ForkTree.checkChildrenNotAncestor isDescendentOf hash number node.children).map
              fun _ => some (tree.roots.any fun root => decide (root.hash = node.hash)) := by
  intro nodes
  induction nodes with
  | nil => rfl
  | cons node rest inductionHypothesis =>
      rw [List.find?_cons]
      cases candidate : Candidate ancestry hash predicate node with
      | true =>
          exact ForkTree.searchNodes_cons_of_candidate decides tree rest candidate
      | false =>
          rw [ForkTree.searchNodes_cons_of_not_candidate decides tree rest candidate]
          exact inductionHypothesis

theorem ForkTree.findPosition_cons_of_not_candidate (decides : Decides ancestry isDescendentOf)
    {root : Node H N V} (rest : List (Node H N V)) (index : Nat)
    (notCandidate : Candidate ancestry hash predicate root = false) :
    ForkTree.findPosition isDescendentOf hash number predicate (root :: rest) index =
      ForkTree.findPosition isDescendentOf hash number predicate rest (index + 1) := by
  rw [ForkTree.findPosition]
  split
  · rename_i passes
    simp only [Candidate, passes, Bool.true_and] at notCandidate
    rw [ForkTree.isOnBranch_of_decides decides, notCandidate]
  · rfl

theorem ForkTree.findPosition_cons_of_candidate (decides : Decides ancestry isDescendentOf)
    {root : Node H N V} (rest : List (Node H N V)) (index : Nat)
    (candidate : Candidate ancestry hash predicate root = true) :
    ForkTree.findPosition isDescendentOf hash number predicate (root :: rest) index =
      (ForkTree.checkChildrenNotAncestor isDescendentOf hash number root.children).map
        fun _ => some index := by
  simp only [Candidate, Bool.and_eq_true] at candidate
  rw [ForkTree.findPosition, if_pos candidate.1, ForkTree.isOnBranch_of_decides decides,
    candidate.2]
  cases ForkTree.checkChildrenNotAncestor isDescendentOf hash number root.children <;> rfl

/-- Without a candidate root the root walk finds nothing. -/
theorem ForkTree.findPosition_of_no_candidate (decides : Decides ancestry isDescendentOf)
    (number : N) :
    ∀ (roots : List (Node H N V)) (index : Nat),
      (∀ root ∈ roots, Candidate ancestry hash predicate root = false) →
        ForkTree.findPosition isDescendentOf hash number predicate roots index = .ok none
  | [], _, _ => rfl
  | root :: rest, index, noCandidate => by
      rw [ForkTree.findPosition_cons_of_not_candidate decides rest index
        (noCandidate root List.mem_cons_self)]
      exact ForkTree.findPosition_of_no_candidate decides number rest (index + 1)
        fun other member => noCandidate other (List.mem_cons_of_mem root member)

/-- The root walk stops at the first candidate root, at its position. -/
theorem ForkTree.findPosition_of_first (decides : Decides ancestry isDescendentOf)
    (number : N) {root : Node H N V} (candidate : Candidate ancestry hash predicate root = true)
    (rest : List (Node H N V)) :
    ∀ (before : List (Node H N V)) (index : Nat),
      (∀ other ∈ before, Candidate ancestry hash predicate other = false) →
        ForkTree.findPosition isDescendentOf hash number predicate (before ++ root :: rest) index =
          (ForkTree.checkChildrenNotAncestor isDescendentOf hash number root.children).map
            fun _ => some (index + before.length)
  | [], index, _ => ForkTree.findPosition_cons_of_candidate decides rest index candidate
  | other :: before, index, noCandidate => by
      rw [List.cons_append, ForkTree.findPosition_cons_of_not_candidate decides _ index
        (noCandidate other List.mem_cons_self),
        ForkTree.findPosition_of_first decides number candidate rest before (index + 1)
          fun earlier member => noCandidate earlier (List.mem_cons_of_mem other member),
        List.length_cons, Nat.add_assoc, Nat.add_comm 1]

/-- `finalize_with_descendent_if` answers what the root walk found: an error,
or `Changed(Some(data))` exactly for the data of the root it opens. -/
theorem ForkTree.finalizeWithDescendentIf_of_findPosition
    (isDescendentOf : H → H → Except E Bool) (predicate : V → Bool) {tree : ForkTree H N V}
    (above : tree.belowFinalized number = false) :
    (∀ failure, ForkTree.findPosition isDescendentOf hash number predicate tree.roots 0 =
        .error failure →
      tree.finalizeWithDescendentIf hash number isDescendentOf predicate = .error failure) ∧
    ∀ position, ForkTree.findPosition isDescendentOf hash number predicate tree.roots 0 =
        .ok position →
      ∃ result finalized,
        tree.finalizeWithDescendentIf hash number isDescendentOf predicate =
          .ok (result, finalized) ∧
        ∀ data, result = .changed (some data) ↔ (tree.openRoot position).1 = some data := by
  have notBelow : ¬tree.belowFinalized number = true := by simp [above]
  constructor
  · intro failure found
    rw [ForkTree.finalizeWithDescendentIf, if_neg notBelow, found]
  · intro position found
    rw [ForkTree.finalizeWithDescendentIf, if_neg notBelow, found]
    dsimp only
    -- the answer is decided by the opened root's data and whether roots were dropped
    cases opened : (tree.openRoot position).1 with
    | some data =>
        exact ⟨_, _, rfl, fun other => by simp⟩
    | none =>
        split
        · -- the arm of an opened root, impossible here
          simp_all
        · exact ⟨_, _, rfl, fun other => by simp⟩
        · exact ⟨_, _, rfl, fun other => by simp⟩

omit [DecidableEq H] [LinearOrder N] in
theorem ForkTree.openRoot_at {tree : ForkTree H N V} {before rest : List (Node H N V)}
    {root : Node H N V} (split : tree.roots = before ++ root :: rest) :
    (tree.openRoot (some before.length)).1 = some root.data := by
  simp [ForkTree.openRoot, split]

omit [DecidableEq H] [LinearOrder N] in
@[simp]
theorem ForkTree.openRoot_none (tree : ForkTree H N V) :
    (tree.openRoot none).1 = none := rfl

end Walks

/-! ## The two finalizations on a represented tree -/

section Agreement

variable [DecidableEq H] [LinearOrder N] {ancestry : Ancestry H N}
  {isDescendentOf : H → H → Except E Bool} {hash : H} {number : N} {predicate : V → Bool}
  {tree : ForkTree H N V}

/-- A represented forest has at most one candidate root. -/
theorem Represents.candidate_root_unique (represents : Represents ancestry tree.roots)
    {first second : Node H N V} (firstRoot : first ∈ tree.roots) (secondRoot : second ∈ tree.roots)
    (firstCandidate : Candidate ancestry hash predicate first = true)
    (secondCandidate : Candidate ancestry hash predicate second = true) : first = second := by
  have firstMember := Node.nodes_sublist_of_mem firstRoot |>.subset (Node.mem_nodes_self first)
  have secondMember := Node.nodes_sublist_of_mem secondRoot |>.subset (Node.mem_nodes_self second)
  rcases represents.below_or_above_of_onBranch firstMember secondMember
      (Candidate.onBranch firstCandidate) (Candidate.onBranch secondCandidate) with
    same | secondBelow | firstBelow
  · exact same
  · exact absurd secondBelow (represents.root_not_below secondRoot firstMember)
  · exact absurd firstBelow (represents.root_not_below firstRoot secondMember)

/-- The dry run with a candidate root: the iterator meets it first, checks its
children and reports a root. -/
theorem ForkTree.finalizesAny_of_candidate_root (decides : Decides ancestry isDescendentOf)
    (represents : Represents ancestry tree.roots) (above : tree.belowFinalized number = false)
    {root : Node H N V} (rootMember : root ∈ tree.roots)
    (candidate : Candidate ancestry hash predicate root = true) :
    tree.finalizesAnyWithDescendentIf hash number isDescendentOf predicate =
      (ForkTree.checkChildrenNotAncestor isDescendentOf hash number root.children).map
        fun _ => some true := by
  have rootNode : root ∈ Node.forestNodes tree.roots :=
    Node.nodes_sublist_of_mem rootMember |>.subset (Node.mem_nodes_self root)
  rw [ForkTree.finalizesAnyWithDescendentIf, if_neg (by simp [above]),
    ForkTreeIterator.toList_eq_forestVisitOrder, ForkTree.searchNodes_eq decides]
  cases found : (Node.forestVisitOrder tree.roots).find? (Candidate ancestry hash predicate) with
  | none =>
      exact absurd candidate (List.find?_eq_none.mp found root
        ((Node.mem_forestVisitOrder _).mpr rootNode))
  | some top =>
      -- the first candidate met is above the root, so it is the root
      have topMember : top ∈ Node.forestNodes tree.roots :=
        (Node.mem_forestVisitOrder _).mp (List.mem_of_find?_eq_some found)
      have isRoot : root = top := by
        rcases Node.find?_forestVisitOrder_top tree.roots represents found root rootNode
            candidate with same | topAbove
        · exact same
        · exact absurd ((represents.mem_descendants_iff topMember rootNode).mpr topAbove)
            (represents.root_not_below rootMember topMember)
      subst isRoot
      have anyRoot : (tree.roots.any fun other => decide (other.hash = root.hash)) = true :=
        List.any_eq_true.mpr ⟨root, rootMember, decide_eq_true rfl⟩
      simp only [anyRoot]

/-- The dry run without a candidate root never reports a root. -/
theorem ForkTree.finalizesAny_of_no_candidate_root (decides : Decides ancestry isDescendentOf)
    (represents : Represents ancestry tree.roots) (above : tree.belowFinalized number = false)
    (noCandidate : ∀ root ∈ tree.roots, Candidate ancestry hash predicate root = false) :
    tree.finalizesAnyWithDescendentIf hash number isDescendentOf predicate ≠ .ok (some true) := by
  rw [ForkTree.finalizesAnyWithDescendentIf, if_neg (by simp [above]),
    ForkTreeIterator.toList_eq_forestVisitOrder, ForkTree.searchNodes_eq decides]
  cases found : (Node.forestVisitOrder tree.roots).find? (Candidate ancestry hash predicate) with
  | none =>
      simp
  | some top =>
      -- the first candidate is no root, and no root carries its hash
      have topMember : top ∈ Node.forestNodes tree.roots :=
        (Node.mem_forestVisitOrder _).mp (List.mem_of_find?_eq_some found)
      have noRoot : (tree.roots.any fun other => decide (other.hash = top.hash)) = false := by
        rw [Bool.eq_false_iff]
        intro anyRoot
        obtain ⟨other, otherRoot, sameHash⟩ := List.any_eq_true.mp anyRoot
        have otherMember :=
          Node.nodes_sublist_of_mem otherRoot |>.subset (Node.mem_nodes_self other)
        have same := represents.eq_of_hash_eq otherMember topMember (of_decide_eq_true sameHash)
        exact Bool.false_ne_true
          ((noCandidate top (same ▸ otherRoot)).symm.trans (List.find?_some found))
      simp only [noRoot]
      cases ForkTree.checkChildrenNotAncestor isDescendentOf hash number top.children <;>
        simp [Except.map]

/-- The real finalization with a candidate root opens it once its children
pass the check. -/
theorem ForkTree.finalizeWithDescendentIf_of_candidate_root
    (decides : Decides ancestry isDescendentOf) (represents : Represents ancestry tree.roots)
    (above : tree.belowFinalized number = false) {root : Node H N V}
    (rootMember : root ∈ tree.roots) (candidate : Candidate ancestry hash predicate root = true) :
    (∀ failure, ForkTree.checkChildrenNotAncestor isDescendentOf hash number root.children =
        .error failure →
      tree.finalizeWithDescendentIf hash number isDescendentOf predicate = .error failure) ∧
    (ForkTree.checkChildrenNotAncestor isDescendentOf hash number root.children = .ok () →
      ∃ result finalized,
        tree.finalizeWithDescendentIf hash number isDescendentOf predicate =
          .ok (result, finalized) ∧
        ∀ data, result = .changed (some data) ↔ root.data = data) := by
  -- the root walk reaches the candidate root after roots that are no candidates
  obtain ⟨first, firstFound⟩ : ∃ first,
      tree.roots.find? (Candidate ancestry hash predicate) = some first := by
    cases found : tree.roots.find? (Candidate ancestry hash predicate) with
    | none => exact absurd candidate (List.find?_eq_none.mp found root rootMember)
    | some first => exact ⟨first, rfl⟩
  have firstMember := List.mem_of_find?_eq_some firstFound
  have same := represents.candidate_root_unique firstMember rootMember
    (List.find?_some firstFound) candidate
  subst same
  obtain ⟨_, before, rest, split, beforeNoCandidate⟩ := List.find?_eq_some_iff_append.mp firstFound
  have walked := ForkTree.findPosition_of_first decides number candidate rest before 0
    fun other member => by simpa using beforeNoCandidate other member
  rw [← split, Nat.zero_add] at walked
  obtain ⟨onError, onOk⟩ :=
    ForkTree.finalizeWithDescendentIf_of_findPosition isDescendentOf predicate above
  constructor
  · intro failure checked
    rw [checked] at walked
    exact onError failure walked
  · intro checked
    rw [checked] at walked
    obtain ⟨result, finalized, finalizes, changedIff⟩ := onOk _ walked
    refine ⟨result, finalized, finalizes, fun data => ?_⟩
    rw [changedIff, ForkTree.openRoot_at split, Option.some.injEq]

/-- The real finalization without a candidate root never hands back data. -/
theorem ForkTree.finalizeWithDescendentIf_of_no_candidate_root
    (decides : Decides ancestry isDescendentOf) (above : tree.belowFinalized number = false)
    (noCandidate : ∀ root ∈ tree.roots, Candidate ancestry hash predicate root = false) :
    ∃ result finalized,
      tree.finalizeWithDescendentIf hash number isDescendentOf predicate =
        .ok (result, finalized) ∧ ∀ data, result ≠ .changed (some data) := by
  have walked := ForkTree.findPosition_of_no_candidate decides number tree.roots 0 noCandidate
  obtain ⟨_, onOk⟩ :=
    ForkTree.finalizeWithDescendentIf_of_findPosition isDescendentOf predicate above
  obtain ⟨result, finalized, finalizes, changedIff⟩ := onOk none walked
  refine ⟨result, finalized, finalizes, fun data changed => ?_⟩
  have opened := (changedIff data).mp changed
  simp at opened

omit [DecidableEq H] in
/-- With a client that answers the ancestry, the check of the children passes
exactly when no child at or below the number is an ancestor of the block. -/
theorem ForkTree.checkChildrenNotAncestor_eq_ok_iff (decides : Decides ancestry isDescendentOf)
    (hash : H) (number : N) :
    ∀ children : List (Node H N V),
      ForkTree.checkChildrenNotAncestor isDescendentOf hash number children = .ok () ↔
        ∀ child ∈ children, child.number ≤ number → ancestry.isAncestor child.hash hash = false := by
  intro children
  induction children with
  | nil =>
      simp [ForkTree.checkChildrenNotAncestor]
  | cons child rest inductionHypothesis =>
      rw [ForkTree.checkChildrenNotAncestor, List.forall_mem_cons]
      by_cases within : child.number ≤ number
      · rw [if_pos within, decides]
        cases below : ancestry.isAncestor child.hash hash with
        | true =>
            simp [within]
        | false =>
            simp only [implies_true, true_and]
            exact inductionHypothesis
      · rw [if_neg within]
        simp only [within, false_imp_iff, true_and]
        exact inductionHypothesis

/-- `finalize_with_descendent_if` never finalizes past a node: when it hands
back data for a block at its own number, the data is that of a candidate root,
and that root is the only node of the tree strictly below the block. -/
theorem ForkTree.finalizeWithDescendentIf_in_order (decides : Decides ancestry isDescendentOf)
    (represents : Represents ancestry tree.roots) (numbered : number = ancestry.rank hash)
    {data : V} {finalized : ForkTree H N V}
    (finalizes : tree.finalizeWithDescendentIf hash number isDescendentOf predicate =
      .ok (.changed (some data), finalized)) :
    ∃ root ∈ tree.roots, Candidate ancestry hash predicate root = true ∧ data = root.data ∧
      ∀ node ∈ Node.forestNodes tree.roots, ancestry.isAncestor node.hash hash = true →
        node = root := by
  have above : tree.belowFinalized number = false := by
    cases below : tree.belowFinalized number with
    | false => rfl
    | true =>
        rw [ForkTree.finalizeWithDescendentIf, if_pos below] at finalizes
        cases finalizes
  -- data comes only from a candidate root
  obtain ⟨root, rootMember, candidate⟩ :
      ∃ root ∈ tree.roots, Candidate ancestry hash predicate root = true := by
    by_contra noCandidate
    obtain ⟨result, other, finalizes', notChanged⟩ :=
      ForkTree.finalizeWithDescendentIf_of_no_candidate_root decides above
        fun root member => Bool.eq_false_iff.mpr fun candidate =>
          noCandidate ⟨root, member, candidate⟩
    rw [finalizes, Except.ok.injEq, Prod.mk.injEq] at finalizes'
    exact notChanged data finalizes'.1.symm
  obtain ⟨onError, onOk⟩ := ForkTree.finalizeWithDescendentIf_of_candidate_root decides
    represents above rootMember candidate
  -- the children of the root passed the check, else the finalization had failed
  have checked : ForkTree.checkChildrenNotAncestor isDescendentOf hash number root.children =
      .ok () := by
    cases checking : ForkTree.checkChildrenNotAncestor isDescendentOf hash number
        root.children with
    | ok _ => rfl
    | error failure =>
        rw [onError failure checking] at finalizes
        cases finalizes
  obtain ⟨result, other, finalizes', changedIff⟩ := onOk checked
  rw [finalizes, Except.ok.injEq, Prod.mk.injEq] at finalizes'
  have sameData : root.data = data := (changedIff data).mp finalizes'.1.symm
  have rootNode : root ∈ Node.forestNodes tree.roots :=
    Node.nodes_sublist_of_mem rootMember |>.subset (Node.mem_nodes_self root)
  refine ⟨root, rootMember, candidate, sameData.symm, fun node nodeMember nodeBelow => ?_⟩
  rcases represents.below_or_above_of_onBranch nodeMember rootNode (Or.inr nodeBelow)
      (Candidate.onBranch candidate) with same | rootUnder | nodeUnder
  · exact same
  · exact absurd rootUnder (represents.root_not_below rootMember nodeMember)
  · -- a node strictly between the root and the block lies below a child of the
    -- root at or below the block's number, which the check refuses
    obtain ⟨child, isChild, inChild⟩ := Node.mem_forestNodes.mp nodeUnder
    have childNode : child ∈ Node.forestNodes tree.roots :=
      Node.mem_forestNodes_of_below rootNode (Node.children_subset_descendants root isChild)
    have childBelow : ancestry.isAncestor child.hash hash = true := by
      rcases Node.mem_nodes_iff.mp inChild with rfl | deeper
      · exact nodeBelow
      · exact ancestry.trans (represents.isAncestor_of_mem childNode deeper) nodeBelow
    have childWithin : child.number ≤ number := by
      rw [represents.numbered child childNode, numbered]
      exact le_of_lt (ancestry.rank_lt childBelow)
    have refused := (ForkTree.checkChildrenNotAncestor_eq_ok_iff decides hash number
      root.children).mp checked child isChild childWithin
    rw [childBelow] at refused
    cases refused

end Agreement

/-- On a tree that represents its blocks, with a client that answers the
ancestry and never errs: the dry run reports a root exactly when the real
finalization hands back data; that data is the data of the only root that is
the block or its ancestor and passes the predicate; and an unfinalized
ancestor refused by the real finalization is refused by the dry run. -/
theorem finalizesAny_agrees_with_finalize [DecidableEq H] [LinearOrder N]
    (ancestry : Ancestry H N) (isDescendentOf : H → H → Except E Bool)
    (decides : Decides ancestry isDescendentOf) (tree : ForkTree H N V)
    (represents : Represents ancestry tree.roots) (hash : H) (number : N)
    (predicate : V → Bool) :
    (tree.finalizesAnyWithDescendentIf hash number isDescendentOf predicate = .ok (some true) ↔
        ∃ data finalized, tree.finalizeWithDescendentIf hash number isDescendentOf predicate =
          .ok (.changed (some data), finalized)) ∧
      (∀ data finalized, tree.finalizeWithDescendentIf hash number isDescendentOf predicate =
          .ok (.changed (some data), finalized) →
        ∃ root ∈ tree.roots, (root.hash = hash ∨ ancestry.isAncestor root.hash hash = true) ∧
          predicate root.data = true ∧ data = root.data ∧
          ∀ other ∈ tree.roots,
            (other.hash = hash ∨ ancestry.isAncestor other.hash hash = true) →
              predicate other.data = true → other = root) ∧
      (tree.finalizeWithDescendentIf hash number isDescendentOf predicate =
          .error .unfinalizedAncestor →
        tree.finalizesAnyWithDescendentIf hash number isDescendentOf predicate =
          .error .unfinalizedAncestor) := by
  cases below : tree.belowFinalized number with
  | true =>
      -- both refuse a block at or below the best finalized number
      have anyReverts : tree.finalizesAnyWithDescendentIf hash number isDescendentOf predicate =
          .error .revert := by
        rw [ForkTree.finalizesAnyWithDescendentIf, if_pos below]
      have finalizeReverts :
          tree.finalizeWithDescendentIf hash number isDescendentOf predicate = .error .revert := by
        rw [ForkTree.finalizeWithDescendentIf, if_pos below]
      simp [anyReverts, finalizeReverts]
  | false =>
      by_cases hasCandidate : ∃ root ∈ tree.roots, Candidate ancestry hash predicate root = true
      · -- both walks settle on the one candidate root and check its children
        obtain ⟨root, rootMember, candidate⟩ := hasCandidate
        have dryRun := ForkTree.finalizesAny_of_candidate_root decides represents below
          rootMember candidate
        obtain ⟨onError, onOk⟩ := ForkTree.finalizeWithDescendentIf_of_candidate_root decides
          represents below rootMember candidate
        have onlyRoot : ∀ other ∈ tree.roots,
            (other.hash = hash ∨ ancestry.isAncestor other.hash hash = true) →
              predicate other.data = true → other = root := fun other member onBranch passes =>
          represents.candidate_root_unique member rootMember
            (Candidate.eq_true_iff.mpr ⟨onBranch, passes⟩) candidate
        obtain ⟨rootOnBranch, rootPasses⟩ := Candidate.eq_true_iff.mp candidate
        cases checked : ForkTree.checkChildrenNotAncestor isDescendentOf hash number
            root.children with
        | error failure =>
            have finalizeFails := onError failure checked
            rw [checked] at dryRun
            refine ⟨?_, fun data finalized finalizes => ?_, fun fails => ?_⟩
            · simp [dryRun, finalizeFails, Except.map]
            · rw [finalizeFails] at finalizes
              cases finalizes
            · rw [finalizeFails] at fails
              cases fails
              rw [dryRun]
              rfl
        | ok _ =>
            obtain ⟨result, finalized, finalizes, changedIff⟩ := onOk checked
            have opened : result = .changed (some root.data) := (changedIff root.data).mpr rfl
            rw [checked] at dryRun
            refine ⟨?_, fun data other finalizes' => ?_, fun fails => ?_⟩
            · rw [dryRun]
              exact iff_of_true rfl ⟨root.data, finalized, by rw [finalizes, opened]⟩
            · rw [finalizes, Except.ok.injEq, Prod.mk.injEq] at finalizes'
              have sameData := (changedIff data).mp finalizes'.1
              exact ⟨root, rootMember, rootOnBranch, rootPasses, sameData.symm, onlyRoot⟩
            · rw [finalizes] at fails
              cases fails
      · -- no root is a candidate: the dry run reports no root, the real one no data
        have noCandidate : ∀ root ∈ tree.roots, Candidate ancestry hash predicate root = false :=
          fun root member => Bool.eq_false_iff.mpr fun candidate =>
            hasCandidate ⟨root, member, candidate⟩
        have dryRun := ForkTree.finalizesAny_of_no_candidate_root decides represents below
          noCandidate
        obtain ⟨result, finalized, finalizes, notChanged⟩ :=
          ForkTree.finalizeWithDescendentIf_of_no_candidate_root decides below noCandidate
        have noData : ∀ data other, tree.finalizeWithDescendentIf hash number isDescendentOf
            predicate ≠ .ok (.changed (some data), other) := by
          intro data other finalizes'
          rw [finalizes, Except.ok.injEq, Prod.mk.injEq] at finalizes'
          exact notChanged data finalizes'.1
        refine ⟨iff_of_false dryRun fun ⟨data, other, finalizes'⟩ => noData data other finalizes',
          fun data other finalizes' => absurd finalizes' (noData data other), fun fails => ?_⟩
        rw [finalizes] at fails
        cases fails

/-- On the chain with blocks `1` and `2` imported, finalizing block `2` under a
predicate that always passes. -/
theorem finalizesAny_agrees_on_chain :
    (ForkTree.finalizesAnyWithDescendentIf
        (ForkTree.run (fun base block => .ok (decide (base < block)) :
            Nat → Nat → Except Unit Bool)
          ([.import 1 1 0, .import 2 2 0] : List (ForkTree.Operation Nat Nat Nat)))
        2 2 (fun base block => .ok (decide (base < block)) : Nat → Nat → Except Unit Bool)
        (fun _ => true) = .ok (some true) ↔
      ∃ data finalized,
        ForkTree.finalizeWithDescendentIf
          (ForkTree.run (fun base block => .ok (decide (base < block)) :
              Nat → Nat → Except Unit Bool)
            ([.import 1 1 0, .import 2 2 0] : List (ForkTree.Operation Nat Nat Nat)))
          2 2 (fun base block => .ok (decide (base < block)) : Nat → Nat → Except Unit Bool)
          (fun _ => true) =
        .ok (.changed (some data), finalized)) :=
  (finalizesAny_agrees_with_finalize Ancestry.chain _ (fun _ _ => rfl) _
    (ForkTree.run_consistent (fun _ _ => rfl) _ (by decide) (by decide)).represents 2 2
    fun _ => true).1

end OffchainStorage.Fork
