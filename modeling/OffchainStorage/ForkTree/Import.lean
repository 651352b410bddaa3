import OffchainStorage.ForkTree.Tree
import OffchainStorage.ForkTree.Attach
import Mathlib

/-!
# `import` on a represented tree

When the client's `is_descendent_of` is the ancestry of the blocks and the
imported number is the block's number, `import` of a block that is not in the
tree attaches it below the deepest tree node that is its ancestor, or adds it
as a new root when no node is; a block already in the tree is refused as a
duplicate, because the walk never skips the branch holding it.

The walk itself (`Node.import`, first fit over the children, early exit on
numbers) is described by three lemmas: it leaves a subtree without ancestors
of the block as it is, it finds a duplicate, and it attaches below the
deepest ancestor.
-/

namespace OffchainStorage.Fork

variable {H N V E : Type} [DecidableEq H] [LinearOrder N]

/-- The client's `is_descendent_of` answers with the ancestry of the blocks
and never errs. -/
def Decides (ancestry : Ancestry H N) (isDescendentOf : H → H → Except E Bool) : Prop :=
  ∀ base block, isDescendentOf base block = .ok (ancestry.isAncestor base block)

/-- `deepest` is the node of the forest that is an ancestor of `hash` and
below every other such node. -/
structure DeepestAncestor (ancestry : Ancestry H N) (forest : List (Node H N V)) (hash : H)
    (deepest : Node H N V) : Prop where
  mem : deepest ∈ Node.forestNodes forest
  isAncestor : ancestry.isAncestor deepest.hash hash = true
  deepest : ∀ node ∈ Node.forestNodes forest, ancestry.isAncestor node.hash hash = true →
    node = deepest ∨ ancestry.isAncestor node.hash deepest.hash = true

/-- A node unrelated to the block: neither the block nor its ancestor. -/
def Unrelated (isDescendentOf : H → H → Except E Bool) (hash : H) (node : Node H N V) : Prop :=
  node.hash ≠ hash ∧ isDescendentOf node.hash hash = .ok false

/-! ## The walk over unrelated nodes -/

section Walk

variable {isDescendentOf : H → H → Except E Bool} {hash : H} {number : N} {data : V}

mutual

/-- A subtree without the block and without its ancestors hands the block
back unchanged. -/
theorem Node.import_of_unrelated :
    ∀ (node : Node H N V), (∀ member ∈ node.nodes, Unrelated isDescendentOf hash member) →
      node.import isDescendentOf hash number data = .ok (some (hash, number, data), node)
  | ⟨selfHash, selfNumber, selfData, children⟩, unrelated => by
      obtain ⟨notSelf, notAncestor⟩ := unrelated _ (Node.mem_nodes_self _)
      have childrenUnrelated : ∀ member ∈ Node.forestNodes children,
          Unrelated isDescendentOf hash member := fun member below =>
        unrelated member (Node.mem_nodes_iff.mpr (Or.inr below))
      rw [Node.import, if_neg notSelf]
      by_cases early : number ≤ selfNumber
      · rw [if_pos early]
      · rw [if_neg early, Node.importChildren_of_unrelated children childrenUnrelated]
        simp only at notAncestor
        simp [notAncestor]

/-- A forest without the block and without its ancestors hands the block
back unchanged. -/
theorem Node.importChildren_of_unrelated :
    ∀ (forest : List (Node H N V)),
      (∀ member ∈ Node.forestNodes forest, Unrelated isDescendentOf hash member) →
      Node.importChildren isDescendentOf hash number data forest =
        .ok (some (hash, number, data), forest)
  | [], _ => rfl
  | node :: rest, unrelated => by
      simp only [Node.forestNodes_cons, List.mem_append] at unrelated
      rw [Node.importChildren, Node.import_of_unrelated node fun member inNode =>
          unrelated member (Or.inl inNode)]
      dsimp only
      rw [Node.importChildren_of_unrelated rest fun member inRest =>
          unrelated member (Or.inr inRest)]

end

end Walk

/-- The extra hash comparison of the roots loop changes nothing: a root with
the block's hash is refused by its own `import` as well. -/
theorem ForkTree.importRoots_eq_importChildren (isDescendentOf : H → H → Except E Bool) :
    ∀ (roots : List (Node H N V)) (hash : H) (number : N) (data : V),
      ForkTree.importRoots isDescendentOf hash number data roots =
        Node.importChildren isDescendentOf hash number data roots
  | [], _, _, _ => rfl
  | ⟨selfHash, selfNumber, selfData, children⟩ :: rest, hash, number, data => by
      rw [ForkTree.importRoots, Node.importChildren]
      by_cases isSelf : selfHash = hash
      · rw [if_pos isSelf, Node.import, if_pos isSelf]
      · rw [if_neg isSelf]
        -- the two loops then differ only in their match functions
        rcases Node.import isDescendentOf hash number data
            ⟨selfHash, selfNumber, selfData, children⟩ with
          failure | ⟨_ | ⟨hash, number, data⟩, root⟩
        · rfl
        · rfl
        · dsimp only
          have sameRest := ForkTree.importRoots_eq_importChildren isDescendentOf rest hash
            number data
          generalize ForkTree.importRoots isDescendentOf hash number data rest = walkedRest
            at sameRest ⊢
          subst sameRest
          rcases Node.importChildren isDescendentOf hash number data rest with
            failure | ⟨result, rest⟩ <;> rfl

/-! ## The walk over a represented forest -/

section Represented

variable {ancestry : Ancestry H N} {isDescendentOf : H → H → Except E Bool}
  {hash : H} {number : N} {data : V}

omit [DecidableEq H] in
theorem Decides.unrelated (decides : Decides ancestry isDescendentOf) {node : Node H N V}
    (notSame : node.hash ≠ hash) (notAncestor : ancestry.isAncestor node.hash hash = false) :
    Unrelated isDescendentOf hash node :=
  ⟨notSame, by rw [decides, notAncestor]⟩

omit [DecidableEq H] in
/-- An ancestor of the block carries a smaller number than the block. -/
theorem Represents.number_lt_of_isAncestor {forest : List (Node H N V)}
    (represents : Represents ancestry forest) {node : Node H N V}
    (member : node ∈ Node.forestNodes forest) (numbered : number = ancestry.rank hash)
    (isAncestor : ancestry.isAncestor node.hash hash = true) : node.number < number := by
  rw [represents.numbered node member, numbered]
  exact ancestry.rank_lt isAncestor

mutual

/-- The walk finds a duplicate: every node on the way to it is its ancestor,
so the early exit on numbers never skips it. -/
theorem Node.import_of_mem (decides : Decides ancestry isDescendentOf)
    (numbered : number = ancestry.rank hash) :
    ∀ (node : Node H N V), Represents ancestry [node] → hash ∈ node.nodes.map Node.hash →
      node.import isDescendentOf hash number data = .error .duplicate
  | ⟨selfHash, selfNumber, selfData, children⟩, represents, present => by
      rw [Node.import]
      by_cases isSelf : selfHash = hash
      · rw [if_pos isSelf]
      · rw [if_neg isSelf]
        have inChildren : hash ∈ Node.forestHashes children := by
          rw [Node.hashes_nodes, List.mem_cons] at present
          exact present.resolve_left (Ne.symm isSelf)
        obtain ⟨block, below, blockHash⟩ := Node.mem_forestHashes.mp inChildren
        have selfMember : (⟨selfHash, selfNumber, selfData, children⟩ : Node H N V) ∈
            Node.forestNodes [⟨selfHash, selfNumber, selfData, children⟩] := by
          simp
        have isAncestor := represents.isAncestor_of_mem selfMember below
        rw [blockHash] at isAncestor
        have lower := represents.number_lt_of_isAncestor selfMember numbered isAncestor
        rw [if_neg (not_le.mpr lower),
          Node.importChildren_of_mem decides numbered children represents.children inChildren]

/-- The walk over children finds a duplicate in any of them. -/
theorem Node.importChildren_of_mem (decides : Decides ancestry isDescendentOf)
    (numbered : number = ancestry.rank hash) :
    ∀ (forest : List (Node H N V)), Represents ancestry forest →
      hash ∈ Node.forestHashes forest →
      Node.importChildren isDescendentOf hash number data forest = .error .duplicate
  | [], _, present => by
      simp at present
  | root :: rest, represents, present => by
      rw [Node.forestHashes_cons, List.mem_append] at present
      rw [Node.importChildren]
      rcases present with inRoot | inRest
      · rw [Node.import_of_mem decides numbered root represents.head inRoot]
      · obtain ⟨block, blockInRest, blockHash⟩ := Node.mem_forestHashes.mp inRest
        have unrelated := represents.unrelated_of_mem_rest blockInRest
        rw [blockHash] at unrelated
        rw [Node.import_of_unrelated root fun member inRoot =>
          decides.unrelated (unrelated member inRoot).1 (unrelated member inRoot).2]
        dsimp only
        rw [Node.importChildren_of_mem decides numbered rest represents.tail inRest]

end

omit [DecidableEq H] in
theorem DeepestAncestor.of_subset {forest smaller : List (Node H N V)} {deepest : Node H N V}
    (deepestAt : DeepestAncestor ancestry forest hash deepest)
    (inSmaller : deepest ∈ Node.forestNodes smaller)
    (subset : Node.forestNodes smaller ⊆ Node.forestNodes forest) :
    DeepestAncestor ancestry smaller hash deepest where
  mem := inSmaller
  isAncestor := deepestAt.isAncestor
  deepest node member := deepestAt.deepest node (subset member)

/-- One node of the walk to the deepest ancestor, given the walk over its
children: the early exit on numbers never skips an ancestor of the block, and
when the deepest ancestor is this node no child holds an ancestor. -/
theorem Node.import_of_deepest_step (decides : Decides ancestry isDescendentOf)
    (numbered : number = ancestry.rank hash) {deepest node : Node H N V}
    (represents : Represents ancestry [node]) (fresh : hash ∉ node.nodes.map Node.hash)
    (deepestAt : DeepestAncestor ancestry [node] hash deepest)
    (childrenWalk : DeepestAncestor ancestry node.children hash deepest →
      Node.importChildren isDescendentOf hash number data node.children =
        .ok (none, Node.attachLeafForest deepest.hash hash number data node.children)) :
    node.import isDescendentOf hash number data =
      .ok (none, node.attachLeaf deepest.hash hash number data) := by
  rw [Node.hashes_nodes, List.mem_cons, not_or] at fresh
  have selfMember : node ∈ Node.forestNodes [node] := by simp
  have selfNotBelow : node.hash ∉ Node.forestHashes node.children := by
    have nodup := represents.nodup
    rw [Node.forestHashes, Node.forestNodes_singleton, Node.hashes_nodes] at nodup
    exact (List.nodup_cons.mp nodup).1
  have deepestPlace := deepestAt.mem
  rw [Node.forestNodes_singleton, Node.mem_nodes_iff] at deepestPlace
  -- every node above the deepest ancestor is an ancestor of the block
  have selfAncestor : ancestry.isAncestor node.hash hash = true := by
    rcases deepestPlace with atSelf | below
    · rw [← atSelf]
      exact deepestAt.isAncestor
    · exact ancestry.trans (represents.isAncestor_of_mem selfMember below)
        deepestAt.isAncestor
  have lower := represents.number_lt_of_isAncestor selfMember numbered selfAncestor
  rcases deepestPlace with atSelf | below
  · -- the block goes right below this node: no child holds an ancestor
    have childrenUnrelated : ∀ member ∈ Node.forestNodes node.children,
        Unrelated isDescendentOf hash member := by
      intro member below
      have memberAbove : ancestry.isAncestor node.hash member.hash = true :=
        represents.isAncestor_of_mem selfMember below
      refine decides.unrelated (fun same => fresh.2 (same ▸ Node.hash_mem_forestHashes below))
        (Bool.eq_false_iff.mpr fun isAncestor => ?_)
      have memberInForest := Node.mem_forestNodes_of_below selfMember below
      rcases deepestAt.deepest member memberInForest isAncestor with same | aboveDeepest
      · rw [same, ← atSelf] at memberAbove
        simp at memberAbove
      · rw [atSelf, ancestry.not_isAncestor_of_isAncestor memberAbove] at aboveDeepest
        exact Bool.false_ne_true aboveDeepest
    subst atSelf
    cases deepest with
    | mk selfHash selfNumber selfData children =>
        dsimp only at fresh selfNotBelow selfAncestor lower childrenUnrelated ⊢
        rw [Node.import, if_neg (Ne.symm fresh.1), if_neg (not_le.mpr lower),
          Node.importChildren_of_unrelated children childrenUnrelated]
        dsimp only
        rw [decides, selfAncestor, Node.attachLeaf,
          Node.attachLeafForest_of_not_mem children selfNotBelow]
        simp
  · -- the deepest ancestor lies in a child's subtree
    have childrenDeepest : DeepestAncestor ancestry node.children hash deepest :=
      deepestAt.of_subset below (by
        rw [Node.forestNodes_singleton]
        exact (Node.forestNodes_children_sublist node).subset)
    have notDeepest : node.hash ≠ deepest.hash := fun same =>
      selfNotBelow (same ▸ Node.hash_mem_forestHashes below)
    have walked := childrenWalk childrenDeepest
    cases node with
    | mk selfHash selfNumber selfData children =>
        dsimp only at fresh lower notDeepest walked ⊢
        rw [Node.import, if_neg (Ne.symm fresh.1), if_neg (not_le.mpr lower), walked]
        dsimp only
        rw [Node.attachLeaf]
        simp [notDeepest]

mutual

/-- The walk attaches the block below its deepest ancestor. -/
theorem Node.import_of_deepest (decides : Decides ancestry isDescendentOf)
    (numbered : number = ancestry.rank hash) {deepest : Node H N V} :
    ∀ (node : Node H N V), Represents ancestry [node] → hash ∉ node.nodes.map Node.hash →
      DeepestAncestor ancestry [node] hash deepest →
      node.import isDescendentOf hash number data =
        .ok (none, node.attachLeaf deepest.hash hash number data)
  | ⟨selfHash, selfNumber, selfData, children⟩, represents, fresh, deepestAt => by
      have childrenFresh : hash ∉ Node.forestHashes children := by
        rw [Node.hashes_nodes, List.mem_cons, not_or] at fresh
        exact fresh.2
      exact Node.import_of_deepest_step decides numbered represents fresh deepestAt
        (Node.importChildren_of_deepest decides numbered children represents.children
          childrenFresh)

/-- The walk over children attaches the block below its deepest ancestor. -/
theorem Node.importChildren_of_deepest (decides : Decides ancestry isDescendentOf)
    (numbered : number = ancestry.rank hash) {deepest : Node H N V} :
    ∀ (forest : List (Node H N V)), Represents ancestry forest →
      hash ∉ Node.forestHashes forest → DeepestAncestor ancestry forest hash deepest →
      Node.importChildren isDescendentOf hash number data forest =
        .ok (none, Node.attachLeafForest deepest.hash hash number data forest)
  | [], _, _, deepestAt => by
      simpa using deepestAt.mem
  | root :: rest, represents, fresh, deepestAt => by
      rw [Node.forestHashes_cons, List.mem_append, not_or] at fresh
      have deepestPlace := deepestAt.mem
      rw [Node.forestNodes_cons, List.mem_append] at deepestPlace
      rw [Node.importChildren, Node.attachLeafForest_cons]
      rcases deepestPlace with inRoot | inRest
      · have rootDeepest : DeepestAncestor ancestry [root] hash deepest :=
          deepestAt.of_subset (by simpa using inRoot) (by
            rw [Node.forestNodes_singleton, Node.forestNodes_cons]
            exact List.subset_append_left _ _)
        rw [Node.import_of_deepest decides numbered root represents.head fresh.1 rootDeepest]
        dsimp only
        -- the deepest ancestor's hash occurs in the first tree only
        have notInRest : deepest.hash ∉ Node.forestHashes rest := by
          intro inRestHashes
          obtain ⟨other, otherInRest, sameHash⟩ := Node.mem_forestHashes.mp inRestHashes
          exact (represents.unrelated_of_mem_rest otherInRest deepest inRoot).1 sameHash.symm
        rw [Node.attachLeafForest_of_not_mem rest notInRest]
      · have unrelated := represents.unrelated_of_mem_rest inRest
        have rootUnrelated : ∀ member ∈ root.nodes, Unrelated isDescendentOf hash member := by
          intro member inRoot
          refine decides.unrelated
            (fun same => fresh.1 (same ▸ List.mem_map_of_mem inRoot))
            (Bool.eq_false_iff.mpr fun isAncestor => ?_)
          have memberInForest : member ∈ Node.forestNodes (root :: rest) := by
            rw [Node.forestNodes_cons]
            exact List.mem_append_left _ inRoot
          rcases deepestAt.deepest member memberInForest isAncestor with same | aboveDeepest
          · exact (unrelated member inRoot).1 (congrArg Node.hash same)
          · rw [(unrelated member inRoot).2] at aboveDeepest
            exact Bool.false_ne_true aboveDeepest
        have restDeepest : DeepestAncestor ancestry rest hash deepest :=
          deepestAt.of_subset inRest (by
            rw [Node.forestNodes_cons]
            exact List.subset_append_right _ _)
        rw [Node.import_of_unrelated root rootUnrelated]
        dsimp only
        rw [Node.importChildren_of_deepest decides numbered rest represents.tail fresh.2
          restDeepest]
        dsimp only
        have notInRoot : deepest.hash ∉ root.nodes.map Node.hash := by
          rw [List.mem_map]
          rintro ⟨member, inRoot, sameHash⟩
          exact (unrelated member inRoot).1 sameHash
        rw [Node.attachLeaf_of_not_mem root notInRoot]

end

omit [DecidableEq H] in
/-- Among the ancestors of the block in a represented forest, the one of
largest rank is below all the others, since ancestors of one block are
comparable. -/
theorem Represents.exists_deepest {forest : List (Node H N V)}
    (represents : Represents ancestry forest)
    (hasAncestor : ∃ node ∈ Node.forestNodes forest, ancestry.isAncestor node.hash hash = true) :
    ∃ deepest, DeepestAncestor ancestry forest hash deepest := by
  let ancestors := (Node.forestNodes forest).filter fun node => ancestry.isAncestor node.hash hash
  have nonempty : ancestors ≠ [] := by
    obtain ⟨node, member, isAncestor⟩ := hasAncestor
    exact List.ne_nil_of_mem (List.mem_filter.mpr ⟨member, isAncestor⟩)
  obtain ⟨deepest, chosen⟩ : ∃ deepest,
      deepest ∈ List.argmax (fun node => ancestry.rank node.hash) ancestors := by
    cases found : List.argmax (fun node => ancestry.rank node.hash) ancestors with
    | none => exact absurd (List.argmax_eq_none.mp found) nonempty
    | some deepest => exact ⟨deepest, rfl⟩
  obtain ⟨deepestMember, deepestAncestor⟩ := List.mem_filter.mp (List.argmax_mem chosen)
  refine ⟨deepest, deepestMember, deepestAncestor, fun node member isAncestor => ?_⟩
  have lowerRank := List.le_of_mem_argmax (List.mem_filter.mpr ⟨member, isAncestor⟩) chosen
  rcases ancestry.comparable isAncestor deepestAncestor with same | above | below
  · exact Or.inl (represents.eq_of_hash_eq member deepestMember same)
  · exact Or.inr above
  · exact absurd lowerRank (not_le.mpr (ancestry.rank_lt below))

end Represented

/-! ## `ForkTree::import` -/

section TreeImport

variable {ancestry : Ancestry H N} {isDescendentOf : H → H → Except E Bool}
  {tree : ForkTree H N V} {hash : H} {number : N} {data : V}

/-- What `import` does to a represented tree: refuse a block at or below the
best finalized number, then refuse a duplicate, then attach the block below
its deepest ancestor, or make it a new root when it has none. -/
theorem ForkTree.import_spec (decides : Decides ancestry isDescendentOf) (data : V)
    (numbered : number = ancestry.rank hash) (represents : Represents ancestry tree.roots) :
    (tree.belowFinalized number = true ∧
        tree.import hash number data isDescendentOf = .error .revert) ∨
      (tree.belowFinalized number = false ∧ hash ∈ Node.forestHashes tree.roots ∧
        tree.import hash number data isDescendentOf = .error .duplicate) ∨
      (tree.belowFinalized number = false ∧ hash ∉ Node.forestHashes tree.roots ∧
        ∃ deepest, DeepestAncestor ancestry tree.roots hash deepest ∧
          tree.import hash number data isDescendentOf =
            .ok (false, { tree with
              roots := Node.attachLeafForest deepest.hash hash number data tree.roots })) ∨
      (tree.belowFinalized number = false ∧ hash ∉ Node.forestHashes tree.roots ∧
        (∀ node ∈ Node.forestNodes tree.roots, ancestry.isAncestor node.hash hash = false) ∧
        tree.import hash number data isDescendentOf =
          .ok (true, { tree with roots := tree.roots ++ [Node.leaf hash number data] })) := by
  cases below : tree.belowFinalized number with
  | true =>
      left
      exact ⟨rfl, by rw [ForkTree.import, if_pos below]⟩
  | false =>
      right
      have notBelow : ¬tree.belowFinalized number = true := by simp [below]
      by_cases present : hash ∈ Node.forestHashes tree.roots
      · left
        refine ⟨rfl, present, ?_⟩
        rw [ForkTree.import, if_neg notBelow, ForkTree.importRoots_eq_importChildren,
          Node.importChildren_of_mem decides numbered _ represents present]
      right
      by_cases hasAncestor :
          ∃ node ∈ Node.forestNodes tree.roots, ancestry.isAncestor node.hash hash = true
      · left
        obtain ⟨deepest, deepestAt⟩ := represents.exists_deepest hasAncestor
        refine ⟨rfl, present, deepest, deepestAt, ?_⟩
        rw [ForkTree.import, if_neg notBelow, ForkTree.importRoots_eq_importChildren,
          Node.importChildren_of_deepest decides numbered _ represents present deepestAt]
      · right
        have noAncestor : ∀ node ∈ Node.forestNodes tree.roots,
            ancestry.isAncestor node.hash hash = false := by
          intro node member
          exact Bool.eq_false_iff.mpr fun isAncestor => hasAncestor ⟨node, member, isAncestor⟩
        refine ⟨rfl, present, noAncestor, ?_⟩
        have unrelated : ∀ node ∈ Node.forestNodes tree.roots,
            Unrelated isDescendentOf hash node := fun node member =>
          decides.unrelated (fun same => present (same ▸ Node.hash_mem_forestHashes member))
            (noAncestor node member)
        rw [ForkTree.import, if_neg notBelow, ForkTree.importRoots_eq_importChildren,
          Node.importChildren_of_unrelated _ unrelated]

omit [DecidableEq H] in
/-- The deepest ancestor is unique. -/
theorem DeepestAncestor.unique {forest : List (Node H N V)} {first second : Node H N V}
    (firstAt : DeepestAncestor ancestry forest hash first)
    (secondAt : DeepestAncestor ancestry forest hash second) : first = second := by
  rcases firstAt.deepest second secondAt.mem secondAt.isAncestor with same | secondAbove
  · exact same.symm
  rcases secondAt.deepest first firstAt.mem firstAt.isAncestor with same | firstAbove
  · exact same
  rw [ancestry.not_isAncestor_of_isAncestor secondAbove] at firstAbove
  exact absurd firstAbove Bool.false_ne_true

/-- The answers of `import` on a represented tree, as the conditions that
select them: a revert exactly at or below the best finalized number, a
duplicate exactly for a block of the tree above it, and otherwise the block
attached below its deepest ancestor or added as a root. -/
theorem ForkTree.import_outcomes (decides : Decides ancestry isDescendentOf)
    (represents : Represents ancestry tree.roots) (data : V)
    (numbered : number = ancestry.rank hash) :
    (tree.import hash number data isDescendentOf = .error .revert ↔
        tree.belowFinalized number = true) ∧
      (tree.import hash number data isDescendentOf = .error .duplicate ↔
        hash ∈ Node.forestHashes tree.roots ∧ tree.belowFinalized number = false) ∧
      (tree.belowFinalized number = false → hash ∉ Node.forestHashes tree.roots →
        (∀ deepest, DeepestAncestor ancestry tree.roots hash deepest →
          tree.import hash number data isDescendentOf =
            .ok (false, { tree with
              roots := Node.attachLeafForest deepest.hash hash number data tree.roots })) ∧
        ((∀ node ∈ Node.forestNodes tree.roots, ancestry.isAncestor node.hash hash = false) →
          tree.import hash number data isDescendentOf =
            .ok (true, { tree with roots := tree.roots ++ [Node.leaf hash number data] }))) := by
  rcases ForkTree.import_spec decides data numbered represents with
    ⟨below, reverted⟩ | ⟨above, present, duplicate⟩ |
      ⟨above, fresh, deepest, deepestAt, attached⟩ | ⟨above, fresh, noAncestor, added⟩
  · refine ⟨by simp [reverted, below], by simp [reverted, below], fun above => ?_⟩
    rw [below] at above
    exact absurd above Bool.noConfusion
  · exact ⟨by simp [duplicate, above], by simp [duplicate, above, present],
      fun _ fresh => absurd present fresh⟩
  · -- the block has an ancestor in the tree: it is attached below the deepest one
    refine ⟨by simp [attached, above], by simp [attached, fresh], fun _ _ => ⟨?_, ?_⟩⟩
    · intro other otherAt
      rw [attached, otherAt.unique deepestAt]
    · intro noAncestor
      exact absurd ((noAncestor deepest deepestAt.mem).symm.trans deepestAt.isAncestor)
        Bool.false_ne_true
  · -- no ancestor: the block becomes a root
    refine ⟨by simp [added, above], by simp [added, fresh], fun _ _ => ⟨?_, fun _ => added⟩⟩
    intro deepest deepestAt
    exact absurd ((noAncestor deepest deepestAt.mem).symm.trans deepestAt.isAncestor)
      Bool.false_ne_true

end TreeImport

/-! ## The invariant after an import -/

section Preservation

variable {ancestry : Ancestry H N} {forest : List (Node H N V)}
  {hash : H} {number : N} {data : V}

omit [DecidableEq H] in
/-- A new leaf has no block below it. -/
theorem Node.leaf_descendants_iff {member : H}
    (noDescendant : ancestry.isAncestor hash member = false) :
    member ∈ Node.forestHashes (Node.leaf hash number data).children ↔
      ancestry.isAncestor (Node.leaf hash number data).hash member = true := by
  rw [Node.leaf_children, Node.forestHashes_nil, Node.leaf_hash, noDescendant]
  exact iff_of_false List.not_mem_nil Bool.false_ne_true

omit [DecidableEq H] in
theorem Node.leaf_numbered (numbered : number = ancestry.rank hash) :
    (Node.leaf hash number data).number = ancestry.rank (Node.leaf hash number data).hash :=
  numbered

/-- Attaching a new block below its deepest ancestor keeps the forest
represented, when no block of the forest descends from it. -/
theorem Represents.attachLeafForest (represents : Represents ancestry forest)
    (numbered : number = ancestry.rank hash) (fresh : hash ∉ Node.forestHashes forest)
    (noDescendant : ∀ node ∈ Node.forestNodes forest, ancestry.isAncestor hash node.hash = false)
    {deepest : Node H N V} (deepestAt : DeepestAncestor ancestry forest hash deepest) :
    Represents ancestry (Node.attachLeafForest deepest.hash hash number data forest) where
  nodup := Node.nodup_attachLeafForest represents.nodup
    (Node.hash_mem_forestHashes deepestAt.mem) fresh
  numbered node member := by
    rcases (Node.mem_forestNodes_attachLeafForest forest).mp member with
      ⟨old, oldMember, rfl⟩ | ⟨rfl, _⟩
    · rw [Node.attachLeaf_number, Node.attachLeaf_hash]
      exact represents.numbered old oldMember
    · exact Node.leaf_numbered numbered
  descendants node nodeMember other otherMember := by
    rcases (Node.mem_forestNodes_attachLeafForest forest).mp nodeMember with
      ⟨old, oldMember, rfl⟩ | ⟨rfl, _⟩
    · have freshBelow : hash ∉ Node.forestHashes old.children := fun below =>
        fresh (Node.forestHashes_children_subset oldMember below)
      rw [Node.mem_forestHashes_attachLeaf_children, Node.attachLeaf_hash]
      rcases (Node.mem_forestNodes_attachLeafForest forest).mp otherMember with
        ⟨otherOld, otherOldMember, rfl⟩ | ⟨rfl, _⟩
      · -- an old block: only the old subtree can hold it
        have notLeaf : otherOld.hash ≠ hash := fun same =>
          fresh (same ▸ Node.hash_mem_forestHashes otherOldMember)
        rw [Node.attachLeaf_hash, represents.descendants old oldMember otherOld otherOldMember]
        exact or_iff_left fun ⟨same, _⟩ => notLeaf same
      · -- the new block lies below exactly the deepest ancestor and its ancestors
        simp only [Node.leaf_hash, freshBelow, false_or, true_and]
        rw [represents.descendants old oldMember deepest deepestAt.mem]
        constructor
        · rintro (aboveDeepest | same)
          · exact ancestry.trans aboveDeepest deepestAt.isAncestor
          · rw [same]
            exact deepestAt.isAncestor
        · intro isAncestor
          rcases deepestAt.deepest old oldMember isAncestor with same | aboveDeepest
          · exact Or.inr (congrArg Node.hash same)
          · exact Or.inl aboveDeepest
    · -- the new block is a leaf and no block descends from it
      rcases (Node.mem_forestNodes_attachLeafForest forest).mp otherMember with
        ⟨otherOld, otherOldMember, rfl⟩ | ⟨rfl, _⟩
      · rw [Node.attachLeaf_hash]
        exact Node.leaf_descendants_iff (noDescendant otherOld otherOldMember)
      · exact Node.leaf_descendants_iff (ancestry.isAncestor_self hash)

omit [DecidableEq H] in
/-- Adding a new block as a root keeps the forest represented, when no block
of the forest is its ancestor or descends from it. -/
theorem Represents.append_leaf (represents : Represents ancestry forest)
    (numbered : number = ancestry.rank hash) (fresh : hash ∉ Node.forestHashes forest)
    (noDescendant : ∀ node ∈ Node.forestNodes forest, ancestry.isAncestor hash node.hash = false)
    (noAncestor : ∀ node ∈ Node.forestNodes forest, ancestry.isAncestor node.hash hash = false) :
    Represents ancestry (forest ++ [Node.leaf hash number data]) where
  nodup := by
    rw [Node.forestHashes_append, Node.forestHashes_leaf]
    exact represents.nodup.append (List.nodup_singleton hash)
      (List.disjoint_singleton.mpr fresh)
  numbered node member := by
    rw [Node.forestNodes_append, Node.forestNodes_singleton, Node.leaf_nodes,
      List.mem_append, List.mem_singleton] at member
    rcases member with oldMember | rfl
    · exact represents.numbered node oldMember
    · exact Node.leaf_numbered numbered
  descendants node nodeMember other otherMember := by
    rw [Node.forestNodes_append, Node.forestNodes_singleton, Node.leaf_nodes,
      List.mem_append, List.mem_singleton] at nodeMember otherMember
    rcases nodeMember with oldMember | rfl
    · rcases otherMember with otherOldMember | rfl
      · exact represents.descendants node oldMember other otherOldMember
      · have freshBelow : hash ∉ Node.forestHashes node.children := fun below =>
          fresh (Node.forestHashes_children_subset oldMember below)
        rw [Node.leaf_hash, noAncestor node oldMember]
        exact iff_of_false freshBelow Bool.false_ne_true
    · rcases otherMember with otherOldMember | rfl
      · exact Node.leaf_descendants_iff (noDescendant other otherOldMember)
      · exact Node.leaf_descendants_iff (ancestry.isAncestor_self hash)

end Preservation

end OffchainStorage.Fork
