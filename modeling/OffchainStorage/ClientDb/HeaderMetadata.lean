import Mathlib
import OffchainStorage.ClientDb.Import
import OffchainStorage.Lib.ParentLinks
import OffchainStorage.Lib.FallibleState
import OffchainStorage.Lib.Transition

/-!
# Routes and common ancestors over the header metadata

`tree_route` and `lowest_common_ancestor` walk the tree of headers through the
`HeaderMetadata` of a backend.  The headers of a database form a tree
(`HeaderTree`): each is filed under its hash, the parent of a block of positive
number is stored one number below, and the genesis has no stored parent.

`tree_route` walks the deeper block up to the other's number, then both
together until they meet.  It returns the blocks from its first block back to
their lowest common ancestor and those from there on to its second block
(`treeRoute_eq`).

`lowest_common_ancestor` first jumps through the cached ancestor links, as far
as they stay at or below the other block's number, then walks parent links,
and at the end points the ancestor links of both blocks at the answer.  The
metadata a backend hands out is `Valid` when it is its block's header and its
ancestor link reaches the parent; a backend is `Sound` when its lookups hand
out valid metadata and fail only on blocks the tree does not have.  From every
state a sound backend keeps, `lowest_common_ancestor` answers the lowest common
ancestor and keeps the state, failed calls included
(`lowestCommonAncestor_triple`).  `BlockchainDb` puts a metadata cache in front
of the database and is sound, so over every run of lookups, evictions and
queries each query answers exactly the lowest common ancestor
(`run_lowestCommonAncestor`), the block at which `tree_route` turns.
-/

namespace OffchainStorage.ClientDb

open FallibleState

variable {σ BlockHash : Type}

/-! ## The tree of headers -/

/-- The headers of the database: each filed under its hash, the parent of a
block of positive number stored one number below, and the parent of a block of
number zero, the genesis, not stored. -/
structure HeaderTree (BlockHash : Type) where
  header : BlockHash → Option (HeaderMetadata BlockHash)
  filed : ∀ {hash : BlockHash} {found : HeaderMetadata BlockHash}, header hash = some found → found.hash = hash
  parent_stored : ∀ {hash : BlockHash} {found : HeaderMetadata BlockHash}, header hash = some found →
    0 < found.number → ∃ parent, header found.parent = some parent ∧ parent.number + 1 = found.number
  genesis_parent : ∀ {hash : BlockHash} {found : HeaderMetadata BlockHash}, header hash = some found →
    found.number = 0 → header found.parent = none

namespace HeaderTree

variable (tree : HeaderTree BlockHash)

/-- The parent links of the headers, the block numbers as depths. -/
def links : ParentLinks BlockHash where
  lookup hash := (tree.header hash).map fun found => (found.number, found.parent)
  parent_stored := by
    intro hash depth parent stored
    obtain ⟨found, foundStored, same⟩ := Option.map_eq_some_iff.mp stored
    obtain ⟨numbered, linked⟩ := Prod.mk.inj same
    obtain ⟨parentHeader, parentStored, below⟩ := tree.parent_stored foundStored (by omega)
    refine ⟨parentHeader.parent, ?_⟩
    rw [← linked, parentStored, Option.map_some, show parentHeader.number = depth by omega]
  root_parent := by
    intro hash parent stored
    obtain ⟨found, foundStored, same⟩ := Option.map_eq_some_iff.mp stored
    obtain ⟨numbered, linked⟩ := Prod.mk.inj same
    rw [← linked, tree.genesis_parent foundStored numbered, Option.map_none]

variable {tree}

theorem links_lookup {hash : BlockHash} {found : HeaderMetadata BlockHash} (stored : tree.header hash = some found) :
    tree.links.lookup hash = some (found.number, found.parent) := by
  change (tree.header hash).map _ = _
  rw [stored, Option.map_some]

theorem depth_eq {hash : BlockHash} {found : HeaderMetadata BlockHash} (stored : tree.header hash = some found) :
    tree.links.depth hash = found.number :=
  ParentLinks.depth_eq (links_lookup stored)

theorem stored_of_reaches {ancestor hash : BlockHash} (reaches : tree.links.Reaches ancestor hash) :
    ∃ found, tree.header hash = some found := by
  obtain ⟨entry, stored⟩ := reaches.stored_right
  obtain ⟨found, foundStored, -⟩ := Option.map_eq_some_iff.mp stored
  exact ⟨found, foundStored⟩

theorem stored_of_reaches_left {ancestor hash : BlockHash} (reaches : tree.links.Reaches ancestor hash) :
    ∃ found, tree.header ancestor = some found := by
  obtain ⟨entry, stored⟩ := reaches.stored_left
  obtain ⟨found, foundStored, -⟩ := Option.map_eq_some_iff.mp stored
  exact ⟨found, foundStored⟩

/-- A block the tree does not have shares no ancestor with anything. -/
theorem not_common_of_unknown {hash other : BlockHash} (unknown : tree.header hash = none) :
    ¬∃ shared, tree.links.Reaches shared hash ∧ tree.links.Reaches shared other := by
  rintro ⟨shared, reaches, -⟩
  obtain ⟨found, stored⟩ := stored_of_reaches reaches
  rw [unknown] at stored
  cases stored

/-- The parent header of a block that is not the only block its ancestors
reach. -/
theorem parent_of_reaches {ancestor : BlockHash} {block : HeaderMetadata BlockHash}
    (stored : tree.header block.hash = some block) (reaches : tree.links.Reaches ancestor block.hash)
    (apart : ancestor ≠ block.hash) :
    ∃ parent, tree.header block.parent = some parent ∧ parent.number + 1 = block.number := by
  obtain ⟨depth, parent, linked, -⟩ := reaches.exists_parent apart
  rw [links_lookup stored] at linked
  obtain ⟨numbered, -⟩ := Prod.mk.inj (Option.some.inj linked)
  exact tree.parent_stored stored (by omega)

end HeaderTree

/-! ## `tree_route` -/

section TreeRoute

variable {tree : HeaderTree BlockHash}

/-- The first two loops of `tree_route` climb from a block to the number
`bound`, pushing the blocks they leave. -/
theorem walkAbove_eq {bound fuel : Nat} {block : HeaderMetadata BlockHash} (branch : List BlockHash)
    (stored : tree.header block.hash = some block) (enough : block.number - bound < fuel) :
    ∃ reached, tree.header reached.hash = some reached ∧ tree.links.Reaches reached.hash block.hash ∧
      reached.number = min bound block.number ∧
      walkAbove tree.header fuel bound block branch =
        some (reached, branch ++ tree.links.climb (block.number - bound) block.hash) := by
  induction fuel generalizing block branch with
  | zero => exact absurd enough (Nat.not_lt_zero _)
  | succ fuel ih =>
    rw [walkAbove]
    by_cases above : block.number > bound
    · -- one step to the parent, which is stored one number below
      obtain ⟨parent, parentStored, below⟩ := tree.parent_stored stored (by omega)
      have parentFiled := tree.filed parentStored
      have linked : tree.links.lookup block.hash = some (parent.number + 1, parent.hash) := by
        rw [HeaderTree.links_lookup stored, below, parentFiled]
      rw [← parentFiled] at parentStored
      obtain ⟨reached, reachedStored, reaches, level, walked⟩ :=
        ih (branch ++ [block.hash]) parentStored (show parent.number - bound < fuel by omega)
      refine ⟨reached, reachedStored, .parent linked reaches, by omega, ?_⟩
      rw [if_pos above, Option.bind_eq_bind, ← parentFiled, parentStored, Option.bind_some, walked,
        show block.number - bound = parent.number - bound + 1 by omega, ParentLinks.climb_succ linked,
        List.append_assoc, List.singleton_append]
    · rw [if_neg above, show block.number - bound = 0 by omega]
      exact ⟨block, stored, .refl (HeaderTree.links_lookup stored), by omega, by rw [ParentLinks.climb, List.append_nil]⟩

/-- The third loop of `tree_route` climbs from two blocks of one number with a
common ancestor until they meet at the lowest one, pushing the blocks both
leave. -/
theorem walkToCommon_eq [DecidableEq BlockHash] {fuel : Nat} {fromBlock toBlock : HeaderMetadata BlockHash}
    (fromBranch toBranch : List BlockHash) (fromStored : tree.header fromBlock.hash = some fromBlock)
    (toStored : tree.header toBlock.hash = some toBlock) (level : fromBlock.number = toBlock.number)
    (enough : fromBlock.number < fuel)
    (common : ∃ shared, tree.links.Reaches shared fromBlock.hash ∧ tree.links.Reaches shared toBlock.hash) :
    ∃ lowest, tree.links.IsLowestCommon lowest fromBlock.hash toBlock.hash ∧
      walkToCommon tree.header fuel fromBlock toBlock fromBranch toBranch =
        some (fromBranch ++ tree.links.climb (fromBlock.number - tree.links.depth lowest) fromBlock.hash,
          toBranch ++ tree.links.climb (toBlock.number - tree.links.depth lowest) toBlock.hash) := by
  induction fuel generalizing fromBlock toBlock fromBranch toBranch with
  | zero => exact absurd enough (Nat.not_lt_zero _)
  | succ fuel ih =>
    obtain ⟨shared, reachesFrom, reachesTo⟩ := common
    have fromDepth := HeaderTree.depth_eq fromStored
    have toDepth := HeaderTree.depth_eq toStored
    rw [walkToCommon]
    by_cases met : toBlock.hash = fromBlock.hash
    · -- the blocks met, and are their own lowest common ancestor
      refine ⟨fromBlock.hash, ?_, ?_⟩
      · rw [met]
        exact ParentLinks.isLowestCommon_self (HeaderTree.links_lookup fromStored)
      · rw [if_neg (not_not.mpr met), fromDepth, ← level, Nat.sub_self, ParentLinks.climb, ParentLinks.climb,
          List.append_nil, List.append_nil]
    · -- both step to their parents, one number below
      have fromApart : ¬tree.links.Reaches fromBlock.hash toBlock.hash := fun reaches =>
        met (reaches.eq_of_depth_le (by rw [fromDepth, toDepth, level])).symm
      have toApart : ¬tree.links.Reaches toBlock.hash fromBlock.hash := fun reaches =>
        met (reaches.eq_of_depth_le (by rw [fromDepth, toDepth, level]))
      obtain ⟨fromParent, fromParentStored, fromBelow⟩ :=
        HeaderTree.parent_of_reaches fromStored reachesFrom (fun same => fromApart (same ▸ reachesTo))
      obtain ⟨toParent, toParentStored, toBelow⟩ :=
        HeaderTree.parent_of_reaches toStored reachesTo (fun same => toApart (same ▸ reachesFrom))
      have fromFiled := tree.filed fromParentStored
      have toFiled := tree.filed toParentStored
      have fromLinked : tree.links.lookup fromBlock.hash = some (fromParent.number + 1, fromParent.hash) := by
        rw [HeaderTree.links_lookup fromStored, fromBelow, fromFiled]
      have toLinked : tree.links.lookup toBlock.hash = some (toParent.number + 1, toParent.hash) := by
        rw [HeaderTree.links_lookup toStored, toBelow, toFiled]
      rw [← fromFiled] at fromParentStored
      rw [← toFiled] at toParentStored
      have fromCovers : tree.links.Covers fromParent.hash fromBlock.hash toBlock.hash :=
        ParentLinks.covers_parent fromLinked fromApart
      have toCovers : tree.links.Covers toParent.hash toBlock.hash fromParent.hash :=
        ParentLinks.covers_parent toLinked fun reaches => by
          have deeper := reaches.depth_le
          rw [toDepth, HeaderTree.depth_eq fromParentStored] at deeper
          omega
      have sharedAbove := fromCovers.above shared reachesFrom reachesTo
      obtain ⟨lowest, isLowest, walked⟩ :=
        ih (fromBranch ++ [fromBlock.hash]) (toBranch ++ [toBlock.hash]) fromParentStored toParentStored
          (by omega) (by omega) ⟨shared, sharedAbove, toCovers.above shared reachesTo sharedAbove⟩
      have lowestAbove := isLowest.left.depth_le
      rw [HeaderTree.depth_eq fromParentStored] at lowestAbove
      refine ⟨lowest, (isLowest.symm.of_covers toCovers).symm.of_covers fromCovers, ?_⟩
      rw [if_pos met, Option.bind_eq_bind, ← toFiled, toParentStored, Option.bind_some, ← fromFiled,
        fromParentStored, Option.bind_some, walked,
        show fromBlock.number - tree.links.depth lowest = fromParent.number - tree.links.depth lowest + 1 by omega,
        show toBlock.number - tree.links.depth lowest = toParent.number - tree.links.depth lowest + 1 by omega,
        ParentLinks.climb_succ fromLinked, ParentLinks.climb_succ toLinked, List.append_assoc, List.append_assoc,
        List.singleton_append, List.singleton_append]

/-- `tree_route` between two blocks with a common ancestor: the blocks from the
first back to their lowest common ancestor, and those from there on to the
second. -/
theorem treeRoute_eq [DecidableEq BlockHash] {fromHash toHash : BlockHash}
    (common : ∃ shared, tree.links.Reaches shared fromHash ∧ tree.links.Reaches shared toHash) :
    ∃ lowest, tree.links.IsLowestCommon lowest fromHash toHash ∧
      treeRoute tree.header fromHash toHash =
        some ⟨tree.links.climb (tree.links.depth fromHash - tree.links.depth lowest) fromHash,
          (tree.links.climb (tree.links.depth toHash - tree.links.depth lowest) toHash).reverse⟩ := by
  obtain ⟨shared, reachesFrom, reachesTo⟩ := common
  obtain ⟨fromBlock, fromStored⟩ := HeaderTree.stored_of_reaches reachesFrom
  obtain ⟨toBlock, toStored⟩ := HeaderTree.stored_of_reaches reachesTo
  have fromFiled := tree.filed fromStored
  have toFiled := tree.filed toStored
  have fromDepth := HeaderTree.depth_eq fromStored
  have toDepth := HeaderTree.depth_eq toStored
  rw [← fromFiled] at fromStored reachesFrom fromDepth ⊢
  rw [← toFiled] at toStored reachesTo toDepth ⊢
  -- the deeper of the two climbs to the other's number
  obtain ⟨toReached, toReachedStored, toReaches, toLevel, toWalked⟩ :=
    walkAbove_eq [] toStored (show toBlock.number - fromBlock.number < toBlock.number + 1 by omega)
  obtain ⟨fromReached, fromReachedStored, fromReaches, fromLevel, fromWalked⟩ :=
    walkAbove_eq [] fromStored
      (show fromBlock.number - toReached.number < fromBlock.number + 1 by omega)
  have toReachedDepth := HeaderTree.depth_eq toReachedStored
  have fromReachedDepth := HeaderTree.depth_eq fromReachedStored
  have toCovers : tree.links.Covers toReached.hash toBlock.hash fromBlock.hash :=
    ParentLinks.covers_of_depth_eq_min toReaches (by rw [toReachedDepth, toDepth, toLevel]) (by rw [fromDepth])
  have fromCovers : tree.links.Covers fromReached.hash fromBlock.hash toReached.hash :=
    ParentLinks.covers_of_depth_eq_min fromReaches (by rw [fromReachedDepth, fromDepth, fromLevel])
      (by rw [toReachedDepth])
  have sharedAbove := toCovers.above shared reachesTo reachesFrom
  -- then both climb together to their lowest common ancestor
  obtain ⟨lowest, isLowest, walked⟩ :=
    walkToCommon_eq ([] ++ tree.links.climb (fromBlock.number - toReached.number) fromBlock.hash)
      ([] ++ tree.links.climb (toBlock.number - fromBlock.number) toBlock.hash) fromReachedStored toReachedStored
      (by omega) (show fromReached.number < fromReached.number + 1 by omega)
      ⟨shared, fromCovers.above shared reachesFrom sharedAbove, sharedAbove⟩
  have fromLowest := isLowest.left.depth_le
  have toLowest := isLowest.right.depth_le
  rw [fromReachedDepth] at fromLowest
  rw [toReachedDepth] at toLowest
  refine ⟨lowest, ((isLowest.of_covers fromCovers).symm.of_covers toCovers).symm, ?_⟩
  have fromClimb := fromReaches.climb_add (fromReached.number - tree.links.depth lowest)
  have toClimb := toReaches.climb_add (toReached.number - tree.links.depth lowest)
  rw [fromDepth, fromReachedDepth, show fromBlock.number - fromReached.number = fromBlock.number - toReached.number
    by omega, show fromBlock.number - toReached.number + (fromReached.number - tree.links.depth lowest) =
    fromBlock.number - tree.links.depth lowest by omega] at fromClimb
  rw [toDepth, toReachedDepth, show toBlock.number - toReached.number = toBlock.number - fromBlock.number by omega,
    show toBlock.number - fromBlock.number + (toReached.number - tree.links.depth lowest) =
    toBlock.number - tree.links.depth lowest by omega] at toClimb
  unfold treeRoute
  simp only [Option.bind_eq_bind]
  rw [fromStored, Option.bind_some, toStored, Option.bind_some, toWalked, Option.bind_some]
  dsimp only
  rw [fromWalked, Option.bind_some]
  dsimp only
  rw [walked, Option.bind_some, fromDepth, toDepth, fromClimb, toClimb, List.nil_append, List.nil_append]
  rfl

/-- The headers of `forkHeader`, `G ← B1` and `G ← A1 ← C`, form a tree. -/
def forkTree : HeaderTree Nat where
  header := forkHeader
  filed := by
    intro hash found stored
    rcases hash with _ | _ | _ | _ | _ | hash <;> cases stored <;> rfl
  parent_stored := by
    intro hash found stored positive
    rcases hash with _ | _ | _ | _ | _ | hash <;> cases stored
    · exact absurd positive (Nat.lt_irrefl 0)
    · exact ⟨⟨1, 0, 0⟩, rfl, rfl⟩
    · exact ⟨⟨1, 0, 0⟩, rfl, rfl⟩
    · exact ⟨⟨3, 1, 1⟩, rfl, rfl⟩
  genesis_parent := by
    intro hash found stored genesis
    rcases hash with _ | _ | _ | _ | _ | hash <;> cases stored
    · rfl
    all_goals cases genesis

/-- From `B1` to `C` the route retracts `B1` and enacts `A1` and `C` around the
genesis. -/
theorem treeRoute_eq_across_fork :
    (∃ shared, forkTree.links.Reaches shared 2 ∧ forkTree.links.Reaches shared 4) ∧
      ∃ lowest, forkTree.links.IsLowestCommon lowest 2 4 ∧
        treeRoute forkTree.header 2 4 = some ⟨forkTree.links.climb (forkTree.links.depth 2 - forkTree.links.depth lowest) 2,
          (forkTree.links.climb (forkTree.links.depth 4 - forkTree.links.depth lowest) 4).reverse⟩ :=
  have genesis : forkTree.links.lookup 1 = some (0, 0) := rfl
  have common : ∃ shared, forkTree.links.Reaches shared 2 ∧ forkTree.links.Reaches shared 4 :=
    ⟨1, .parent (show forkTree.links.lookup 2 = some (0 + 1, 1) from rfl) (.refl genesis),
      .parent (show forkTree.links.lookup 4 = some (1 + 1, 3) from rfl)
        (.parent (show forkTree.links.lookup 3 = some (0 + 1, 1) from rfl) (.refl genesis))⟩
  ⟨common, treeRoute_eq common⟩

end TreeRoute

/-! ## `lowest_common_ancestor` -/

/-- `CachedHeaderMetadata`: a header's hash, number and parent, and the
ancestor link `lowest_common_ancestor` jumps through. -/
structure CachedHeaderMetadata (BlockHash : Type) where
  hash : BlockHash
  number : Nat
  parent : BlockHash
  ancestor : BlockHash
  deriving DecidableEq, Repr

/-- `CachedHeaderMetadata::from(&header)`: the ancestor link starts at the
parent. -/
def CachedHeaderMetadata.ofHeader (header : HeaderMetadata BlockHash) : CachedHeaderMetadata BlockHash :=
  ⟨header.hash, header.number, header.parent, header.parent⟩

@[ext]
structure HashAndNumber (BlockHash : Type) where
  number : Nat
  hash : BlockHash
  deriving DecidableEq, Repr

/-- The trait `HeaderMetadata` over the state of a backend: `header_metadata`
may write to the state (a cache filled on a miss), and fails with the trait's
error, the state keeping what was written. -/
structure Backend (σ BlockHash : Type) where
  headerMetadata : BlockHash → OptionT (StateM σ) (CachedHeaderMetadata BlockHash)
  insertHeaderMetadata : BlockHash → CachedHeaderMetadata BlockHash → σ → σ
  removeHeaderMetadata : BlockHash → σ → σ

section LowestCommonAncestor

variable [DecidableEq BlockHash] (backend : Backend σ BlockHash)

/-- The first two loops of `lowest_common_ancestor`: while `one` has the larger
number it jumps to its ancestor link, as long as that is not below `two`'s
number.  The fuel is `one`'s number, which every jump lowers. -/
def jumpAncestors : Nat → CachedHeaderMetadata BlockHash → CachedHeaderMetadata BlockHash →
    OptionT (StateM σ) (CachedHeaderMetadata BlockHash)
  | 0, _, _ => failure
  | fuel + 1, one, two =>
    if one.number > two.number then do
      let ancestor ← backend.headerMetadata one.ancestor
      if ancestor.number ≥ two.number then jumpAncestors fuel ancestor two else pure one
    else pure one

/-- The third loop: the block of the larger number, or `two` on a tie, steps to
its parent until both are the same block.  The fuel is the sum of the numbers,
which every step lowers. -/
def walkParents : Nat → CachedHeaderMetadata BlockHash → CachedHeaderMetadata BlockHash →
    OptionT (StateM σ) (CachedHeaderMetadata BlockHash)
  | 0, _, _ => failure
  | fuel + 1, one, two =>
    if one.hash ≠ two.hash then
      if one.number > two.number then do
        let parent ← backend.headerMetadata one.parent
        walkParents fuel parent two
      else do
        let parent ← backend.headerMetadata two.parent
        walkParents fuel one parent
    else pure one

/-- The update of a cached ancestor link at the end of
`lowest_common_ancestor`: when the answer lies below the block as first read,
its metadata goes back with the ancestor link at the answer. -/
def updateAncestor (original common : CachedHeaderMetadata BlockHash) : OptionT (StateM σ) PUnit :=
  if original.number > common.number then
    modify (backend.insertHeaderMetadata original.hash { original with ancestor := common.hash })
  else pure PUnit.unit

/-- `lowest_common_ancestor`: after the walks, the ancestor links of both
blocks are set to the answer where it lies below them. -/
def lowestCommonAncestor (idOne idTwo : BlockHash) : OptionT (StateM σ) (HashAndNumber BlockHash) := do
  let headerOne ← backend.headerMetadata idOne
  let headerTwo ← backend.headerMetadata idTwo
  let jumpedOne ← jumpAncestors backend (headerOne.number + 1) headerOne headerTwo
  let jumpedTwo ← jumpAncestors backend (headerTwo.number + 1) headerTwo jumpedOne
  let common ← walkParents backend (jumpedOne.number + jumpedTwo.number + 1) jumpedOne jumpedTwo
  updateAncestor backend headerOne common
  updateAncestor backend headerTwo common
  pure ⟨common.number, common.hash⟩

/-- What the client asks of the header metadata: a lookup, as `tree_route`
and an import make, the eviction of an entry from the cache, or a
common-ancestor query. -/
inductive Call (BlockHash : Type)
  | headerMetadata (hash : BlockHash)
  | removeHeaderMetadata (hash : BlockHash)
  | lowestCommonAncestor (idOne idTwo : BlockHash)

/-- The state a call leaves, whether it answers or fails. -/
def Call.perform : Call BlockHash → σ → σ
  | .headerMetadata hash, state => ((backend.headerMetadata hash).run state).2
  | .removeHeaderMetadata hash, state => backend.removeHeaderMetadata hash state
  | .lowestCommonAncestor idOne idTwo, state => ((ClientDb.lowestCommonAncestor backend idOne idTwo).run state).2

end LowestCommonAncestor

/-! ## Sound backends -/

section Sound

variable (tree : HeaderTree BlockHash)

/-- Metadata that tells the truth about a block of the tree: its hash, number
and parent are its header's, and below a block of positive number its ancestor
link reaches the parent. -/
structure CachedHeaderMetadata.Valid (metadata : CachedHeaderMetadata BlockHash) : Prop where
  stored : tree.header metadata.hash = some ⟨metadata.hash, metadata.number, metadata.parent⟩
  ancestor : 0 < metadata.number → tree.links.Reaches metadata.ancestor metadata.parent

/-- A backend that keeps `Kept`: from a kept state, a lookup hands out valid
metadata filed under the hash asked for, and fails only on a block the tree
does not have; inserting valid metadata and removing any keep the state kept. -/
structure Backend.Sound (backend : Backend σ BlockHash) (Kept : σ → Prop) : Prop where
  lookup : ∀ hash, Triple Kept (backend.headerMetadata hash)
    (fun metadata state => (metadata.hash = hash ∧ metadata.Valid tree) ∧ Kept state)
    (fun state => Kept state ∧ tree.header hash = none)
  insert : ∀ {state : σ} {metadata : CachedHeaderMetadata BlockHash}, Kept state → metadata.Valid tree →
    Kept (backend.insertHeaderMetadata metadata.hash metadata state)
  remove : ∀ {state : σ} (hash : BlockHash), Kept state → Kept (backend.removeHeaderMetadata hash state)

variable {tree}

namespace CachedHeaderMetadata

theorem Valid.lookup {metadata : CachedHeaderMetadata BlockHash} (valid : metadata.Valid tree) :
    tree.links.lookup metadata.hash = some (metadata.number, metadata.parent) :=
  HeaderTree.links_lookup valid.stored

theorem Valid.depth {metadata : CachedHeaderMetadata BlockHash} (valid : metadata.Valid tree) :
    tree.links.depth metadata.hash = metadata.number :=
  HeaderTree.depth_eq valid.stored

/-- The metadata a database header gives is valid. -/
theorem ofHeader_valid {hash : BlockHash} {found : HeaderMetadata BlockHash} (stored : tree.header hash = some found) :
    (ofHeader found).Valid tree := by
  have filed := tree.filed stored
  refine ⟨?_, fun positive => ?_⟩
  · change tree.header found.hash = some ⟨found.hash, found.number, found.parent⟩
    rw [filed, stored, ← filed]
  obtain ⟨parent, parentStored, -⟩ := tree.parent_stored stored positive
  exact .refl (HeaderTree.links_lookup parentStored)

/-- Pointing the ancestor link at a block the metadata's block reaches through
its parent keeps it valid. -/
theorem Valid.setAncestor {metadata : CachedHeaderMetadata BlockHash} (valid : metadata.Valid tree)
    {ancestor : BlockHash} (reaches : tree.links.Reaches ancestor metadata.hash) (apart : ancestor ≠ metadata.hash) :
    ({ metadata with ancestor := ancestor } : CachedHeaderMetadata BlockHash).Valid tree := by
  refine ⟨valid.stored, fun positive => ?_⟩
  obtain ⟨depth, parent, linked, above⟩ := reaches.exists_parent apart
  rw [valid.lookup] at linked
  obtain ⟨-, parentEq⟩ := Prod.mk.inj (Option.some.inj linked)
  change tree.links.Reaches ancestor metadata.parent
  rw [parentEq]
  exact above

/-- The links of a block of positive number lead to the valid metadata of its
parent, one number below. -/
theorem Valid.lookup_of_parent {metadata parent : CachedHeaderMetadata BlockHash} (valid : metadata.Valid tree)
    (parentValid : parent.Valid tree) (named : parent.hash = metadata.parent) (positive : 0 < metadata.number) :
    tree.links.lookup metadata.hash = some (parent.number + 1, parent.hash) := by
  obtain ⟨parentHeader, parentStored, below⟩ := tree.parent_stored valid.stored positive
  have level := HeaderTree.depth_eq parentStored
  rw [← named, parentValid.depth] at level
  rw [valid.lookup, named, level]
  exact congrArg (fun number => some (number, metadata.parent)) below.symm

/-- Below a block of positive number lies its parent, one number lower. -/
theorem Valid.parent_depth {metadata : CachedHeaderMetadata BlockHash} (valid : metadata.Valid tree)
    (positive : 0 < metadata.number) : tree.links.depth metadata.parent + 1 = metadata.number := by
  obtain ⟨parentHeader, parentStored, below⟩ := tree.parent_stored valid.stored positive
  rw [HeaderTree.depth_eq parentStored]
  exact below

/-- A block reached from another block has a positive number. -/
theorem Valid.number_pos_of_reaches {metadata : CachedHeaderMetadata BlockHash} (valid : metadata.Valid tree)
    {ancestor : BlockHash} (reaches : tree.links.Reaches ancestor metadata.hash) (apart : ancestor ≠ metadata.hash) :
    0 < metadata.number := by
  obtain ⟨depth, parent, linked, -⟩ := reaches.exists_parent apart
  rw [valid.lookup] at linked
  obtain ⟨numbered, -⟩ := Prod.mk.inj (Option.some.inj linked)
  omega

/-- A block of positive number is reached from whatever reaches its parent. -/
theorem Valid.reaches_of_parent {metadata : CachedHeaderMetadata BlockHash} (valid : metadata.Valid tree)
    (positive : 0 < metadata.number) {ancestor : BlockHash} (reaches : tree.links.Reaches ancestor metadata.parent) :
    tree.links.Reaches ancestor metadata.hash := by
  have linked := valid.lookup
  rw [show metadata.number = metadata.number - 1 + 1 by omega] at linked
  exact .parent linked reaches

end CachedHeaderMetadata

end Sound

/-! ## The walks over a sound backend -/

section Lookups

variable {tree : HeaderTree BlockHash} {backend : Backend σ BlockHash} {Kept : σ → Prop}

/-- A lookup of a block the tree has never fails. -/
theorem Backend.Sound.lookup_stored (sound : backend.Sound tree Kept) {hash : BlockHash} {fail : σ → Prop}
    (stored : ∃ found, tree.header hash = some found) :
    Triple Kept (backend.headerMetadata hash)
      (fun metadata state => (metadata.hash = hash ∧ metadata.Valid tree) ∧ Kept state) fail :=
  (sound.lookup hash).mono (fun _ kept => kept) (fun _ _ holds => holds) fun _ failed => by
    obtain ⟨found, foundStored⟩ := stored
    rw [failed.2] at foundStored
    cases foundStored

/-- Pointing the ancestor link of valid metadata at a block it reaches through
its parent keeps the state kept. -/
theorem updateAncestor_triple (sound : backend.Sound tree Kept) {original common : CachedHeaderMetadata BlockHash}
    (valid : original.Valid tree) (commonValid : common.Valid tree) (reaches : tree.links.Reaches common.hash original.hash)
    {fail : σ → Prop} : Triple Kept (updateAncestor backend original common) (fun _ state => Kept state) fail := by
  refine Triple.ite (fun below => Triple.modify fun _ kept => ?_) fun _ => Triple.pure fun _ kept => kept
  have updated : ({ original with ancestor := common.hash } : CachedHeaderMetadata BlockHash).Valid tree :=
    valid.setAncestor reaches fun same => by
      have level := congrArg tree.links.depth same
      rw [commonValid.depth, valid.depth] at level
      omega
  exact sound.insert kept updated

/-- The jumps stay on the path of `one` and never pass a common ancestor of
`one` and `two`; with the fuel of `one`'s number they never fail. -/
theorem jumpAncestors_triple (sound : backend.Sound tree Kept) {fuel : Nat} {one two : CachedHeaderMetadata BlockHash}
    (oneValid : one.Valid tree) (twoValid : two.Valid tree) (enough : one.number < fuel) {fail : σ → Prop} :
    Triple Kept (jumpAncestors backend fuel one two)
      (fun jumped state => (jumped.Valid tree ∧ tree.links.Covers jumped.hash one.hash two.hash) ∧ Kept state) fail := by
  induction fuel generalizing one with
  | zero => exact absurd enough (Nat.not_lt_zero _)
  | succ fuel ih =>
    have stays : Triple Kept (pure one : OptionT (StateM σ) (CachedHeaderMetadata BlockHash))
        (fun jumped state => (jumped.Valid tree ∧ tree.links.Covers jumped.hash one.hash two.hash) ∧ Kept state) fail :=
      Triple.pure fun _ kept => ⟨⟨oneValid, ParentLinks.covers_self oneValid.lookup⟩, kept⟩
    rw [jumpAncestors]
    refine Triple.ite (fun deeper => ?_) (fun _ => stays)
    -- the ancestor link of a block of positive number reaches its parent, so it is stored
    have reachesParent := oneValid.ancestor (by omega)
    refine Triple.bind (sound.lookup_stored (HeaderTree.stored_of_reaches_left reachesParent)) fun ancestor =>
      Triple.of_fact ?_
    rintro ⟨named, ancestorValid⟩
    refine Triple.ite (fun atOrBelow => ?_) (fun _ => stays)
    rw [← named] at reachesParent
    have reachesOne := oneValid.reaches_of_parent (by omega) reachesParent
    have lower := reachesParent.depth_le
    rw [ancestorValid.depth] at lower
    have parentDepth := oneValid.parent_depth (by omega)
    have covers : tree.links.Covers ancestor.hash one.hash two.hash :=
      ParentLinks.covers_of_depth_le reachesOne (by rw [twoValid.depth, ancestorValid.depth]; exact atOrBelow)
    exact (ih ancestorValid (by omega)).mono (fun _ kept => kept)
      (fun _ _ holds => ⟨⟨holds.1.1, covers.trans holds.1.2⟩, holds.2⟩) fun _ failed => failed

end Lookups

section Walks

variable [DecidableEq BlockHash] {tree : HeaderTree BlockHash} {backend : Backend σ BlockHash} {Kept : σ → Prop}

/-- The parent walk ends at the lowest common ancestor; it fails only out of
fuel or when the two blocks have no common ancestor. -/
theorem walkParents_triple (sound : backend.Sound tree Kept) {fuel : Nat} {one two : CachedHeaderMetadata BlockHash}
    (oneValid : one.Valid tree) (twoValid : two.Valid tree) :
    Triple Kept (walkParents backend fuel one two)
      (fun common state => (common.Valid tree ∧ tree.links.IsLowestCommon common.hash one.hash two.hash) ∧ Kept state)
      (fun state => Kept state ∧ (one.number + two.number < fuel →
        ¬∃ shared, tree.links.Reaches shared one.hash ∧ tree.links.Reaches shared two.hash)) := by
  induction fuel generalizing one two with
  | zero => exact Triple.failure fun _ kept => ⟨kept, fun tooLittle => absurd tooLittle (Nat.not_lt_zero _)⟩
  | succ fuel ih =>
    rw [walkParents]
    refine Triple.ite (fun apart => Triple.ite (fun deeper => ?_) (fun notDeeper => ?_)) (fun same => ?_)
    · -- `one` has the larger number: it steps to its parent, which is stored
      have notAbove : ¬tree.links.Reaches one.hash two.hash := fun reaches => by
        have deep := reaches.depth_le
        rw [oneValid.depth, twoValid.depth] at deep
        omega
      obtain ⟨parentHeader, parentStored, -⟩ := tree.parent_stored oneValid.stored (show 0 < one.number by omega)
      refine Triple.bind (sound.lookup_stored ⟨parentHeader, parentStored⟩) fun parent => Triple.of_fact ?_
      rintro ⟨named, parentValid⟩
      have linked := oneValid.lookup_of_parent parentValid named (by omega)
      have covers := ParentLinks.covers_parent linked notAbove
      have level := linked
      rw [oneValid.lookup] at level
      obtain ⟨numbered, -⟩ := Prod.mk.inj (Option.some.inj level)
      exact (ih parentValid twoValid).mono (fun _ kept => kept)
        (fun _ _ holds => ⟨⟨holds.1.1, holds.1.2.of_covers covers⟩, holds.2⟩)
        fun _ failed => ⟨failed.1, fun enough shared => failed.2 (by omega)
          (shared.imp fun _ both => ⟨covers.above _ both.1 both.2, both.2⟩)⟩
    · -- otherwise `two` steps to its parent, stored unless `two` is a genesis
      have notAbove : ¬tree.links.Reaches two.hash one.hash := fun reaches => by
        have deep := reaches.depth_le
        rw [oneValid.depth, twoValid.depth] at deep
        exact apart (reaches.eq_of_depth_le (by rw [oneValid.depth, twoValid.depth]; omega)).symm
      refine Triple.bind ((sound.lookup two.parent).mono (fun _ kept => kept) (fun _ _ holds => holds)
        fun state failed => ⟨failed.1, fun _ shared => ?_⟩) fun parent => Triple.of_fact ?_
      · obtain ⟨ancestor, reachesOne, reachesTwo⟩ := shared
        have positive := twoValid.number_pos_of_reaches reachesTwo fun same => notAbove (same ▸ reachesOne)
        obtain ⟨parentHeader, parentStored, -⟩ := tree.parent_stored twoValid.stored positive
        change tree.header two.parent = some parentHeader at parentStored
        rw [failed.2] at parentStored
        cases parentStored
      · rintro ⟨named, parentValid⟩
        have positive : 0 < two.number := by
          by_contra zero
          have genesis := tree.genesis_parent twoValid.stored (show two.number = 0 by omega)
          change tree.header two.parent = none at genesis
          obtain ⟨found, foundStored⟩ := HeaderTree.stored_of_reaches (.refl parentValid.lookup)
          rw [named, genesis] at foundStored
          cases foundStored
        have linked := twoValid.lookup_of_parent parentValid named positive
        have covers := ParentLinks.covers_parent linked notAbove
        have level := linked
        rw [twoValid.lookup] at level
        obtain ⟨numbered, -⟩ := Prod.mk.inj (Option.some.inj level)
        exact (ih oneValid parentValid).mono (fun _ kept => kept)
          (fun _ _ holds => ⟨⟨holds.1.1, (holds.1.2.symm.of_covers covers).symm⟩, holds.2⟩)
          fun _ failed => ⟨failed.1, fun enough shared => failed.2 (by omega)
            (shared.imp fun _ both => ⟨both.1, covers.above _ both.2 both.1⟩)⟩
    · -- the blocks met
      have met : two.hash = one.hash := (not_not.mp same).symm
      exact Triple.pure fun _ kept => ⟨⟨oneValid, by rw [met]; exact ParentLinks.isLowestCommon_self oneValid.lookup⟩,
        kept⟩

/-- From every state a sound backend keeps, `lowest_common_ancestor` answers the
lowest common ancestor with its number, and fails only when the blocks have no
common ancestor; the state stays kept either way. -/
theorem lowestCommonAncestor_triple (sound : backend.Sound tree Kept) (idOne idTwo : BlockHash) :
    Triple Kept (lowestCommonAncestor backend idOne idTwo)
      (fun answer state => (tree.links.IsLowestCommon answer.hash idOne idTwo ∧
        answer.number = tree.links.depth answer.hash) ∧ Kept state)
      (fun state => Kept state ∧ ¬∃ shared, tree.links.Reaches shared idOne ∧ tree.links.Reaches shared idTwo) := by
  unfold lowestCommonAncestor
  refine Triple.bind ((sound.lookup idOne).mono (fun _ kept => kept) (fun _ _ holds => holds)
    fun _ failed => ⟨failed.1, HeaderTree.not_common_of_unknown failed.2⟩) fun headerOne => Triple.of_fact ?_
  rintro ⟨oneNamed, oneValid⟩
  refine Triple.bind ((sound.lookup idTwo).mono (fun _ kept => kept) (fun _ _ holds => holds)
    fun _ failed => ⟨failed.1, fun shared => HeaderTree.not_common_of_unknown failed.2
      (shared.imp fun _ both => ⟨both.2, both.1⟩)⟩) fun headerTwo => Triple.of_fact ?_
  rintro ⟨twoNamed, twoValid⟩
  rw [← oneNamed, ← twoNamed]
  -- the jumps cover the blocks, so the parent walk looks for the same ancestor
  refine Triple.bind (jumpAncestors_triple sound oneValid twoValid (Nat.lt_succ_self _)) fun jumpedOne =>
    Triple.of_fact ?_
  rintro ⟨jumpedOneValid, oneCovers⟩
  refine Triple.bind (jumpAncestors_triple sound twoValid jumpedOneValid (Nat.lt_succ_self _)) fun jumpedTwo =>
    Triple.of_fact ?_
  rintro ⟨jumpedTwoValid, twoCovers⟩
  refine Triple.bind ((walkParents_triple sound jumpedOneValid jumpedTwoValid).mono (fun _ kept => kept)
    (fun _ _ holds => holds) fun _ failed => ⟨failed.1, fun shared => failed.2 (Nat.lt_succ_self _)
      (shared.imp fun _ both => ⟨oneCovers.above _ both.1 both.2,
        twoCovers.above _ both.2 (oneCovers.above _ both.1 both.2)⟩)⟩) fun common => Triple.of_fact ?_
  rintro ⟨commonValid, lowestJumped⟩
  have lowest : tree.links.IsLowestCommon common.hash headerOne.hash headerTwo.hash :=
    ((lowestJumped.symm.of_covers twoCovers).symm.of_covers oneCovers)
  refine Triple.bind (updateAncestor_triple sound oneValid commonValid lowest.left) fun _ => ?_
  refine Triple.bind (updateAncestor_triple sound twoValid commonValid lowest.right) fun _ => ?_
  exact Triple.pure fun _ kept => ⟨⟨lowest, commonValid.depth.symm⟩, kept⟩

/-- Every call keeps the state of a sound backend kept. -/
theorem Backend.Sound.perform (sound : backend.Sound tree Kept) (call : Call BlockHash) {state : σ}
    (kept : Kept state) : Kept (call.perform backend state) := by
  cases call with
  | headerMetadata hash =>
    exact (sound.lookup hash state kept).state (fun _ _ holds => holds.2) fun _ failed => failed.1
  | removeHeaderMetadata hash => exact sound.remove hash kept
  | lowestCommonAncestor idOne idTwo =>
    exact (lowestCommonAncestor_triple sound idOne idTwo state kept).state (fun _ _ holds => holds.2)
      fun _ failed => failed.1

end Walks

/-! ## `BlockchainDb` -/

section BlockchainDb

variable [DecidableEq BlockHash]

/-- `BlockchainDb`'s `HeaderMetadata`: the `header_metadata_cache` in front of
the headers of the database.  A miss reads the header and caches its metadata,
the ancestor link at the parent; a block the database does not have is the
error `UnknownBlock`.  `insert_header_metadata` and `remove_header_metadata`
go to the cache. -/
def blockchainDb (header : BlockHash → Option (HeaderMetadata BlockHash)) :
    Backend (KVMap BlockHash (CachedHeaderMetadata BlockHash)) BlockHash where
  headerMetadata hash := do
    match (← get).lookup hash with
    | some cached => pure cached
    | none =>
      match header hash with
      | some found =>
        let metadata := CachedHeaderMetadata.ofHeader found
        modify fun cache => cache.insert metadata.hash metadata
        pure metadata
      | none => failure
  insertHeaderMetadata hash metadata cache := cache.insert hash metadata
  removeHeaderMetadata hash cache := cache.remove hash

/-- Every cached entry is filed under its block's hash and tells the truth
about the block. -/
def CacheValid (tree : HeaderTree BlockHash) (cache : KVMap BlockHash (CachedHeaderMetadata BlockHash)) : Prop :=
  ∀ hash metadata, cache.lookup hash = some metadata → metadata.hash = hash ∧ metadata.Valid tree

variable {tree : HeaderTree BlockHash}

theorem CacheValid.insert {cache : KVMap BlockHash (CachedHeaderMetadata BlockHash)} (valid : CacheValid tree cache)
    {metadata : CachedHeaderMetadata BlockHash} (metadataValid : metadata.Valid tree) :
    CacheValid tree (cache.insert metadata.hash metadata) := by
  intro hash cached found
  by_cases same : hash = metadata.hash
  · rw [same, KVMap.lookup_insert_self] at found
    cases found
    exact ⟨same.symm, metadataValid⟩
  · rw [KVMap.lookup_insert_of_ne _ _ same] at found
    exact valid hash cached found

/-- The cache of `BlockchainDb` in front of a tree of headers is sound: its
entries stay valid through lookups, updates and evictions. -/
theorem blockchainDb_sound (tree : HeaderTree BlockHash) : (blockchainDb tree.header).Sound tree (CacheValid tree) where
  lookup hash := by
    intro cache valid
    rcases hit : cache.lookup hash with _ | cached
    · rcases stored : tree.header hash with _ | found
      · -- an unknown block: `UnknownBlock`, and the cache as it was
        have ran : ((blockchainDb tree.header).headerMetadata hash).run cache = (none, cache) := by
          simp only [blockchainDb]
          rw [run_bind_some run_get, hit, stored]
          rfl
        rw [ran]
        exact ⟨valid, rfl⟩
      · -- a miss: the header's metadata, now cached
        have metadataValid := CachedHeaderMetadata.ofHeader_valid stored
        have ran : ((blockchainDb tree.header).headerMetadata hash).run cache =
            (some (CachedHeaderMetadata.ofHeader found),
              cache.insert (CachedHeaderMetadata.ofHeader found).hash (CachedHeaderMetadata.ofHeader found)) := by
          simp only [blockchainDb]
          rw [run_bind_some run_get, hit, stored]
          rfl
        rw [ran]
        exact ⟨⟨tree.filed stored, metadataValid⟩, valid.insert metadataValid⟩
    · -- a hit: the cached entry
      have ran : ((blockchainDb tree.header).headerMetadata hash).run cache = (some cached, cache) := by
        simp only [blockchainDb]
        rw [run_bind_some run_get, hit]
        rfl
      rw [ran]
      exact ⟨valid hash cached hit, valid⟩
  insert kept metadataValid := kept.insert metadataValid
  remove hash kept := by
    intro tested cached found
    by_cases same : tested = hash
    · rw [same] at found
      simp [blockchainDb, KVMap.lookup_remove_self] at found
    · exact kept tested cached (by simpa [blockchainDb, KVMap.lookup_remove_of_ne _ same] using found)

/-- Over every run of lookups, evictions and common-ancestor queries from an
empty cache, the cache stays valid, and a query answers exactly the lowest
common ancestor of its two blocks with its number: it fails just when the
blocks have no common ancestor. -/
theorem run_lowestCommonAncestor (tree : HeaderTree BlockHash) (calls : List (Call BlockHash))
    (idOne idTwo : BlockHash) :
    CacheValid tree (Transition.perform (Call.perform (blockchainDb tree.header)) KVMap.empty calls) ∧
      ∀ answer, ((lowestCommonAncestor (blockchainDb tree.header) idOne idTwo).run
          (Transition.perform (Call.perform (blockchainDb tree.header)) KVMap.empty calls)).1 = some answer ↔
        tree.links.IsLowestCommon answer.hash idOne idTwo ∧ answer.number = tree.links.depth answer.hash := by
  have sound := blockchainDb_sound tree
  -- the cache stays valid over the run: no entry to begin with, and every call keeps it
  have valid : CacheValid tree (Transition.perform (Call.perform (blockchainDb tree.header)) KVMap.empty calls) :=
    Transition.perform_invariant _ (fun _ cache => CacheValid tree cache)
      (fun hash metadata found => by rw [KVMap.lookup_empty] at found; cases found)
      (fun _ _ call kept => sound.perform call kept) calls
  have outcome := lowestCommonAncestor_triple sound idOne idTwo _ valid
  refine ⟨valid, fun answer => ⟨fun answered => (outcome.answer answered).1, fun lowest => ?_⟩⟩
  -- the answer is a common ancestor, so the query does not fail, and its answer is the lowest one
  have answered := outcome.isSome fun _ failed =>
    failed.2 ⟨answer.hash, lowest.1.left, lowest.1.right⟩
  obtain ⟨found, same⟩ := Option.isSome_iff_exists.mp answered
  have foundLowest := outcome.answer same
  have hashes := foundLowest.1.1.unique lowest.1
  rw [same]
  congr 1
  exact HashAndNumber.ext (by rw [foundLowest.1.2, lowest.2, hashes]) hashes

/-- From an empty cache, `B1` and `C` meet at the genesis `G`. -/
example : ((lowestCommonAncestor (blockchainDb forkHeader) 2 4).run KVMap.empty).1 = some ⟨0, 1⟩ := rfl

end BlockchainDb

end OffchainStorage.ClientDb
