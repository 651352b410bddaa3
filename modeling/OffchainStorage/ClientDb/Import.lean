import Mathlib
import OffchainStorage.ClientDb.StorageCache

/-!
# The client driving the shared cache

The database commits an imported block through a `CachingState` on its
parent, on which the block was built and read, and `sync_cache` with the
route from the best block to the parent when the block becomes best
(`set_head_with_transaction` with `route_to` the parent); a new head set
without an import calls `Cache::sync` with the route from the best block to
it.  Routes are `tree_route`'s: the blocks left from the old block back to the
common ancestor, and those entered from it up to the new one.

`storage_hash_stale_after_reorg` runs this client on a fork of two blocks of
number one, `B1` then `A1`, which write different values at one key: a block
`C` on `A1` reads the key's hash, which is cached when `C` becomes best; after
the head is set back to `B1`, a state on `B1` is served the hash of `A1`'s
value.
-/

namespace OffchainStorage.ClientDb

/-- `CachedHeaderMetadata`, with the fields `tree_route` reads. -/
structure HeaderMetadata (BlockHash : Type) where
  hash : BlockHash
  number : Nat
  parent : BlockHash

/-- A `TreeRoute` by its two halves: `retracted` from the old block back
towards the common ancestor, `enacted` from the ancestor up to the new one. -/
structure TreeRoute (BlockHash : Type) where
  retracted : List BlockHash
  enacted : List BlockHash
  deriving DecidableEq, Repr

variable {BlockHash Key Value Out : Type} [DecidableEq BlockHash] [DecidableEq Key]

section TreeRoute

variable (header : BlockHash → Option (HeaderMetadata BlockHash))

/-- The first two loops of `tree_route`: a block goes back to its parent,
its hash pushed on the branch, while its number is above `bound`; the fuel
is the block's number, which every step lowers in a tree. -/
def walkAbove : Nat → Nat → HeaderMetadata BlockHash → List BlockHash →
    Option (HeaderMetadata BlockHash × List BlockHash)
  | 0, _, _, _ => none
  | fuel + 1, bound, block, branch =>
    if block.number > bound then do
      let parent ← header block.parent
      walkAbove fuel bound parent (branch ++ [block.hash])
    else some (block, branch)

/-- The third loop: both blocks go back together until they are the same. -/
def walkToCommon : Nat → HeaderMetadata BlockHash → HeaderMetadata BlockHash → List BlockHash →
    List BlockHash → Option (List BlockHash × List BlockHash)
  | 0, _, _, _, _ => none
  | fuel + 1, fromBlock, toBlock, fromBranch, toBranch =>
    if toBlock.hash ≠ fromBlock.hash then do
      let toParent ← header toBlock.parent
      let fromParent ← header fromBlock.parent
      walkToCommon fuel fromParent toParent (fromBranch ++ [fromBlock.hash]) (toBranch ++ [toBlock.hash])
    else some (fromBranch, toBranch)

/-- `tree_route`; `none` for an unknown header, the error of
`header_metadata`. -/
def treeRoute (fromHash toHash : BlockHash) : Option (TreeRoute BlockHash) := do
  let fromBlock ← header fromHash
  let toBlock ← header toHash
  let (toBlock, toBranch) ← walkAbove header (toBlock.number + 1) fromBlock.number toBlock []
  let (fromBlock, fromBranch) ← walkAbove header (fromBlock.number + 1) toBlock.number fromBlock []
  let (fromBranch, toBranch) ← walkToCommon header (fromBlock.number + 1) fromBlock toBlock fromBranch toBranch
  pure ⟨fromBranch, toBranch.reverse⟩

end TreeRoute

/-- The block tree the client imports: the headers, the top and child
changes of each block, and the state after each block. -/
structure Chain (BlockHash Key Value : Type) where
  header : BlockHash → Option (HeaderMetadata BlockHash)
  changes : BlockHash → List (Key × Option Value)
  childChanges : BlockHash → List (Key × List (Key × Option Value))
  state : BlockHash → Key → Option Value
  childState : BlockHash → Key → Key → Option Value

/-- The writes of a block applied in order to its parent's state. -/
def applyChanges (changes : List (Key × Option Value)) (state : Key → Option Value) : Key → Option Value :=
  changes.foldl (fun state write key => if key = write.1 then write.2 else state key) state

/-- `S(B)`: the state of every block but the first is its parent's state
overwritten by its changes, in the top trie and in every child trie. -/
def Chain.StatesFollowChanges (chain : Chain BlockHash Key Value) : Prop :=
  ∀ block header, chain.header block = some header → header.number ≠ 0 →
    chain.state block = applyChanges (chain.changes block) (chain.state header.parent) ∧
      ∀ storageKey, chain.childState block storageKey =
        applyChanges (((chain.childChanges block).lookup storageKey).getD [])
          (chain.childState header.parent storageKey)

/-- A read of the block's builder on the state of its parent. -/
inductive Read (Key : Type) where
  | storage (key : Key)
  | storageHash (key : Key)
  | childStorage (storageKey key : Key)

def Read.perform (hash : Value → Out) (shared : Cache BlockHash Key Value Out)
    (cachingState : CachingState BlockHash Key Value Out) : Read Key → CachingState BlockHash Key Value Out
  | .storage key => (cachingState.storage key shared).2
  | .storageHash key => (cachingState.storageHash hash key shared).2
  | .childStorage storageKey key => (cachingState.childStorage storageKey key shared).2

/-- What the client does to the cache: import a block, after the reads of
its builder, as best or not, or set an imported block as the head. -/
inductive Event (BlockHash Key : Type) where
  | importBlock (block : BlockHash) (reads : List (Read Key)) (isBest : Bool)
  | setHead (block : BlockHash)

/-- The shared cache and the best block. -/
structure Client (BlockHash Key Value Out : Type) where
  cache : Cache BlockHash Key Value Out
  best : BlockHash

namespace Client

def step (chain : Chain BlockHash Key Value) (hash : Value → Out) (client : Client BlockHash Key Value Out) :
    Event BlockHash Key → Option (Client BlockHash Key Value Out)
  | .importBlock block reads isBest => do
    let header ← chain.header block
    let route ← if isBest then treeRoute chain.header client.best header.parent else some ⟨[], []⟩
    let cachingState : CachingState BlockHash Key Value Out :=
      CachingState.new (chain.state header.parent) (chain.childState header.parent) (some header.parent)
    let cachingState := reads.foldl (Read.perform hash client.cache) cachingState
    let cache := cachingState.release.syncCache route.enacted route.retracted (chain.changes block)
      (chain.childChanges block) (some block) (some header.number) isBest client.cache
    pure ⟨cache, if isBest then block else client.best⟩
  | .setHead block => do
    let route ← treeRoute chain.header client.best block
    pure ⟨client.cache.sync route.enacted route.retracted, block⟩

def run (chain : Chain BlockHash Key Value) (hash : Value → Out) (events : List (Event BlockHash Key))
    (client : Client BlockHash Key Value Out) : Option (Client BlockHash Key Value Out) :=
  events.foldlM (step chain hash) client

end Client

/-! ## A hash served from a retracted fork -/

/-- The tree `G ← B1`, `G ← A1 ← C` by the hashes `1`, `2`, `3` and `4`, the
genesis `G` on a parent with no header. -/
def forkHeader : Nat → Option (HeaderMetadata Nat)
  | 1 => some ⟨1, 0, 0⟩
  | 2 => some ⟨2, 1, 1⟩
  | 3 => some ⟨3, 1, 1⟩
  | 4 => some ⟨4, 2, 3⟩
  | _ => none

/-- `B1` writes `20` and `A1` writes `10` at the key `0`. -/
def forkChanges : Nat → List (Nat × Option Nat)
  | 2 => [(0, some 20)]
  | 3 => [(0, some 10)]
  | _ => []

def forkState : Nat → Nat → Option Nat
  | 2 => applyChanges (forkChanges 2) fun _ => none
  | 3 => applyChanges (forkChanges 3) fun _ => none
  | 4 => applyChanges (forkChanges 3) fun _ => none
  | _ => fun _ => none

def forkChain : Chain Nat Nat Nat :=
  ⟨forkHeader, forkChanges, fun _ => [], forkState, fun _ _ _ => none⟩

theorem forkChain_statesFollowChanges : forkChain.StatesFollowChanges := by
  intro block header found positive
  match block, found with
  | 1, found =>
    cases found
    exact absurd rfl positive
  | 2, found =>
    cases found
    exact ⟨rfl, fun _ => rfl⟩
  | 3, found =>
    cases found
    exact ⟨rfl, fun _ => rfl⟩
  | 4, found =>
    cases found
    exact ⟨rfl, fun _ => rfl⟩

/-- `B1` imported but not best, `A1` imported as best, `C` built on `A1`
with a read of the key's hash and imported as best, and the head set back to
`B1`. -/
def forkEvents : List (Event Nat Nat) :=
  [.importBlock 2 [] false, .importBlock 3 [] true, .importBlock 4 [.storageHash 0] true, .setHead 2]

/-- After the head moves back to `B1`, a fresh state on `B1` reads from the
shared cache the hash of `A1`'s value `10` at the key, not the hash of its
own value `20`; the hasher is the identity, which no two values share. -/
theorem storage_hash_stale_after_reorg :
    (Client.run forkChain id forkEvents ⟨newSharedCache, 1⟩).map
        (fun client => ((CachingState.new (forkChain.state 2) (forkChain.childState 2) (some 2) :
          CachingState Nat Nat Nat Nat).storageHash id 0 client.cache).1) = some (some 10) ∧
      (forkChain.state 2 0).map id = some 20 := by
  decide

end OffchainStorage.ClientDb
