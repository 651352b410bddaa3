import Mathlib
import OffchainStorage.Lib.KVMap

/-!
# The shared state cache of the client database

`Cache` keeps the values, the value hashes and the child values read or
written at the best block, together with `modifications`, the keys written
by each of the last `STATE_CACHE_BLOCKS` committed blocks, ordered by number
from the highest down.  A `CachingState` on top of a block answers a read from
its own local cache, then from the shared cache when `is_allowed` finds no
later write of the key on the way from the block back to a canonical one, and
last from the backing state.  `sync_cache` commits a block: it reverts the
blocks of the route to the new best block, moves the local cache of a best
block into the shared one and records the block's keys; `Cache::sync` does
the reverting alone, for a new head set without an import.

Reverting a block forgets the values and child values it wrote
(`sync_lruHashes`), but never the hashes: a hash read on one fork and cached
stays in the cache after a reorg to a fork that wrote the key, where
`is_allowed` lets it through.  The client run of that is in
`OffchainStorage.ClientDb.Import`.

The `LRUMap`s are maps without their size bound: an eviction only forgets an
entry, which turns a hit into a miss.
-/

namespace OffchainStorage.ClientDb

/-- `STATE_CACHE_BLOCKS`. -/
def stateCacheBlocks : Nat := 12

/-- `BlockChanges`: the keys a committed block wrote. -/
structure BlockChanges (BlockHash Key : Type) where
  number : Nat
  hash : BlockHash
  parent : BlockHash
  storage : List Key
  childStorage : List (Key × Key)
  isCanon : Bool

/-- `Cache`, with `None` a key known to be missing. -/
structure Cache (BlockHash Key Value Out : Type) where
  lruStorage : KVMap Key (Option Value)
  lruHashes : KVMap Key (Option Out)
  lruChildStorage : KVMap (Key × Key) (Option Value)
  modifications : List (BlockChanges BlockHash Key)

/-- `LocalCache`: the answers of the backing state to the reads of one
`CachingState`. -/
structure LocalCache (Key Value Out : Type) [DecidableEq Key] where
  storage : AList fun _ : Key => Option Value
  hashes : AList fun _ : Key => Option Out
  childStorage : AList fun _ : Key × Key => Option Value

/-- `CacheChanges`, without the shared cache, which the model passes to each
call: the local cache and the block the state is on top of. -/
structure CacheChanges (BlockHash Key Value Out : Type) [DecidableEq Key] where
  localCache : LocalCache Key Value Out
  parentHash : Option BlockHash

/-- `CachingState`: the backing state, its top and child values, and the
cache data. -/
structure CachingState (BlockHash Key Value Out : Type) [DecidableEq Key] where
  state : Key → Option Value
  childState : Key → Key → Option Value
  cache : CacheChanges BlockHash Key Value Out

variable {BlockHash Key Value Out : Type} [DecidableEq BlockHash] [DecidableEq Key]

/-- `new_shared_cache`, with its size bounds left out. -/
def newSharedCache : Cache BlockHash Key Value Out :=
  ⟨KVMap.empty, KVMap.empty, KVMap.empty, []⟩

/-! ## Reverting blocks: `Cache::sync` -/

/-- `iter_mut().find(|m| m.hash == block)` and the write of `is_canon` to it. -/
def markCanon (block : BlockHash) (isCanon : Bool) :
    List (BlockChanges BlockHash Key) → List (BlockChanges BlockHash Key)
  | [] => []
  | m :: rest => if m.hash = block then { m with isCanon := isCanon } :: rest else m :: markCanon block isCanon rest

namespace Cache

/-- The body of both loops of `Cache::sync` for one block: its record marked
canonical or not, and the values and child values it wrote forgotten;
`none` when no record has the hash. -/
def revert (isCanon : Bool) (block : BlockHash) (cache : Cache BlockHash Key Value Out) :
    Option (Cache BlockHash Key Value Out) :=
  match cache.modifications.find? (fun m => m.hash = block) with
  | some m =>
    some { cache with
      modifications := markCanon block isCanon cache.modifications
      lruStorage := m.storage.foldl KVMap.remove cache.lruStorage
      lruChildStorage := m.childStorage.foldl KVMap.remove cache.lruChildStorage }
  | none => none

/-- One loop of `Cache::sync`: `clear = clear || ...`, so that after an
unknown block the later ones are not looked at. -/
def revertAll (isCanon : Bool) (blocks : List BlockHash) (start : Bool × Cache BlockHash Key Value Out) :
    Bool × Cache BlockHash Key Value Out :=
  blocks.foldl (fun progress block =>
    if progress.1 then progress
    else match progress.2.revert isCanon block with
      | some cache => (false, cache)
      | none => (true, progress.2)) start

def sync (enacted retracted : List BlockHash) (cache : Cache BlockHash Key Value Out) :
    Cache BlockHash Key Value Out :=
  let reverted := revertAll false retracted (revertAll true enacted (false, cache))
  -- we don't know anything about the block; clear everything
  if reverted.1 then newSharedCache else reverted.2

theorem revert_lruHashes {isCanon : Bool} {block : BlockHash} {cache next : Cache BlockHash Key Value Out}
    (reverted : cache.revert isCanon block = some next) : next.lruHashes = cache.lruHashes := by
  unfold revert at reverted
  split at reverted
  · cases reverted
    rfl
  · cases reverted

theorem revertAll_lruHashes (isCanon : Bool) (blocks : List BlockHash) (start : Bool × Cache BlockHash Key Value Out) :
    (revertAll isCanon blocks start).2.lruHashes = start.2.lruHashes := by
  induction blocks generalizing start with
  | nil => rfl
  | cons block rest inductionHypothesis =>
    simp only [revertAll, List.foldl_cons] at inductionHypothesis ⊢
    rw [inductionHypothesis]
    split
    · rfl
    · split
      · next next reverted => exact revert_lruHashes reverted
      · rfl

/-- Reverting blocks never forgets a hash: `Cache::sync` leaves `lru_hashes`
as it is, unless it clears the whole cache for a block it does not know. -/
theorem sync_lruHashes (enacted retracted : List BlockHash) (cache : Cache BlockHash Key Value Out) :
    (cache.sync enacted retracted).lruHashes = cache.lruHashes ∨
      (cache.sync enacted retracted).lruHashes = KVMap.empty := by
  unfold sync
  dsimp only
  split
  · exact Or.inr rfl
  · exact Or.inl (by rw [revertAll_lruHashes, revertAll_lruHashes])

/-! ## Committing a block: `sync_cache` -/

/-- The three loops of `sync_cache` that drain a local cache into an
`LRUMap`. -/
def drain {K A : Type} [DecidableEq K] (entries : AList fun _ : K => A) (lru : KVMap K A) : KVMap K A :=
  entries.entries.foldl (fun lru entry => lru.insert entry.1 entry.2) lru

/-- The local cache of a state on top of the best block, moved into the
shared one. -/
def propagate (localCache : LocalCache Key Value Out) (cache : Cache BlockHash Key Value Out) :
    Cache BlockHash Key Value Out :=
  { cache with
    lruStorage := drain localCache.storage cache.lruStorage
    lruChildStorage := drain localCache.childStorage cache.lruChildStorage
    lruHashes := drain localCache.hashes cache.lruHashes }

/-- `modifications.insert` before the first record of a lower number, or
`push_back` when there is none. -/
def insertByNumber (changes : BlockChanges BlockHash Key) :
    List (BlockChanges BlockHash Key) → List (BlockChanges BlockHash Key)
  | [] => [changes]
  | m :: rest => if m.number < changes.number then changes :: m :: rest else m :: insertByNumber changes rest

/-- The last part of `sync_cache`: the changes of a best block written to
the shared cache, the hashes of its keys dropped, and its keys recorded. -/
def recordBlock (number : Nat) (hash parent : BlockHash) (changes : List (Key × Option Value))
    (childChanges : List (Key × List (Key × Option Value))) (isBest : Bool)
    (cache : Cache BlockHash Key Value Out) : Cache BlockHash Key Value Out :=
  let modifications :=
    if cache.modifications.length = stateCacheBlocks then cache.modifications.dropLast else cache.modifications
  let childWrites := childChanges.flatMap fun changes => changes.2.map fun write => ((changes.1, write.1), write.2)
  let lruChildStorage :=
    if isBest then childWrites.foldl (fun lru write => lru.insert write.1 write.2) cache.lruChildStorage
    else cache.lruChildStorage
  let lrus := if isBest then
      changes.foldl (fun lrus write => (lrus.1.remove write.1, lrus.2.insert write.1 write.2))
        (cache.lruHashes, cache.lruStorage)
    else (cache.lruHashes, cache.lruStorage)
  let blockChanges : BlockChanges BlockHash Key :=
    ⟨number, hash, parent, changes.map Prod.fst, childWrites.map Prod.fst, isBest⟩
  ⟨lrus.2, lrus.1, lruChildStorage, insertByNumber blockChanges modifications⟩

end Cache

namespace CacheChanges

def syncCache (changes : CacheChanges BlockHash Key Value Out) (enacted retracted : List BlockHash)
    (storageChanges : List (Key × Option Value)) (childChanges : List (Key × List (Key × Option Value)))
    (commitHash : Option BlockHash) (commitNumber : Option Nat) (isBest : Bool)
    (cache : Cache BlockHash Key Value Out) : Cache BlockHash Key Value Out :=
  -- filter out commiting block if any
  let enacted := enacted.filter fun h => commitHash.all fun p => h ≠ p
  let cache := cache.sync enacted retracted
  -- propagate cache only if committing on top of the latest canonical state
  let cache := if changes.parentHash.isSome && isBest then cache.propagate changes.localCache else cache
  match commitNumber, commitHash, changes.parentHash with
  | some number, some hash, some parent =>
    cache.recordBlock number hash parent storageChanges childChanges isBest
  | _, _, _ => cache

end CacheChanges

/-! ## Reads through the cache -/

/-- The walk of `is_allowed` from the parent: a record of the parent that is
canonical allows the key, the parent's parent is looked for next, and a
record on the way that wrote the key forbids it. -/
def walkModifications (key : Option Key) (childKey : Option (Key × Key)) :
    BlockHash → List (BlockChanges BlockHash Key) → Bool
  | _, [] => false
  | parent, m :: rest =>
    if m.hash = parent ∧ m.isCanon then true
    else
      let parent := if m.hash = parent then m.parent else parent
      if key.any (· ∈ m.storage) then false
      else if childKey.any (· ∈ m.childStorage) then false
      else walkModifications key childKey parent rest

def isAllowed (key : Option Key) (childKey : Option (Key × Key)) (parentHash : Option BlockHash)
    (modifications : List (BlockChanges BlockHash Key)) : Bool :=
  match parentHash with
  | none => false
  | some parent => walkModifications key childKey parent modifications

/-- The read of `storage`, `storage_hash` and `child_storage`: the local
cache, then the shared cache if the key is allowed, then the backing state,
whose answer the local cache keeps. -/
def cachedRead {K A : Type} [DecidableEq K] (localCache : AList fun _ : K => A) (allowed : Bool)
    (shared : KVMap K A) (backend : A) (key : K) : A × AList fun _ : K => A :=
  match localCache.lookup key with
  | some entry => (entry, localCache)
  | none =>
    match (if allowed then shared.lookup key else none) with
    | some entry => (entry, localCache)
    | none => (backend, localCache.insert key backend)

namespace CachingState

def new (state : Key → Option Value) (childState : Key → Key → Option Value) (parentHash : Option BlockHash) :
    CachingState BlockHash Key Value Out :=
  ⟨state, childState, ⟨⟨∅, ∅, ∅⟩, parentHash⟩⟩

def release (cachingState : CachingState BlockHash Key Value Out) : CacheChanges BlockHash Key Value Out :=
  cachingState.cache

def storage (key : Key) (cachingState : CachingState BlockHash Key Value Out)
    (shared : Cache BlockHash Key Value Out) : Option Value × CachingState BlockHash Key Value Out :=
  let read := cachedRead cachingState.cache.localCache.storage
    (isAllowed (some key) none cachingState.cache.parentHash shared.modifications) shared.lruStorage
    (cachingState.state key) key
  (read.1, { cachingState with cache.localCache.storage := read.2 })

/-- `storage_hash`, whose backing state answers the hash of the value. -/
def storageHash (hash : Value → Out) (key : Key) (cachingState : CachingState BlockHash Key Value Out)
    (shared : Cache BlockHash Key Value Out) : Option Out × CachingState BlockHash Key Value Out :=
  let read := cachedRead cachingState.cache.localCache.hashes
    (isAllowed (some key) none cachingState.cache.parentHash shared.modifications) shared.lruHashes
    ((cachingState.state key).map hash) key
  (read.1, { cachingState with cache.localCache.hashes := read.2 })

/-- `child_storage`, whose cache key is the child trie's storage key and the
key in it. -/
def childStorage (storageKey key : Key) (cachingState : CachingState BlockHash Key Value Out)
    (shared : Cache BlockHash Key Value Out) : Option Value × CachingState BlockHash Key Value Out :=
  let read := cachedRead cachingState.cache.localCache.childStorage
    (isAllowed none (some (storageKey, key)) cachingState.cache.parentHash shared.modifications)
    shared.lruChildStorage (cachingState.childState storageKey key) (storageKey, key)
  (read.1, { cachingState with cache.localCache.childStorage := read.2 })

end CachingState

end OffchainStorage.ClientDb
