import OffchainStorage.Lib.KVMap
import OffchainStorage.Lib.RustInt
import OffchainStorage.Lib.VecOps
import Mathlib

/-!
# The ready queue of the transaction pool

A transaction requires tags and provides tags; it is ready when every tag it
requires is provided by a transaction of the ready queue or was recently
included.  `ReadyTransactions` keeps the ready transactions by hash, the
transaction providing each tag, and `best`, the transactions that need no
other one before them.  Each ready transaction lists the transactions it
unlocks, those that require one of its tags; `requires_offset` counts the
tags of a transaction that were provided when it was imported by no
transaction of the queue.  The iterator `get()` yields a transaction once as
many of its required tags as it has are satisfied, counting the offset and
one per yielded transaction that unlocks it.

`HashMap`s read through `get`, `insert` and `remove` are `KVMap`s; the map
of ready transactions, which `len`, `bytes` and `fold` iterate, is an
`AList`.  A `HashSet` is a list without duplicates, iterated in its order.
A `BTreeSet` is the list of its elements from the greatest down, in the
order of `TransactionRef`.  The worklist loops of `remove_subtree` and
`prune_tags` stop when their list is empty: their models take a fuel, and a
run out of fuel is `none`, as a panic is.  Priorities and lengths are
natural numbers; the sum of priorities saturates at `u64::MAX` as the source's.
The extrinsic of a transaction and its `propagate` flag are never read here.
-/

namespace OffchainStorage.TransactionPool

open RustInt VecOps

/-- `TransactionTag`. -/
abbrev Tag : Type :=
  List UInt8

/-- `base_pool::Transaction`, without the extrinsic and its `propagate`
flag. -/
structure Transaction (Hash : Type) where
  bytes : Nat
  hash : Hash
  priority : Nat
  validTill : Nat
  requires : List Tag
  provides : List Tag
  deriving DecidableEq, Repr

/-- The errors of `sp_transaction_pool::error::Error` the pool returns. -/
inductive Error (Hash : Type) where
  | alreadyImported (hash : Hash)
  | tooLowPriority (old new : Nat)
  | cycleDetected
  | rejectedFutureTransaction
  deriving DecidableEq, Repr

/-- `WaitingTransaction`: a transaction and the tags it requires that are
not provided yet; `importedAt` is the `Instant` of its import. -/
structure WaitingTransaction (Hash : Type) where
  transaction : Transaction Hash
  missingTags : List Tag
  importedAt : Nat
  deriving DecidableEq, Repr

namespace WaitingTransaction

variable {Hash : Type}

/-- `WaitingTransaction::new`: the required tags neither provided in the
ready queue nor recently pruned. -/
def new (transaction : Transaction Hash) (provided : KVMap Tag Hash)
    (recentlyPruned : List (List Tag)) (now : Nat) : WaitingTransaction Hash :=
  let missingTags := transaction.requires.filter fun tag =>
    !(provided.contains tag || recentlyPruned.any fun pruned => pruned.contains tag)
  ⟨transaction, missingTags.dedup, now⟩

/-- `satisfy_tag`. -/
def satisfyTag (tag : Tag) (tx : WaitingTransaction Hash) : WaitingTransaction Hash :=
  { tx with missingTags := tx.missingTags.erase tag }

/-- `is_ready`. -/
def isReady (tx : WaitingTransaction Hash) : Bool :=
  tx.missingTags.isEmpty

end WaitingTransaction

/-- `TransactionRef`: a transaction and its insertion id. -/
structure TransactionRef (Hash : Type) where
  transaction : Transaction Hash
  insertionId : Nat
  deriving DecidableEq, Repr

/-- The `Ord` of `TransactionRef`: higher priority, then shorter longevity,
then earlier insertion is greater. -/
def TransactionRef.cmp {Hash : Type} (a b : TransactionRef Hash) : Ordering :=
  (compare a.transaction.priority b.transaction.priority).then
    ((compare b.transaction.validTill a.transaction.validTill).then
      (compare b.insertionId a.insertionId))

/-- `ReadyTx`. -/
structure ReadyTx (Hash : Type) where
  transaction : TransactionRef Hash
  unlocks : List Hash
  requiresOffset : Nat
  deriving DecidableEq, Repr

/-! ## `BTreeSet<TransactionRef>` -/

section Best

variable {Hash : Type}

/-- `BTreeSet::insert`, on the set listed from its greatest element down: no
change when an element of the same order is there. -/
def insertBest (tx : TransactionRef Hash) : List (TransactionRef Hash) → List (TransactionRef Hash)
  | [] => [tx]
  | head :: rest =>
    match tx.cmp head with
    | .gt => tx :: head :: rest
    | .eq => head :: rest
    | .lt => head :: insertBest tx rest

/-- `BTreeSet::remove`: the element of the same order taken out. -/
def removeBest (tx : TransactionRef Hash) : List (TransactionRef Hash) → List (TransactionRef Hash)
  | [] => []
  | head :: rest => if tx.cmp head = .eq then rest else head :: removeBest tx rest

end Best

/-- `remove_item`: the first occurrence swap-removed. -/
def removeItem {α : Type} [DecidableEq α] (items : List α) (item : α) : List α :=
  match items.findIdx? fun i => i = item with
  | some index => swapRemove items index
  | none => items

/-- `ReadyTransactions`. -/
structure ReadyTransactions (Hash : Type) where
  insertionId : Nat
  providedTags : KVMap Tag Hash
  ready : AList fun _ : Hash => ReadyTx Hash
  best : List (TransactionRef Hash)

namespace ReadyTransactions

variable {Hash : Type} [DecidableEq Hash]

/-- `ReadyTransactions::default()`. -/
def empty : ReadyTransactions Hash :=
  ⟨0, KVMap.empty, ∅, []⟩

/-- `contains`. -/
def contains (queue : ReadyTransactions Hash) (hash : Hash) : Bool :=
  (queue.ready.lookup hash).isSome

/-- `len`. -/
def len (queue : ReadyTransactions Hash) : Nat :=
  queue.ready.entries.length

/-- `bytes`: the encoded lengths of the ready transactions. -/
def bytes (queue : ReadyTransactions Hash) : Nat :=
  (queue.ready.entries.map fun entry => entry.2.transaction.transaction.bytes).sum

/-- The `fold` of `enforce_limits`: the ready transaction inserted first. -/
def minimal (queue : ReadyTransactions Hash) : Option (TransactionRef Hash) :=
  queue.ready.entries.foldl (fun minimal entry =>
    let transaction := entry.2.transaction
    match minimal with
    | none => some transaction
    | some tx => if transaction.insertionId < tx.insertionId then some transaction else some tx)
    none

/-- Enough iterations for `remove_subtree_with_tag_filter`: each pops one
hash, and the hashes it pushes are the unlocks of removed transactions. -/
def removalFuel (queue : ReadyTransactions Hash) (toRemove : List Hash) : Nat :=
  toRemove.length + (queue.ready.entries.map fun entry => entry.2.unlocks.length).sum + 1

/-- The loop of `remove_subtree_with_tag_filter`: the last hash of the work
list popped and, if ready, removed with the tags it provides outside the
filter; the transactions it unlocks follow when it loses a tag. -/
def removeSubtreeLoop (filter : Option (List Tag)) :
    Nat → List Hash → ReadyTransactions Hash → List (Transaction Hash) →
      Option (ReadyTransactions Hash × List (Transaction Hash))
  | 0, _, _, _ => none
  | fuel + 1, toRemove, queue, removed =>
    match toRemove.getLast? with
    | none => some (queue, removed)
    | some hash =>
      let toRemove := toRemove.dropLast
      match queue.ready.lookup hash with
      | none => removeSubtreeLoop filter fuel toRemove queue removed
      | some tx =>
        let ready := queue.ready.erase hash
        let invalidated := tx.transaction.transaction.provides.filter fun tag =>
          (filter.map fun filter => !filter.contains tag).getD true
        let providedTags := invalidated.foldl KVMap.remove queue.providedTags
        -- "remove from unlocks": `hash` is rebound to the provider, so the
        -- provider's own hash is what `remove_item` looks for
        let ready := tx.transaction.transaction.requires.foldl (fun ready tag =>
          match providedTags.lookup tag with
          | some hash =>
            match ready.lookup hash with
            | some provider => ready.insert hash { provider with unlocks := removeItem provider.unlocks hash }
            | none => ready
          | none => ready) ready
        let best := removeBest tx.transaction queue.best
        let toRemove := if invalidated.isEmpty then toRemove else toRemove ++ tx.unlocks
        removeSubtreeLoop filter fuel toRemove { queue with ready, providedTags, best }
          (removed ++ [tx.transaction.transaction])

/-- `remove_subtree_with_tag_filter`. -/
def removeSubtreeWithTagFilter (toRemove : List Hash) (filter : Option (List Tag))
    (queue : ReadyTransactions Hash) : Option (ReadyTransactions Hash × List (Transaction Hash)) :=
  removeSubtreeLoop filter (queue.removalFuel toRemove) toRemove queue []

/-- `remove_subtree`. -/
def removeSubtree (hashes : List Hash) (queue : ReadyTransactions Hash) :
    Option (ReadyTransactions Hash × List (Transaction Hash)) :=
  queue.removeSubtreeWithTagFilter hashes none

/-- `replace_previous`: the ready transactions providing a tag of `tx` are
replaced when their priorities sum below that of `tx`; the transactions they
unlock are returned for `tx` to unlock. -/
def replacePrevious (tx : Transaction Hash) (queue : ReadyTransactions Hash) :
    Option (ReadyTransactions Hash ×
      Except (Error Hash) (List (Transaction Hash) × List Hash)) :=
  let replaceHashes := (tx.provides.filterMap queue.providedTags.lookup).dedup
  if replaceHashes.isEmpty then
    some (queue, .ok ([], []))
  else
    let replaced := replaceHashes.filterMap queue.ready.lookup
    let oldPriority := replaced.foldl (fun total tx =>
      saturatingAdd 64 total tx.transaction.transaction.priority) 0
    if tx.priority ≤ oldPriority then
      some (queue, .error (.tooLowPriority oldPriority tx.priority))
    else
      let unlocks := replaced.foldl (fun list tx => list ++ tx.unlocks) []
      (queue.removeSubtreeWithTagFilter replaceHashes (some tx.provides.dedup)).map
        fun (queue, removed) => (queue, .ok (removed, unlocks))

end ReadyTransactions

section Import

variable {Hash : Type} [DecidableEq Hash]

/-- `import`: a ready transaction added, after the ones it replaces are
removed; it is unlocked by the providers of its required tags, and goes to
`best` when there is none.  The insertion id grows even when the import
fails. -/
def ReadyTransactions.import (tx : WaitingTransaction Hash) (queue : ReadyTransactions Hash) :
    Option (ReadyTransactions Hash × Except (Error Hash) (List (Transaction Hash))) :=
  -- `assert!(tx.is_ready())`, `assert!(!self.ready.read().contains_key(..))`
  if !tx.isReady || queue.contains tx.transaction.hash then none
  else
    let insertionId := queue.insertionId + 1
    let queue := { queue with insertionId }
    let hash := tx.transaction.hash
    let transaction := tx.transaction
    match queue.replacePrevious transaction with
    | none => none
    | some (queue, .error e) => some (queue, .error e)
    | some (queue, .ok (replaced, unlocks)) =>
      let linked := transaction.requires.foldlM (fun (ready, goesToBest, requiresOffset) tag =>
        match queue.providedTags.lookup tag with
        | some other =>
          -- `expect(HASH_READY)`
          (ready.lookup other).map fun (provider : ReadyTx Hash) =>
            (ready.insert other { provider with unlocks := provider.unlocks ++ [hash] }, false,
              requiresOffset)
        | none => some (ready, goesToBest, requiresOffset + 1)) (queue.ready, true, 0)
      linked.map fun (ready, goesToBest, requiresOffset) =>
        let providedTags := transaction.provides.foldl (fun tags tag => tags.insert tag hash)
          queue.providedTags
        let transaction : TransactionRef Hash := ⟨transaction, insertionId⟩
        let best := if goesToBest then insertBest transaction queue.best else queue.best
        ({ queue with
            providedTags
            ready := ready.insert hash ⟨transaction, unlocks, requiresOffset⟩
            best },
          .ok replaced)

end Import

namespace ReadyTransactions

variable {Hash : Type} [DecidableEq Hash]

/-- Enough iterations for `prune_tags`: each pops one tag, and a removed
transaction pushes, for each tag it requires, at most the tags of one ready
transaction. -/
def pruneFuel (queue : ReadyTransactions Hash) : Nat :=
  (queue.ready.entries.map fun entry => entry.2.transaction.transaction.requires.length).sum *
    (queue.ready.entries.map fun entry => entry.2.transaction.transaction.provides.length).sum + 2

/-- The loop of `prune_tags`: the last tag of the work list popped; its
provider removed, the transactions it leads to pruned when they unlock
nothing else, and the ones it unlocks counted one tag nearer to `best`. -/
def pruneTagsLoop : Nat → List Tag → ReadyTransactions Hash → List (Transaction Hash) →
    Option (ReadyTransactions Hash × List (Transaction Hash))
  | 0, _, _, _ => none
  | fuel + 1, toRemove, queue, removed =>
    match toRemove.getLast? with
    | none => some (queue, removed)
    | some tag =>
      let toRemove := toRemove.dropLast
      let providedTags := queue.providedTags.remove tag
      match (queue.providedTags.lookup tag).bind fun hash =>
          (queue.ready.lookup hash).map fun readyTx => (hash, readyTx) with
      | none => pruneTagsLoop fuel toRemove { queue with providedTags } removed
      | some (hash, readyTx) =>
        let tx := readyTx.transaction.transaction
        let ready := queue.ready.erase hash
        -- prune previous transactions as well
        let (ready, toRemove) := tx.requires.foldl (fun (ready, toRemove) tag =>
          match providedTags.lookup tag with
          | none => (ready, toRemove)
          | some prevHash =>
            match ready.lookup prevHash with
            | none => (ready, toRemove)
            | some tx2 =>
              let tx2 := { tx2 with unlocks := removeItem tx2.unlocks tx.hash }
              (ready.insert prevHash tx2,
                if tx2.unlocks.isEmpty then toRemove ++ tx2.transaction.transaction.provides
                else toRemove)) (ready, toRemove)
        -- add the transactions that just got unlocked to `best`
        let (ready, best) := readyTx.unlocks.foldl (fun (ready, best) hash =>
          match ready.lookup hash with
          | none => (ready, best)
          | some unlocked =>
            let unlocked := { unlocked with requiresOffset := unlocked.requiresOffset + 1 }
            (ready.insert hash unlocked,
              if unlocked.requiresOffset = unlocked.transaction.transaction.requires.length then
                insertBest unlocked.transaction best
              else best)) (ready, queue.best)
        -- the other tags it provides, with the `assert_eq!` on each entry
        let cleared := tx.provides.foldlM (fun providedTags other =>
          if providedTags.lookup other = (if tag = other then none else some tx.hash) then
            some (providedTags.remove other)
          else none) providedTags
        match cleared with
        | none => none
        | some providedTags =>
          pruneTagsLoop fuel toRemove { queue with ready, providedTags, best } (removed ++ [tx])

/-- `prune_tags`: the transaction providing `tag` removed, with the ones
before it that unlock nothing else. -/
def pruneTags (tag : Tag) (queue : ReadyTransactions Hash) :
    Option (ReadyTransactions Hash × List (Transaction Hash)) :=
  pruneTagsLoop queue.pruneFuel [tag] queue []

end ReadyTransactions

/-! ## The iterator of ready transactions -/

/-- `BestIterator`: the ready transactions, the ones whose requirements are
met, and the ones waiting for more, with the number met. -/
structure BestIterator (Hash : Type) where
  all : AList fun _ : Hash => ReadyTx Hash
  awaiting : KVMap Hash (Nat × TransactionRef Hash)
  best : List (TransactionRef Hash)

namespace BestIterator

variable {Hash : Type} [DecidableEq Hash]

/-- `best_or_awaiting`. -/
def bestOrAwaiting (satisfied : Nat) (txRef : TransactionRef Hash) (iterator : BestIterator Hash) :
    BestIterator Hash :=
  if txRef.transaction.requires.length ≤ satisfied then
    { iterator with best := insertBest txRef iterator.best }
  else
    { iterator with awaiting := iterator.awaiting.insert txRef.transaction.hash (satisfied, txRef) }

/-- The unlocks of a yielded transaction: each one waiting counts one more
tag met, and one not yet seen counts its offset and this one. -/
def unlock (iterator : BestIterator Hash) (hash : Hash) : BestIterator Hash :=
  match iterator.awaiting.lookup hash with
  | some (satisfied, txRef) =>
    bestOrAwaiting (satisfied + 1) txRef { iterator with awaiting := iterator.awaiting.remove hash }
  | none =>
    match iterator.all.lookup hash with
    | some next => bestOrAwaiting (next.requiresOffset + 1) next.transaction iterator
    | none => iterator

/-- The loop of `next` over `best`, greatest first: a transaction no longer
ready is skipped. -/
def nextOf : List (TransactionRef Hash) → BestIterator Hash →
    Option (Transaction Hash × BestIterator Hash)
  | [], _ => none
  | best :: rest, iterator =>
    let iterator := { iterator with best := rest }
    match iterator.all.lookup best.transaction.hash with
    | none => nextOf rest iterator
    | some ready => some (best.transaction, ready.unlocks.foldl unlock iterator)

/-- `Iterator::next`. -/
def next (iterator : BestIterator Hash) : Option (Transaction Hash × BestIterator Hash) :=
  nextOf iterator.best iterator

/-- The first `count` transactions the iterator yields. -/
def take : Nat → BestIterator Hash → List (Transaction Hash)
  | 0, _ => []
  | count + 1, iterator =>
    match iterator.next with
    | none => []
    | some (tx, iterator) => tx :: take count iterator

end BestIterator

/-- `get`: the iterator over the ready transactions. -/
def ReadyTransactions.get {Hash : Type} (queue : ReadyTransactions Hash) : BestIterator Hash :=
  ⟨queue.ready, KVMap.empty, queue.best⟩

end OffchainStorage.TransactionPool
