import OffchainStorage.TransactionPool.Ready

/-!
# The future queue of the transaction pool

Transactions with tags still missing wait in `FutureTransactions`, indexed
by each tag they miss.  When a tag is provided, `satisfy_tags` takes it off
the transactions waiting for it and returns those left with no missing tag,
to be moved to the ready queue.

The map of waiting transactions, which `len`, `bytes`, `fold` and `clear`
iterate, is an `AList`; `wanted_tags` is read by key only, and its sets of
hashes are lists without duplicates, iterated in their order.
-/

namespace OffchainStorage.TransactionPool

/-- `FutureTransactions`. -/
structure FutureTransactions (Hash : Type) where
  wantedTags : KVMap Tag (List Hash)
  waiting : AList fun _ : Hash => WaitingTransaction Hash

namespace FutureTransactions

variable {Hash : Type} [DecidableEq Hash]

/-- `FutureTransactions::default()`. -/
def empty : FutureTransactions Hash :=
  ⟨KVMap.empty, ∅⟩

/-- `contains`. -/
def contains (future : FutureTransactions Hash) (hash : Hash) : Bool :=
  (future.waiting.lookup hash).isSome

/-- `len`. -/
def len (future : FutureTransactions Hash) : Nat :=
  future.waiting.entries.length

/-- `bytes`. -/
def bytes (future : FutureTransactions Hash) : Nat :=
  (future.waiting.entries.map fun entry => entry.2.transaction.bytes).sum

/-- The `fold` of `enforce_limits`: the first waiting transaction imported
earliest. -/
def minimal (future : FutureTransactions Hash) : Option (WaitingTransaction Hash) :=
  future.waiting.entries.foldl (fun minimal entry =>
    match minimal with
    | none => some entry.2
    | some tx => if entry.2.importedAt < tx.importedAt then some entry.2 else some tx) none

end FutureTransactions

section Import

variable {Hash : Type} [DecidableEq Hash]

/-- `import`: a transaction with missing tags, waiting for each of them. -/
def FutureTransactions.import (tx : WaitingTransaction Hash) (future : FutureTransactions Hash) :
    Option (FutureTransactions Hash) :=
  -- `assert!(!tx.is_ready())`, `assert!(!self.waiting.contains_key(..))`
  if tx.isReady || future.contains tx.transaction.hash then none
  else
    let hash := tx.transaction.hash
    let wantedTags := tx.missingTags.foldl (fun wantedTags tag =>
      let hashes := (wantedTags.lookup tag).getD []
      wantedTags.insert tag (if hashes.contains hash then hashes else hashes ++ [hash]))
      future.wantedTags
    some ⟨wantedTags, future.waiting.insert hash tx⟩

end Import

namespace FutureTransactions

variable {Hash : Type} [DecidableEq Hash]

/-- One tag of `satisfy_tags`: each transaction waiting for it has it
satisfied, and those left with no missing tag are taken out. -/
def satisfyTag (tag : Tag) (future : FutureTransactions Hash)
    (becameReady : List (WaitingTransaction Hash)) :
    Option (FutureTransactions Hash × List (WaitingTransaction Hash)) :=
  match future.wantedTags.lookup tag with
  | none => some (future, becameReady)
  | some hashes =>
    hashes.foldlM (fun (future, becameReady) hash =>
      -- `expect(WAITING_PROOF)`
      (future.waiting.lookup hash).map fun tx =>
        let tx := tx.satisfyTag tag
        if tx.isReady then ({ future with waiting := future.waiting.erase hash }, becameReady ++ [tx])
        else ({ future with waiting := future.waiting.insert hash tx }, becameReady))
      ({ future with wantedTags := future.wantedTags.remove tag }, becameReady)

/-- `satisfy_tags`: the transactions that became ready, taken out. -/
def satisfyTags (tags : List Tag) (future : FutureTransactions Hash) :
    Option (FutureTransactions Hash × List (WaitingTransaction Hash)) :=
  tags.foldlM (fun (future, becameReady) tag => satisfyTag tag future becameReady) (future, [])

/-- `remove`: the waiting transactions of the hashes taken out, and out of
the sets of the tags they miss; an emptied set is dropped. -/
def remove (hashes : List Hash) (future : FutureTransactions Hash) :
    FutureTransactions Hash × List (Transaction Hash) :=
  hashes.foldl (fun (future, removed) hash =>
    match future.waiting.lookup hash with
    | none => (future, removed)
    | some waitingTx =>
      let wantedTags := waitingTx.missingTags.foldl (fun wantedTags tag =>
        match wantedTags.lookup tag with
        | some wanted =>
          let wanted := wanted.erase hash
          if wanted.isEmpty then wantedTags.remove tag else wantedTags.insert tag wanted
        | none => wantedTags) future.wantedTags
      (⟨wantedTags, future.waiting.erase hash⟩, removed ++ [waitingTx.transaction]))
    (future, [])

/-- `clear`: every waiting transaction taken out. -/
def clear (future : FutureTransactions Hash) : FutureTransactions Hash × List (Transaction Hash) :=
  (empty, future.waiting.entries.map fun entry => entry.2.transaction)

end FutureTransactions

end OffchainStorage.TransactionPool
