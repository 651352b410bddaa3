import OffchainStorage.TransactionPool.Future

/-!
# `BasePool`

The pool of a node: a transaction is imported to the ready queue when every
tag it requires is provided there or was pruned recently, and to the future
queue otherwise.  A transaction imported to the ready queue promotes the
future transactions its tags complete, which may promote more
(`import_to_ready`).  `prune_tags` removes the transactions providing tags
included in a block, keeps those tags as recently pruned for two rounds, and
promotes the future transactions they complete.

The clock read by `WaitingTransaction::new` is an argument of `import`.  The
work list of `import_to_ready` grows with promoted transactions: its model
takes a fuel, enough since each transaction leaves the future queue once,
and a run out of fuel is `none`.  So do the two loops of `enforce_limits`,
which remove one transaction or more at each round.
-/

namespace OffchainStorage.TransactionPool

/-- `Imported`: where an imported transaction went. -/
inductive Imported (Hash : Type) where
  | ready (hash : Hash) (promoted failed : List Hash) (removed : List (Transaction Hash))
  | future (hash : Hash)

/-- `PruneStatus`. -/
structure PruneStatus (Hash : Type) where
  promoted : List (Imported Hash)
  failed : List Hash
  pruned : List (Transaction Hash)

/-- `Limit`. -/
structure Limit where
  count : Nat
  totalBytes : Nat

/-- `Limit::is_exceeded`. -/
def Limit.isExceeded (limit : Limit) (count bytes : Nat) : Bool :=
  limit.count < count || limit.totalBytes < bytes

/-- `RECENTLY_PRUNED_TAGS`. -/
def recentlyPrunedTags : Nat :=
  2

/-- `BasePool`. -/
structure BasePool (Hash : Type) where
  rejectFutureTransactions : Bool
  future : FutureTransactions Hash
  ready : ReadyTransactions Hash
  /-- `[HashSet<Tag>; RECENTLY_PRUNED_TAGS]`. -/
  recentlyPruned : List (List Tag)
  recentlyPrunedIndex : Nat

namespace BasePool

variable {Hash : Type} [DecidableEq Hash]

/-- `BasePool::new`. -/
def new (rejectFutureTransactions : Bool) : BasePool Hash :=
  ⟨rejectFutureTransactions, .empty, .empty, List.replicate recentlyPrunedTags [], 0⟩

/-- The loop of `import_to_ready`: the last transaction of the work list
popped, the future transactions its tags complete added to the list, and the
transaction imported to the ready queue.  An error fails the whole import for
the first transaction and is recorded for the others. -/
def importToReadyLoop : Nat → Bool → List (WaitingTransaction Hash) → BasePool Hash →
    List Hash × List Hash × List (Transaction Hash) →
      Option (BasePool Hash × Except (Error Hash) (List Hash × List Hash × List (Transaction Hash)))
  | 0, _, _, _, _ => none
  | fuel + 1, first, toImport, pool, (promoted, failed, removed) =>
    match toImport.getLast? with
    | none => some (pool, .ok (promoted, failed, removed))
    | some tx =>
      let toImport := toImport.dropLast
      match pool.future.satisfyTags tx.transaction.provides with
      | none => none
      | some (future, becameReady) =>
        let toImport := toImport ++ becameReady
        let currentHash := tx.transaction.hash
        match pool.ready.import tx with
        | none => none
        | some (ready, imported) =>
          let pool := { pool with future, ready }
          match imported with
          | .ok replaced =>
            importToReadyLoop fuel false toImport pool
              (if first then promoted else promoted ++ [currentHash], failed, removed ++ replaced)
          | .error e =>
            if first then some (pool, .error e)
            else importToReadyLoop fuel false toImport pool (promoted, failed ++ [currentHash], removed)

/-- `import_to_ready`: a ready transaction imported with the ones it
promotes; when it is itself replaced by one of them, the promoted ones are
removed again and the import fails. -/
def importToReady (tx : WaitingTransaction Hash) (pool : BasePool Hash) :
    Option (BasePool Hash × Except (Error Hash) (Imported Hash)) :=
  let hash := tx.transaction.hash
  match importToReadyLoop (pool.future.len + 2) true [tx] pool ([], [], []) with
  | none => none
  | some (pool, .error e) => some (pool, .error e)
  | some (pool, .ok (promoted, failed, removed)) =>
    if removed.any fun tx => tx.hash = hash then
      (pool.ready.removeSubtree promoted).map fun (ready, _) =>
        ({ pool with ready }, .error .cycleDetected)
    else
      some (pool, .ok (.ready hash promoted failed removed))

end BasePool

section Import

variable {Hash : Type} [DecidableEq Hash]

/-- `import`: a transaction not in the pool, to the ready queue when nothing
it requires is missing, to the future queue otherwise. -/
def BasePool.import (tx : Transaction Hash) (now : Nat) (pool : BasePool Hash) :
    Option (BasePool Hash × Except (Error Hash) (Imported Hash)) :=
  if pool.future.contains tx.hash || pool.ready.contains tx.hash then
    some (pool, .error (.alreadyImported tx.hash))
  else
    let tx := WaitingTransaction.new tx pool.ready.providedTags pool.recentlyPruned now
    if !tx.isReady then
      if pool.rejectFutureTransactions then some (pool, .error .rejectedFutureTransaction)
      else (pool.future.import tx).map fun future => ({ pool with future }, .ok (.future tx.transaction.hash))
    else
      pool.importToReady tx

end Import

namespace BasePool

variable {Hash : Type} [DecidableEq Hash]

/-- `remove_subtree`: from the ready queue with all that depends on them,
and from the future queue. -/
def removeSubtree (hashes : List Hash) (pool : BasePool Hash) :
    Option (BasePool Hash × List (Transaction Hash)) :=
  (pool.ready.removeSubtree hashes).map fun (ready, removed) =>
    let (future, removedFuture) := pool.future.remove hashes
    ({ pool with ready, future }, removed ++ removedFuture)

/-- The first loop of `enforce_limits`: the earliest ready transaction
removed, with its subtree, while the ready limit is exceeded. -/
def enforceReadyLimit (limit : Limit) :
    Nat → BasePool Hash → List (Transaction Hash) → Option (BasePool Hash × List (Transaction Hash))
  | 0, _, _ => none
  | fuel + 1, pool, removed =>
    if limit.isExceeded pool.ready.len pool.ready.bytes then
      match pool.ready.minimal with
      | some minimal =>
        (pool.removeSubtree [minimal.transaction.hash]).bind fun (pool, subtree) =>
          enforceReadyLimit limit fuel pool (removed ++ subtree)
      | none => some (pool, removed)
    else
      some (pool, removed)

/-- The second loop of `enforce_limits`, on the future queue. -/
def enforceFutureLimit (limit : Limit) :
    Nat → BasePool Hash → List (Transaction Hash) → Option (BasePool Hash × List (Transaction Hash))
  | 0, _, _ => none
  | fuel + 1, pool, removed =>
    if limit.isExceeded pool.future.len pool.future.bytes then
      match pool.future.minimal with
      | some minimal =>
        (pool.removeSubtree [minimal.transaction.hash]).bind fun (pool, subtree) =>
          enforceFutureLimit limit fuel pool (removed ++ subtree)
      | none => some (pool, removed)
    else
      some (pool, removed)

/-- `enforce_limits`: each round removes a transaction, so one round per
transaction of the queue is enough. -/
def enforceLimits (ready future : Limit) (pool : BasePool Hash) :
    Option (BasePool Hash × List (Transaction Hash)) :=
  (enforceReadyLimit ready (pool.ready.len + 1) pool []).bind fun (pool, removed) =>
    enforceFutureLimit future (pool.future.len + 1) pool removed

/-- `clear_future`. -/
def clearFuture (pool : BasePool Hash) : BasePool Hash × List (Transaction Hash) :=
  let (future, removed) := pool.future.clear
  ({ pool with future }, removed)

/-- The tag loop of `prune_tags`: the future transactions each tag completes
collected, and its provider pruned from the ready queue. -/
def pruneEach (tags : List Tag) (pool : BasePool Hash) :
    Option (BasePool Hash × List (WaitingTransaction Hash) × List (Transaction Hash) × List Tag) :=
  tags.foldlM (fun (pool, toImport, pruned, recentlyPruned) tag => do
    let (future, becameReady) ← pool.future.satisfyTags [tag]
    let (ready, removed) ← pool.ready.pruneTags tag
    pure ({ pool with future, ready }, toImport ++ becameReady, pruned ++ removed,
      if recentlyPruned.contains tag then recentlyPruned else recentlyPruned ++ [tag]))
    (pool, [], [], [])

/-- `prune_tags`: the providers of the tags pruned, the tags recorded in the
older of the two recently pruned sets, and the future transactions they
complete promoted. -/
def pruneTags (tags : List Tag) (pool : BasePool Hash) : Option (BasePool Hash × PruneStatus Hash) :=
  let index := pool.recentlyPrunedIndex
  let pool := { pool with recentlyPrunedIndex := (index + 1) % recentlyPrunedTags }
  (pruneEach tags pool).bind fun (pool, toImport, pruned, recentlyPruned) =>
    let pool := { pool with recentlyPruned := pool.recentlyPruned.set index recentlyPruned }
    (toImport.foldlM (fun (progress : BasePool Hash × List (Imported Hash) × List Hash) tx =>
        let (pool, promoted, failed) := progress
        (pool.importToReady tx).map fun (outcome : BasePool Hash × Except (Error Hash) (Imported Hash)) =>
          match outcome.2 with
          | .ok imported => (outcome.1, promoted ++ [imported], failed)
          | .error _ => (outcome.1, promoted, failed ++ [tx.transaction.hash]))
        (pool, [], [])).map fun (pool, promoted, failed) => (pool, ⟨promoted, failed, pruned⟩)

/-- `ready()`: the iterator over the ready queue. -/
def readyIterator (pool : BasePool Hash) : BestIterator Hash :=
  pool.ready.get

/-! ## Runs -/

/-- The calls that change the pool. -/
inductive Call (Hash : Type) where
  | importTransaction (tx : Transaction Hash) (now : Nat)
  | removeSubtree (hashes : List Hash)
  | pruneTags (tags : List Tag)
  | enforceLimits (ready future : Limit)
  | clearFuture

/-- A call on the pool; `none` when it panics. -/
def Call.perform : Call Hash → BasePool Hash → Option (BasePool Hash)
  | .importTransaction tx now, pool => (BasePool.import tx now pool).map Prod.fst
  | .removeSubtree hashes, pool => (pool.removeSubtree hashes).map Prod.fst
  | .pruneTags tags, pool => (pool.pruneTags tags).map Prod.fst
  | .enforceLimits ready future, pool => (pool.enforceLimits ready future).map Prod.fst
  | .clearFuture, pool => some pool.clearFuture.1

/-- Calls performed in order; `none` when one panics. -/
def run (calls : List (Call Hash)) (start : BasePool Hash) : Option (BasePool Hash) :=
  calls.foldlM (fun pool call => call.perform pool) start

end BasePool

end OffchainStorage.TransactionPool
