import OffchainStorage.TransactionPool.BasePool
import Mathlib

/-!
# Rejected imports

`import` refuses a transaction in three ways.  `AlreadyImported` and
`RejectedFutureTransaction` come before anything is changed, and leave the
pool as it was (`import_rejected_unchanged`).  `TooLowPriority` comes from the
ready queue, after `import_to_ready` has taken out of the future queue every
transaction that the new one completes: the failed import keeps the future
queue `satisfy_tags` left and drops the work list, with the completed
transactions on it (`import_tooLowPriority`).  A transaction that waited for
a tag of the refused one is then in neither queue
(`low_priority_import_drops_dependent`).
-/

namespace OffchainStorage.TransactionPool

namespace ReadyTransactions

variable {Hash : Type} [DecidableEq Hash]

/-- `replace_previous` fails only with `TooLowPriority`, and then leaves the
queue as it was. -/
theorem replacePrevious_error {tx : Transaction Hash} {queue queue' : ReadyTransactions Hash}
    {e : Error Hash} (failed : queue.replacePrevious tx = some (queue', .error e)) :
    queue' = queue ∧ ∃ old, e = .tooLowPriority old tx.priority := by
  unfold replacePrevious at failed
  dsimp only at failed
  split at failed
  · cases failed
  · split at failed
    · cases failed
      exact ⟨rfl, _, rfl⟩
    · obtain ⟨_, _, same⟩ := Option.map_eq_some_iff.mp failed
      cases same

/-- A failed import into the ready queue is a `TooLowPriority` of
`replace_previous`, and only the insertion id has moved. -/
theorem import_error {tx : WaitingTransaction Hash} {queue queue' : ReadyTransactions Hash}
    {e : Error Hash} (failed : queue.import tx = some (queue', .error e)) :
    queue' = { queue with insertionId := queue.insertionId + 1 } ∧
      ∃ old, e = .tooLowPriority old tx.transaction.priority := by
  unfold ReadyTransactions.import at failed
  dsimp only at failed
  split at failed
  · cases failed
  · split at failed
    · cases failed
    · rename_i replaced
      cases failed
      exact replacePrevious_error replaced
    · obtain ⟨_, _, same⟩ := Option.map_eq_some_iff.mp failed
      cases same

end ReadyTransactions

namespace BasePool

variable {Hash : Type} [DecidableEq Hash]

/-- After the first transaction, the loop of `import_to_ready` records each
failure and goes on: it never fails. -/
theorem importToReadyLoop_later_ne_error (fuel : Nat) :
    ∀ (toImport : List (WaitingTransaction Hash)) (pool pool' : BasePool Hash) acc (e : Error Hash),
      importToReadyLoop fuel false toImport pool acc ≠ some (pool', .error e) := by
  induction fuel with
  | zero => simp [importToReadyLoop]
  | succ fuel ih =>
    intro toImport pool pool' acc e failed
    unfold importToReadyLoop at failed
    -- every branch either stops with `ok`, panics, or loops with `first = false`
    split at failed
    · cases failed
    · split at failed
      · cases failed
      · split at failed
        · cases failed
        · split at failed
          · exact ih _ _ _ _ _ failed
          · exact ih _ _ _ _ _ failed

/-- What a failed `import_to_ready` means: a cycle, or the import of the
transaction itself refused by the ready queue, after `satisfy_tags` took the
transactions it completes out of the future queue. -/
theorem importToReady_error {tx : WaitingTransaction Hash} {pool pool' : BasePool Hash}
    {e : Error Hash} (failed : pool.importToReady tx = some (pool', .error e)) :
    e = .cycleDetected ∨
      ∃ future becameReady ready,
        pool.future.satisfyTags tx.transaction.provides = some (future, becameReady) ∧
        pool.ready.import tx = some (ready, .error e) ∧ pool' = { pool with future, ready } := by
  unfold importToReady at failed
  split at failed
  · cases failed
  · rename_i loopPool loopError looped
    cases failed
    -- the first round of the loop: `[tx]` popped, its dependents taken out, `tx` imported
    rw [importToReadyLoop] at looped
    simp only [List.getLast?_singleton, List.dropLast_singleton, List.nil_append] at looped
    split at looped
    · cases looped
    · rename_i future becameReady satisfied
      split at looped
      · cases looped
      · rename_i ready imported readyImport
        split at looped
        · exact absurd looped (importToReadyLoop_later_ne_error _ _ _ _ _ _)
        · simp only [if_true, Option.some.injEq, Prod.mk.injEq, Except.error.injEq] at looped
          obtain ⟨rfl, rfl⟩ := looped
          exact .inr ⟨future, becameReady, ready, satisfied, readyImport, rfl⟩
  · dsimp only at failed
    split at failed
    · obtain ⟨_, _, same⟩ := Option.map_eq_some_iff.mp failed
      cases same
      exact .inl rfl
    · cases failed

/-- `AlreadyImported` and `RejectedFutureTransaction` leave the pool as it
was. -/
theorem import_rejected_unchanged {tx : Transaction Hash} {now : Nat} {pool pool' : BasePool Hash}
    {e : Error Hash} (failed : BasePool.import tx now pool = some (pool', .error e))
    (rejected : (∃ hash, e = .alreadyImported hash) ∨ e = .rejectedFutureTransaction) :
    pool' = pool := by
  unfold BasePool.import at failed
  dsimp only at failed
  split at failed
  · cases failed
    rfl
  · split at failed
    · split at failed
      · cases failed
        rfl
      · obtain ⟨_, _, same⟩ := Option.map_eq_some_iff.mp failed
        cases same
    · -- the ready queue refuses only with `TooLowPriority` or `CycleDetected`
      rcases importToReady_error failed with rfl | ⟨_, _, _, _, readyImport, _⟩
      · rcases rejected with ⟨_, impossible⟩ | impossible <;> cases impossible
      · obtain ⟨_, rfl⟩ := (ReadyTransactions.import_error readyImport).2
        rcases rejected with ⟨_, impossible⟩ | impossible <;> cases impossible

/-- A `TooLowPriority` import keeps the future queue that `satisfy_tags` left
on the new transaction's tags, and the ready queue with its insertion id
moved. -/
theorem import_tooLowPriority {tx : Transaction Hash} {now : Nat} {pool pool' : BasePool Hash}
    {old new : Nat} (failed : BasePool.import tx now pool = some (pool', .error (.tooLowPriority old new))) :
    ∃ future becameReady, pool.future.satisfyTags tx.provides = some (future, becameReady) ∧
      pool' = { pool with future, ready := { pool.ready with insertionId := pool.ready.insertionId + 1 } } := by
  unfold BasePool.import at failed
  dsimp only at failed
  split at failed
  · cases failed
  · split at failed
    · split at failed
      · cases failed
      · obtain ⟨_, _, same⟩ := Option.map_eq_some_iff.mp failed
        cases same
    · rcases importToReady_error failed with impossible | ⟨future, becameReady, ready, satisfied, readyImport, rfl⟩
      · cases impossible
      · rw [(ReadyTransactions.import_error readyImport).1]
        exact ⟨future, becameReady, satisfied, rfl⟩

/-! ## A dependent dropped -/

/-- `A` (hash `1`, priority 10) provides tag `[1]`. -/
def providerA : Transaction Nat :=
  ⟨1, 1, 10, 10, [], [[1]]⟩

/-- `C` (hash `2`) requires tag `[2]`, which nothing provides. -/
def dependentC : Transaction Nat :=
  ⟨1, 2, 1, 10, [[2]], []⟩

/-- `B` (hash `3`, priority 5) provides tags `[1]` and `[2]`. -/
def lowPriorityB : Transaction Nat :=
  ⟨1, 3, 5, 10, [], [[1], [2]]⟩

/-- With `A` ready and `C` waiting for tag `[2]`, importing `B` fails with
`TooLowPriority`, since `A` already provides `[1]` at a higher priority; but
`C`, which `B` completes, has left the future queue on the way and is in no
queue afterwards. -/
theorem low_priority_import_drops_dependent :
    ∃ pool, run [.importTransaction providerA 0, .importTransaction dependentC 1] (new false) =
        some pool ∧
      pool.future.contains 2 = true ∧
      ∃ refused, BasePool.import lowPriorityB 2 pool = some (refused, .error (.tooLowPriority 10 5)) ∧
        refused.future.contains 2 = false ∧ refused.ready.contains 2 = false ∧
        refused.ready.insertionId = pool.ready.insertionId + 1 := by
  refine ⟨_, rfl, by decide, _, rfl, by decide, by decide, rfl⟩

end BasePool

end OffchainStorage.TransactionPool
