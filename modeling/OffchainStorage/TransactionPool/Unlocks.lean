import OffchainStorage.TransactionPool.BasePool

/-!
# The unlock lists of the ready queue

The iterator of the ready queue and `prune_tags` count a transaction's
requirements as met once per entry of it in the unlock lists of the
transactions yielded or pruned, so they rely on each unlock list holding its
dependents once and nothing else.  `remove_subtree_with_tag_filter` means to
take a removed transaction out of the unlock lists of its providers, but the
loop variable `hash` is rebound to the provider, so it takes out the
provider's own hash: a removed transaction stays in the unlock list of every
provider (`removeSubtreeLoop_keepsUnlock`).

Re-importing it then lists it twice there.  The iterator yields it twice,
the first time before one of its providers
(`reimported_dependent_is_yielded_twice`), and pruning one of its providers
counts both entries and puts it in `best` while its other provider is still
ready (`pruning_provider_makes_dependent_best`).
-/

namespace OffchainStorage.TransactionPool

open VecOps

/-- `remove_item` keeps every element other than the one it removes. -/
theorem mem_removeItem_of_ne {α : Type} [DecidableEq α] {items : List α} {item other : α}
    (member : other ∈ items) (different : other ≠ item) : other ∈ removeItem items item := by
  unfold removeItem
  split
  · rename_i index found
    obtain ⟨valid, atIndex, -⟩ := List.findIdx?_eq_some_iff_getElem.mp found
    have removed : items[index] = item := of_decide_eq_true atIndex
    have kept := (cons_swapRemove_perm items valid).mem_iff.mpr member
    rcases List.mem_cons.mp kept with same | inRest
    · exact absurd (same.trans removed) different
    · exact inRest
  · exact member

namespace ReadyTransactions

variable {Hash : Type} [DecidableEq Hash]

/-- `hash` is in the unlock list of `provider` whenever `provider` is ready. -/
def KeepsUnlock (hash provider : Hash) (ready : AList fun _ : Hash => ReadyTx Hash) : Prop :=
  ∀ tx, ready.lookup provider = some tx → hash ∈ tx.unlocks

section KeepsUnlock

variable {hash provider : Hash}

theorem KeepsUnlock.erase {ready : AList fun _ : Hash => ReadyTx Hash}
    (keeps : KeepsUnlock hash provider ready) (removed : Hash) :
    KeepsUnlock hash provider (ready.erase removed) := by
  intro tx found
  by_cases same : provider = removed
  · rw [same, AList.lookup_erase] at found
    cases found
  · rw [AList.lookup_erase_ne same] at found
    exact keeps tx found

/-- The "remove from unlocks" step: each provider loses its own hash only. -/
theorem KeepsUnlock.removeOwn (different : hash ≠ provider)
    (providedTags : KVMap Tag Hash) (requires : List Tag) :
    ∀ ready : AList (fun _ : Hash => ReadyTx Hash), KeepsUnlock hash provider ready →
      KeepsUnlock hash provider (requires.foldl (fun ready tag =>
        match providedTags.lookup tag with
        | some hash =>
          match ready.lookup hash with
          | some provider => ready.insert hash { provider with unlocks := removeItem provider.unlocks hash }
          | none => ready
        | none => ready) ready) := by
  induction requires with
  | nil => exact fun _ keeps => keeps
  | cons tag rest ih =>
    intro ready keeps
    apply ih
    dsimp only
    split
    · rename_i owner _
      split
      · rename_i ownerTx ownerFound
        intro tx found
        by_cases same : provider = owner
        · -- the provider itself is written back without its own hash
          subst same
          rw [AList.lookup_insert] at found
          cases found
          exact mem_removeItem_of_ne (keeps ownerTx ownerFound) different
        · rw [AList.lookup_insert_ne same] at found
          exact keeps tx found
      · exact keeps
    · exact keeps

/-- Removing a subtree keeps `hash` in the unlock list of `provider`, for
every `hash` other than `provider`: in particular the removed transactions
stay in the unlock lists of their providers. -/
theorem removeSubtreeLoop_keepsUnlock (filter : Option (List Tag)) (different : hash ≠ provider) :
    ∀ (fuel : Nat) (toRemove : List Hash) (queue : ReadyTransactions Hash)
      (removed : List (Transaction Hash)) {result},
      KeepsUnlock hash provider queue.ready →
      removeSubtreeLoop filter fuel toRemove queue removed = some result →
      KeepsUnlock hash provider result.1.ready := by
  intro fuel
  induction fuel with
  | zero =>
    intro toRemove queue removed result _ ran
    simp only [removeSubtreeLoop, reduceCtorEq] at ran
  | succ fuel ih =>
    intro toRemove queue removed result keeps ran
    unfold removeSubtreeLoop at ran
    split at ran
    · cases ran
      exact keeps
    · split at ran
      · exact ih _ _ _ keeps ran
      · -- a ready transaction removed: its entry erased, then its providers rewritten
        refine ih _ _ _ ?_ ran
        exact KeepsUnlock.removeOwn different _ _ _ (keeps.erase _)

end KeepsUnlock

end ReadyTransactions

namespace BasePool

/-- `P` (hash `1`, priority 3) provides tag `[1]`. -/
def providerP : Transaction Nat :=
  ⟨1, 1, 3, 10, [], [[1]]⟩

/-- `Q` (hash `2`, priority 1) provides tag `[2]`. -/
def providerQ : Transaction Nat :=
  ⟨1, 2, 1, 10, [], [[2]]⟩

/-- `X` (hash `3`, priority 2) requires the tags of `P` and `Q`. -/
def dependentX : Transaction Nat :=
  ⟨1, 3, 2, 10, [[1], [2]], [[3]]⟩

/-- `P`, `Q` and `X` imported, `X` removed, and `X` imported again. -/
def reimportCalls : List (Call Nat) :=
  [.importTransaction providerP 0, .importTransaction providerQ 1, .importTransaction dependentX 2,
    .removeSubtree [3], .importTransaction dependentX 3]

/-- After `X` is removed and imported again, the iterator of the ready
queue yields `P`, `X`, `Q`, `X` and stops: `X` twice, and first before `Q`,
which provides a tag `X` requires and is ready. -/
theorem reimported_dependent_is_yielded_twice :
    ∃ pool, run reimportCalls (new false) = some pool ∧
      (pool.readyIterator.take 8).map Transaction.hash = [1, 3, 2, 3] ∧
      pool.ready.providedTags.lookup [2] = some 2 ∧ [2] ∈ dependentX.requires := by
  refine ⟨_, rfl, by decide, by decide, by decide⟩

/-- Pruning tag `[1]` afterwards counts both entries of `X` in the unlock
list of `P` and puts `X` in `best`, while `Q`, which provides `[2]` that `X`
requires, is still ready; the pruned `P` stays in `best` too. -/
theorem pruning_provider_makes_dependent_best :
    ∃ pool, run (reimportCalls ++ [.pruneTags [[1]]]) (new false) = some pool ∧
      (pool.ready.best.map fun best => best.transaction.hash) = [1, 3, 2] ∧
      pool.ready.ready.lookup 1 = none ∧
      (pool.ready.ready.lookup 2).isSome ∧ (pool.ready.ready.lookup 3).isSome ∧
      pool.ready.providedTags.lookup [2] = some 2 := by
  refine ⟨_, rfl, by decide, by decide, by decide, by decide, by decide⟩

end BasePool

end OffchainStorage.TransactionPool
