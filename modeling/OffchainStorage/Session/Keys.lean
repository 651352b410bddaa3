import Mathlib
import OffchainStorage.Lib.KVMap
import OffchainStorage.Lib.Atomic
import OffchainStorage.Lib.Transition

/-!
# Session keys and their owners

`NextKeys` holds the keys a validator registered for the next session and
`KeyOwner` the validator of each `(KeyTypeId, raw key)`.  `do_set_keys`
walks the key types: it refuses a key owned by another validator with
`DuplicatedKey`, and otherwise moves the owner entry from the old key to the
new one; `NextKeys` is written after the loop.  `prune_dead_keys` takes the
keys and clears their owner entries.  A call's writes stay when it returns an
error, so the calls are functions to an `EStateM.Result` carrying the storage
at the exit.

While no call fails with `DuplicatedKey`, `KeyOwner` is the inverse of
`NextKeys` on the registered key types (`KeysInverse`), from the genesis
build on (`run_keysInverse`), and no two validators hold one key.  A
`DuplicatedKey` at a later key type leaves the owner entries of the earlier
ones moved while `NextKeys` keeps the old keys
(`failed_set_keys_moves_key_owner`).
-/

namespace OffchainStorage.Session

/-- `T::Keys`, read through `OpaqueKeys::get_raw`. -/
structure Keys (KeyTypeId RawKey : Type) where
  getRaw : KeyTypeId → RawKey

/-- `NextKeys` and `KeyOwner`; the first key of both, `DEDUP_KEY_PREFIX`, is
a constant and left out. -/
structure Storage (ValidatorId KeyTypeId RawKey : Type) where
  nextKeys : KVMap ValidatorId (Keys KeyTypeId RawKey)
  keyOwner : KVMap (KeyTypeId × RawKey) ValidatorId

inductive Error where
  | InvalidProof
  | NoAssociatedValidatorId
  | DuplicatedKey
  deriving DecidableEq, Repr

/-- The errors of a dispatch: `ensure_signed` and the module's own. -/
inductive DispatchError where
  | badOrigin
  | module (error : Error)
  deriving DecidableEq, Repr

variable {AccountId ValidatorId KeyTypeId RawKey Proof : Type} [DecidableEq ValidatorId]
  [DecidableEq KeyTypeId] [DecidableEq RawKey]

namespace Storage

variable (storage : Storage ValidatorId KeyTypeId RawKey)

omit [DecidableEq ValidatorId] [DecidableEq KeyTypeId] [DecidableEq RawKey] in
def loadKeys (v : ValidatorId) : Option (Keys KeyTypeId RawKey) :=
  storage.nextKeys.lookup v

def takeKeys (v : ValidatorId) : Option (Keys KeyTypeId RawKey) × Storage ValidatorId KeyTypeId RawKey :=
  (storage.nextKeys.lookup v, { storage with nextKeys := storage.nextKeys.remove v })

def putKeys (v : ValidatorId) (keys : Keys KeyTypeId RawKey) : Storage ValidatorId KeyTypeId RawKey :=
  { storage with nextKeys := storage.nextKeys.insert v keys }

/-- `key_owner`. -/
def keyOwnerOf (id : KeyTypeId) (keyData : RawKey) : Option ValidatorId :=
  storage.keyOwner.lookup (id, keyData)

def putKeyOwner (id : KeyTypeId) (keyData : RawKey) (v : ValidatorId) : Storage ValidatorId KeyTypeId RawKey :=
  { storage with keyOwner := storage.keyOwner.insert (id, keyData) v }

def clearKeyOwner (id : KeyTypeId) (keyData : RawKey) : Storage ValidatorId KeyTypeId RawKey :=
  { storage with keyOwner := storage.keyOwner.remove (id, keyData) }

omit [DecidableEq ValidatorId] in
@[simp]
theorem keyOwnerOf_putKeyOwner (id tested : KeyTypeId) (keyData testedKey : RawKey) (v : ValidatorId) :
    (storage.putKeyOwner id keyData v).keyOwnerOf tested testedKey =
      if tested = id ∧ testedKey = keyData then some v else storage.keyOwnerOf tested testedKey := by
  simp only [putKeyOwner, keyOwnerOf, KVMap.lookup_insert, Prod.mk.injEq]

omit [DecidableEq ValidatorId] in
@[simp]
theorem keyOwnerOf_clearKeyOwner (id tested : KeyTypeId) (keyData testedKey : RawKey) :
    (storage.clearKeyOwner id keyData).keyOwnerOf tested testedKey =
      if tested = id ∧ testedKey = keyData then none else storage.keyOwnerOf tested testedKey := by
  simp only [clearKeyOwner, keyOwnerOf, KVMap.lookup_remove, Prod.mk.injEq]

omit [DecidableEq KeyTypeId] [DecidableEq RawKey] in
@[simp]
theorem keyOwnerOf_putKeys (v : ValidatorId) (keys : Keys KeyTypeId RawKey) :
    (storage.putKeys v keys).keyOwnerOf = storage.keyOwnerOf := rfl

omit [DecidableEq ValidatorId] in
@[simp]
theorem loadKeys_putKeyOwner (id : KeyTypeId) (keyData : RawKey) (v : ValidatorId) :
    (storage.putKeyOwner id keyData v).loadKeys = storage.loadKeys := rfl

omit [DecidableEq ValidatorId] in
@[simp]
theorem loadKeys_clearKeyOwner (id : KeyTypeId) (keyData : RawKey) :
    (storage.clearKeyOwner id keyData).loadKeys = storage.loadKeys := rfl

omit [DecidableEq KeyTypeId] [DecidableEq RawKey] in
@[simp]
theorem loadKeys_putKeys (v tested : ValidatorId) (keys : Keys KeyTypeId RawKey) :
    (storage.putKeys v keys).loadKeys tested = if tested = v then some keys else storage.loadKeys tested := by
  simp only [putKeys, loadKeys, KVMap.lookup_insert]

/-- The writes of the loop of `do_set_keys` for one key type: the owner
entry moves from the old key to the new one, unless they are equal. -/
def writeKeyType (who : ValidatorId) (keys : Keys KeyTypeId RawKey) (oldKeys : Option (Keys KeyTypeId RawKey))
    (id : KeyTypeId) : Storage ValidatorId KeyTypeId RawKey :=
  match oldKeys.map (·.getRaw id) with
  | some old =>
      if keys.getRaw id = old then storage
      else (storage.clearKeyOwner id old).putKeyOwner id (keys.getRaw id) who
  | none => storage.putKeyOwner id (keys.getRaw id) who

omit [DecidableEq ValidatorId] in
theorem loadKeys_writeKeyType (who : ValidatorId) (keys : Keys KeyTypeId RawKey)
    (oldKeys : Option (Keys KeyTypeId RawKey)) (id : KeyTypeId) :
    (storage.writeKeyType who keys oldKeys id).loadKeys = storage.loadKeys := by
  unfold writeKeyType
  split
  · split_ifs <;> rfl
  · rfl

omit [DecidableEq ValidatorId] in
theorem keyOwnerOf_writeKeyType (who : ValidatorId) (keys : Keys KeyTypeId RawKey)
    (oldKeys : Option (Keys KeyTypeId RawKey)) (id tested : KeyTypeId) (testedKey : RawKey) :
    (storage.writeKeyType who keys oldKeys id).keyOwnerOf tested testedKey =
      if tested = id ∧ oldKeys.map (·.getRaw id) ≠ some (keys.getRaw id) then
        if testedKey = keys.getRaw id then some who
        else if oldKeys.map (·.getRaw id) = some testedKey then none
        else storage.keyOwnerOf tested testedKey
      else storage.keyOwnerOf tested testedKey := by
  unfold writeKeyType
  rcases oldAt : oldKeys.map (·.getRaw id) with _ | old
  · rw [oldAt]
    by_cases atId : tested = id
    · subst atId
      by_cases isNew : testedKey = keys.getRaw tested <;> simp [isNew]
    · simp [atId]
  · rw [oldAt]
    by_cases same : keys.getRaw id = old
    · simp [same]
    · -- the owner entry moves from the old key to the new one
      have differs : old ≠ keys.getRaw id := Ne.symm same
      by_cases atId : tested = id
      · subst atId
        by_cases isNew : testedKey = keys.getRaw tested
        · simp [same, differs, isNew]
        · by_cases isOld : testedKey = old
          · simp [same, differs, isOld]
          · simp [same, isNew, isOld, Ne.symm isOld]
      · simp [atId, same]

end Storage

/-! ## The calls -/

/-- The loop `for id in T::Keys::key_ids()` of `do_set_keys`, from the keys
loaded before it; the writes of earlier key types stay when `ensure!`
fails. -/
def setKeysLoop (who : ValidatorId) (keys : Keys KeyTypeId RawKey) (oldKeys : Option (Keys KeyTypeId RawKey)) :
    List KeyTypeId → Storage ValidatorId KeyTypeId RawKey →
      EStateM.Result Error (Storage ValidatorId KeyTypeId RawKey) Unit
  | [], storage => .ok () storage
  | id :: rest, storage =>
      let key := keys.getRaw id
      if ((storage.keyOwnerOf id key).all fun owner => decide (owner = who)) then
        match oldKeys.map (·.getRaw id) with
        | some old =>
            if key = old then setKeysLoop who keys oldKeys rest storage
            else setKeysLoop who keys oldKeys rest ((storage.clearKeyOwner id old).putKeyOwner id key who)
        | none => setKeysLoop who keys oldKeys rest (storage.putKeyOwner id key who)
      else .error .DuplicatedKey storage

def doSetKeys (keyIds : List KeyTypeId) (who : ValidatorId) (keys : Keys KeyTypeId RawKey)
    (storage : Storage ValidatorId KeyTypeId RawKey) :
    EStateM.Result Error (Storage ValidatorId KeyTypeId RawKey) Unit :=
  match setKeysLoop who keys (storage.loadKeys who) keyIds storage with
  | .error failure after => .error failure after
  | .ok () after => .ok () (after.putKeys who keys)

/-- `set_keys`, with `T::ValidatorIdOf::convert` as `validatorIdOf` and
`ownership_proof_is_valid` as `ownershipProofIsValid`. -/
def setKeys (keyIds : List KeyTypeId) (validatorIdOf : AccountId → Option ValidatorId)
    (ownershipProofIsValid : Keys KeyTypeId RawKey → Proof → Bool) (origin : Option AccountId)
    (keys : Keys KeyTypeId RawKey) (proof : Proof) (storage : Storage ValidatorId KeyTypeId RawKey) :
    EStateM.Result DispatchError (Storage ValidatorId KeyTypeId RawKey) Unit :=
  match origin with
  | none => .error .badOrigin storage
  | some account =>
      if !ownershipProofIsValid keys proof then .error (.module .InvalidProof) storage
      else
        match validatorIdOf account with
        | none => .error (.module .NoAssociatedValidatorId) storage
        | some who =>
            match doSetKeys keyIds who keys storage with
            | .error failure after => .error (.module failure) after
            | .ok () after => .ok () after

/-- `prune_dead_keys`, run by `on_free_balance_zero`. -/
def pruneDeadKeys (keyIds : List KeyTypeId) (who : ValidatorId) (storage : Storage ValidatorId KeyTypeId RawKey) :
    Storage ValidatorId KeyTypeId RawKey :=
  match storage.takeKeys who with
  | (none, storage) => storage
  | (some oldKeys, storage) =>
      keyIds.foldl (fun storage id => storage.clearKeyOwner id (oldKeys.getRaw id)) storage

/-- The keys of the genesis build, on empty maps; `none` is a panic of its
`assert!` on a repeated validator or of the `expect` on `do_set_keys`. -/
def genesis (keyIds : List KeyTypeId) (config : List (ValidatorId × Keys KeyTypeId RawKey)) :
    Option (Storage ValidatorId KeyTypeId RawKey) :=
  config.foldlM (fun storage (who, keys) =>
      if (storage.loadKeys who).isSome then none
      else
        match doSetKeys keyIds who keys storage with
        | .ok () after => some after
        | .error _ _ => none)
    ⟨KVMap.empty, KVMap.empty⟩

/-- The calls that change the keys. -/
inductive Call (AccountId ValidatorId KeyTypeId RawKey Proof : Type) where
  | setKeys (origin : Option AccountId) (keys : Keys KeyTypeId RawKey) (proof : Proof)
  | onFreeBalanceZero (who : ValidatorId)

def Call.apply (keyIds : List KeyTypeId) (validatorIdOf : AccountId → Option ValidatorId)
    (ownershipProofIsValid : Keys KeyTypeId RawKey → Proof → Bool) :
    Call AccountId ValidatorId KeyTypeId RawKey Proof → Storage ValidatorId KeyTypeId RawKey →
      EStateM.Result DispatchError (Storage ValidatorId KeyTypeId RawKey) Unit
  | .setKeys origin keys proof, storage =>
      Session.setKeys keyIds validatorIdOf ownershipProofIsValid origin keys proof storage
  | .onFreeBalanceZero who, storage => .ok () (pruneDeadKeys keyIds who storage)

/-! ## The owners are the inverse of the keys -/

/-- `KeyOwner[(id, k)] = Some(v)` exactly when `NextKeys[v]` holds `k` for
`id`, on the registered key types. -/
def KeysInverse (keyIds : List KeyTypeId) (storage : Storage ValidatorId KeyTypeId RawKey) : Prop :=
  ∀ id ∈ keyIds, ∀ (key : RawKey) (v : ValidatorId),
    storage.keyOwnerOf id key = some v ↔ ∃ keys, storage.loadKeys v = some keys ∧ keys.getRaw id = key

theorem setKeysLoop_cons (who : ValidatorId) (keys : Keys KeyTypeId RawKey)
    (oldKeys : Option (Keys KeyTypeId RawKey)) (id : KeyTypeId) (rest : List KeyTypeId)
    (storage : Storage ValidatorId KeyTypeId RawKey) :
    setKeysLoop who keys oldKeys (id :: rest) storage =
      if ((storage.keyOwnerOf id (keys.getRaw id)).all fun owner => decide (owner = who)) then
        setKeysLoop who keys oldKeys rest (storage.writeKeyType who keys oldKeys id)
      else .error .DuplicatedKey storage := by
  rw [setKeysLoop]
  split_ifs with free
  · unfold Storage.writeKeyType
    rcases oldAt : oldKeys.map (·.getRaw id) with _ | old
    · rw [oldAt]
    · rw [oldAt]
      dsimp only
      split_ifs <;> rfl
  · rfl

/-- The owner a successful loop of `do_set_keys` over `keyIds` leaves at
`(id, key)`: on a key type whose key changes, the new key is the
validator's and the old one is free; every other entry is as it was. -/
def registeredOwner (keyIds : List KeyTypeId) (who : ValidatorId) (keys : Keys KeyTypeId RawKey)
    (oldKeys : Option (Keys KeyTypeId RawKey)) (storage : Storage ValidatorId KeyTypeId RawKey)
    (id : KeyTypeId) (key : RawKey) : Option ValidatorId :=
  if id ∈ keyIds ∧ oldKeys.map (·.getRaw id) ≠ some (keys.getRaw id) then
    if key = keys.getRaw id then some who
    else if oldKeys.map (·.getRaw id) = some key then none
    else storage.keyOwnerOf id key
  else storage.keyOwnerOf id key

omit [DecidableEq ValidatorId] in
theorem registeredOwner_cons (who : ValidatorId) (keys : Keys KeyTypeId RawKey)
    (oldKeys : Option (Keys KeyTypeId RawKey)) (id : KeyTypeId) (rest : List KeyTypeId)
    (storage : Storage ValidatorId KeyTypeId RawKey) (tested : KeyTypeId) (key : RawKey) :
    registeredOwner (id :: rest) who keys oldKeys storage tested key =
      registeredOwner rest who keys oldKeys (storage.writeKeyType who keys oldKeys id) tested key := by
  unfold registeredOwner
  simp only [Storage.keyOwnerOf_writeKeyType, List.mem_cons]
  by_cases atId : tested = id
  · -- a repeated key type writes the same entries again
    subst atId
    by_cases moved : oldKeys.map (·.getRaw tested) ≠ some (keys.getRaw tested)
    · by_cases isNew : key = keys.getRaw tested
      · simp [moved, isNew]
      · by_cases isOld : oldKeys.map (·.getRaw tested) = some key <;> simp [moved, isNew, isOld]
    · simp [moved]
  · simp [atId]

/-- A successful loop leaves `NextKeys`, passed every check on the storage
it started from, and wrote `registeredOwner`. -/
theorem setKeysLoop_ok (who : ValidatorId) (keys : Keys KeyTypeId RawKey)
    (oldKeys : Option (Keys KeyTypeId RawKey)) :
    ∀ (ids : List KeyTypeId) (storage after : Storage ValidatorId KeyTypeId RawKey),
      setKeysLoop who keys oldKeys ids storage = .ok () after →
        after.loadKeys = storage.loadKeys ∧
          (∀ id ∈ ids, ((storage.keyOwnerOf id (keys.getRaw id)).all fun owner => decide (owner = who)) = true) ∧
          ∀ id key, after.keyOwnerOf id key = registeredOwner ids who keys oldKeys storage id key
  | [], storage, after, ok => by
      rw [setKeysLoop] at ok
      cases ok
      refine ⟨rfl, fun _ absent => absurd absent List.not_mem_nil, fun id key => ?_⟩
      simp [registeredOwner]
  | id :: rest, storage, after, ok => by
      rw [setKeysLoop_cons] at ok
      split_ifs at ok with free
      · obtain ⟨loaded, checks, owners⟩ := setKeysLoop_ok who keys oldKeys rest _ after ok
        refine ⟨loaded.trans (Storage.loadKeys_writeKeyType ..), ?_, fun tested key => ?_⟩
        · intro tested member
          by_cases atId : tested = id
          · subst atId
            exact free
          · -- another key type was checked on entries this one did not write
            have check := checks tested (List.mem_of_ne_of_mem atId member)
            rwa [Storage.keyOwnerOf_writeKeyType, if_neg fun both => atId both.1] at check
        · rw [owners, registeredOwner_cons]

theorem doSetKeys_ok {keyIds : List KeyTypeId} {who : ValidatorId} {keys : Keys KeyTypeId RawKey}
    {storage after : Storage ValidatorId KeyTypeId RawKey} (ok : doSetKeys keyIds who keys storage = .ok () after) :
    ∃ looped, setKeysLoop who keys (storage.loadKeys who) keyIds storage = .ok () looped ∧
      after = looped.putKeys who keys := by
  unfold doSetKeys at ok
  split at ok
  · cases ok
  · rename_i looped loop
    cases ok
    exact ⟨looped, loop, rfl⟩

section Inverse

variable {keyIds : List KeyTypeId} {storage after : Storage ValidatorId KeyTypeId RawKey}

omit [DecidableEq ValidatorId] [DecidableEq KeyTypeId] [DecidableEq RawKey] in
theorem KeysInverse.owner_of_loadKeys (inverse : KeysInverse keyIds storage) {id : KeyTypeId} (registered : id ∈ keyIds)
    {v : ValidatorId} {keys : Keys KeyTypeId RawKey} (loaded : storage.loadKeys v = some keys) :
    storage.keyOwnerOf id (keys.getRaw id) = some v :=
  (inverse id registered _ v).mpr ⟨keys, loaded, rfl⟩

omit [DecidableEq ValidatorId] [DecidableEq KeyTypeId] [DecidableEq RawKey] in
/-- No two validators hold one key of a registered type. -/
theorem KeysInverse.unique (inverse : KeysInverse keyIds storage) {id : KeyTypeId} (registered : id ∈ keyIds)
    {first second : ValidatorId} {firstKeys secondKeys : Keys KeyTypeId RawKey}
    (firstLoaded : storage.loadKeys first = some firstKeys) (secondLoaded : storage.loadKeys second = some secondKeys)
    (same : firstKeys.getRaw id = secondKeys.getRaw id) : first = second := by
  have firstOwns := inverse.owner_of_loadKeys registered firstLoaded
  rw [same, inverse.owner_of_loadKeys registered secondLoaded] at firstOwns
  exact (Option.some.inj firstOwns).symm

/-- A successful `do_set_keys` keeps `KeyOwner` the inverse of `NextKeys`:
the new keys were free or the validator's, and its old keys only its own. -/
theorem KeysInverse.doSetKeys {who : ValidatorId} {keys : Keys KeyTypeId RawKey} (inverse : KeysInverse keyIds storage)
    (ok : doSetKeys keyIds who keys storage = .ok () after) : KeysInverse keyIds after := by
  obtain ⟨looped, loop, rfl⟩ := doSetKeys_ok ok
  obtain ⟨loaded, checks, owners⟩ := setKeysLoop_ok who keys _ keyIds storage looped loop
  intro id registered key v
  rw [Storage.keyOwnerOf_putKeys, owners, Storage.loadKeys_putKeys, loaded]
  -- the validator's old key of this type is its own entry
  have oldOwned : ∀ old, (storage.loadKeys who).map (·.getRaw id) = some old →
      storage.keyOwnerOf id old = some who := by
    intro old oldAt
    obtain ⟨oldKeys, loadedOld, rfl⟩ := Option.map_eq_some_iff.mp oldAt
    exact inverse.owner_of_loadKeys registered loadedOld
  -- the new key was free or already the validator's
  have newFree : ∀ other, storage.keyOwnerOf id (keys.getRaw id) = some other → other = who := by
    intro other owned
    have check := checks id registered
    rw [owned] at check
    simpa using check
  have before := inverse id registered key v
  unfold registeredOwner
  simp only [registered, true_and]
  by_cases vWho : v = who
  · -- the validator's own entries: exactly its new keys
    subst vWho
    rw [if_pos rfl]
    simp only [Option.some.injEq, exists_eq_left']
    by_cases moved : (storage.loadKeys v).map (·.getRaw id) = some (keys.getRaw id)
    · rw [if_neg (not_not.mpr moved), before]
      obtain ⟨oldKeys, loadedOld, sameKey⟩ := Option.map_eq_some_iff.mp moved
      constructor
      · rintro ⟨found, loadedFound, rfl⟩
        rw [loadedOld] at loadedFound
        cases loadedFound
        exact sameKey.symm
      · rintro rfl
        exact ⟨oldKeys, loadedOld, sameKey⟩
    · rw [if_pos moved]
      by_cases isNew : key = keys.getRaw id
      · simp [isNew]
      · rw [if_neg isNew, iff_false_intro fun same : keys.getRaw id = key => isNew same.symm]
        by_cases isOld : (storage.loadKeys v).map (·.getRaw id) = some key
        · simp [isOld]
        · -- an entry of the validator away from its old key would be its old key
          rw [if_neg isOld, before, iff_false]
          rintro ⟨found, loadedFound, rfl⟩
          exact isOld (by rw [loadedFound]; rfl)
  · -- another validator's entries are untouched, and none was moved
    simp only [if_neg vWho]
    rw [← before]
    by_cases moved : (storage.loadKeys who).map (·.getRaw id) = some (keys.getRaw id)
    · rw [if_neg (not_not.mpr moved)]
    · rw [if_pos moved]
      by_cases isNew : key = keys.getRaw id
      · rw [if_pos isNew, isNew]
        constructor
        · intro same
          exact absurd (Option.some.inj same).symm vWho
        · intro owned
          exact absurd (newFree v owned) vWho
      · rw [if_neg isNew]
        by_cases isOld : (storage.loadKeys who).map (·.getRaw id) = some key
        · rw [if_pos isOld, oldOwned key isOld]
          constructor
          · intro noOwner
            cases noOwner
          · intro same
            exact absurd (Option.some.inj same).symm vWho
        · rw [if_neg isOld]

omit [DecidableEq ValidatorId] in
theorem keyOwnerOf_foldl_clear (keys : Keys KeyTypeId RawKey) (tested : KeyTypeId) (key : RawKey) :
    ∀ (ids : List KeyTypeId) (storage : Storage ValidatorId KeyTypeId RawKey),
      (ids.foldl (fun storage id => storage.clearKeyOwner id (keys.getRaw id)) storage).keyOwnerOf tested key =
        if tested ∈ ids ∧ key = keys.getRaw tested then none else storage.keyOwnerOf tested key
  | [], storage => by simp
  | id :: rest, storage => by
      rw [List.foldl_cons, keyOwnerOf_foldl_clear keys tested key rest, Storage.keyOwnerOf_clearKeyOwner]
      by_cases atId : tested = id
      · subst atId
        by_cases isOld : key = keys.getRaw tested <;> simp [isOld]
      · simp [atId]

omit [DecidableEq ValidatorId] in
theorem loadKeys_foldl_clear (keys : Keys KeyTypeId RawKey) :
    ∀ (ids : List KeyTypeId) (storage : Storage ValidatorId KeyTypeId RawKey),
      (ids.foldl (fun storage id => storage.clearKeyOwner id (keys.getRaw id)) storage).loadKeys = storage.loadKeys
  | [], _ => rfl
  | id :: rest, storage => by
      rw [List.foldl_cons, loadKeys_foldl_clear keys rest]
      rfl

omit [DecidableEq KeyTypeId] [DecidableEq RawKey] in
theorem keyOwnerOf_takeKeys (who : ValidatorId) : (storage.takeKeys who).2.keyOwnerOf = storage.keyOwnerOf := rfl

omit [DecidableEq KeyTypeId] [DecidableEq RawKey] in
theorem loadKeys_takeKeys (who tested : ValidatorId) :
    (storage.takeKeys who).2.loadKeys tested = if tested = who then none else storage.loadKeys tested := by
  simp only [Storage.takeKeys, Storage.loadKeys, KVMap.lookup_remove]

/-- `prune_dead_keys` keeps `KeyOwner` the inverse of `NextKeys`: the owner
entries it clears are exactly those of the keys it takes. -/
theorem KeysInverse.pruneDeadKeys {who : ValidatorId} (inverse : KeysInverse keyIds storage) :
    KeysInverse keyIds (pruneDeadKeys keyIds who storage) := by
  intro id registered key v
  have before := inverse id registered key v
  unfold Session.pruneDeadKeys
  rcases taken : storage.takeKeys who with ⟨_ | oldKeys, rest⟩
  · -- nothing to take: only the absent entry of `NextKeys` is removed
    have noKeys : storage.loadKeys who = none := congrArg Prod.fst taken
    have restIs : rest = (storage.takeKeys who).2 := by rw [taken]
    have unchanged : ∀ tested, rest.loadKeys tested = storage.loadKeys tested := by
      intro tested
      rw [restIs, loadKeys_takeKeys]
      split_ifs with atWho
      · rw [atWho, noKeys]
      · rfl
    dsimp only
    rw [restIs, keyOwnerOf_takeKeys, ← restIs, unchanged, before]
  · have loadedWho : storage.loadKeys who = some oldKeys := congrArg Prod.fst taken
    have restIs : rest = (storage.takeKeys who).2 := by rw [taken]
    dsimp only
    rw [keyOwnerOf_foldl_clear, loadKeys_foldl_clear, restIs, keyOwnerOf_takeKeys, loadKeys_takeKeys]
    simp only [registered, true_and]
    change (if key = oldKeys.getRaw id then none else storage.keyOwnerOf id key) = some v ↔ _
    by_cases isOld : key = oldKeys.getRaw id
    · -- the old key was the validator's own, so no other validator holds it
      rw [if_pos isOld]
      refine iff_of_false (fun noOwner => by cases noOwner) ?_
      rintro ⟨found, loadedFound, rfl⟩
      by_cases atWho : v = who
      · rw [if_pos atWho] at loadedFound
        cases loadedFound
      · rw [if_neg atWho] at loadedFound
        have owners := inverse.owner_of_loadKeys registered loadedFound
        rw [isOld, inverse.owner_of_loadKeys registered loadedWho] at owners
        exact atWho (Option.some.inj owners).symm
    · rw [if_neg isOld, before]
      by_cases atWho : v = who
      · -- the validator's remaining entries would be its old keys
        subst atWho
        rw [if_pos rfl]
        refine iff_of_false ?_ (fun ⟨_, noKeys, _⟩ => by cases noKeys)
        rintro ⟨found, loadedFound, rfl⟩
        rw [loadedWho] at loadedFound
        cases loadedFound
        exact isOld rfl
      · rw [if_neg atWho]

/-- The loop of `do_set_keys` fails only with `DuplicatedKey`, and before
`NextKeys` is written. -/
theorem setKeysLoop_error (who : ValidatorId) (keys : Keys KeyTypeId RawKey)
    (oldKeys : Option (Keys KeyTypeId RawKey)) :
    ∀ (ids : List KeyTypeId) (storage after : Storage ValidatorId KeyTypeId RawKey) (failure : Error),
      setKeysLoop who keys oldKeys ids storage = .error failure after →
        failure = .DuplicatedKey ∧ after.loadKeys = storage.loadKeys
  | [], _, _, _, fails => by
      rw [setKeysLoop] at fails
      cases fails
  | id :: rest, storage, after, failure, fails => by
      rw [setKeysLoop_cons] at fails
      split_ifs at fails
      · obtain ⟨duplicated, loaded⟩ := setKeysLoop_error who keys oldKeys rest _ after failure fails
        exact ⟨duplicated, loaded.trans (Storage.loadKeys_writeKeyType ..)⟩
      · cases fails
        exact ⟨rfl, rfl⟩

theorem doSetKeys_error {who : ValidatorId} {keys : Keys KeyTypeId RawKey} {failure : Error}
    (fails : doSetKeys keyIds who keys storage = .error failure after) :
    failure = .DuplicatedKey ∧ after.loadKeys = storage.loadKeys := by
  unfold doSetKeys at fails
  split at fails
  next loop =>
    cases fails
    exact setKeysLoop_error who keys _ keyIds storage after failure loop
  next => cases fails

/-- The genesis build leaves `KeyOwner` the inverse of `NextKeys`. -/
theorem genesis_keysInverse {config : List (ValidatorId × Keys KeyTypeId RawKey)}
    (built : genesis keyIds config = some storage) : KeysInverse keyIds storage := by
  refine Transition.foldlM_invariant (KeysInverse keyIds) ?_ ?_ built
  · rintro current ⟨who, keys⟩ next - inverse stepped
    dsimp only at stepped
    split_ifs at stepped
    split at stepped
    · rename_i after registeredKeys
      cases stepped
      exact inverse.doSetKeys registeredKeys
    · cases stepped
  · intro id _ key v
    exact iff_of_false (fun noOwner => by cases noOwner) (fun ⟨_, noKeys, _⟩ => by cases noKeys)

/-- A call with its outcome; the storage goes on from the exit either way. -/
def Call.step (keyIds : List KeyTypeId) (validatorIdOf : AccountId → Option ValidatorId)
    (ownershipProofIsValid : Keys KeyTypeId RawKey → Proof → Bool)
    (call : Call AccountId ValidatorId KeyTypeId RawKey Proof) (storage : Storage ValidatorId KeyTypeId RawKey) :
    Storage ValidatorId KeyTypeId RawKey × Except DispatchError Unit :=
  match call.apply keyIds validatorIdOf ownershipProofIsValid storage with
  | .ok () after => (after, .ok ())
  | .error failure after => (after, .error failure)

/-- Every call but a `set_keys` that fails with `DuplicatedKey` keeps
`KeyOwner` the inverse of `NextKeys`. -/
theorem KeysInverse.step {validatorIdOf : AccountId → Option ValidatorId}
    {ownershipProofIsValid : Keys KeyTypeId RawKey → Proof → Bool} (inverse : KeysInverse keyIds storage)
    (call : Call AccountId ValidatorId KeyTypeId RawKey Proof)
    (kept : (call.step keyIds validatorIdOf ownershipProofIsValid storage).2 ≠ .error (.module .DuplicatedKey)) :
    KeysInverse keyIds (call.step keyIds validatorIdOf ownershipProofIsValid storage).1 := by
  cases call with
  | onFreeBalanceZero who => exact inverse.pruneDeadKeys
  | setKeys origin keys proof =>
    unfold Call.step Call.apply Session.setKeys at kept ⊢
    revert kept
    -- the checks before `do_set_keys` write nothing
    rcases origin with _ | account
    · exact fun _ => inverse
    · dsimp only
      split_ifs
      · exact fun _ => inverse
      · rcases validatorIdOf account with _ | who
        · exact fun _ => inverse
        · dsimp only
          rcases registeredKeys : Session.doSetKeys keyIds who keys storage with ⟨⟩ | ⟨failure, after⟩
          · exact fun _ => inverse.doSetKeys registeredKeys
          · -- `do_set_keys` fails only with `DuplicatedKey`
            intro kept
            obtain rfl := (doSetKeys_error registeredKeys).1
            exact absurd rfl kept

end Inverse

/-- From the genesis build, over every sequence of `set_keys` and
`on_free_balance_zero` calls none of which fails with `DuplicatedKey`,
`KeyOwner` stays the inverse of `NextKeys`. -/
theorem run_keysInverse (keyIds : List KeyTypeId) (validatorIdOf : AccountId → Option ValidatorId)
    (ownershipProofIsValid : Keys KeyTypeId RawKey → Proof → Bool)
    {config : List (ValidatorId × Keys KeyTypeId RawKey)} {start : Storage ValidatorId KeyTypeId RawKey}
    (built : genesis keyIds config = some start) (calls : List (Call AccountId ValidatorId KeyTypeId RawKey Proof))
    (noDuplicate : ∀ entry ∈ (Transition.run (Call.step keyIds validatorIdOf ownershipProofIsValid) start calls).2,
      entry.2 ≠ .error (.module .DuplicatedKey)) :
    KeysInverse keyIds (Transition.run (Call.step keyIds validatorIdOf ownershipProofIsValid) start calls).1 := by
  refine Transition.run_invariant (Call.step keyIds validatorIdOf ownershipProofIsValid)
    (fun current history => (∀ entry ∈ history, entry.2 ≠ .error (.module .DuplicatedKey)) →
      KeysInverse keyIds current) (fun _ => genesis_keysInverse built) ?_ calls noDuplicate
  intro current history call earlier noDuplicateAfter
  apply KeysInverse.step (earlier fun entry member => noDuplicateAfter entry (List.mem_append_left _ member)) call
  exact noDuplicateAfter _ (List.mem_append_right _ (List.mem_singleton_self _))

/-- The keys `first` for key type `0` and `second` for any other. -/
def keysOf (first second : Nat) : Keys Nat Nat :=
  ⟨fun id => if id = 0 then first else second⟩

/-- Validators `1` and `2` registered at genesis on two key types; then `1`
sets a fresh first key and `2`'s second key.  The call fails with
`DuplicatedKey` at the second key type, after the first one's owner entry
moved from `10` to `30`; `NextKeys` of `1` still holds `10`. -/
theorem failed_set_keys_moves_key_owner :
    ∃ start after, genesis [0, 1] [(1, keysOf 10 11), (2, keysOf 20 21)] = some start ∧
      setKeys [0, 1] some (fun _ (_ : Unit) => true) (some 1) (keysOf 30 21) () start =
        .error (.module .DuplicatedKey) after ∧
      KeysInverse [0, 1] start ∧ start.keyOwnerOf 0 10 = some 1 ∧ start.keyOwnerOf 0 30 = none ∧
      after.keyOwnerOf 0 10 = none ∧ after.keyOwnerOf 0 30 = some 1 ∧
      (after.loadKeys 1).map (·.getRaw 0) = some 10 ∧ ¬KeysInverse [0, 1] after := by
  refine ⟨_, _, rfl, rfl, ?_, rfl, rfl, rfl, rfl, rfl, ?_⟩
  · exact genesis_keysInverse (show genesis [0, 1] [(1, keysOf 10 11), (2, keysOf 20 21)] = some _ from rfl)
  intro inverse
  obtain ⟨found, loadedFound, raw⟩ := (inverse 0 (by simp) 30 1).mp rfl
  change some (keysOf 10 11) = some found at loadedFound
  cases loadedFound
  exact absurd raw (by decide)


end OffchainStorage.Session
