import Mathlib
import OffchainStorage.Lib.KVMap
import OffchainStorage.Lib.Neighbours
import OffchainStorage.Lib.Transition

/-!
# `StorageLinkedMap`: a map that can be enumerated

A linked map stores, at the key of each element, its value together with a
`Linkage`, the keys before and after it, and at one more key the head of the
list.  `insert` of a new key puts it in front (`new_head_linkage`), `take`
cuts an element out and joins its neighbours (`remove_linkage`), `swap`
exchanges two values, or moves a value to a new key in front, and
`enumerate` follows the `next` keys from the head.

The keys of the map index the model's storage directly: the final key of an
element is its hashed key behind the module and storage prefixes, and with
the hasher injective two keys never share a storage slot, nor share one with
the head.

What the storage stands for is an ordered association list, `Spec`: a new key
goes in front, a replaced value keeps its place, a removed key leaves the
order of the others alone.  `Represents` ties the storage to such a list: the
head is the first key and every key holds its value and its two neighbours.
Every call keeps it, so every run from the empty storage does, and from it a
linked map after any run is one doubly linked list over exactly its keys,
which `enumerate` walks in order (`run_forms_linked_list`).
-/

namespace OffchainStorage.Support

open Neighbours

/-- `Linkage`: the keys of the element before and after, `None` at the ends. -/
structure Linkage (K : Type) where
  previous : Option K
  next : Option K
  deriving DecidableEq, Repr

instance {K : Type} : Inhabited (Linkage K) :=
  ⟨⟨none, none⟩⟩

/-- The storage of one linked map: the value and linkage stored at each key,
and the head key. -/
structure LinkedMap (K V : Type) where
  entries : KVMap K (V × Linkage K)
  head : Option K

/-- The two conversions of the map's `Query` type: what `get` returns for a
value or its absence, and the value a query stands for. -/
structure QueryKind (V Query : Type) where
  fromOptionalValueToQuery : Option V → Query
  fromQueryToOptionalValue : Query → Option V

/-- `OptionQuery`, whose query is the optional value itself. -/
def optionQuery {V : Type} : QueryKind V (Option V) :=
  ⟨id, id⟩

namespace LinkedMap

variable {K V : Type} [DecidableEq K]

def empty : LinkedMap K V :=
  ⟨KVMap.empty, none⟩

def readWithLinkage (storage : LinkedMap K V) (key : K) : Option (V × Linkage K) :=
  storage.entries.lookup key

/-- `unhashed::put` at the key of an element. -/
def put (storage : LinkedMap K V) (key : K) (stored : V × Linkage K) : LinkedMap K V :=
  { storage with entries := storage.entries.insert key stored }

def readHead (storage : LinkedMap K V) : Option K :=
  storage.head

def writeHead (storage : LinkedMap K V) (head : Option K) : LinkedMap K V :=
  { storage with head := head }

/-- The two blocks of `remove_linkage`: read an element, change its linkage
and write it back; an element that is not there is a corrupted state, which
is printed and leaves the storage as it is. -/
def updateLinkage (storage : LinkedMap K V) (key : K) (update : Linkage K → Linkage K) :
    LinkedMap K V :=
  match storage.readWithLinkage key with
  | some (data, linkage) => storage.put key (data, update linkage)
  | none => storage

def removeLinkage (linkage : Linkage K) (storage : LinkedMap K V) : LinkedMap K V :=
  let storage := match linkage.previous with
    | some previous => storage.updateLinkage previous fun found => { found with next := linkage.next }
    -- we were first so let's update the head
    | none => storage.writeHead linkage.next
  match linkage.next with
  | some next => storage.updateLinkage next fun found => { found with previous := linkage.previous }
  | none => storage

/-- `new_head_linkage`: the linkage of a key put in front, after the old head
is given it as its previous key. -/
def newHeadLinkage (key : K) (storage : LinkedMap K V) : Linkage K × LinkedMap K V :=
  match storage.readHead with
  | some head =>
    match storage.readWithLinkage head with
    | some (data, linkage) =>
      let storage := storage.put head (data, ⟨some key, linkage.next⟩)
      (⟨none, some head⟩, storage.writeHead (some key))
    -- a corrupted head: we consider we are first
    | none => (default, storage.writeHead (some key))
  | none => (default, storage.writeHead (some key))

def exists' (key : K) (storage : LinkedMap K V) : Bool :=
  storage.entries.contains key

def get {Query : Type} (query : QueryKind V Query) (key : K) (storage : LinkedMap K V) : Query :=
  query.fromOptionalValueToQuery ((storage.readWithLinkage key).map Prod.fst)

/-- `take`: `unhashed::take` of the element, then its neighbours joined. -/
def take {Query : Type} (query : QueryKind V Query) (key : K) (storage : LinkedMap K V) :
    Query × LinkedMap K V :=
  let fullValue := storage.readWithLinkage key
  let storage := { storage with entries := storage.entries.remove key }
  match fullValue with
  | some (data, linkage) => (query.fromOptionalValueToQuery (some data), removeLinkage linkage storage)
  | none => (query.fromOptionalValueToQuery none, storage)

def remove (key : K) (storage : LinkedMap K V) : LinkedMap K V :=
  (take optionQuery key storage).2

def insert (key : K) (val : V) (storage : LinkedMap K V) : LinkedMap K V :=
  match storage.readWithLinkage key with
  -- overwrite but reuse existing linkage
  | some (_, linkage) => storage.put key (val, linkage)
  | none =>
    let created := newHeadLinkage key storage
    created.2.put key (val, created.1)

def swap (key1 key2 : K) (storage : LinkedMap K V) : LinkedMap K V :=
  match storage.readWithLinkage key1, storage.readWithLinkage key2 with
  -- just keep linkage in order and only swap values
  | some (value1, linkage1), some (value2, linkage2) =>
    (storage.put key1 (value2, linkage1)).put key2 (value1, linkage2)
  -- remove key and insert the new one
  | some (value, _), none =>
    let created := newHeadLinkage key2 (remove key1 storage)
    created.2.put key2 (value, created.1)
  | none, some (value, _) =>
    let created := newHeadLinkage key1 (remove key2 storage)
    created.2.put key1 (value, created.1)
  | none, none => storage

/-- `mutate`, with the closure's write to the query given as the new query it
leaves. -/
def mutate {Query R : Type} (query : QueryKind V Query) (key : K) (f : Query → Query × R)
    (storage : LinkedMap K V) : R × LinkedMap K V :=
  let val := query.fromOptionalValueToQuery ((storage.readWithLinkage key).map Prod.fst)
  let (val, ret) := f val
  match query.fromQueryToOptionalValue val with
  | some val => (ret, insert key val storage)
  | none => (ret, remove key storage)

/-- `Enumerator::next` until it returns `None`, for at most `fuel` elements;
a missing element is a corrupted state, which ends the iteration. -/
def enumerateFrom (storage : LinkedMap K V) : Nat → Option K → List (K × V)
  | 0, _ => []
  | _ + 1, none => []
  | fuel + 1, some next =>
    match storage.readWithLinkage next with
    | some (val, linkage) => (next, val) :: enumerateFrom storage fuel linkage.next
    | none => []

def enumerate (fuel : Nat) (storage : LinkedMap K V) : List (K × V) :=
  enumerateFrom storage fuel storage.readHead

/-! ## Calls and runs -/

/-- The calls that write a linked map; `mutate` by the change it makes to the
optional value, which is all its closure and query type decide. -/
inductive Call (K V : Type) where
  | insert (key : K) (val : V)
  | remove (key : K)
  | take (key : K)
  | mutate (key : K) (update : Option V → Option V)
  | swap (key1 key2 : K)

def Call.perform : Call K V → LinkedMap K V → LinkedMap K V
  | .insert key val, storage => LinkedMap.insert key val storage
  | .remove key, storage => LinkedMap.remove key storage
  | .take key, storage => (LinkedMap.take optionQuery key storage).2
  | .mutate key update, storage => (LinkedMap.mutate optionQuery key (fun val => (update val, ())) storage).2
  | .swap key1 key2, storage => LinkedMap.swap key1 key2 storage

def run (calls : List (Call K V)) : LinkedMap K V :=
  Transition.perform Call.perform empty calls

/-! ## The storage cells -/

@[simp]
theorem lookup_put (storage : LinkedMap K V) (key : K) (stored : V × Linkage K) (x : K) :
    (storage.put key stored).entries.lookup x = if x = key then some stored else storage.entries.lookup x :=
  KVMap.lookup_insert _ _ _ _

@[simp]
theorem head_put (storage : LinkedMap K V) (key : K) (stored : V × Linkage K) :
    (storage.put key stored).head = storage.head :=
  rfl

omit [DecidableEq K] in
@[simp]
theorem entries_writeHead (storage : LinkedMap K V) (head : Option K) :
    (storage.writeHead head).entries = storage.entries :=
  rfl

omit [DecidableEq K] in
@[simp]
theorem head_writeHead (storage : LinkedMap K V) (head : Option K) :
    (storage.writeHead head).head = head :=
  rfl

@[simp]
theorem head_updateLinkage (storage : LinkedMap K V) (key : K) (update : Linkage K → Linkage K) :
    (storage.updateLinkage key update).head = storage.head := by
  unfold updateLinkage
  split <;> rfl

theorem lookup_updateLinkage (storage : LinkedMap K V) (key : K) (update : Linkage K → Linkage K) (x : K) :
    (storage.updateLinkage key update).entries.lookup x =
      (storage.entries.lookup x).map fun stored => (stored.1, if x = key then update stored.2 else stored.2) := by
  unfold updateLinkage readWithLinkage
  split
  · next data linkage found =>
    rw [lookup_put]
    split_ifs with same
    · subst same
      simp [found]
    · cases storage.entries.lookup x <;> rfl
  · next absent =>
    by_cases same : x = key
    · subst same
      simp [absent]
    · cases storage.entries.lookup x <;> simp [same]

/-- `remove_linkage` gives the previous element the removed one's next, and
the next element its previous. -/
theorem lookup_removeLinkage (linkage : Linkage K) (storage : LinkedMap K V) (x : K) :
    (removeLinkage linkage storage).entries.lookup x =
      (storage.entries.lookup x).map fun stored =>
        (stored.1, ⟨if linkage.next = some x then linkage.previous else stored.2.previous,
          if linkage.previous = some x then linkage.next else stored.2.next⟩) := by
  obtain ⟨previous, next⟩ := linkage
  -- a write for each neighbour there is; the neighbours may coincide
  cases previous <;> cases next <;>
    simp only [removeLinkage, lookup_updateLinkage, entries_writeHead, Option.map_map] <;>
    cases storage.entries.lookup x <;> simp [@eq_comm _ _ x] <;> split_ifs <;> simp_all

theorem head_removeLinkage (linkage : Linkage K) (storage : LinkedMap K V) :
    (removeLinkage linkage storage).head = if linkage.previous = none then linkage.next else storage.head := by
  obtain ⟨previous, next⟩ := linkage
  cases previous <;> cases next <;> simp only [removeLinkage, head_updateLinkage, head_writeHead] <;> simp

end LinkedMap

/-! ## What a linked map stands for -/

namespace LinkedMap.Spec

variable {K V : Type} [DecidableEq K]

/-- A new key goes in front; a present one keeps its place. -/
def insert (key : K) (val : V) (contents : AList fun _ : K => V) : AList fun _ : K => V :=
  if key ∈ contents then contents.replace key val else contents.insert key val

def swap (key1 key2 : K) (contents : AList fun _ : K => V) : AList fun _ : K => V :=
  match contents.lookup key1, contents.lookup key2 with
  | some value1, some value2 => (contents.replace key1 value2).replace key2 value1
  | some value, none => (contents.erase key1).insert key2 value
  | none, some value => (contents.erase key2).insert key1 value
  | none, none => contents

def mutate (key : K) (update : Option V → Option V) (contents : AList fun _ : K => V) :
    AList fun _ : K => V :=
  match update (contents.lookup key) with
  | some val => insert key val contents
  | none => contents.erase key

def Call.apply : Call K V → (AList fun _ : K => V) → AList fun _ : K => V
  | .insert key val, contents => insert key val contents
  | .remove key, contents => contents.erase key
  | .take key, contents => contents.erase key
  | .mutate key update, contents => mutate key update contents
  | .swap key1 key2, contents => swap key1 key2 contents

def run (calls : List (Call K V)) : AList fun _ : K => V :=
  Transition.perform Call.apply ∅ calls

/-- The entries in order, as `enumerate` yields them. -/
def entries (contents : AList fun _ : K => V) : List (K × V) :=
  contents.entries.map fun entry => (entry.1, entry.2)

end LinkedMap.Spec

namespace LinkedMap

variable {K V : Type} [DecidableEq K]

/-- The storage holds `contents`: its head is the first key, and each key
holds its value with its neighbours in the order of the keys. -/
structure Represents (storage : LinkedMap K V) (contents : AList fun _ : K => V) : Prop where
  head_eq : storage.head = contents.keys.head?
  lookup_eq : ∀ x, storage.entries.lookup x =
    (contents.lookup x).map fun value => (value, ⟨before contents.keys x, after contents.keys x⟩)

theorem represents_empty : Represents (empty : LinkedMap K V) ∅ :=
  ⟨rfl, fun _ => rfl⟩

/-! ## Every call keeps the representation -/

section Refinement

variable {storage : LinkedMap K V} {contents : AList fun _ : K => V}

/-- With the storage well formed, `new_head_linkage` never meets a corrupted
head: it links the old head back to the key and returns a linkage to it. -/
theorem Represents.newHeadLinkage_spec (represents : Represents storage contents) (key : K) :
    (newHeadLinkage key storage).1 = ⟨none, contents.keys.head?⟩ ∧
      (newHeadLinkage key storage).2.head = some key ∧
      ∀ x, (newHeadLinkage key storage).2.entries.lookup x =
        (storage.entries.lookup x).map fun stored =>
          (stored.1, if contents.keys.head? = some x then ⟨some key, stored.2.next⟩ else stored.2) := by
  cases keysEq : contents.keys with
  | nil =>
    have created : newHeadLinkage key storage = (default, storage.writeHead (some key)) := by
      simp only [newHeadLinkage, readHead, represents.head_eq, keysEq, List.head?_nil]
    rw [created]
    refine ⟨rfl, rfl, fun x => ?_⟩
    rw [entries_writeHead]
    cases storage.entries.lookup x <;> simp
  | cons head rest =>
    have nodup : (head :: rest).Nodup := keysEq ▸ contents.keys_nodup
    have present : head ∈ contents := by
      rw [AList.mem_keys, keysEq]
      exact List.mem_cons_self
    obtain ⟨value, found⟩ := Option.isSome_iff_exists.mp (AList.lookup_isSome.mpr present)
    have stored : storage.entries.lookup head = some (value, ⟨none, after contents.keys head⟩) := by
      rw [represents.lookup_eq, found, keysEq, before_cons_self (List.nodup_cons.mp nodup).1]
      rfl
    have created : newHeadLinkage key storage =
        (⟨none, some head⟩, (storage.put head (value, ⟨some key, after contents.keys head⟩)).writeHead (some key)) := by
      simp only [newHeadLinkage, readHead, readWithLinkage, represents.head_eq, keysEq, List.head?_cons, stored]
    rw [created]
    refine ⟨rfl, rfl, fun x => ?_⟩
    rw [entries_writeHead, lookup_put]
    by_cases same : x = head
    · subst same
      simp [stored]
    · have notFirst : ¬some head = some x := fun first => same (Option.some.inj first).symm
      rw [if_neg same]
      cases storage.entries.lookup x <;> simp [notFirst]

/-- A key that is not there, put in front with the linkage
`new_head_linkage` gives it: the storage holds the contents with the key
inserted in front. -/
theorem Represents.putAtHead (represents : Represents storage contents) {key : K} (fresh : key ∉ contents)
    (val : V) :
    Represents ((newHeadLinkage key storage).2.put key (val, (newHeadLinkage key storage).1))
      (contents.insert key val) := by
  obtain ⟨linkageEq, headEq, lookupEq⟩ := represents.newHeadLinkage_spec key
  have keysEq : (contents.insert key val).keys = key :: contents.keys := by
    rw [AList.keys_insert, List.erase_of_not_mem (AList.mem_keys.not.mp fresh)]
  have nodup : (key :: contents.keys).Nodup := keysEq ▸ AList.keys_nodup _
  constructor
  · rw [head_put, headEq, keysEq]
    rfl
  · intro x
    rw [lookup_put, keysEq, linkageEq]
    by_cases same : x = key
    · subst same
      simp [before_cons_self (List.nodup_cons.mp nodup).1]
    · rw [if_neg same, lookupEq, represents.lookup_eq, AList.lookup_insert_ne same, before_cons nodup,
        after_cons_of_ne _ (Ne.symm same)]
      cases contents.lookup x with
      | none => rfl
      | some value => by_cases first : contents.keys.head? = some x <;> simp [first]

/-- `take` returns the value and leaves the contents without the key: the
element is cut out and its neighbours joined. -/
theorem Represents.take (represents : Represents storage contents) {Query : Type}
    (query : QueryKind V Query) (key : K) :
    (take query key storage).1 = query.fromOptionalValueToQuery (contents.lookup key) ∧
      Represents (take query key storage).2 (contents.erase key) := by
  have nodup := contents.keys_nodup
  unfold LinkedMap.take
  rw [readWithLinkage, represents.lookup_eq]
  cases found : contents.lookup key with
  | none =>
    -- nothing to cut out
    have absent : key ∉ contents.keys := AList.mem_keys.not.mp (AList.lookup_eq_none.mp found)
    dsimp only [Option.map_none]
    refine ⟨rfl, ⟨?_, fun x => ?_⟩⟩
    · rw [AList.keys_erase, List.erase_of_not_mem absent]
      exact represents.head_eq
    · rw [AList.keys_erase, List.erase_of_not_mem absent]
      by_cases same : x = key
      · subst same
        simp
      · rw [KVMap.lookup_remove_of_ne _ same, represents.lookup_eq, AList.lookup_erase_ne same]
  | some value =>
    have present : key ∈ contents.keys := AList.mem_keys.mp (AList.lookup_isSome.mp (by simp [found]))
    dsimp only [Option.map_some]
    refine ⟨rfl, ⟨?_, fun x => ?_⟩⟩
    · -- the head moves on when the first key is cut out
      rw [head_removeLinkage, AList.keys_erase, head?_erase, ← represents.head_eq]
      dsimp only
      simp only [before_eq_none_iff nodup present, represents.head_eq]
    · rw [lookup_removeLinkage, AList.keys_erase]
      by_cases same : x = key
      · subst same
        simp
      · rw [KVMap.lookup_remove_of_ne _ same, represents.lookup_eq, AList.lookup_erase_ne same,
          before_erase_of_ne nodup same, after_erase_of_ne nodup same]
        cases contents.lookup x with
        | none => rfl
        | some value => simp only [before_eq_some_iff_after nodup, Option.map_some]

theorem Represents.insert (represents : Represents storage contents) (key : K) (val : V) :
    Represents (insert key val storage) (Spec.insert key val contents) := by
  unfold LinkedMap.insert Spec.insert
  rw [readWithLinkage, represents.lookup_eq]
  cases found : contents.lookup key with
  | none =>
    have fresh : key ∉ contents := AList.lookup_eq_none.mp found
    dsimp only [Option.map_none]
    rw [if_neg fresh]
    exact represents.putAtHead fresh val
  | some value =>
    -- the value is overwritten and the linkage kept
    have present : key ∈ contents := AList.lookup_isSome.mp (by simp [found])
    dsimp only [Option.map_some]
    rw [if_pos present]
    refine ⟨?_, fun x => ?_⟩
    · rw [head_put, AList.keys_replace]
      exact represents.head_eq
    · rw [lookup_put, AList.keys_replace]
      by_cases same : x = key
      · subst same
        simp [found]
      · rw [if_neg same, represents.lookup_eq, AList.lookup_replace_of_ne _ _ same]

theorem Represents.swap (represents : Represents storage contents) (key1 key2 : K) :
    Represents (swap key1 key2 storage) (Spec.swap key1 key2 contents) := by
  unfold LinkedMap.swap Spec.swap
  rw [readWithLinkage, readWithLinkage, represents.lookup_eq, represents.lookup_eq]
  cases found1 : contents.lookup key1 <;> cases found2 : contents.lookup key2 <;>
    dsimp only [Option.map_none, Option.map_some]
  case none.none => exact represents
  case none.some value =>
    have fresh : key1 ∉ contents := AList.lookup_eq_none.mp found1
    -- `key2` is cut out and its value put in front at `key1`
    have taken := (represents.take optionQuery key2).2
    exact taken.putAtHead (fun erased => fresh (AList.mem_erase.mp erased).2) value
  case some.none value1 =>
    have fresh : key2 ∉ contents := AList.lookup_eq_none.mp found2
    have taken := (represents.take optionQuery key1).2
    exact taken.putAtHead (fun erased => fresh (AList.mem_erase.mp erased).2) value1
  case some.some value1 value2 =>
    -- the values change places and every linkage stays
    refine ⟨?_, fun x => ?_⟩
    · rw [head_put, head_put, AList.keys_replace, AList.keys_replace]
      exact represents.head_eq
    · rw [lookup_put, lookup_put, AList.keys_replace, AList.keys_replace]
      by_cases same2 : x = key2
      · subst same2
        have stillThere : ((contents.replace key1 value2).lookup x).isSome := by
          by_cases same1 : x = key1
          · subst same1
            simp [found2]
          · rw [AList.lookup_replace_of_ne _ _ same1, found2]
            rfl
        simp [Option.isSome_iff_exists.mp stillThere]
      · by_cases same1 : x = key1
        · subst same1
          simp [same2, found1, AList.lookup_replace_of_ne _ _ same2]
        · rw [if_neg same2, if_neg same1, represents.lookup_eq, AList.lookup_replace_of_ne _ _ same2,
            AList.lookup_replace_of_ne _ _ same1]

theorem Represents.mutate (represents : Represents storage contents) {Query R : Type}
    (query : QueryKind V Query) (key : K) (f : Query → Query × R) :
    Represents (mutate query key f storage).2
      (Spec.mutate key (fun value => query.fromQueryToOptionalValue (f (query.fromOptionalValueToQuery value)).1)
        contents) := by
  have read : (storage.readWithLinkage key).map Prod.fst = contents.lookup key := by
    rw [readWithLinkage, represents.lookup_eq, Option.map_map]
    cases contents.lookup key <;> rfl
  unfold LinkedMap.mutate Spec.mutate
  rw [read]
  dsimp only
  cases query.fromQueryToOptionalValue (f (query.fromOptionalValueToQuery (contents.lookup key))).1 with
  | some val => exact represents.insert key val
  | none => exact (represents.take optionQuery key).2

theorem Represents.perform (represents : Represents storage contents) (call : Call K V) :
    Represents (call.perform storage) (Spec.Call.apply call contents) := by
  cases call with
  | insert key val => exact represents.insert key val
  | remove key => exact (represents.take optionQuery key).2
  | take key => exact (represents.take optionQuery key).2
  | mutate key update => exact represents.mutate optionQuery key fun val => (update val, ())
  | swap key1 key2 => exact represents.swap key1 key2

end Refinement

/-- After every run from the empty storage, the storage holds what the same
calls make of the empty ordered map. -/
theorem run_represents (calls : List (Call K V)) : Represents (run calls) (Spec.run calls) := by
  refine Transition.perform_invariant Call.perform (fun done current => Represents current (Spec.run done))
    represents_empty ?_ calls
  intro done current performed represents
  rw [Spec.run, Transition.perform_append_singleton]
  exact represents.perform performed

/-! ## One doubly linked list, enumerated in order -/

/-- A linked map in storage over the entries `order`, in the order
`enumerate` yields them: no key twice, the head first and with nothing before
it, each element the previous of its next and the next of its previous, the
keys that exist exactly those of `order` with their values, and `enumerate`
yielding `order` whenever it may run that many steps. -/
structure WellFormed (storage : LinkedMap K V) (order : List (K × V)) : Prop where
  nodup : (order.map Prod.fst).Nodup
  head_eq : storage.readHead = (order.map Prod.fst).head?
  head_no_previous : ∀ head value linkage, storage.readHead = some head →
    storage.readWithLinkage head = some (value, linkage) → linkage.previous = none
  next_previous : ∀ key value linkage next, storage.readWithLinkage key = some (value, linkage) →
    linkage.next = some next → ∃ nextValue nextLinkage,
      storage.readWithLinkage next = some (nextValue, nextLinkage) ∧ nextLinkage.previous = some key
  previous_next : ∀ key value linkage previous, storage.readWithLinkage key = some (value, linkage) →
    linkage.previous = some previous → ∃ previousValue previousLinkage,
      storage.readWithLinkage previous = some (previousValue, previousLinkage) ∧ previousLinkage.next = some key
  exists_iff : ∀ key, exists' key storage = true ↔ key ∈ order.map Prod.fst
  get_eq : ∀ key value, (key, value) ∈ order → get optionQuery key storage = some value
  enumerate_eq : ∀ fuel, order.length ≤ fuel → enumerate fuel storage = order

section Consequences

variable {storage : LinkedMap K V} {contents : AList fun _ : K => V}

omit [DecidableEq K] in
theorem keys_entries (contents : AList fun _ : K => V) : (Spec.entries contents).map Prod.fst = contents.keys := by
  simp [Spec.entries, AList.keys, List.keys]

/-- What a key holds: its value and its neighbours among the keys. -/
theorem Represents.lookup_of_read (represents : Represents storage contents) {key : K} {value : V}
    {linkage : Linkage K} (read : storage.readWithLinkage key = some (value, linkage)) :
    contents.lookup key = some value ∧ linkage = ⟨before contents.keys key, after contents.keys key⟩ := by
  rw [readWithLinkage, represents.lookup_eq] at read
  cases found : contents.lookup key with
  | none =>
    rw [found] at read
    cases read
  | some stored =>
    rw [found, Option.map_some, Option.some.injEq, Prod.mk.injEq] at read
    exact ⟨congrArg some read.1, read.2.symm⟩

theorem Represents.read_of_mem (represents : Represents storage contents) {key : K} (present : key ∈ contents.keys) :
    ∃ value, storage.readWithLinkage key = some (value, ⟨before contents.keys key, after contents.keys key⟩) := by
  obtain ⟨value, found⟩ := Option.isSome_iff_exists.mp (AList.lookup_isSome.mpr (AList.mem_keys.mpr present))
  exact ⟨value, by rw [readWithLinkage, represents.lookup_eq, found]; rfl⟩

/-- From the head, `enumerate` reads the entries one after the other: from
the first key of any end of the entries, it yields that end. -/
theorem Represents.enumerateFrom_suffix (represents : Represents storage contents)
    (rest : List (Sigma fun _ : K => V)) :
    ∀ front, contents.entries = front ++ rest → ∀ fuel, rest.length ≤ fuel →
      storage.enumerateFrom fuel rest.keys.head? = rest.map fun entry => (entry.1, entry.2) := by
  induction rest with
  | nil =>
    intro front _ fuel _
    cases fuel <;> rfl
  | cons entry rest inductionHypothesis =>
    intro front split fuel enough
    obtain ⟨key, value⟩ := entry
    obtain ⟨fuel, rfl⟩ : ∃ remaining, fuel = remaining + 1 := ⟨fuel - 1, by simp at enough; omega⟩
    have keysSplit : contents.keys = front.keys ++ key :: rest.keys := by
      rw [AList.keys, split, List.keys_append, List.keys_cons]
    have fresh : key ∉ front.keys := fun present =>
      List.disjoint_of_nodup_append (keysSplit ▸ contents.keys_nodup) present List.mem_cons_self
    have found : contents.lookup key = some value :=
      AList.mem_lookup_iff.mpr (split ▸ List.mem_append_right _ List.mem_cons_self)
    have read : storage.readWithLinkage key = some (value, ⟨before contents.keys key, rest.keys.head?⟩) := by
      rw [readWithLinkage, represents.lookup_eq, found, keysSplit, after_append_cons fresh]
      rfl
    rw [List.keys_cons, List.head?_cons, enumerateFrom, read]
    dsimp only
    rw [inductionHypothesis (front ++ [⟨key, value⟩]) (by rw [split]; simp) fuel (by simp at enough; omega)]
    rfl

theorem Represents.enumerate_eq (represents : Represents storage contents) {fuel : Nat}
    (enough : contents.entries.length ≤ fuel) : enumerate fuel storage = Spec.entries contents := by
  rw [enumerate, readHead, represents.head_eq]
  exact represents.enumerateFrom_suffix contents.entries [] rfl fuel enough

theorem Represents.wellFormed (represents : Represents storage contents) :
    WellFormed storage (Spec.entries contents) where
  nodup := by
    rw [keys_entries]
    exact contents.keys_nodup
  head_eq := by
    rw [keys_entries]
    exact represents.head_eq
  head_no_previous := by
    intro head value linkage first read
    obtain ⟨-, rfl⟩ := represents.lookup_of_read read
    rw [readHead, represents.head_eq] at first
    exact (before_eq_none_iff contents.keys_nodup (List.mem_of_mem_head? first)).mpr first
  next_previous := by
    intro key value linkage next read following
    obtain ⟨-, rfl⟩ := represents.lookup_of_read read
    obtain ⟨nextValue, nextRead⟩ := represents.read_of_mem (mem_of_after_eq_some following).2
    exact ⟨nextValue, _, nextRead, (before_eq_some_iff_after contents.keys_nodup).mpr following⟩
  previous_next := by
    intro key value linkage previous read preceding
    obtain ⟨-, rfl⟩ := represents.lookup_of_read read
    have following := (before_eq_some_iff_after contents.keys_nodup).mp preceding
    obtain ⟨previousValue, previousRead⟩ := represents.read_of_mem (mem_of_after_eq_some following).1
    exact ⟨previousValue, _, previousRead, following⟩
  exists_iff := by
    intro key
    rw [keys_entries, exists', KVMap.contains_eq_isSome, represents.lookup_eq, Option.isSome_map,
      AList.lookup_isSome, AList.mem_keys]
  get_eq := by
    intro key value member
    obtain ⟨⟨entryKey, entryValue⟩, entry, same⟩ := List.mem_map.mp member
    obtain ⟨rfl, rfl⟩ := Prod.mk.inj same
    have found : contents.lookup entryKey = some entryValue := AList.mem_lookup_iff.mpr entry
    simp [get, optionQuery, readWithLinkage, represents.lookup_eq, found]
  enumerate_eq := by
    intro fuel enough
    rw [Spec.entries, List.length_map] at enough
    exact represents.enumerate_eq enough

end Consequences

/-- After every sequence of `insert`, `remove`, `take`, `mutate` and `swap`
from the empty storage, the linked map is one doubly linked list over exactly
its keys, which `enumerate` yields once each with their values. -/
theorem run_forms_linked_list (calls : List (Call K V)) : ∃ order, WellFormed (run calls) order :=
  ⟨Spec.entries (Spec.run calls), (run_represents calls).wellFormed⟩

/-- A value that `swap` moves to a new key goes in front. -/
example : enumerate 3 (run [.insert 1 10, .insert 2 20, .swap 1 3] : LinkedMap Nat Nat) = [(3, 10), (2, 20)] := by
  decide

end LinkedMap

end OffchainStorage.Support
