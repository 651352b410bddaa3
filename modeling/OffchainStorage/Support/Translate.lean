import OffchainStorage.Support.LinkedMap
import Mathlib

/-!
# Migrating a linked map: `translate`

`translate(translate_key, translate_val)` rewrites a linked map stored with
old key and value types into the new ones, in place: it reads the head as an
old key and writes it back translated, then walks the list from the head,
taking each element out of its old final key and writing it, value and
linkage translated, under the final key of its new key.  A cell that does not
decode ends the walk early with `Err(Some(key))`, and a head that does not
decode returns `Err(None)`.

The old and the new map share one storage, so the model keeps it as raw cells
at final keys (`RawLinkedMap`), each holding an element in the old types or
in the new ones, and reads it as a map of either types through `oldView` and
`newView`.  A cell read in the other types does not decode, as
`unhashed::get` gives `None` then.  The loop runs until the list ends; its
model takes a fuel argument, the number of elements left at most.

Under the claim's conditions on the final keys (`KeysApart`), the walk over a
well-formed map of `n > 0` elements takes exactly its elements, and leaves a
well-formed map of the translated elements in the same order
(`translate_migrates`).  An empty map has no head, and `translate` then
returns `Err(None)` (`translate_empty`).
-/

namespace OffchainStorage.Support

open Neighbours

/-- A cell of the storage during a migration: an element in the old types or
one written in the new types. -/
inductive Cell (K2 V2 K V : Type) where
  | old (val : V2) (linkage : Linkage K2)
  | new (val : V) (linkage : Linkage K)

/-- The storage of a linked map as raw cells at final keys, with the head
cell, which holds an old or a new key. -/
structure RawLinkedMap (R K2 V2 K V : Type) where
  cells : KVMap R (Cell K2 V2 K V)
  head : Option (K2 ⊕ K)

namespace RawLinkedMap

variable {R K2 V2 K V : Type} [DecidableEq R]

/-- `unhashed::take` in the old types: the element, and its cell killed, when
the cell decodes as one. -/
def takeOld (raw : RawLinkedMap R K2 V2 K V) (key : R) :
    Option (V2 × Linkage K2) × RawLinkedMap R K2 V2 K V :=
  match raw.cells.lookup key with
  | some (.old val linkage) => (some (val, linkage), { raw with cells := raw.cells.remove key })
  | _ => (none, raw)

/-- `read_with_linkage` in the new types. -/
def readNew (raw : RawLinkedMap R K2 V2 K V) (key : R) : Option (V × Linkage K) :=
  match raw.cells.lookup key with
  | some (.new val linkage) => some (val, linkage)
  | _ => none

/-- `unhashed::put` of an element in the new types. -/
def putNew (raw : RawLinkedMap R K2 V2 K V) (key : R) (stored : V × Linkage K) :
    RawLinkedMap R K2 V2 K V :=
  { raw with cells := raw.cells.insert key (.new stored.1 stored.2) }

/-- `read_head` in the old key type. -/
def readOldHead (raw : RawLinkedMap R K2 V2 K V) : Option K2 :=
  match raw.head with
  | some (.inl head) => some head
  | _ => none

/-- `write_head` of a new key. -/
def writeNewHead (raw : RawLinkedMap R K2 V2 K V) (head : K) : RawLinkedMap R K2 V2 K V :=
  { raw with head := some (.inr head) }

/-- `translate_linkage`. -/
def translateLinkage (translateKey : K2 → K) (old : Linkage K2) : Linkage K :=
  ⟨old.previous.map translateKey, old.next.map translateKey⟩

variable (oldFinal : K2 → R) (newFinal : K → R) (translateKey : K2 → K) (translateVal : V2 → V)

/-- The loop of `translate`, at `current_key` with `last_key` the new key
written last; `fuel` bounds the elements left. -/
def translateLoop : Nat → Option K → K2 → RawLinkedMap R K2 V2 K V →
    Option (Except (Option K2) Unit × RawLinkedMap R K2 V2 K V)
  | 0, _, _, _ => none
  | fuel + 1, lastKey, currentKey, raw =>
    match raw.takeOld (oldFinal currentKey) with
    | (none, raw) =>
      -- end the map early at the last key written
      let raw := match lastKey with
        | some lastKey =>
          match raw.readNew (newFinal lastKey) with
          | some (val, linkage) => raw.putNew (newFinal lastKey) (val, { linkage with next := none })
          | none => raw
        | none => raw
      some (.error (some currentKey), raw)
    | (some (val, linkage), raw) =>
      let newKey := translateKey currentKey
      let raw := raw.putNew (newFinal newKey) (translateVal val, translateLinkage translateKey linkage)
      match linkage.next with
      | none => some (.ok (), raw)
      | some next => translateLoop fuel (some newKey) next raw

/-- `translate`: the head translated, then the list walked from it. -/
def translate (fuel : Nat) (raw : RawLinkedMap R K2 V2 K V) :
    Option (Except (Option K2) Unit × RawLinkedMap R K2 V2 K V) :=
  match raw.readOldHead with
  | none => some (.error none, raw)
  | some headKey =>
    translateLoop oldFinal newFinal translateKey translateVal fuel none headKey
      (raw.writeNewHead (translateKey headKey))

/-- The storage read as a linked map in the old types. -/
def oldView (raw : RawLinkedMap R K2 V2 K V) : LinkedMap K2 V2 :=
  ⟨fun key => match raw.cells.lookup (oldFinal key) with
    | some (.old val linkage) => some (val, linkage)
    | _ => none, raw.readOldHead⟩

/-- The storage read as a linked map in the new types. -/
def newView (raw : RawLinkedMap R K2 V2 K V) : LinkedMap K V :=
  ⟨fun key => raw.readNew (newFinal key), match raw.head with
    | some (.inr head) => some head
    | _ => none⟩

/-- Every cell holds an element in the old types: the storage before a
migration. -/
def OnlyOld (raw : RawLinkedMap R K2 V2 K V) : Prop :=
  ∀ key val linkage, raw.cells.lookup key ≠ some (.new val linkage)

end RawLinkedMap

namespace RawLinkedMap

variable {R K2 V2 K V : Type} [DecidableEq R] [DecidableEq K2]
  (oldFinal : K2 → R) (newFinal : K → R) (translateKey : K2 → K) (translateVal : V2 → V)

/-! ## The walk over a well-formed map -/

/-- One element migrated: its old cell killed, and the element written, value
and linkage translated, under its new final key. -/
def migrate (raw : RawLinkedMap R K2 V2 K V) (key : K2) (val : V2) (linkage : Linkage K2) :
    RawLinkedMap R K2 V2 K V :=
  { raw with
    cells := (raw.cells.remove (oldFinal key)).insert (newFinal (translateKey key))
      (.new (translateVal val) (translateLinkage translateKey linkage)) }

/-- The elements `entries` of a map with keys `keys` migrated in order, each
with its neighbours as its linkage. -/
def migrateAll (keys : List K2) (entries : List (Sigma fun _ : K2 => V2))
    (raw : RawLinkedMap R K2 V2 K V) : RawLinkedMap R K2 V2 K V :=
  entries.foldl (fun raw entry =>
    migrate oldFinal newFinal translateKey translateVal raw entry.1 entry.2
      ⟨before keys entry.1, after keys entry.1⟩) raw

variable {oldFinal newFinal translateKey translateVal}

@[simp] theorem head_migrateAll (keys : List K2) (entries : List (Sigma fun _ : K2 => V2))
    (raw : RawLinkedMap R K2 V2 K V) :
    (migrateAll oldFinal newFinal translateKey translateVal keys entries raw).head = raw.head := by
  induction entries generalizing raw with
  | nil => rfl
  | cons entry rest inductionHypothesis => exact inductionHypothesis _

theorem migrateAll_append (keys : List K2) (front back : List (Sigma fun _ : K2 => V2))
    (raw : RawLinkedMap R K2 V2 K V) :
    migrateAll oldFinal newFinal translateKey translateVal keys (front ++ back) raw =
      migrateAll oldFinal newFinal translateKey translateVal keys back
        (migrateAll oldFinal newFinal translateKey translateVal keys front raw) :=
  List.foldl_append

/-- A cell that no element of `entries` is killed at or written to is left
as it was. -/
theorem lookup_migrateAll_of_forall_ne (keys : List K2) {entries : List (Sigma fun _ : K2 => V2)}
    (raw : RawLinkedMap R K2 V2 K V) {cell : R}
    (untouched : ∀ entry ∈ entries, cell ≠ oldFinal entry.1 ∧ cell ≠ newFinal (translateKey entry.1)) :
    (migrateAll oldFinal newFinal translateKey translateVal keys entries raw).cells.lookup cell =
      raw.cells.lookup cell := by
  induction entries generalizing raw with
  | nil => rfl
  | cons entry rest inductionHypothesis =>
    obtain ⟨notOld, notNew⟩ := untouched entry List.mem_cons_self
    rw [migrateAll, List.foldl_cons, ← migrateAll,
      inductionHypothesis _ fun other member => untouched other (List.mem_cons_of_mem _ member)]
    simp only [migrate]
    rw [KVMap.lookup_insert_of_ne _ _ notNew, KVMap.lookup_remove_of_ne _ notOld]

/-- A cell that no element is written to is left as it was, or killed. -/
theorem lookup_migrateAll_of_not_written (keys : List K2) {entries : List (Sigma fun _ : K2 => V2)}
    (raw : RawLinkedMap R K2 V2 K V) {cell : R}
    (unwritten : ∀ entry ∈ entries, cell ≠ newFinal (translateKey entry.1)) :
    (migrateAll oldFinal newFinal translateKey translateVal keys entries raw).cells.lookup cell = none ∨
      (migrateAll oldFinal newFinal translateKey translateVal keys entries raw).cells.lookup cell =
        raw.cells.lookup cell := by
  induction entries generalizing raw with
  | nil => exact .inr rfl
  | cons entry rest inductionHypothesis =>
    rw [migrateAll, List.foldl_cons, ← migrateAll]
    rcases inductionHypothesis (migrate oldFinal newFinal translateKey translateVal raw entry.1 entry.2
        ⟨before keys entry.1, after keys entry.1⟩)
      (fun other member => unwritten other (List.mem_cons_of_mem _ member)) with killed | kept
    · exact .inl killed
    · rw [kept]
      simp only [migrate]
      rw [KVMap.lookup_insert_of_ne _ _ (unwritten entry List.mem_cons_self)]
      by_cases same : cell = oldFinal entry.1
      · subst same
        exact .inl (KVMap.lookup_remove_self _ _)
      · exact .inr (KVMap.lookup_remove_of_ne _ same)

omit [DecidableEq R] [DecidableEq K2] in
/-- What the old view reads at a key is an old cell at its final key. -/
theorem lookup_of_oldView {raw : RawLinkedMap R K2 V2 K V} {key : K2} {val : V2} {linkage : Linkage K2}
    (read : (raw.oldView oldFinal).entries.lookup key = some (val, linkage)) :
    raw.cells.lookup (oldFinal key) = some (.old val linkage) := by
  simp only [oldView, KVMap.lookup] at read
  split at read <;> rename_i found
  · cases read
    exact found
  · cases read

omit [DecidableEq K2] in
/-- A round of the loop on an old cell: the element migrated, then the walk
goes on to the next key of its linkage. -/
theorem translateLoop_succ_of_old (fuel : Nat) (lastKey : Option K) {key : K2}
    {state : RawLinkedMap R K2 V2 K V} {val : V2} {linkage : Linkage K2}
    (cell : state.cells.lookup (oldFinal key) = some (.old val linkage)) :
    translateLoop oldFinal newFinal translateKey translateVal (fuel + 1) lastKey key state =
      match linkage.next with
      | none => some (.ok (), migrate oldFinal newFinal translateKey translateVal state key val linkage)
      | some next => translateLoop oldFinal newFinal translateKey translateVal fuel (some (translateKey key))
          next (migrate oldFinal newFinal translateKey translateVal state key val linkage) := by
  simp only [translateLoop, takeOld, cell]
  rfl

end RawLinkedMap

/-- The conditions of a migration on the final keys of the elements `keys`:
the hashers behind the old and the new final keys are injective, distinct
elements get distinct new keys, and no element's new final key is the old
final key of another. -/
structure KeysApart {R K2 K : Type} (oldFinal : K2 → R) (newFinal : K → R)
    (translateKey : K2 → K) (keys : List K2) : Prop where
  oldInjective : Function.Injective oldFinal
  newInjective : Function.Injective newFinal
  distinct : (keys.map translateKey).Nodup
  apart : ∀ k ∈ keys, ∀ k' ∈ keys, k ≠ k' → newFinal (translateKey k) ≠ oldFinal k'

section Split

variable {K2 V2 : Type} [DecidableEq K2]

omit [DecidableEq K2] in
/-- The entries around an element of an association list have other keys. -/
theorem keys_of_split {contents : AList fun _ : K2 => V2} {front back : List (Sigma fun _ : K2 => V2)}
    {key : K2} {val : V2} (split : contents.entries = front ++ ⟨key, val⟩ :: back) :
    contents.keys = front.keys ++ key :: back.keys ∧ key ∉ front.keys ∧ key ∉ back.keys := by
  have keysSplit : contents.keys = front.keys ++ key :: back.keys := by
    rw [AList.keys, split, List.keys_append, List.keys_cons]
  have nodup := keysSplit ▸ contents.keys_nodup
  exact ⟨keysSplit, fun present => List.disjoint_of_nodup_append nodup present List.mem_cons_self,
    (List.nodup_cons.mp (List.nodup_append.mp nodup).2.1).1⟩

omit [DecidableEq K2] in
theorem ne_of_mem_keys {entries : List (Sigma fun _ : K2 => V2)} {key : K2} (absent : key ∉ entries.keys)
    {entry : Sigma fun _ : K2 => V2} (member : entry ∈ entries) : entry.1 ≠ key :=
  fun same => absent (same ▸ List.mem_keys_of_mem member)

/-- Every key of an association list splits its entries at its value. -/
theorem exists_split_of_mem {contents : AList fun _ : K2 => V2} {key : K2} (present : key ∈ contents.keys) :
    ∃ val front back, contents.entries = front ++ ⟨key, val⟩ :: back ∧ contents.lookup key = some val := by
  obtain ⟨val, found⟩ := Option.isSome_iff_exists.mp (AList.lookup_isSome.mpr (AList.mem_keys.mp present))
  obtain ⟨front, back, split⟩ := List.append_of_mem (AList.mem_lookup_iff.mp found)
  exact ⟨val, front, back, split, found⟩

end Split

namespace RawLinkedMap

variable {R K2 V2 K V : Type} [DecidableEq R] [DecidableEq K2]
  {oldFinal : K2 → R} {newFinal : K → R} {translateKey : K2 → K} {translateVal : V2 → V}
  {raw : RawLinkedMap R K2 V2 K V} {contents : AList fun _ : K2 => V2}

/-- Before an element is migrated, its old cell is still in place. -/
theorem lookup_migrateAll_front (represents : LinkedMap.Represents (raw.oldView oldFinal) contents)
    (apart : KeysApart oldFinal newFinal translateKey contents.keys) {start : RawLinkedMap R K2 V2 K V}
    (sameCells : start.cells = raw.cells) {front back : List (Sigma fun _ : K2 => V2)} {key : K2} {val : V2}
    (split : contents.entries = front ++ ⟨key, val⟩ :: back) :
    (migrateAll oldFinal newFinal translateKey translateVal contents.keys front start).cells.lookup
        (oldFinal key) = some (.old val ⟨before contents.keys key, after contents.keys key⟩) := by
  obtain ⟨keysSplit, notFront, -⟩ := keys_of_split split
  have present : key ∈ contents.keys := by simp [keysSplit]
  -- no element before it writes to its old final key, or kills it
  rw [lookup_migrateAll_of_forall_ne _ _ fun entry member =>
    have inKeys : entry.1 ∈ contents.keys := by simp [keysSplit, List.mem_keys_of_mem member]
    have other := ne_of_mem_keys notFront member
    ⟨(apart.oldInjective.ne other).symm, (apart.apart entry.1 inKeys key present other).symm⟩, sameCells]
  have found : contents.lookup key = some val :=
    AList.mem_lookup_iff.mpr (split ▸ List.mem_append_right _ List.mem_cons_self)
  apply lookup_of_oldView
  rw [represents.lookup_eq, found]
  rfl

/-- The loop over the elements from `key` on migrates them all, one after the
other, and ends with `Ok(())` at the last. -/
theorem translateLoop_migrateAll (represents : LinkedMap.Represents (raw.oldView oldFinal) contents)
    (apart : KeysApart oldFinal newFinal translateKey contents.keys) (start : RawLinkedMap R K2 V2 K V)
    (sameCells : start.cells = raw.cells) (rest : List (Sigma fun _ : K2 => V2)) :
    ∀ front key val, contents.entries = front ++ ⟨key, val⟩ :: rest → ∀ fuel, rest.length < fuel →
      ∀ lastKey, translateLoop oldFinal newFinal translateKey translateVal fuel lastKey key
          (migrateAll oldFinal newFinal translateKey translateVal contents.keys front start) =
        some (.ok (), migrateAll oldFinal newFinal translateKey translateVal contents.keys
          contents.entries start) := by
  induction rest with
  | nil =>
    intro front key val split fuel enough lastKey
    obtain ⟨fuel, rfl⟩ : ∃ remaining, fuel = remaining + 1 := ⟨fuel - 1, by simp at enough; omega⟩
    obtain ⟨keysSplit, notFront, -⟩ := keys_of_split split
    have last : after contents.keys key = none := by
      rw [keysSplit, after_append_cons notFront]
      rfl
    rw [translateLoop_succ_of_old fuel lastKey (lookup_migrateAll_front represents apart sameCells split)]
    conv_rhs => rw [split, migrateAll_append]
    -- the key has no follower, and the loop ends after it
    split
    · rfl
    · rename_i following
      rw [last] at following
      cases following
  | cons following rest inductionHypothesis =>
    intro front key val split fuel enough lastKey
    obtain ⟨fuel, rfl⟩ : ∃ remaining, fuel = remaining + 1 := ⟨fuel - 1, by simp at enough; omega⟩
    obtain ⟨keysSplit, notFront, -⟩ := keys_of_split split
    have next : after contents.keys key = some following.1 := by
      rw [keysSplit, after_append_cons notFront]
      rfl
    rw [translateLoop_succ_of_old fuel lastKey (lookup_migrateAll_front represents apart sameCells split)]
    -- the walk goes on at the follower, with one more element migrated
    split
    · rename_i none
      rw [next] at none
      cases none
    · rename_i nextKey found
      rw [next] at found
      cases found
      have moved : contents.entries = (front ++ [⟨key, val⟩]) ++ ⟨following.1, following.2⟩ :: rest := by
        simp [split]
      rw [← inductionHypothesis (front ++ [⟨key, val⟩]) following.1 following.2 moved fuel
        (by simp at enough ⊢; omega) (some (translateKey key)), migrateAll_append]
      rfl

/-- An old final key is left empty by the migration, unless it is the new
final key of its own element. -/
theorem lookup_oldFinal_migrateAll (apart : KeysApart oldFinal newFinal translateKey contents.keys)
    (start : RawLinkedMap R K2 V2 K V) {key : K2} (present : key ∈ contents.keys) :
    (migrateAll oldFinal newFinal translateKey translateVal contents.keys contents.entries start).cells.lookup
        (oldFinal key) = none ∨ newFinal (translateKey key) = oldFinal key := by
  by_cases reused : newFinal (translateKey key) = oldFinal key
  · exact .inr reused
  · left
    obtain ⟨val, front, back, split, -⟩ := exists_split_of_mem present
    obtain ⟨-, -, notBack⟩ := keys_of_split split
    rw [split, migrateAll_append, migrateAll, List.foldl_cons, ← migrateAll,
      lookup_migrateAll_of_forall_ne _ _ fun entry member =>
        have inKeys : entry.1 ∈ contents.keys := by
          rw [AList.keys, split]
          simp [List.mem_keys_of_mem member]
        have other := ne_of_mem_keys notBack member
        ⟨(apart.oldInjective.ne other).symm, (apart.apart entry.1 inKeys key present other).symm⟩]
    simp only [migrate]
    rw [KVMap.lookup_insert_of_ne _ _ (Ne.symm reused), KVMap.lookup_remove_self]

end RawLinkedMap

/-! ## The map the migration leaves -/

section Translated

variable {K2 V2 K V : Type} [DecidableEq K2] [DecidableEq K]
  (translateKey : K2 → K) (translateVal : V2 → V)

/-- The elements translated, as an association list: distinct elements get
distinct keys. -/
def translateContents (contents : AList fun _ : K2 => V2)
    (distinct : (contents.keys.map translateKey).Nodup) : AList fun _ : K => V :=
  ⟨contents.entries.map fun entry => ⟨translateKey entry.1, translateVal entry.2⟩, by
    simpa [List.NodupKeys, List.keys, AList.keys, Function.comp_def] using distinct⟩

variable {translateKey translateVal} {contents : AList fun _ : K2 => V2}
  {distinct : (contents.keys.map translateKey).Nodup}

omit [DecidableEq K2] [DecidableEq K] in
theorem keys_translateContents :
    (translateContents translateKey translateVal contents distinct).keys = contents.keys.map translateKey := by
  simp [translateContents, AList.keys, List.keys, Function.comp_def]

theorem lookup_translateContents {key : K2} {val : V2} (found : contents.lookup key = some val) :
    (translateContents translateKey translateVal contents distinct).lookup (translateKey key) =
      some (translateVal val) :=
  AList.mem_lookup_iff.mpr (List.mem_map.mpr ⟨⟨key, val⟩, AList.mem_lookup_iff.mp found, rfl⟩)

omit [DecidableEq K2] in
theorem lookup_translateContents_of_not_mem {key : K} (absent : key ∉ contents.keys.map translateKey) :
    (translateContents translateKey translateVal contents distinct).lookup key = none := by
  rw [AList.lookup_eq_none, AList.mem_keys, keys_translateContents]
  exact absent

omit [DecidableEq K2] [DecidableEq K] in
theorem entries_translateContents :
    LinkedMap.Spec.entries (translateContents translateKey translateVal contents distinct) =
      (LinkedMap.Spec.entries contents).map fun entry => (translateKey entry.1, translateVal entry.2) := by
  simp [LinkedMap.Spec.entries, translateContents, Function.comp_def]

end Translated

namespace RawLinkedMap

variable {R K2 V2 K V : Type} [DecidableEq R] [DecidableEq K2] [DecidableEq K]
  {oldFinal : K2 → R} {newFinal : K → R} {translateKey : K2 → K} {translateVal : V2 → V}
  {raw : RawLinkedMap R K2 V2 K V} {contents : AList fun _ : K2 => V2}

/-- After the walk, the new view holds the translated elements, each linked
to the translations of its neighbours, and nothing else. -/
theorem represents_newView_migrateAll (onlyOld : raw.OnlyOld) (apart : KeysApart oldFinal newFinal translateKey contents.keys) {first : K2}
    (firstKey : contents.keys.head? = some first) :
    LinkedMap.Represents
      ((migrateAll oldFinal newFinal translateKey translateVal contents.keys contents.entries
        (raw.writeNewHead (translateKey first))).newView newFinal)
      (translateContents translateKey translateVal contents apart.distinct) := by
  constructor
  · simp [newView, writeNewHead, keys_translateContents, List.head?_map, firstKey]
  · intro x
    have view : ∀ migrated : RawLinkedMap R K2 V2 K V,
        (migrated.newView newFinal).entries.lookup x = migrated.readNew (newFinal x) := fun _ => rfl
    rw [view, keys_translateContents]
    by_cases renamed : x ∈ contents.keys.map translateKey
    · obtain ⟨key, present, rfl⟩ := List.mem_map.mp renamed
      obtain ⟨val, front, back, split, found⟩ := exists_split_of_mem present
      obtain ⟨-, -, notBack⟩ := keys_of_split split
      -- the element is written at its step, and no later step touches its new final key
      have written : (migrateAll oldFinal newFinal translateKey translateVal contents.keys contents.entries
          (raw.writeNewHead (translateKey first))).cells.lookup (newFinal (translateKey key)) =
          some (.new (translateVal val) (translateLinkage translateKey
            ⟨before contents.keys key, after contents.keys key⟩)) := by
        rw [split, migrateAll_append, migrateAll, List.foldl_cons, ← migrateAll,
          lookup_migrateAll_of_forall_ne _ _ fun entry member =>
            have inKeys : entry.1 ∈ contents.keys := by
              rw [AList.keys, split]
              simp [List.mem_keys_of_mem member]
            have other := ne_of_mem_keys notBack member
            ⟨apart.apart key present entry.1 inKeys (Ne.symm other),
              apart.newInjective.ne fun same =>
                other (List.inj_on_of_nodup_map apart.distinct inKeys present same.symm)⟩]
        simp only [migrate]
        exact KVMap.lookup_insert_self _ _ _
      rw [readNew, written, lookup_translateContents found,
        before_map apart.distinct present, after_map apart.distinct present]
      rfl
    · rw [lookup_translateContents_of_not_mem renamed, Option.map_none]
      -- nothing is written at its new final key, and no new cell was there before
      have unwritten : ∀ entry ∈ contents.entries, newFinal x ≠ newFinal (translateKey entry.1) :=
        fun entry member => apart.newInjective.ne fun same =>
          renamed (same ▸ List.mem_map_of_mem (List.mem_keys_of_mem member))
      unfold readNew
      rcases lookup_migrateAll_of_not_written contents.keys (raw.writeNewHead (translateKey first))
          unwritten with killed | kept
      · rw [killed]
      · rw [kept]
        split
        · rename_i val linkage found
          exact absurd found (onlyOld _ val linkage)
        · rfl

/-- Migrating a linked map preserves it: for a well-formed map of at least one
element in the old types, under the conditions on the final keys,
`translate` returns `Ok(())`, and the storage then holds a well-formed map of
the translated elements in the same order, with every old final key emptied
unless it is the new final key of its own element. -/
theorem translate_migrates (represents : LinkedMap.Represents (raw.oldView oldFinal) contents)
    (onlyOld : raw.OnlyOld) (apart : KeysApart oldFinal newFinal translateKey contents.keys)
    (nonempty : contents.entries ≠ []) {fuel : Nat} (enough : contents.entries.length ≤ fuel) :
    ∃ migrated, translate oldFinal newFinal translateKey translateVal fuel raw = some (.ok (), migrated) ∧
      LinkedMap.WellFormed (migrated.newView newFinal)
        ((LinkedMap.Spec.entries contents).map fun entry => (translateKey entry.1, translateVal entry.2)) ∧
      ∀ key ∈ contents.keys,
        migrated.cells.lookup (oldFinal key) = none ∨ newFinal (translateKey key) = oldFinal key := by
  obtain ⟨⟨first, firstVal⟩, rest, split⟩ := List.exists_cons_of_ne_nil nonempty
  have firstKey : contents.keys.head? = some first := by
    rw [AList.keys, split]
    rfl
  have head : raw.readOldHead = some first := represents.head_eq.trans firstKey
  refine ⟨migrateAll oldFinal newFinal translateKey translateVal contents.keys contents.entries
      (raw.writeNewHead (translateKey first)), ?_, ?_, fun key present =>
    lookup_oldFinal_migrateAll apart _ present⟩
  · -- the head read and translated, then every element walked from it
    rw [translate, head]
    exact translateLoop_migrateAll represents apart (raw.writeNewHead (translateKey first)) rfl rest []
      first firstVal split fuel (by rw [split] at enough; simp at enough; omega) none
  · have translated : LinkedMap.WellFormed _
        (LinkedMap.Spec.entries (translateContents translateKey translateVal contents apart.distinct)) :=
      (represents_newView_migrateAll onlyOld apart firstKey).wellFormed
    rw [entries_translateContents] at translated
    exact translated

/-- A map of two elements, `1 ↦ 10` then `2 ↦ 20`, stored at final keys
equal to its keys. -/
def twoElementMap : RawLinkedMap Nat Nat Nat Nat Nat :=
  ⟨(KVMap.empty.insert 2 (.old 20 ⟨some 1, none⟩)).insert 1 (.old 10 ⟨none, some 2⟩), some (.inl 1)⟩

/-- The elements of `twoElementMap`, in order. -/
def twoElementContents : AList fun _ : Nat => Nat :=
  ((∅ : AList fun _ : Nat => Nat).insert 2 20).insert 1 10

/-- The two elements moved to keys `11` and `12`, with their values raised
by one. -/
theorem translate_migrates_two_elements :
    LinkedMap.Represents (twoElementMap.oldView id) twoElementContents ∧ twoElementMap.OnlyOld ∧
      KeysApart id id (· + 10) twoElementContents.keys ∧ twoElementContents.entries ≠ [] ∧
      twoElementContents.entries.length ≤ 2 ∧
      ∃ migrated, translate id id (· + 10) (· + 1) 2 twoElementMap = some (.ok (), migrated) ∧
        LinkedMap.WellFormed (migrated.newView id)
          ((LinkedMap.Spec.entries twoElementContents).map fun entry => (entry.1 + 10, entry.2 + 1)) ∧
        ∀ key ∈ twoElementContents.keys, migrated.cells.lookup (id key) = none ∨ id (key + 10) = id key := by
  have represents : LinkedMap.Represents (twoElementMap.oldView id) twoElementContents := by
    refine ⟨rfl, fun x => ?_⟩
    by_cases first : x = 1
    · subst first
      rfl
    by_cases second : x = 2
    · subst second
      rfl
    have absent : twoElementContents.lookup x = none := by
      rw [twoElementContents, AList.lookup_insert_ne first, AList.lookup_insert_ne second]
      rfl
    simp [oldView, twoElementMap, KVMap.lookup, KVMap.insert, KVMap.empty, first, second, absent]
  have onlyOld : twoElementMap.OnlyOld := by
    intro key val linkage
    simp only [twoElementMap, KVMap.lookup, KVMap.insert, KVMap.empty]
    split_ifs <;> simp
  have apart : KeysApart id id (· + 10) twoElementContents.keys :=
    ⟨Function.injective_id, Function.injective_id, by decide, by decide⟩
  exact ⟨represents, onlyOld, apart, by decide, by decide,
    translate_migrates represents onlyOld apart (by decide) (by decide)⟩

end RawLinkedMap

/-- `translate` on the empty map, whose storage has no head, returns
`Err(None)`, though every condition on the keys holds: with `Nat` keys and
values, final keys equal to the keys and the identity translations. -/
theorem translate_empty_map_fails :
    LinkedMap.Represents ((⟨KVMap.empty, none⟩ : RawLinkedMap Nat Nat Nat Nat Nat).oldView id) ∅ ∧
      RawLinkedMap.OnlyOld (⟨KVMap.empty, none⟩ : RawLinkedMap Nat Nat Nat Nat Nat) ∧
      KeysApart id id id (∅ : AList fun _ : Nat => Nat).keys ∧
      ∀ fuel, RawLinkedMap.translate id id id id fuel (⟨KVMap.empty, none⟩ : RawLinkedMap Nat Nat Nat Nat Nat) =
        some (.error none, ⟨KVMap.empty, none⟩) :=
  ⟨⟨rfl, fun _ => rfl⟩, fun _ _ _ => by simp [KVMap.lookup, KVMap.empty],
    ⟨Function.injective_id, Function.injective_id, by decide, by simp⟩, fun _ => rfl⟩

end OffchainStorage.Support
