import OffchainStorage.Lib.RustInt

/-!
# The freeing-bump heap allocator

`FreeingBumpHeapAllocator` serves the allocations of a Wasm runtime from the
runtime's own linear memory.  A request is rounded up to a power of two from
8 bytes to 16 MiB, one of `N = 22` size classes.  Each class keeps a list of
freed blocks, threaded through the blocks themselves, and a request whose list
is empty is bumped from the untouched end of the heap.  The 8 bytes before a
block hold its class while it is live, and the next free block of its list
while it is free.

The model follows the source function by function.  The memory is the byte
list `mem`; offsets and sizes are `u32`, natural numbers whose overflow in a
debug build is a panic, the outer `none`.  A call returns its `Result` with
the allocator and the memory it leaves, since a call that fails part-way keeps
what it changed before the error.  A `Pointer<u8>` is its address.

Offsets into the heap are relative to `ptr_offset`, and a head of 0 marks an
empty free list; but the first block bumped from the heap has its prefix at
offset 0, so freeing it puts it on no list (`freed_first_block_is_lost`).

The runtime owns the memory and every pointer it frees, and three of its
inputs make a call panic (`allocator_panics_on_runtime_input`): a pointer
below the heap, whose offset underflows; a prefix naming size class `N`,
which the check `list_index > heads.len()` lets through to `heads[N]`; and a
free-list link overwritten in a freed block, which becomes the head of its
list and fails the `assert!` of the next allocation from it.
-/

namespace OffchainStorage.Allocator

open RustInt

/-- `ALIGNMENT`. -/
def alignment : Nat :=
  8

/-- `N`, the number of size classes. -/
def N : Nat :=
  22

/-- `MAX_POSSIBLE_ALLOCATION`, 2^24 bytes. -/
def maxPossibleAllocation : Nat :=
  16777216

/-- `MIN_POSSIBLE_ALLOCATION`. -/
def minPossibleAllocation : Nat :=
  8

/-- `PREFIX_SIZE`. -/
def prefixSize : Nat :=
  8

/-- The errors of `crate::error::Error` the allocator returns. -/
inductive Error where
  | requestedAllocationTooLarge
  | allocatorOutOfSpace
  | allocator (msg : String)
  deriving DecidableEq, Repr

structure FreeingBumpHeapAllocator where
  bumper : Nat
  heads : List Nat
  ptrOffset : Nat
  totalSize : Nat
  deriving DecidableEq, Repr

namespace FreeingBumpHeapAllocator

/-- `new`: the heap starts at the first multiple of `ALIGNMENT` from
`heap_base`. -/
def new (heapBase : Nat) : Option FreeingBumpHeapAllocator :=
  (checkedAdd 32 heapBase alignment).map fun bound =>
    ⟨0, List.replicate N 0, (bound - 1) / alignment * alignment, 0⟩

/-- `get_item_size_from_index`, `1 << 3 << index`. -/
def getItemSizeFromIndex (index : Nat) : Nat :=
  1 <<< 3 <<< index

section Memory

variable (allocator : FreeingBumpHeapAllocator)

/-- `heap_range`: the bytes `start..end` of the memory that `length` bytes at
heap offset `offset` occupy, when they lie inside it. -/
def heapRange (offset length heapLen : Nat) : Option (Nat × Nat) := do
  let start ← checkedAdd 32 offset allocator.ptrOffset
  let stop ← checkedAdd 32 start length
  if stop ≤ heapLen then some (start, stop) else none

/-- `get_heap_u64`: the `u64` stored at a heap offset.  The outer `none` is
the `expect` on the conversion of the 8-byte slice, which never fails. -/
def getHeapU64 (heap : List UInt8) (offset : Nat) : Option (Except Error Nat) :=
  match allocator.heapRange offset 8 heap.length with
  | none => some (.error (.allocator "read out of heap bounds"))
  | some (start, stop) =>
    (decodeLE 8 ((heap.drop start).take (stop - start))).map fun decoded => .ok decoded.1

/-- `set_heap_u64`: the memory with a `u64` written at a heap offset. -/
def setHeapU64 (heap : List UInt8) (offset val : Nat) : Except Error (List UInt8) :=
  match allocator.heapRange offset 8 heap.length with
  | none => .error (.allocator "write out of heap bounds")
  | some (start, stop) => .ok (heap.take start ++ encodeLE 8 val ++ heap.drop stop)

end Memory

section Allocate

variable (allocator : FreeingBumpHeapAllocator) (mem : List UInt8)

/-- `bump`: the bumper before the increase, with the bumper moved past the
block and its prefix. -/
def bump (itemSize maxHeapSize : Nat) :
    Option (Except Error (Nat × FreeingBumpHeapAllocator)) := do
  let needed ← checkedAdd 32 allocator.bumper prefixSize
  let needed ← checkedAdd 32 needed itemSize
  if maxHeapSize < needed then
    some (.error .allocatorOutOfSpace)
  else do
    let step ← checkedAdd 32 itemSize prefixSize
    let bumper ← checkedAdd 32 allocator.bumper step
    some (.ok (allocator.bumper, { allocator with bumper := bumper }))

/-- The free-list branch of `allocate`: the block `item` at the head of the
list, whose prefix holds the next free block. -/
def takeFree (listIndex itemSize maxHeapSize item : Nat) :
    Option (Except Error (Nat × FreeingBumpHeapAllocator)) := do
  let ptr ← checkedAdd 32 item prefixSize
  let stop ← checkedAdd 32 ptr itemSize
  -- the `assert!` that free lists hold only blocks inside the heap
  if maxHeapSize < stop then
    none
  else
    match ← allocator.getHeapU64 mem item with
    | .error e => some (.error e)
    | .ok next =>
      match tryInto 32 next with
      | none => some (.error (.allocator "read invalid free list pointer"))
      | some next => some (.ok (ptr, { allocator with heads := allocator.heads.set listIndex next }))

/-- The block `allocate` hands out, as an offset past its prefix: the head of
the size class's free list if there is one, and a bumped block otherwise. -/
def takeBlock (listIndex itemSize maxHeapSize : Nat) :
    Option (Except Error (Nat × FreeingBumpHeapAllocator)) := do
  let head ← allocator.heads[listIndex]?
  if head ≠ 0 then
    allocator.takeFree mem listIndex itemSize maxHeapSize head
  else
    match ← allocator.bump itemSize maxHeapSize with
    | .error e => some (.error e)
    | .ok (res, bumped) => do
      let ptr ← checkedAdd 32 res prefixSize
      some (.ok (ptr, bumped))

/-- `allocate`: the address of a block of at least `size` bytes. -/
def allocate (size : Nat) :
    Option (Except Error Nat × FreeingBumpHeapAllocator × List UInt8) := do
  let memSize ← tryInto 32 mem.length
  let maxHeapSize ← checkedSub memSize allocator.ptrOffset
  if maxPossibleAllocation < size then
    return (.error .requestedAllocationTooLarge, allocator, mem)
  let size := max size minPossibleAllocation
  let itemSize ← nextPowerOfTwo 32 size
  let needed ← checkedAdd 32 itemSize prefixSize
  let needed ← checkedAdd 32 needed allocator.totalSize
  if maxHeapSize < needed then
    return (.error .allocatorOutOfSpace, allocator, mem)
  let listIndex := trailingZeros 32 itemSize - 3
  match ← allocator.takeBlock mem listIndex itemSize maxHeapSize with
  | .error e => return (.error e, allocator, mem)
  | .ok (ptr, taken) =>
    -- the prefix records the size class; `ptr` is at least `PREFIX_SIZE` here
    match taken.setHeapU64 mem (ptr - prefixSize) listIndex with
    | .error e => return (.error e, taken, mem)
    | .ok written => do
      let totalSize ← checkedAdd 32 taken.totalSize itemSize
      let totalSize ← checkedAdd 32 totalSize prefixSize
      let address ← checkedAdd 32 taken.ptrOffset ptr
      return (.ok address, { taken with totalSize := totalSize }, written)

end Allocate

section Deallocate

variable (allocator : FreeingBumpHeapAllocator) (mem : List UInt8)

/-- The size class that `deallocate` reads from a block's prefix, with its
checks. -/
def readListIndex (offset : Nat) : Option (Except Error Nat) := do
  match ← allocator.getHeapU64 mem offset with
  | .error e => some (.error e)
  | .ok stored =>
    -- `try_into::<usize>()` on a 64-bit host
    match tryInto 64 stored with
    | none => some (.error (.allocator "read invalid list index"))
    | some listIndex =>
      if allocator.heads.length < listIndex then
        some (.error (.allocator "read invalid list index"))
      else
        some (.ok listIndex)

/-- `deallocate`: the block at `ptr` pushed on the free list its prefix
names. -/
def deallocate (ptr : Nat) :
    Option (Except Error Unit × FreeingBumpHeapAllocator × List UInt8) := do
  let ptr ← checkedSub ptr allocator.ptrOffset
  if ptr < prefixSize then
    return (.error (.allocator "Invalid pointer for deallocation"), allocator, mem)
  match ← allocator.readListIndex mem (ptr - prefixSize) with
  | .error e => return (.error e, allocator, mem)
  | .ok listIndex =>
    let head ← allocator.heads[listIndex]?
    match allocator.setHeapU64 mem (ptr - prefixSize) head with
    | .error e => return (.error e, allocator, mem)
    | .ok written => do
      let pushed := { allocator with heads := allocator.heads.set listIndex (ptr - prefixSize) }
      let cost ← checkedAdd 32 (cast 32 (getItemSizeFromIndex listIndex)) prefixSize
      match checkedSub pushed.totalSize cost with
      | none =>
        return (.error (.allocator "Unable to subtract from total heap size without overflow"),
          pushed, written)
      | some totalSize => return (.ok (), { pushed with totalSize := totalSize }, written)

end Deallocate

/-! ## Memory accesses -/

section Memory

variable (allocator : FreeingBumpHeapAllocator)

theorem heapRange_of_le {offset length heapLen : Nat}
    (inside : offset + allocator.ptrOffset + length ≤ heapLen) (addressable : heapLen < 2 ^ 32) :
    allocator.heapRange offset length heapLen =
      some (offset + allocator.ptrOffset, offset + allocator.ptrOffset + length) := by
  have startFits : offset + allocator.ptrOffset < 2 ^ 32 := by omega
  have stopFits : offset + allocator.ptrOffset + length < 2 ^ 32 := by omega
  simp [heapRange, checkedAdd_of_lt startFits, checkedAdd_of_lt stopFits, inside]

theorem setHeapU64_of_le {heap : List UInt8} {offset : Nat} (val : Nat)
    (inside : offset + allocator.ptrOffset + 8 ≤ heap.length) (addressable : heap.length < 2 ^ 32) :
    allocator.setHeapU64 heap offset val =
      .ok (heap.take (offset + allocator.ptrOffset) ++ encodeLE 8 val ++
        heap.drop (offset + allocator.ptrOffset + 8)) := by
  simp [setHeapU64, allocator.heapRange_of_le inside addressable]

/-- A write of 8 bytes inside the memory keeps its length. -/
theorem length_write (heap : List UInt8) (start val : Nat) (inside : start + 8 ≤ heap.length) :
    (heap.take start ++ encodeLE 8 val ++ heap.drop (start + 8)).length = heap.length := by
  simp [length_encodeLE]
  omega

/-- A `u64` written at a heap offset is read back there. -/
theorem getHeapU64_of_write {heap : List UInt8} {offset val : Nat}
    (inside : offset + allocator.ptrOffset + 8 ≤ heap.length) (addressable : heap.length < 2 ^ 32) :
    allocator.getHeapU64 (heap.take (offset + allocator.ptrOffset) ++ encodeLE 8 val ++
        heap.drop (offset + allocator.ptrOffset + 8)) offset = some (.ok (val % 2 ^ 64)) := by
  have sameLength := length_write heap (offset + allocator.ptrOffset) val inside
  rw [getHeapU64, allocator.heapRange_of_le (sameLength ▸ inside) (sameLength ▸ addressable)]
  have prefixLength : (heap.take (offset + allocator.ptrOffset)).length = offset + allocator.ptrOffset := by
    simp; omega
  simp only [List.append_assoc, List.drop_left' prefixLength, Nat.add_sub_cancel_left]
  rw [List.take_left' (length_encodeLE 8 val)]
  have decoded := decodeLE_encodeLE 8 val []
  rw [List.append_nil] at decoded
  simp [decoded]

/-- What `get_heap_u64` reads fits a `u64`. -/
theorem getHeapU64_lt {heap : List UInt8} {offset value : Nat}
    (read : allocator.getHeapU64 heap offset = some (.ok value)) : value < 2 ^ 64 := by
  unfold getHeapU64 at read
  split at read
  · cases read
  · obtain ⟨decoded, found, same⟩ := Option.map_eq_some_iff.mp read
    cases same
    exact decodeLE_lt 8 found

end Memory

/-! ## Allocation -/

/-- A new allocator has bumped nothing, has every free list empty and starts
its heap at an aligned offset from `heap_base`. -/
theorem new_spec {heapBase : Nat} {allocator : FreeingBumpHeapAllocator}
    (created : new heapBase = some allocator) :
    allocator.bumper = 0 ∧ allocator.heads = List.replicate N 0 ∧ allocator.totalSize = 0 ∧
      heapBase ≤ allocator.ptrOffset ∧ allocator.ptrOffset % alignment = 0 := by
  obtain ⟨bound, fits, built⟩ := Option.map_eq_some_iff.mp created
  have bound_eq : bound = heapBase + alignment := by
    unfold checkedAdd at fits
    split at fits
    · exact (Option.some.inj fits).symm
    · cases fits
  subst built bound_eq
  refine ⟨rfl, rfl, rfl, ?_, ?_⟩
  · simp only [alignment]
    omega
  · exact Nat.mul_mod_left _ _

section Allocation

variable (allocator : FreeingBumpHeapAllocator) (mem : List UInt8)

theorem bump_of_le {itemSize maxHeapSize : Nat}
    (fits : allocator.bumper + prefixSize + itemSize ≤ maxHeapSize) (addressable : maxHeapSize < 2 ^ 32) :
    allocator.bump itemSize maxHeapSize =
      some (.ok (allocator.bumper, { allocator with bumper := allocator.bumper + (itemSize + prefixSize) })) := by
  have neededFits : allocator.bumper + prefixSize < 2 ^ 32 := by omega
  have stepFits : itemSize + prefixSize < 2 ^ 32 := by omega
  have bumperFits : allocator.bumper + (itemSize + prefixSize) < 2 ^ 32 := by omega
  simp [bump, checkedAdd_of_lt neededFits, checkedAdd_of_lt (Nat.lt_of_le_of_lt fits addressable),
    checkedAdd_of_lt stepFits, checkedAdd_of_lt bumperFits, Nat.not_lt.mpr fits]

theorem bump_of_lt {itemSize maxHeapSize : Nat}
    (exhausted : maxHeapSize < allocator.bumper + prefixSize + itemSize)
    (addressable : allocator.bumper + prefixSize + itemSize < 2 ^ 32) :
    allocator.bump itemSize maxHeapSize = some (.error .allocatorOutOfSpace) := by
  have neededFits : allocator.bumper + prefixSize < 2 ^ 32 := by omega
  simp [bump, checkedAdd_of_lt neededFits, checkedAdd_of_lt addressable, exhausted]

theorem takeBlock_of_empty {listIndex itemSize maxHeapSize : Nat}
    (emptyList : allocator.heads[listIndex]? = some 0)
    (fits : allocator.bumper + prefixSize + itemSize ≤ maxHeapSize) (addressable : maxHeapSize < 2 ^ 32) :
    allocator.takeBlock mem listIndex itemSize maxHeapSize =
      some (.ok (allocator.bumper + prefixSize,
        { allocator with bumper := allocator.bumper + (itemSize + prefixSize) })) := by
  have ptrFits : allocator.bumper + prefixSize < 2 ^ 32 := by omega
  simp [takeBlock, emptyList, allocator.bump_of_le fits addressable, checkedAdd_of_lt ptrFits]

theorem takeBlock_of_exhausted {listIndex itemSize maxHeapSize : Nat}
    (emptyList : allocator.heads[listIndex]? = some 0)
    (exhausted : maxHeapSize < allocator.bumper + prefixSize + itemSize)
    (addressable : allocator.bumper + prefixSize + itemSize < 2 ^ 32) :
    allocator.takeBlock mem listIndex itemSize maxHeapSize = some (.error .allocatorOutOfSpace) := by
  simp [takeBlock, emptyList, allocator.bump_of_lt exhausted addressable]

/-- `allocate` when the size class's free list is empty and the heap has room:
a block bumped from the heap, whose prefix records its class. -/
theorem allocate_of_bump {size itemSize : Nat}
    (addressable : mem.length < 2 ^ 32) (heapInside : allocator.ptrOffset ≤ mem.length)
    (allowed : size ≤ maxPossibleAllocation)
    (rounded : nextPowerOfTwo 32 (max size minPossibleAllocation) = some itemSize)
    (emptyList : allocator.heads[trailingZeros 32 itemSize - 3]? = some 0)
    (accounted : itemSize + prefixSize + allocator.totalSize ≤ mem.length - allocator.ptrOffset)
    (fits : allocator.bumper + prefixSize + itemSize ≤ mem.length - allocator.ptrOffset) :
    allocator.allocate mem size =
      some (.ok (allocator.ptrOffset + (allocator.bumper + prefixSize)),
        { allocator with
          bumper := allocator.bumper + (itemSize + prefixSize)
          totalSize := allocator.totalSize + itemSize + prefixSize },
        mem.take (allocator.bumper + allocator.ptrOffset) ++
          encodeLE 8 (trailingZeros 32 itemSize - 3) ++
          mem.drop (allocator.bumper + allocator.ptrOffset + 8)) := by
  have maxHeapFits : mem.length - allocator.ptrOffset < 2 ^ 32 := by omega
  have stepFits : itemSize + prefixSize < 2 ^ 32 := by omega
  have neededFits : itemSize + prefixSize + allocator.totalSize < 2 ^ 32 := by omega
  have totalFits : allocator.totalSize + itemSize < 2 ^ 32 := by omega
  have newTotalFits : allocator.totalSize + itemSize + prefixSize < 2 ^ 32 := by omega
  have addressFits : allocator.ptrOffset + (allocator.bumper + prefixSize) < 2 ^ 32 := by omega
  have prefixInside : allocator.bumper + allocator.ptrOffset + 8 ≤ mem.length := by
    simp only [prefixSize] at fits
    omega
  simp [allocate, tryInto_of_lt addressable, checkedSub_of_le heapInside, Nat.not_lt.mpr allowed,
    rounded, checkedAdd_of_lt stepFits, checkedAdd_of_lt neededFits, Nat.not_lt.mpr accounted,
    allocator.takeBlock_of_empty mem emptyList fits maxHeapFits, checkedAdd_of_lt totalFits,
    checkedAdd_of_lt newTotalFits, checkedAdd_of_lt addressFits,
    setHeapU64_of_le { allocator with bumper := allocator.bumper + (itemSize + prefixSize) } _
      prefixInside addressable]

/-- `allocate` when the size class's free list is empty and the bumper has no
room left: `AllocatorOutOfSpace`, with nothing changed. -/
theorem allocate_of_exhausted {size itemSize : Nat}
    (addressable : mem.length < 2 ^ 32) (heapInside : allocator.ptrOffset ≤ mem.length)
    (allowed : size ≤ maxPossibleAllocation)
    (rounded : nextPowerOfTwo 32 (max size minPossibleAllocation) = some itemSize)
    (emptyList : allocator.heads[trailingZeros 32 itemSize - 3]? = some 0)
    (accounted : itemSize + prefixSize + allocator.totalSize ≤ mem.length - allocator.ptrOffset)
    (exhausted : mem.length - allocator.ptrOffset < allocator.bumper + prefixSize + itemSize)
    (bumperFits : allocator.bumper + prefixSize + itemSize < 2 ^ 32) :
    allocator.allocate mem size = some (.error .allocatorOutOfSpace, allocator, mem) := by
  have stepFits : itemSize + prefixSize < 2 ^ 32 := by omega
  have neededFits : itemSize + prefixSize + allocator.totalSize < 2 ^ 32 := by omega
  simp [allocate, tryInto_of_lt addressable, checkedSub_of_le heapInside, Nat.not_lt.mpr allowed,
    rounded, checkedAdd_of_lt stepFits, checkedAdd_of_lt neededFits, Nat.not_lt.mpr accounted,
    allocator.takeBlock_of_exhausted mem emptyList exhausted bumperFits]

/-! ## Deallocation -/

/-- The check on the size class read from a prefix lets every class up to
`heads.len()` through, one more than there are lists. -/
theorem readListIndex_of_le {offset listIndex : Nat}
    (recorded : allocator.getHeapU64 mem offset = some (.ok listIndex))
    (valid : listIndex ≤ allocator.heads.length) :
    allocator.readListIndex mem offset = some (.ok listIndex) := by
  have fits : listIndex < 2 ^ 64 := allocator.getHeapU64_lt recorded
  simp [readListIndex, recorded, tryInto_of_lt fits, Nat.not_lt.mpr valid]

/-- `deallocate` of a block whose prefix, at heap offset `offset`, names a
size class: the block becomes the head of that class's list, its prefix
holding the old head, and the total size shrinks by the class's size and
the prefix. -/
theorem deallocate_of_prefix (offset : Nat) {listIndex head : Nat}
    (addressable : mem.length < 2 ^ 32) (inside : offset + allocator.ptrOffset + 8 ≤ mem.length)
    (recorded : allocator.getHeapU64 mem offset = some (.ok listIndex))
    (listed : allocator.heads[listIndex]? = some head)
    (accounted : getItemSizeFromIndex listIndex + prefixSize ≤ allocator.totalSize)
    (costFits : getItemSizeFromIndex listIndex + prefixSize < 2 ^ 32) :
    allocator.deallocate mem (allocator.ptrOffset + (offset + prefixSize)) =
      some (.ok (),
        { allocator with
          heads := allocator.heads.set listIndex offset
          totalSize := allocator.totalSize - (getItemSizeFromIndex listIndex + prefixSize) },
        mem.take (offset + allocator.ptrOffset) ++ encodeLE 8 head ++
          mem.drop (offset + allocator.ptrOffset + 8)) := by
  have indexValid : listIndex ≤ allocator.heads.length :=
    Nat.le_of_lt (List.getElem?_eq_some_iff.mp listed).1
  have itemFits : getItemSizeFromIndex listIndex < 2 ^ 32 := by omega
  have notBelow : ¬ offset + prefixSize < prefixSize := by omega
  simp [deallocate, checkedSub_of_le (Nat.le_add_right allocator.ptrOffset (offset + prefixSize)),
    notBelow, allocator.readListIndex_of_le mem recorded indexValid, listed,
    setHeapU64_of_le _ _ inside addressable, cast_of_lt itemFits, checkedAdd_of_lt costFits,
    checkedSub_of_le accounted]

end Allocation

/-! ## The first block -/

/-- The first block bumped from a fresh heap has its prefix at heap offset 0,
the head value of an empty free list.  Freeing it leaves every free list
empty, so the block is lost; and on a heap with no room for a second block,
the next request of at most 8 bytes fails with `AllocatorOutOfSpace` though
the freed block could serve it. -/
theorem freed_first_block_is_lost {heapBase : Nat} {allocator : FreeingBumpHeapAllocator}
    (created : new heapBase = some allocator) {mem : List UInt8}
    (addressable : mem.length < 2 ^ 32) (room : allocator.ptrOffset + 16 ≤ mem.length)
    {size : Nat} (small : size ≤ 8) :
    ∃ allocated written freed cleared,
      allocator.allocate mem size = some (.ok (allocator.ptrOffset + 8), allocated, written) ∧
      allocated.deallocate written (allocator.ptrOffset + 8) = some (.ok (), freed, cleared) ∧
      freed.heads = List.replicate N 0 ∧ freed.totalSize = 0 ∧
      (mem.length < allocator.ptrOffset + 32 →
        freed.allocate cleared size = some (.error .allocatorOutOfSpace, freed, cleared)) := by
  obtain ⟨unbumped, emptyHeads, unused, -, -⟩ := new_spec created
  -- a request of at most 8 bytes is served from the first size class
  have rounded : nextPowerOfTwo 32 (max size minPossibleAllocation) = some 8 := by
    rw [Nat.max_eq_right (show size ≤ minPossibleAllocation from small)]
    decide
  have firstClass : trailingZeros 32 8 - 3 = 0 := by decide
  have emptyList : ∀ heads, heads = List.replicate N 0 → heads[trailingZeros 32 8 - 3]? = some 0 := by
    rintro _ rfl
    decide
  have allocated := allocator.allocate_of_bump mem addressable (by omega)
    (by simp only [maxPossibleAllocation]; omega) rounded
    (emptyList _ emptyHeads) (by simp only [prefixSize, unused]; omega)
    (by simp only [prefixSize, unbumped]; omega)
  simp only [unbumped, unused, firstClass, Nat.zero_add, prefixSize] at allocated
  have writtenLength := length_write mem allocator.ptrOffset 0 (show allocator.ptrOffset + 8 ≤ mem.length by omega)
  -- the prefix of the block sits at heap offset 0 and records the first size class
  have recorded := @getHeapU64_of_write allocator mem 0 0 (by omega) addressable
  simp only [Nat.zero_add, Nat.zero_mod] at recorded
  have freed := deallocate_of_prefix
    { bumper := 8 + 8, heads := allocator.heads, ptrOffset := allocator.ptrOffset, totalSize := 8 + 8 }
    (List.take allocator.ptrOffset mem ++ encodeLE 8 0 ++ List.drop (allocator.ptrOffset + 8) mem) 0
    (writtenLength ▸ addressable) (by simp only [Nat.zero_add]; omega) recorded
    (emptyList _ emptyHeads) (le_refl _) (by decide)
  simp only [Nat.zero_add, prefixSize] at freed
  refine ⟨_, _, _, _, allocated, freed, ?_, rfl, ?_⟩
  · rw [emptyHeads]
    exact List.set_replicate_self
  · intro noRoom
    have clearedLength := length_write
      (List.take allocator.ptrOffset mem ++ encodeLE 8 0 ++ List.drop (allocator.ptrOffset + 8) mem)
      allocator.ptrOffset 0 (by rw [writtenLength]; omega)
    rw [writtenLength] at clearedLength
    -- the freed block is on no list, and the bumper has no room left
    have stillEmpty : (allocator.heads.set 0 0) = List.replicate N 0 := by
      rw [emptyHeads]
      exact List.set_replicate_self
    have firstItemSize : getItemSizeFromIndex 0 = 8 := rfl
    exact allocate_of_exhausted _ _ (by rw [clearedLength]; exact addressable)
      (by dsimp only; rw [clearedLength]; omega) (by simp only [maxPossibleAllocation]; omega) rounded
      (emptyList _ stillEmpty) (by dsimp only; rw [clearedLength, firstItemSize]; simp only [prefixSize]; omega)
      (by dsimp only; rw [clearedLength]; simp only [prefixSize]; omega)
      (by simp only [prefixSize]; omega)

theorem freed_first_block_is_lost_sixteen_byte_heap :
    ∃ allocated written freed cleared,
      (⟨0, List.replicate N 0, 0, 0⟩ : FreeingBumpHeapAllocator).allocate (List.replicate 16 0) 8 =
          some (.ok (0 + 8), allocated, written) ∧
        allocated.deallocate written (0 + 8) = some (.ok (), freed, cleared) ∧
        freed.heads = List.replicate N 0 ∧ freed.totalSize = 0 ∧
        ((List.replicate 16 (0 : UInt8)).length < 0 + 32 →
          freed.allocate cleared 8 = some (.error .allocatorOutOfSpace, freed, cleared)) :=
  @freed_first_block_is_lost 0 _ (by decide) (List.replicate 16 0) (by decide) (by decide) 8 (le_refl 8)

/-! ## Panics on runtime input -/

section Panics

variable (allocator : FreeingBumpHeapAllocator) (mem : List UInt8)

/-- A pointer below the heap underflows in `u32::from(ptr) - self.ptr_offset`. -/
theorem deallocate_of_lt_ptrOffset {ptr : Nat} (below : ptr < allocator.ptrOffset) :
    allocator.deallocate mem ptr = none := by
  simp [deallocate, checkedSub, Nat.not_le.mpr below]

/-- A prefix naming size class `heads.len()` passes that check, and the read
of the head of its list is out of bounds. -/
theorem deallocate_of_prefix_past_heads (offset : Nat)
    (recorded : allocator.getHeapU64 mem offset = some (.ok allocator.heads.length)) :
    allocator.deallocate mem (allocator.ptrOffset + (offset + prefixSize)) = none := by
  have notBelow : ¬ offset + prefixSize < prefixSize := by omega
  simp [deallocate, checkedSub_of_le (Nat.le_add_right allocator.ptrOffset (offset + prefixSize)),
    notBelow, allocator.readListIndex_of_le mem recorded le_rfl]

/-- The free-list branch on a block that ends past the heap: the `assert!`
fails, or an addition on the way to it overflows. -/
theorem takeFree_of_past_heap {listIndex itemSize maxHeapSize item : Nat}
    (past : maxHeapSize < item + prefixSize + itemSize) :
    allocator.takeFree mem listIndex itemSize maxHeapSize item = none := by
  by_cases ptrFits : item + prefixSize < 2 ^ 32
  · by_cases stopFits : item + prefixSize + itemSize < 2 ^ 32
    · simp [takeFree, checkedAdd_of_lt ptrFits, checkedAdd_of_lt stopFits, past]
    · simp [takeFree, checkedAdd_of_lt ptrFits, checkedAdd_of_le (Nat.not_lt.mp stopFits)]
  · simp [takeFree, checkedAdd_of_le (Nat.not_lt.mp ptrFits)]

/-- `allocate` from a size class whose free list starts at a block that ends
past the heap panics. -/
theorem allocate_of_head_past_heap {size itemSize head : Nat}
    (addressable : mem.length < 2 ^ 32) (heapInside : allocator.ptrOffset ≤ mem.length)
    (allowed : size ≤ maxPossibleAllocation)
    (rounded : nextPowerOfTwo 32 (max size minPossibleAllocation) = some itemSize)
    (listed : allocator.heads[trailingZeros 32 itemSize - 3]? = some head) (nonEmpty : head ≠ 0)
    (accounted : itemSize + prefixSize + allocator.totalSize ≤ mem.length - allocator.ptrOffset)
    (past : mem.length - allocator.ptrOffset < head + prefixSize + itemSize) :
    allocator.allocate mem size = none := by
  have stepFits : itemSize + prefixSize < 2 ^ 32 := by omega
  have neededFits : itemSize + prefixSize + allocator.totalSize < 2 ^ 32 := by omega
  have taken : allocator.takeBlock mem (trailingZeros 32 itemSize - 3) itemSize
      (mem.length - allocator.ptrOffset) = none := by
    simp [takeBlock, listed, nonEmpty, allocator.takeFree_of_past_heap mem past]
  simp [allocate, tryInto_of_lt addressable, checkedSub_of_le heapInside, Nat.not_lt.mpr allowed,
    rounded, checkedAdd_of_lt stepFits, checkedAdd_of_lt neededFits, Nat.not_lt.mpr accounted, taken]

end Panics

/-- Three inputs of the runtime that make the allocator panic: a pointer
below the heap passed to `deallocate`; a block whose prefix names size class
`heads.len()`; and an allocation from a free list whose head lies past the
heap. -/
theorem allocator_panics_on_runtime_input (allocator : FreeingBumpHeapAllocator) (mem : List UInt8) :
    (∀ ptr, ptr < allocator.ptrOffset → allocator.deallocate mem ptr = none) ∧
    (∀ offset, allocator.getHeapU64 mem offset = some (.ok allocator.heads.length) →
      allocator.deallocate mem (allocator.ptrOffset + (offset + prefixSize)) = none) ∧
    (∀ size itemSize head, mem.length < 2 ^ 32 → allocator.ptrOffset ≤ mem.length →
      size ≤ maxPossibleAllocation →
      nextPowerOfTwo 32 (max size minPossibleAllocation) = some itemSize →
      allocator.heads[trailingZeros 32 itemSize - 3]? = some head → head ≠ 0 →
      itemSize + prefixSize + allocator.totalSize ≤ mem.length - allocator.ptrOffset →
      mem.length - allocator.ptrOffset < head + prefixSize + itemSize →
      allocator.allocate mem size = none) :=
  ⟨fun _ below => allocator.deallocate_of_lt_ptrOffset mem below,
    fun offset recorded => allocator.deallocate_of_prefix_past_heads mem offset recorded,
    fun _ _ _ addressable heapInside allowed rounded listed nonEmpty accounted past =>
      allocator.allocate_of_head_past_heap mem addressable heapInside allowed rounded listed nonEmpty
        accounted past⟩

/-- On the heap of `new(8)` in 64 bytes of memory: freeing address 0, below
the heap, panics; so does freeing address 16 when its prefix holds 22.  Two
blocks of 8 bytes allocated and the second freed, the runtime overwrites the
link in its prefix with 1000; the next allocation takes the block and makes
1000 the head of the list, and the one after it panics. -/
theorem allocator_panics_on_forged_link :
    new 8 = some ⟨0, List.replicate N 0, 8, 0⟩ ∧
    (⟨0, List.replicate N 0, 8, 0⟩ : FreeingBumpHeapAllocator).deallocate (List.replicate 64 0) 0 = none ∧
    (⟨0, List.replicate N 0, 8, 0⟩ : FreeingBumpHeapAllocator).deallocate
      (List.replicate 8 0 ++ encodeLE 8 22 ++ List.replicate 48 0) 16 = none ∧
    ∃ first second freed forged,
      (⟨0, List.replicate N 0, 8, 0⟩ : FreeingBumpHeapAllocator).allocate (List.replicate 64 0) 8 =
        some (.ok 16, first, List.replicate 64 0) ∧
      first.allocate (List.replicate 64 0) 8 = some (.ok 32, second, List.replicate 64 0) ∧
      second.deallocate (List.replicate 64 0) 32 = some (.ok (), freed, List.replicate 64 0) ∧
      freed.allocate (List.replicate 24 0 ++ encodeLE 8 1000 ++ List.replicate 32 0) 8 =
        some (.ok 32, forged, List.replicate 64 0) ∧
      forged.allocate (List.replicate 64 0) 8 = none :=
  ⟨rfl, (allocator_panics_on_runtime_input _ _).1 0 (by decide),
    (allocator_panics_on_runtime_input ⟨0, List.replicate N 0, 8, 0⟩
      (List.replicate 8 0 ++ encodeLE 8 22 ++ List.replicate 48 0)).2.1 0 rfl,
    _, _, _, ⟨32, (List.replicate N 0).set 0 1000, 8, 32⟩, rfl, rfl, rfl, rfl,
    (allocator_panics_on_runtime_input _ _).2.2 8 8 1000 (by decide) (by decide) (by decide) rfl rfl
      (by decide) (by decide) (by decide)⟩

end FreeingBumpHeapAllocator

end OffchainStorage.Allocator
