import Mathlib
import OffchainStorage.Trie.NodeCodec

/-!
# Encoding trie nodes

A node header is a byte with the node kind in its two high bits and the
nibble count in the six low ones.  A count of 63 or more writes 63 there and
the rest after it: a `255` for each further 255 nibbles while more than 255
remain, then the remainder less one.  The encoder clamps the count to
`NIBBLE_SIZE_BOUND` first.  `leaf_node` and `branch_node_nibbled` write such a
header, the partial key, and the value and children with compact length
prefixes.

Every header with a count within the bound decodes from its encoding, with
anything after it, and the decoder reads exactly the encoding
(`NodeHeader.decode_encode`).  The converse fails twice.  The decoder's loop
checks the bound before it adds the last byte, so it reads counts up to
`NIBBLE_SIZE_BOUND + 255`, and it stops with the bound itself after a run of
`255`s that passes it, an encoding the encoder never writes
(`header_decoding_not_canonical`).  And `decode_plan` never checks that it read
the whole node: bytes after a node are ignored, so a node decodes from its
encoding with anything appended, which re-encodes to something else
(`decode_plan_ignores_trailing_bytes`).
-/

namespace OffchainStorage.Trie

open Transition

/-- The bytes of `size_and_prefix_iterator` after the first: `255`, and 255
less, while 256 or more remain; then the remainder less one. -/
def sizeRest (rem : Nat) : List UInt8 :=
  if rem > 0 then
    if rem < 256 then [UInt8.ofNat (rem - 1)]
    else 255 :: sizeRest (rem - 255)
  else []
termination_by rem
decreasing_by omega

/-- `size_and_prefix_iterator(size, prefix)`, the prefix being the node kind's
mask. -/
def sizeAndPrefixIterator (size : Nat) (mask : UInt8) : List UInt8 :=
  let size := min nibbleSizeBound size
  let l1 := min 62 size
  if size = l1 then [mask + UInt8.ofNat l1]
  else (mask + 63) :: sizeRest (size - l1)

/-- `Encode for NodeHeader`. -/
def NodeHeader.encode : NodeHeader → List UInt8
  | .null => [emptyTrie]
  | .branch true nibbleCount => sizeAndPrefixIterator nibbleCount branchWithMask
  | .branch false nibbleCount => sizeAndPrefixIterator nibbleCount branchWithoutMask
  | .leaf nibbleCount => sizeAndPrefixIterator nibbleCount leafPrefixMask

def NodeHeader.nibbleCount : NodeHeader → Nat
  | .null => 0
  | .branch _ nibbleCount => nibbleCount
  | .leaf nibbleCount => nibbleCount

/-- The kind bits of a header's first byte. -/
def NodeHeader.mask : NodeHeader → UInt8
  | .null => emptyTrie
  | .branch true _ => branchWithMask
  | .branch false _ => branchWithoutMask
  | .leaf _ => leafPrefixMask

/-- `nibble_ops::pad_right` of `trie-db`: the low nibble of a byte. -/
def padRight (byte : UInt8) : UInt8 := byte &&& 0x0F

/-- `NodeKind`. -/
inductive NodeKind where
  | Leaf
  | BranchNoValue
  | BranchWithValue
  deriving DecidableEq, Repr

/-- The header `partial_encode` and `partial_from_iterator_encode` write for a
node kind. -/
def NodeKind.header (kind : NodeKind) (nibbleCount : Nat) : NodeHeader :=
  match kind with
  | .Leaf => .leaf nibbleCount
  | .BranchWithValue => .branch true nibbleCount
  | .BranchNoValue => .branch false nibbleCount

/-- `Partial` of `trie-db`: the count of nibbles in a first, half-used byte
with that byte, and the bytes of the rest of the key. -/
structure PartialKey where
  numberNibbleEncoded : Nat
  firstByte : UInt8
  bytes : List UInt8
  deriving DecidableEq, Repr

/-- `partial_encode(partial, node_kind)`. -/
def partialEncode (partialKey : PartialKey) (kind : NodeKind) : List UInt8 :=
  let nibbleCount := partialKey.bytes.length * nibblePerByte + partialKey.numberNibbleEncoded
  let nibbleCount := min nibbleSizeBound nibbleCount
  (kind.header nibbleCount).encode ++
    (if partialKey.numberNibbleEncoded > 0 then [padRight partialKey.firstByte] else []) ++ partialKey.bytes

/-- `<[u8]>::encode`: a compact length, then the bytes. -/
def encodeBytes (bytes : List UInt8) : List UInt8 :=
  Scale.encodeCompact bytes.length ++ bytes

/-- `leaf_node(partial, value)`. -/
def leafNode (partialKey : PartialKey) (value : List UInt8) : List UInt8 :=
  partialEncode partialKey .Leaf ++ encodeBytes value

/-- `ChildReference`: a child by its hash, or inline by its encoding. -/
inductive ChildReference where
  | hash (bytes : List UInt8)
  | inline (bytes : List UInt8)
  deriving DecidableEq, Repr

/-- `Bitmap::encode`: a `u16` cursor walks the bits, setting those of the
present children, and the bitmap is written low byte first. -/
def bitmapEncode (hasChildren : List Bool) : List UInt8 :=
  let walked := hasChildren.foldl
    (fun (state : UInt16 × UInt16) v => (if v then state.1 ||| state.2 else state.1, state.2 <<< 1)) (0, 1)
  [(walked.1 % 256).toUInt8, (walked.1 / 256).toUInt8]

/-- `branch_node_nibbled(partial, number_nibble, children, maybe_value)`: the
header and key, the bitmap, the value, then each present child's encoding. -/
def branchNodeNibbled (partialBytes : List UInt8) (numberNibble : Nat) (children : List (Option ChildReference))
    (maybeValue : Option (List UInt8)) : List UInt8 :=
  let kind := if maybeValue.isSome then NodeKind.BranchWithValue else .BranchNoValue
  let nibbleCount := min nibbleSizeBound numberNibble
  (kind.header nibbleCount).encode ++ partialBytes ++
    bitmapEncode (children.map Option.isSome) ++ (maybeValue.map encodeBytes).getD [] ++
    children.flatMap fun
      | some (.hash bytes) => encodeBytes bytes
      | some (.inline bytes) => encodeBytes bytes
      | none => []

/-! ## The size bytes -/

/-- The size bytes are a run of `255`s and a last byte below `255`. -/
theorem sizeRest_eq {rem : Nat} (positive : 0 < rem) :
    sizeRest rem = List.replicate ((rem - 1) / 255) 255 ++ [UInt8.ofNat ((rem - 1) % 255)] := by
  induction rem using Nat.strongRecOn with
  | ind rem ih =>
    rw [sizeRest, if_pos positive]
    split
    · rename_i small
      rw [Nat.div_eq_of_lt (by omega : rem - 1 < 255), Nat.mod_eq_of_lt (by omega : rem - 1 < 255)]
      rfl
    · rename_i large
      have quotient : (rem - 1) / 255 = (rem - 255 - 1) / 255 + 1 := by omega
      have remainder : (rem - 1) % 255 = (rem - 255 - 1) % 255 := by omega
      rw [ih (rem - 255) (by omega) (by omega), quotient, remainder, List.replicate_succ, List.cons_append]

/-! ## Reading the size back -/

section Reads

variable {data : List UInt8} {offset : Nat}

theorem readByte_of_drop {byte : UInt8} {rest : List UInt8} (next : data.drop offset = byte :: rest) :
    ByteSliceInput.readByte ⟨data, offset⟩ = .ok (byte, ⟨data, offset + 1⟩) := by
  have within : offset < data.length := by
    have := congrArg List.length next
    simp only [List.length_drop, List.length_cons] at this
    omega
  unfold ByteSliceInput.readByte
  rw [dif_neg (by dsimp only; omega)]
  have indexed := congrArg List.head? next
  rw [List.head?_drop, List.head?_cons, List.getElem?_eq_getElem within, Option.some.injEq] at indexed
  simp [indexed]

theorem drop_add_of_drop {bytes rest : List UInt8} (next : data.drop offset = bytes ++ rest) :
    data.drop (offset + bytes.length) = rest := by
  rw [← List.drop_drop, next, List.drop_left]

theorem drop_succ_of_drop {byte : UInt8} {rest : List UInt8} (next : data.drop offset = byte :: rest) :
    data.drop (offset + 1) = rest :=
  drop_add_of_drop (show data.drop offset = [byte] ++ rest from next)

/-- Past the bound the loop stops with the bound, reading nothing. -/
theorem decodeSizeLoop_of_lt {result : Nat} (input : ByteSliceInput) (exceeded : nibbleSizeBound < result) :
    decodeSizeLoop result input = .ok (nibbleSizeBound, input) := by
  rw [decodeSizeLoop, if_neg (by omega)]

/-- Within the bound a byte below `255` ends the size. -/
theorem decodeSizeLoop_last {result : Nat} {byte : UInt8} {rest : List UInt8} (within : result ≤ nibbleSizeBound)
    (next : data.drop offset = byte :: rest) (small : byte.toNat < 255) :
    decodeSizeLoop result ⟨data, offset⟩ = .ok (result + byte.toNat + 1, ⟨data, offset + 1⟩) := by
  rw [decodeSizeLoop, if_pos within, readByte_of_drop next]
  simp [small]

/-- A run of `255`s read within the bound adds 255 each. -/
theorem decodeSizeLoop_replicate (count result offset : Nat) {rest : List UInt8}
    (within : result + 255 * count ≤ nibbleSizeBound + 255)
    (run : data.drop offset = List.replicate count 255 ++ rest) :
    decodeSizeLoop result ⟨data, offset⟩ = decodeSizeLoop (result + 255 * count) ⟨data, offset + count⟩ := by
  induction count generalizing result offset with
  | zero => rfl
  | succ count ih =>
    rw [List.replicate_succ, List.cons_append] at run
    rw [decodeSizeLoop, if_pos (by omega), readByte_of_drop run]
    have further := ih (result + 255) (offset + 1) (by omega) (drop_succ_of_drop run)
    have total : result + 255 + 255 * count = result + 255 * (count + 1) := by ring
    have moved : offset + 1 + count = offset + (count + 1) := by omega
    simp only [show ¬(255 : UInt8).toNat < 255 by decide, if_false]
    rw [further, total, moved]

end Reads

/-- The first byte of a header: not the empty trie, the kind in the high bits
and the count in the low ones. -/
theorem headerByte_fields {mask : UInt8}
    (masked : mask = leafPrefixMask ∨ mask = branchWithoutMask ∨ mask = branchWithMask) {count : Nat}
    (small : count < 64) :
    mask + UInt8.ofNat count ≠ emptyTrie ∧ (mask + UInt8.ofNat count) &&& ((0b11 : UInt8) <<< 6) = mask ∧
      ((mask + UInt8.ofNat count) &&& ((255 : UInt8) >>> 2)).toNat = count := by
  revert count
  rcases masked with rfl | rfl | rfl <;> decide

theorem decodeSize_escaped {first : UInt8} (input : ByteSliceInput)
    (escaped : (first &&& ((255 : UInt8) >>> 2)).toNat = 63) :
    decodeSize first input = decodeSizeLoop 62 input := by
  rw [decodeSize]
  simp only [escaped, Nat.lt_irrefl, if_false]

/-- The size bytes after the first decode to the size, within the bound. -/
theorem decodeSize_sizeAndPrefixIterator {mask : UInt8}
    (masked : mask = leafPrefixMask ∨ mask = branchWithoutMask ∨ mask = branchWithMask) {size : Nat}
    (bounded : size ≤ nibbleSizeBound) {data : List UInt8} {offset : Nat} {first : UInt8} {tail rest : List UInt8}
    (bytes : sizeAndPrefixIterator size mask = first :: tail) (next : data.drop offset = tail ++ rest) :
    decodeSize first ⟨data, offset⟩ = .ok (size, ⟨data, offset + tail.length⟩) := by
  unfold sizeAndPrefixIterator at bytes
  simp only [Nat.min_eq_right bounded] at bytes
  split at bytes
  · -- up to 62 nibbles: the count is in the first byte
    rename_i inline
    simp only [List.cons.injEq] at bytes
    obtain ⟨rfl, rfl⟩ := bytes
    have fields := (headerByte_fields masked (by omega : min 62 size < 64)).2.2
    rw [decodeSize, fields, if_pos (by omega)]
    simp only [List.length_nil, Nat.add_zero]
    rw [← inline]
  · -- the first byte says 63, and the rest is a run of `255`s and a last byte
    rename_i escaped
    simp only [List.cons.injEq] at bytes
    obtain ⟨rfl, rfl⟩ := bytes
    have fields : ((mask + (63 : UInt8)) &&& ((255 : UInt8) >>> 2)).toNat = 63 :=
      (headerByte_fields masked (by decide : 63 < 64)).2.2
    have large : 62 < size := by omega
    have lastByte : (UInt8.ofNat ((size - 62 - 1) % 255)).toNat = (size - 62 - 1) % 255 := by
      rw [UInt8.toNat_ofNat']
      exact Nat.mod_eq_of_lt (by omega)
    rw [Nat.min_eq_left (by omega : 62 ≤ size), sizeRest_eq (by omega)] at next ⊢
    rw [List.append_assoc, List.singleton_append] at next
    have lastNext := drop_add_of_drop next
    rw [List.length_replicate] at lastNext
    rw [decodeSize_escaped _ fields,
      decodeSizeLoop_replicate _ 62 offset (by unfold nibbleSizeBound at bounded ⊢; omega) next,
      decodeSizeLoop_last (by unfold nibbleSizeBound at bounded ⊢; omega) lastNext (by omega), lastByte]
    have total : 62 + 255 * ((size - 62 - 1) / 255) + (size - 62 - 1) % 255 + 1 = size := by omega
    simp only [List.length_append, List.length_replicate, List.length_singleton]
    rw [total, Nat.add_assoc]

theorem sizeAndPrefixIterator_head (size : Nat) (mask : UInt8) :
    ∃ count < 64, ∃ tail, sizeAndPrefixIterator size mask = (mask + UInt8.ofNat count) :: tail := by
  unfold sizeAndPrefixIterator
  dsimp only
  split
  · exact ⟨_, by omega, [], rfl⟩
  · exact ⟨63, by decide, _, rfl⟩

/-! ## The header round trip -/

namespace NodeHeader

theorem encode_of_ne_null {header : NodeHeader} (notNull : header ≠ .null) :
    header.encode = sizeAndPrefixIterator header.nibbleCount header.mask := by
  cases header with
  | null => contradiction
  | branch hasValue nibbleCount => cases hasValue <;> rfl
  | leaf nibbleCount => rfl

theorem mask_cases {header : NodeHeader} (notNull : header ≠ .null) :
    header.mask = leafPrefixMask ∨ header.mask = branchWithoutMask ∨ header.mask = branchWithMask := by
  cases header with
  | null => contradiction
  | branch hasValue nibbleCount => cases hasValue <;> simp [mask]
  | leaf nibbleCount => simp [mask]

/-- A first byte with a header's kind, and its size read after it, decode to
the header. -/
theorem decode_of_size {header : NodeHeader} (notNull : header ≠ .null) {data : List UInt8} {offset : Nat}
    {first : UInt8} {rest : List UInt8} (next : data.drop offset = first :: rest)
    (kind : first &&& ((0b11 : UInt8) <<< 6) = header.mask) {after : ByteSliceInput}
    (sized : decodeSize first ⟨data, offset + 1⟩ = .ok (header.nibbleCount, after)) :
    decode ⟨data, offset⟩ = .ok (header, after) := by
  have notEmpty : first ≠ emptyTrie := by
    rintro rfl
    rcases mask_cases notNull with masked | masked | masked <;> rw [masked] at kind <;> revert kind <;> decide
  -- the three kinds are told apart by their masks
  have distinct : branchWithoutMask ≠ leafPrefixMask ∧ branchWithMask ≠ leafPrefixMask ∧
      branchWithMask ≠ branchWithoutMask := by decide
  cases header with
  | null => contradiction
  | branch hasValue count =>
    cases hasValue <;> simp only [mask] at kind <;> simp only [NodeHeader.nibbleCount] at sized <;>
      simp [decode, readByte_of_drop next, bind, Except.bind, notEmpty, kind, sized, distinct, pure,
        Except.pure]
  | leaf count =>
    simp only [mask] at kind
    simp only [NodeHeader.nibbleCount] at sized
    simp [decode, readByte_of_drop next, bind, Except.bind, notEmpty, kind, sized, pure, Except.pure]

/-- A header within the bound decodes from its encoding, whatever follows it,
and the decoder reads exactly the encoding. -/
theorem decode_encode (header : NodeHeader) (bounded : header.nibbleCount ≤ nibbleSizeBound) {data : List UInt8}
    {offset : Nat} {rest : List UInt8} (next : data.drop offset = header.encode ++ rest) :
    decode ⟨data, offset⟩ = .ok (header, ⟨data, offset + header.encode.length⟩) := by
  by_cases notNull : header = .null
  · subst notNull
    have read := readByte_of_drop (show data.drop offset = emptyTrie :: rest from next)
    simp [decode, read, encode, bind, Except.bind, pure, Except.pure]
  · obtain ⟨count, small, tail, bytes⟩ := sizeAndPrefixIterator_head header.nibbleCount header.mask
    have fields := headerByte_fields (mask_cases notNull) small
    rw [encode_of_ne_null notNull, bytes] at next ⊢
    have sized := decodeSize_sizeAndPrefixIterator (mask_cases notNull) bounded bytes (drop_succ_of_drop next)
    rw [decode_of_size notNull next fields.2.1 sized, List.length_cons, Nat.add_assoc, Nat.add_comm 1]

end NodeHeader

/-- The decoder reads counts past the bound: after 256 bytes `255` the loop is
still within it and adds the next byte.  After 257 it stops with the bound,
reading a header the encoder writes with another last byte. -/
theorem header_decoding_not_canonical (rest : List UInt8) :
    NodeHeader.decode ⟨0x7F :: (List.replicate 256 255 ++ 0xC1 :: rest), 0⟩ =
        .ok (.leaf 65536, ⟨0x7F :: (List.replicate 256 255 ++ 0xC1 :: rest), 258⟩) ∧
      NodeHeader.decode ⟨0x7F :: (List.replicate 257 255 ++ rest), 0⟩ =
        .ok (.leaf 65535, ⟨0x7F :: (List.replicate 257 255 ++ rest), 258⟩) ∧
      (NodeHeader.leaf 65535).encode = 0x7F :: (List.replicate 256 255 ++ [0xC0]) := by
  have escaped : ((0x7F : UInt8) &&& ((255 : UInt8) >>> 2)).toNat = 63 := by decide
  have kind : (0x7F : UInt8) &&& ((0b11 : UInt8) <<< 6) = leafPrefixMask := by decide
  refine ⟨?_, ?_, ?_⟩
  · -- the run stays within the bound, so the last byte is added to it
    apply NodeHeader.decode_of_size (by decide) rfl kind
    have run : (0x7F :: (List.replicate 256 255 ++ 0xC1 :: rest)).drop 1 = List.replicate 256 255 ++ 0xC1 :: rest := rfl
    have lastNext := drop_add_of_drop run
    rw [List.length_replicate] at lastNext
    rw [decodeSize_escaped _ escaped, decodeSizeLoop_replicate 256 62 1 (by decide) run,
      decodeSizeLoop_last (by decide) lastNext (by decide)]
    rfl
  · -- the run passes the bound, and the loop stops before the byte after it
    apply NodeHeader.decode_of_size (by decide) rfl kind
    have run : (0x7F :: (List.replicate 257 255 ++ rest)).drop 1 = List.replicate 257 255 ++ rest := rfl
    rw [decodeSize_escaped _ escaped, decodeSizeLoop_replicate 257 62 1 (by decide) run,
      decodeSizeLoop_of_lt _ (by decide)]
    rfl
  · have written : (NodeHeader.leaf 65535).encode = (leafPrefixMask + 63) :: sizeRest (65535 - 62) := by
      simp [NodeHeader.encode, sizeAndPrefixIterator, nibbleSizeBound]
    rw [written, sizeRest_eq (by decide)]
    rfl

/-! ## Bytes after a node

Every read of the decoder looks at the data from its offset on and no further
than it reads, so each read that succeeds on some data succeeds the same way
with bytes appended, and so does `decode_plan`. -/

/-- The same input with bytes appended to its data. -/
def ByteSliceInput.append (input : ByteSliceInput) (extra : List UInt8) : ByteSliceInput :=
  ⟨input.data ++ extra, input.offset⟩

section Append

variable (extra : List UInt8) {input next : ByteSliceInput}

@[simp]
theorem ByteSliceInput.append_data : (input.append extra).data = input.data ++ extra :=
  rfl

@[simp]
theorem ByteSliceInput.append_offset : (input.append extra).offset = input.offset :=
  rfl

theorem ByteSliceInput.new_append (data : List UInt8) :
    ByteSliceInput.new (data ++ extra) = (ByteSliceInput.new data).append extra :=
  rfl

theorem ByteSliceInput.readByte_append {byte : UInt8} (read : input.readByte = .ok (byte, next)) :
    (input.append extra).readByte = .ok (byte, next.append extra) := by
  unfold ByteSliceInput.readByte at read ⊢
  split at read
  · cases read
  · rename_i fits
    cases read
    have within : input.offset < input.data.length := by omega
    rw [dif_neg (by simp only [ByteSliceInput.append_data, ByteSliceInput.append_offset, List.length_append]; omega)]
    simp [ByteSliceInput.append, List.getElem_append_left within]

theorem ByteSliceInput.take_append {count : Nat} {range : ByteRange} (taken : input.take count = .ok (range, next)) :
    (input.append extra).take count = .ok (range, next.append extra) := by
  unfold ByteSliceInput.take at taken ⊢
  split at taken
  · cases taken
  · rename_i fits
    cases taken
    rw [if_neg (by simp only [ByteSliceInput.append_data, ByteSliceInput.append_offset, List.length_append]; omega)]
    rfl

theorem ByteSliceInput.decodeCompact_append {value : Nat} (decoded : input.decodeCompact = .ok (value, next)) :
    (input.append extra).decodeCompact = .ok (value, next.append extra) := by
  unfold ByteSliceInput.decodeCompact at decoded ⊢
  split at decoded
  · rename_i read rest compact
    cases decoded
    -- a compact integer is at least one byte, so the offset is within the data
    have within : input.offset ≤ input.data.length := by
      by_contra beyond
      rw [List.drop_eq_nil_of_le (by omega)] at compact
      cases compact
    rw [ByteSliceInput.append_data, ByteSliceInput.append_offset, List.drop_append_of_le_length within,
      Scale.decodeCompact_append extra compact]
    simp only [ByteSliceInput.append, List.length_append, Nat.add_sub_add_right]
  · cases decoded

theorem decodeSizeLoop_append {result size : Nat} (decoded : decodeSizeLoop result input = .ok (size, next)) :
    decodeSizeLoop result (input.append extra) = .ok (size, next.append extra) := by
  fun_induction decodeSizeLoop result input with
  | case1 => cases decoded
  | case2 result input within byte afterByte read small =>
    cases decoded
    rw [decodeSizeLoop, if_pos within, ByteSliceInput.readByte_append extra read]
    simp [small]
  | case3 result input within byte afterByte read large ih =>
    rw [decodeSizeLoop, if_pos within, ByteSliceInput.readByte_append extra read]
    simp only [large, if_false]
    exact ih decoded
  | case4 result input exceeded =>
    cases decoded
    rw [decodeSizeLoop, if_neg exceeded]

theorem decodeSize_append {first : UInt8} {size : Nat} (decoded : decodeSize first input = .ok (size, next)) :
    decodeSize first (input.append extra) = .ok (size, next.append extra) := by
  unfold decodeSize at decoded ⊢
  dsimp only at decoded ⊢
  split_ifs at decoded ⊢
  · cases decoded
    rfl
  · exact decodeSizeLoop_append extra decoded

theorem NodeHeader.decode_append {header : NodeHeader} (decoded : NodeHeader.decode input = .ok (header, next)) :
    NodeHeader.decode (input.append extra) = .ok (header, next.append extra) := by
  obtain ⟨⟨i, afterByte⟩, read, kinds⟩ := exists_of_bind_eq_ok decoded
  rw [NodeHeader.decode, ByteSliceInput.readByte_append extra read, ok_bind]
  dsimp only at kinds ⊢
  -- the same kind is chosen; a kind with a size reads it the same way
  split_ifs at kinds ⊢
  · cases kinds
    rfl
  all_goals first
    | cases kinds
    | obtain ⟨⟨size, afterSize⟩, sized, built⟩ := exists_of_bind_eq_ok kinds
      cases built
      rw [decodeSize_append extra sized]
      rfl

theorem checkPadding_append {data : List UInt8} {offset nibbleCount : Nat} {checked : Except Error Unit}
    (padded : checkPadding data offset nibbleCount = some checked) :
    checkPadding (data ++ extra) offset nibbleCount = some checked := by
  unfold checkPadding at padded ⊢
  split_ifs at padded ⊢ with odd
  · obtain ⟨byte, indexed, rfl⟩ := Option.map_eq_some_iff.mp padded
    have within : offset < data.length := (List.getElem?_eq_some_iff.mp indexed).1
    rw [List.getElem?_append_left within, indexed, Option.map_some]
  · exact padded

theorem slice_append {data : List UInt8} {range : ByteRange} (within : range.Within data.length) :
    ((data ++ extra).drop range.start).take (range.stop - range.start) =
      (data.drop range.start).take (range.stop - range.start) := by
  obtain ⟨ordered, inside⟩ := within
  rw [List.drop_append_of_le_length (by omega), List.take_append_of_le_length (by simp only [List.length_drop]; omega)]

theorem decodeBranchValue_append {hasValue : Bool} {value : Option ByteRange}
    (decoded : decodeBranchValue hasValue input = .ok (value, next)) :
    decodeBranchValue hasValue (input.append extra) = .ok (value, next.append extra) := by
  unfold decodeBranchValue at decoded ⊢
  split_ifs at decoded ⊢
  · obtain ⟨⟨count, afterCount⟩, counted, afterCompact⟩ := exists_of_bind_eq_ok decoded
    obtain ⟨⟨range, afterRange⟩, taken, built⟩ := exists_of_bind_eq_ok afterCompact
    cases built
    rw [ByteSliceInput.decodeCompact_append extra counted, ok_bind]
    dsimp only
    rw [ByteSliceInput.take_append extra taken, ok_bind]
  · cases decoded
    rfl

theorem decodeChildren_append {hashLength bitmap : Nat} :
    ∀ {indices : List Nat} {input next : ByteSliceInput} {children : List (Option NodeHandlePlan)},
      decodeChildren hashLength bitmap indices input = .ok (children, next) →
        decodeChildren hashLength bitmap indices (input.append extra) = .ok (children, next.append extra)
  | [], input, next, children, decoded => by
    cases decoded
    rfl
  | i :: rest, input, next, children, decoded => by
    rw [decodeChildren] at decoded ⊢
    split_ifs at decoded ⊢
    · -- a child whose bit is set: its length, its bytes, then the other children
      obtain ⟨⟨count, afterCount⟩, counted, afterCompact⟩ := exists_of_bind_eq_ok decoded
      obtain ⟨⟨range, afterRange⟩, taken, afterTake⟩ := exists_of_bind_eq_ok afterCompact
      obtain ⟨⟨others, afterOthers⟩, othersDecoded, built⟩ := exists_of_bind_eq_ok afterTake
      cases built
      rw [ByteSliceInput.decodeCompact_append extra counted, ok_bind]
      dsimp only
      rw [ByteSliceInput.take_append extra taken, ok_bind]
      dsimp only
      rw [decodeChildren_append othersDecoded, ok_bind]
    · obtain ⟨⟨others, afterOthers⟩, othersDecoded, built⟩ := exists_of_bind_eq_ok decoded
      cases built
      rw [decodeChildren_append othersDecoded, ok_bind]

end Append

theorem decode_plan_ignores_trailing_bytes {hashLength : Nat} {data : List UInt8} {plan : NodePlan}
    (decoded : decodePlan hashLength data = some (.ok plan)) (extra : List UInt8) :
    decodePlan hashLength (data ++ extra) = some (.ok plan) := by
  unfold decodePlan at decoded ⊢
  rw [ByteSliceInput.new_append]
  split at decoded
  · cases decoded
  · rename_i afterHeader header
    rw [NodeHeader.decode_append extra header]
    exact decoded
  · rename_i hasValue nibbleCount afterHeader header
    obtain ⟨checked, padded, body⟩ := Option.map_eq_some_iff.mp decoded
    obtain ⟨⟨⟩, checkedOk, afterCheck⟩ := exists_of_bind_eq_ok body
    subst checkedOk
    obtain ⟨⟨partialKey, afterPartial⟩, partialTaken, afterPartialKey⟩ := exists_of_bind_eq_ok afterCheck
    obtain ⟨⟨bitmapRange, afterBitmap⟩, bitmapTaken, afterBitmapRange⟩ := exists_of_bind_eq_ok afterPartialKey
    obtain ⟨bitmap, bitmapRead, afterBitmapDecoded⟩ := exists_of_bind_eq_ok afterBitmapRange
    obtain ⟨⟨value, afterValue⟩, valueDecoded, afterValueRead⟩ := exists_of_bind_eq_ok afterBitmapDecoded
    obtain ⟨⟨children, afterChildren⟩, childrenDecoded, built⟩ := exists_of_bind_eq_ok afterValueRead
    cases built
    -- the bitmap's bytes lie within the data, so appending leaves them as they are
    have bitmapWithin : bitmapRange.Within data.length := by
      have within := (take_ok bitmapTaken).2.2
      rwa [(take_ok partialTaken).1, NodeHeader.decode_data header] at within
    rw [NodeHeader.decode_append extra header]
    dsimp only
    rw [ByteSliceInput.append_offset, checkPadding_append extra padded, Option.map_some, ok_bind,
      ByteSliceInput.take_append extra partialTaken, ok_bind]
    dsimp only
    rw [ByteSliceInput.take_append extra bitmapTaken, ok_bind]
    dsimp only
    rw [slice_append extra bitmapWithin, bitmapRead, ok_bind, decodeBranchValue_append extra valueDecoded, ok_bind]
    dsimp only
    rw [decodeChildren_append extra childrenDecoded, ok_bind]
  · rename_i nibbleCount afterHeader header
    obtain ⟨checked, padded, body⟩ := Option.map_eq_some_iff.mp decoded
    obtain ⟨⟨⟩, checkedOk, afterCheck⟩ := exists_of_bind_eq_ok body
    subst checkedOk
    obtain ⟨⟨partialKey, afterPartial⟩, partialTaken, afterPartialKey⟩ := exists_of_bind_eq_ok afterCheck
    obtain ⟨⟨count, afterCount⟩, counted, afterCompact⟩ := exists_of_bind_eq_ok afterPartialKey
    obtain ⟨⟨value, afterValue⟩, valueTaken, built⟩ := exists_of_bind_eq_ok afterCompact
    cases built
    rw [NodeHeader.decode_append extra header]
    dsimp only
    rw [ByteSliceInput.append_offset, checkPadding_append extra padded, Option.map_some, ok_bind,
      ByteSliceInput.take_append extra partialTaken, ok_bind]
    dsimp only
    rw [ByteSliceInput.decodeCompact_append extra counted, ok_bind]
    dsimp only
    rw [ByteSliceInput.take_append extra valueTaken, ok_bind]

/-- The empty leaf decodes from its encoding and from its encoding with a byte
after it, and re-encodes to the shorter one. -/
theorem empty_leaf_decodes_with_trailing_byte :
    decodePlan 32 [0x40, 0x00] = some (.ok (.leaf ⟨⟨1, 1⟩, 0⟩ ⟨2, 2⟩)) ∧
      decodePlan 32 ([0x40, 0x00] ++ [0xFF]) = some (.ok (.leaf ⟨⟨1, 1⟩, 0⟩ ⟨2, 2⟩)) ∧
      leafNode ⟨0, 0, []⟩ [] = [0x40, 0x00] :=
  ⟨rfl, decode_plan_ignores_trailing_bytes rfl [0xFF], rfl⟩

end OffchainStorage.Trie
