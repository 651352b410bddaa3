import OffchainStorage.Lib.Scale
import OffchainStorage.Lib.Transition

/-!
# Decoding trie nodes

`NodeCodec::decode_plan` reads a node header, the partial key, the bitmap of
a branch and the compact-prefixed value and children through a
`ByteSliceInput`, whose reads check the bounds.  The padding check of a
partial key with an odd number of nibbles reads the byte at the offset by
indexing the data directly, before `take` checks that the key is there.

A node made of a header alone with an odd nibble count therefore indexes one
past the end of the data and panics (`decodePlan_panics_on_bare_header`).
When decoding succeeds, every range of the plan lies within the data and the
padding nibble is zero (`decodePlan_ranges_within`).
-/

namespace OffchainStorage.Trie

open Scale Transition

/-- `trie_constants::EMPTY_TRIE`. -/
def emptyTrie : UInt8 := 0

/-- `trie_constants::NIBBLE_SIZE_BOUND`, `u16::max_value()`. -/
def nibbleSizeBound : Nat := 65535

def leafPrefixMask : UInt8 := (0b01 : UInt8) <<< 6

def branchWithoutMask : UInt8 := (0b10 : UInt8) <<< 6

def branchWithMask : UInt8 := (0b11 : UInt8) <<< 6

def bitmapLength : Nat := 2

/-- `nibble_ops::NIBBLE_PER_BYTE` of `trie-db`. -/
def nibblePerByte : Nat := 2

/-- `nibble_ops::NIBBLE_LENGTH` of `trie-db`, the children of a branch. -/
def nibbleLength : Nat := 16

/-- `nibble_ops::pad_left` of `trie-db`: the high nibble of a byte, which is
padding in the first byte of a key with an odd number of nibbles. -/
def padLeft (byte : UInt8) : UInt8 := byte &&& 0xF0

/-- `nibble_ops::number_padding` of `trie-db`. -/
def numberPadding (nibbleCount : Nat) : Nat := nibbleCount % nibblePerByte

/-- `Error`: `BadFormat`, or a failed read of the codec. -/
inductive Error where
  | badFormat
  | decode
  deriving DecidableEq, Repr

/-- `Range<usize>`. -/
structure ByteRange where
  start : Nat
  stop : Nat
  deriving DecidableEq, Repr

/-- `ByteSliceInput`: the data, and the position of the next read. -/
structure ByteSliceInput where
  data : List UInt8
  offset : Nat

namespace ByteSliceInput

def new (data : List UInt8) : ByteSliceInput := ⟨data, 0⟩

def take (input : ByteSliceInput) (count : Nat) : Except Error (ByteRange × ByteSliceInput) :=
  if input.offset + count > input.data.length then .error .decode
  else .ok (⟨input.offset, input.offset + count⟩, { input with offset := input.offset + count })

def readByte (input : ByteSliceInput) : Except Error (UInt8 × ByteSliceInput) :=
  if fits : input.offset + 1 > input.data.length then .error .decode
  else .ok (input.data.get ⟨input.offset, by omega⟩, { input with offset := input.offset + 1 })

/-- `<Compact<u32>>::decode(&mut input)`: the compact integer read from the
offset on. -/
def decodeCompact (input : ByteSliceInput) : Except Error (Nat × ByteSliceInput) :=
  match Scale.decodeCompact (input.data.drop input.offset) with
  | some (value, rest) => .ok (value, { input with offset := input.data.length - rest.length })
  | none => .error .decode

end ByteSliceInput

inductive NodeHeader where
  | null
  | branch (hasValue : Bool) (nibbleCount : Nat)
  | leaf (nibbleCount : Nat)
  deriving DecidableEq, Repr

/-- The loop of `decode_size`: a byte `255` adds `255` and reads on, another
byte ends the size, and past `NIBBLE_SIZE_BOUND` the size is the bound. -/
def decodeSizeLoop (result : Nat) (input : ByteSliceInput) : Except Error (Nat × ByteSliceInput) :=
  if result ≤ nibbleSizeBound then
    match input.readByte with
    | .error e => .error e
    | .ok (n, input) =>
      if n.toNat < 255 then .ok (result + n.toNat + 1, input)
      else decodeSizeLoop (result + 255) input
  else .ok (nibbleSizeBound, input)
termination_by nibbleSizeBound + 1 - result

def decodeSize (first : UInt8) (input : ByteSliceInput) : Except Error (Nat × ByteSliceInput) :=
  let result := (first &&& ((255 : UInt8) >>> 2)).toNat
  if result < 63 then .ok (result, input) else decodeSizeLoop (result - 1) input

def NodeHeader.decode (input : ByteSliceInput) : Except Error (NodeHeader × ByteSliceInput) := do
  let (i, input) ← input.readByte
  if i = emptyTrie then
    return (.null, input)
  let kind := i &&& ((0b11 : UInt8) <<< 6)
  if kind = leafPrefixMask then
    let (size, input) ← decodeSize i input
    return (.leaf size, input)
  else if kind = branchWithoutMask then
    let (size, input) ← decodeSize i input
    return (.branch false size, input)
  else if kind = branchWithMask then
    let (size, input) ← decodeSize i input
    return (.branch true size, input)
  else
    -- `Unallowed encoding`
    .error .decode

inductive NodeHandlePlan where
  | hash (range : ByteRange)
  | inline (range : ByteRange)
  deriving DecidableEq, Repr

def NodeHandlePlan.range : NodeHandlePlan → ByteRange
  | .hash range => range
  | .inline range => range

/-- `NibbleSlicePlan`: the bytes of a partial key, and the nibbles of padding
in front of it. -/
structure NibbleSlicePlan where
  bytes : ByteRange
  offset : Nat
  deriving DecidableEq, Repr

inductive NodePlan where
  | empty
  | leaf (partialKey : NibbleSlicePlan) (value : ByteRange)
  | nibbledBranch (partialKey : NibbleSlicePlan) (value : Option ByteRange)
      (children : List (Option NodeHandlePlan))
  deriving DecidableEq, Repr

/-- `Bitmap::decode`: the `u16` of the bitmap's two bytes. -/
def bitmapDecode (bytes : List UInt8) : Except Error Nat :=
  match RustInt.decodeLE 2 bytes with
  | some (bitmap, _) => .ok bitmap
  | none => .error .decode

/-- The padding check: with an odd nibble count the byte at the offset is
indexed directly, and `none` is the panic of an index past the data. -/
def checkPadding (data : List UInt8) (offset nibbleCount : Nat) : Option (Except Error Unit) :=
  if nibbleCount % nibblePerByte ≠ 0 then
    data[offset]?.map fun byte => if padLeft byte ≠ 0 then .error .badFormat else .ok ()
  else some (.ok ())

/-- The loop over the children of a branch: a child whose bit is set in the
bitmap is a compact length and that many bytes, a hash when the length is
the hash's. -/
def decodeChildren (hashLength bitmap : Nat) :
    List Nat → ByteSliceInput → Except Error (List (Option NodeHandlePlan) × ByteSliceInput)
  | [], input => .ok ([], input)
  | i :: rest, input =>
    if bitmap.testBit i then do
      let (count, input) ← input.decodeCompact
      let (range, input) ← input.take count
      let child := if count = hashLength then NodeHandlePlan.hash range else .inline range
      let (children, input) ← decodeChildren hashLength bitmap rest input
      .ok (some child :: children, input)
    else do
      let (children, input) ← decodeChildren hashLength bitmap rest input
      .ok (none :: children, input)

/-- The value of a branch, when its header says it has one: a compact length
and that many bytes. -/
def decodeBranchValue (hasValue : Bool) (input : ByteSliceInput) :
    Except Error (Option ByteRange × ByteSliceInput) :=
  if hasValue then do
    let (count, input) ← input.decodeCompact
    let (range, input) ← input.take count
    .ok (some range, input)
  else .ok (none, input)

/-- `decode_plan`, with `H::LENGTH` the length of a hash; `none` is a panic. -/
def decodePlan (hashLength : Nat) (data : List UInt8) : Option (Except Error NodePlan) :=
  match NodeHeader.decode (ByteSliceInput.new data) with
  | .error e => some (.error e)
  | .ok (.null, _) => some (.ok .empty)
  | .ok (.branch hasValue nibbleCount, input) =>
    (checkPadding data input.offset nibbleCount).map fun checked => do
      checked
      let (partialKey, input) ← input.take ((nibbleCount + (nibblePerByte - 1)) / nibblePerByte)
      let (bitmapRange, input) ← input.take bitmapLength
      let bitmap ← bitmapDecode ((data.drop bitmapRange.start).take (bitmapRange.stop - bitmapRange.start))
      let (value, input) ← decodeBranchValue hasValue input
      let (children, _) ← decodeChildren hashLength bitmap (List.range nibbleLength) input
      .ok (.nibbledBranch ⟨partialKey, numberPadding nibbleCount⟩ value children)
  | .ok (.leaf nibbleCount, input) =>
    (checkPadding data input.offset nibbleCount).map fun checked => do
      checked
      let (partialKey, input) ← input.take ((nibbleCount + (nibblePerByte - 1)) / nibblePerByte)
      let (count, input) ← input.decodeCompact
      let (value, _) ← input.take count
      .ok (.leaf ⟨partialKey, numberPadding nibbleCount⟩ value)

/-- A leaf header and a branch header of one nibble with nothing after them:
the padding check indexes the data at its length and panics. -/
theorem decodePlan_panics_on_bare_header (hashLength : Nat) :
    decodePlan hashLength [leafPrefixMask + 1] = none ∧ decodePlan hashLength [branchWithoutMask + 1] = none := by
  constructor <;> rfl

/-! ## What a decoded plan refers to -/

/-- A range of the data: it starts before it stops, and stops within. -/
def ByteRange.Within (range : ByteRange) (length : Nat) : Prop :=
  range.start ≤ range.stop ∧ range.stop ≤ length

/-- Every range of a plan lies within data of the given length. -/
def NodePlan.Within (plan : NodePlan) (length : Nat) : Prop :=
  match plan with
  | .empty => True
  | .leaf partialKey value => partialKey.bytes.Within length ∧ value.Within length
  | .nibbledBranch partialKey value children =>
    partialKey.bytes.Within length ∧ (∀ range ∈ value, range.Within length) ∧
      ∀ child ∈ children, ∀ handle ∈ child, NodeHandlePlan.range handle |>.Within length

/-- The padding nibble in front of a partial key with an odd number of
nibbles is zero. -/
def NibbleSlicePlan.PaddingZero (partialKey : NibbleSlicePlan) (data : List UInt8) : Prop :=
  partialKey.offset ≠ 0 → ∃ byte, data[partialKey.bytes.start]? = some byte ∧ padLeft byte = 0

def NodePlan.PaddingZero (plan : NodePlan) (data : List UInt8) : Prop :=
  match plan with
  | .empty => True
  | .leaf partialKey _ => partialKey.PaddingZero data
  | .nibbledBranch partialKey _ _ => partialKey.PaddingZero data

/-! ## The reads keep the data -/

section Reads

variable {input next : ByteSliceInput}

theorem take_ok {count : Nat} {range : ByteRange} (taken : input.take count = .ok (range, next)) :
    next.data = input.data ∧ range.start = input.offset ∧ range.Within input.data.length := by
  unfold ByteSliceInput.take at taken
  split at taken
  · cases taken
  · rename_i fits
    cases taken
    refine ⟨rfl, rfl, ?_, ?_⟩ <;> dsimp only <;> omega

theorem readByte_data {byte : UInt8} (read : input.readByte = .ok (byte, next)) :
    next.data = input.data := by
  unfold ByteSliceInput.readByte at read
  split at read
  · cases read
  · cases read
    rfl

theorem decodeCompact_data {value : Nat} (decoded : input.decodeCompact = .ok (value, next)) :
    next.data = input.data := by
  unfold ByteSliceInput.decodeCompact at decoded
  split at decoded
  · cases decoded
    rfl
  · cases decoded

theorem decodeSizeLoop_data {result size : Nat} (decoded : decodeSizeLoop result input = .ok (size, next)) :
    next.data = input.data := by
  fun_induction decodeSizeLoop result input with
  | case1 => cases decoded
  | case2 _ _ _ _ afterByte read =>
    cases decoded
    exact readByte_data read
  | case3 _ _ _ _ afterByte read _ inductionHypothesis =>
    exact (inductionHypothesis decoded).trans (readByte_data read)
  | case4 => cases decoded; rfl

theorem decodeSize_data {first : UInt8} {size : Nat} (decoded : decodeSize first input = .ok (size, next)) :
    next.data = input.data := by
  unfold decodeSize at decoded
  dsimp only at decoded
  split at decoded
  · cases decoded
    rfl
  · exact decodeSizeLoop_data decoded

theorem NodeHeader.decode_data {header : NodeHeader} (decoded : NodeHeader.decode input = .ok (header, next)) :
    next.data = input.data := by
  obtain ⟨⟨i, afterByte⟩, read, kinds⟩ := exists_of_bind_eq_ok decoded
  have sameAfterByte := readByte_data read
  dsimp only at kinds
  -- every kind of header reads its size with `decode_size`, if anything
  split_ifs at kinds
  · cases kinds
    exact sameAfterByte
  all_goals first
    | cases kinds
    | obtain ⟨⟨size, afterSize⟩, sized, built⟩ := exists_of_bind_eq_ok kinds
      cases built
      exact (decodeSize_data sized).trans sameAfterByte

/-- The range of a handle is the range read for the child. -/
theorem range_child (hashed : Prop) [Decidable hashed] (range : ByteRange) :
    (if hashed then NodeHandlePlan.hash range else .inline range).range = range := by
  split <;> rfl

theorem decodeChildren_ok {hashLength bitmap : Nat} :
    ∀ {indices : List Nat} {input next : ByteSliceInput} {children : List (Option NodeHandlePlan)},
      decodeChildren hashLength bitmap indices input = .ok (children, next) →
        next.data = input.data ∧
          ∀ child ∈ children, ∀ handle ∈ child, (NodeHandlePlan.range handle).Within input.data.length
  | [], input, next, children, decoded => by
    cases decoded
    exact ⟨rfl, by simp⟩
  | i :: rest, input, next, children, decoded => by
    rw [decodeChildren] at decoded
    split_ifs at decoded
    · -- a child whose bit is set: its length, its bytes, then the other children
      obtain ⟨⟨count, afterCount⟩, counted, afterCompact⟩ := exists_of_bind_eq_ok decoded
      obtain ⟨⟨range, afterRange⟩, taken, afterTake⟩ := exists_of_bind_eq_ok afterCompact
      obtain ⟨⟨others, afterOthers⟩, othersDecoded, built⟩ := exists_of_bind_eq_ok afterTake
      cases built
      have sameCount := decodeCompact_data counted
      obtain ⟨sameRange, -, within⟩ := take_ok taken
      obtain ⟨sameOthers, othersWithin⟩ := decodeChildren_ok othersDecoded
      refine ⟨sameOthers.trans (sameRange.trans sameCount), ?_⟩
      intro child member handle handleMember
      rcases List.mem_cons.mp member with rfl | inOthers
      · cases handleMember
        rw [range_child, ← sameCount]
        exact within
      · rw [← sameCount, ← sameRange]
        exact othersWithin child inOthers handle handleMember
    · obtain ⟨⟨others, afterOthers⟩, othersDecoded, built⟩ := exists_of_bind_eq_ok decoded
      cases built
      obtain ⟨sameOthers, othersWithin⟩ := decodeChildren_ok othersDecoded
      refine ⟨sameOthers, ?_⟩
      intro child member handle handleMember
      rcases List.mem_cons.mp member with rfl | inOthers
      · cases handleMember
      · exact othersWithin child inOthers handle handleMember

theorem decodeBranchValue_ok {hasValue : Bool} {value : Option ByteRange}
    (decoded : decodeBranchValue hasValue input = .ok (value, next)) :
    next.data = input.data ∧ ∀ range ∈ value, range.Within input.data.length := by
  unfold decodeBranchValue at decoded
  split_ifs at decoded
  · obtain ⟨⟨count, afterCount⟩, counted, afterCompact⟩ := exists_of_bind_eq_ok decoded
    obtain ⟨⟨range, afterRange⟩, taken, built⟩ := exists_of_bind_eq_ok afterCompact
    cases built
    have sameCount := decodeCompact_data counted
    obtain ⟨sameRange, -, within⟩ := take_ok taken
    refine ⟨sameRange.trans sameCount, ?_⟩
    intro read member
    cases member
    rw [← sameCount]
    exact within
  · cases decoded
    exact ⟨rfl, by simp⟩

/-- The partial key: the padding checked at the offset where its bytes start. -/
theorem partialKey_ok {data : List UInt8} {nibbleCount length : Nat} {range : ByteRange}
    (checked : checkPadding data input.offset nibbleCount = some (.ok ()))
    (taken : input.take length = .ok (range, next)) (same : input.data = data) :
    NibbleSlicePlan.PaddingZero ⟨range, numberPadding nibbleCount⟩ data ∧ range.Within data.length := by
  obtain ⟨-, start, within⟩ := take_ok taken
  refine ⟨fun padded => ?_, same ▸ within⟩
  have odd : nibbleCount % nibblePerByte ≠ 0 := padded
  unfold checkPadding at checked
  rw [if_pos odd] at checked
  obtain ⟨byte, indexed, zero⟩ := Option.map_eq_some_iff.mp checked
  refine ⟨byte, by rw [start]; exact indexed, ?_⟩
  split_ifs at zero with nonzero
  exact not_not.mp nonzero

end Reads

/-- When `decode_plan` succeeds, every range of the plan lies within the data,
and the padding nibble of a partial key with an odd number of nibbles is
zero. -/
theorem decodePlan_ranges_within {hashLength : Nat} {data : List UInt8} {plan : NodePlan}
    (decoded : decodePlan hashLength data = some (.ok plan)) :
    plan.Within data.length ∧ plan.PaddingZero data := by
  unfold decodePlan at decoded
  split at decoded
  · cases decoded
  · cases decoded
    exact ⟨trivial, trivial⟩
  · rename_i hasValue nibbleCount afterHeader header
    have sameHeader := NodeHeader.decode_data header
    obtain ⟨checked, padded, body⟩ := Option.map_eq_some_iff.mp decoded
    obtain ⟨⟨⟩, checkedOk, afterCheck⟩ := exists_of_bind_eq_ok body
    subst checkedOk
    -- the partial key, the bitmap, the value and the children, in this order
    obtain ⟨⟨partialKey, afterPartial⟩, partialTaken, afterPartialKey⟩ := exists_of_bind_eq_ok afterCheck
    obtain ⟨⟨bitmapRange, afterBitmap⟩, bitmapTaken, afterBitmapRange⟩ := exists_of_bind_eq_ok afterPartialKey
    obtain ⟨bitmap, -, afterBitmapDecoded⟩ := exists_of_bind_eq_ok afterBitmapRange
    obtain ⟨⟨value, afterValue⟩, valueDecoded, afterValueRead⟩ := exists_of_bind_eq_ok afterBitmapDecoded
    obtain ⟨⟨children, afterChildren⟩, childrenDecoded, built⟩ := exists_of_bind_eq_ok afterValueRead
    cases built
    obtain ⟨padding, partialWithin⟩ := partialKey_ok padded partialTaken sameHeader
    have sameBitmap := (take_ok bitmapTaken).1
    have samePartial := (take_ok partialTaken).1
    obtain ⟨sameValue, valueWithin⟩ := decodeBranchValue_ok valueDecoded
    have childrenWithin := (decodeChildren_ok childrenDecoded).2
    rw [sameValue, sameBitmap, samePartial, sameHeader] at childrenWithin
    rw [sameBitmap, samePartial, sameHeader] at valueWithin
    exact ⟨⟨partialWithin, valueWithin, childrenWithin⟩, padding⟩
  · rename_i nibbleCount afterHeader header
    have sameHeader := NodeHeader.decode_data header
    obtain ⟨checked, padded, body⟩ := Option.map_eq_some_iff.mp decoded
    obtain ⟨⟨⟩, checkedOk, afterCheck⟩ := exists_of_bind_eq_ok body
    subst checkedOk
    obtain ⟨⟨partialKey, afterPartial⟩, partialTaken, afterPartialKey⟩ := exists_of_bind_eq_ok afterCheck
    obtain ⟨⟨count, afterCount⟩, counted, afterCompact⟩ := exists_of_bind_eq_ok afterPartialKey
    obtain ⟨⟨value, afterValue⟩, valueTaken, built⟩ := exists_of_bind_eq_ok afterCompact
    cases built
    obtain ⟨padding, partialWithin⟩ := partialKey_ok padded partialTaken sameHeader
    have valueWithin := (take_ok valueTaken).2.2
    rw [decodeCompact_data counted, (take_ok partialTaken).1, sameHeader] at valueWithin
    exact ⟨⟨partialWithin, valueWithin⟩, padding⟩

/-- A leaf of three nibbles, its padding nibble zero, with a value of one
byte. -/
theorem decodePlan_ranges_within_odd_leaf :
    decodePlan 32 [0x43, 0x01, 0x23, 0x04, 0xAA] = some (.ok (.leaf ⟨⟨1, 3⟩, 1⟩ ⟨4, 5⟩)) ∧
      (NodePlan.leaf ⟨⟨1, 3⟩, 1⟩ ⟨4, 5⟩).Within 5 ∧
      (NodePlan.leaf ⟨⟨1, 3⟩, 1⟩ ⟨4, 5⟩).PaddingZero [0x43, 0x01, 0x23, 0x04, 0xAA] :=
  ⟨rfl, @decodePlan_ranges_within 32 [0x43, 0x01, 0x23, 0x04, 0xAA] _ rfl⟩

end OffchainStorage.Trie
