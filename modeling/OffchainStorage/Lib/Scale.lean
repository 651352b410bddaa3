import OffchainStorage.Lib.RustInt

/-!
# SCALE codecs and compact integers

A `Codec` writes a value as bytes and reads one back from the front of a
stream, returning the bytes it leaves.  Its field `decode_encode` is the
round trip every codec of the format keeps: reading what was written gives
the value back and leaves exactly the bytes that followed.  Codecs of the
libraries a model does not translate are taken as parameters of this type.

`encodeCompact` and `decodeCompact` are `Compact<u32>`: one byte below
`2 ^ 6`, two below `2 ^ 14`, four below `2 ^ 30` and a marker byte `0b11`
before the four bytes of a larger value, the mode in the low two bits of the
first byte.  The decoder rejects an encoding in a longer mode than the value
needs, so that the round trip `decodeCompact_encodeCompact` is the only way
to read a value.
-/

namespace Scale

open RustInt

/-- A SCALE codec: the encoding of a value, and a decoder that reads one
from the front of a stream and returns what is left of it. -/
structure Codec (α : Type) where
  encode : α → List UInt8
  decode : List UInt8 → Option (α × List UInt8)
  decode_encode : ∀ value rest, decode (encode value ++ rest) = some (value, rest)

variable {α β : Type}

/-- Two values one after the other, the encoding of a pair. -/
def Codec.prod (first : Codec α) (second : Codec β) : Codec (α × β) where
  encode pair := first.encode pair.1 ++ second.encode pair.2
  decode bytes := (first.decode bytes).bind fun (a, rest) =>
    (second.decode rest).map fun (b, rest) => ((a, b), rest)
  decode_encode := by
    intro pair rest
    rw [List.append_assoc, first.decode_encode]
    simp [second.decode_encode]

/-- The codec of `()`, which writes and reads nothing. -/
def Codec.unit : Codec Unit where
  encode _ := []
  decode bytes := some ((), bytes)
  decode_encode := by
    intro value rest
    rfl

/-- `Compact<u32>` encoding: the value shifted left by two, with the mode in
the low bits, on one, two or four bytes; above `2 ^ 30` the marker `0b11`
and the four bytes of the `u32`. -/
def encodeCompact (value : Nat) : List UInt8 :=
  if value < 2 ^ 6 then [UInt8.ofNat (value * 4)]
  else if value < 2 ^ 14 then encodeLE 2 (value * 4 + 1)
  else if value < 2 ^ 30 then encodeLE 4 (value * 4 + 2)
  else 3 :: encodeLE 4 value

/-- `Compact<u32>` decoding: the mode is the low two bits of the first byte;
a value that a shorter mode holds is out of range. -/
def decodeCompact : List UInt8 → Option (Nat × List UInt8)
  | [] => none
  | first :: rest =>
    match first.toNat % 4 with
    | 0 => some (first.toNat / 4, rest)
    | 1 => (decodeLE 2 (first :: rest)).bind fun (word, rest) =>
        if 2 ^ 6 ≤ word / 4 then some (word / 4, rest) else none
    | 2 => (decodeLE 4 (first :: rest)).bind fun (word, rest) =>
        if 2 ^ 14 ≤ word / 4 then some (word / 4, rest) else none
    | _ =>
      if first.toNat / 4 = 0 then
        (decodeLE 4 rest).bind fun (word, rest) => if 2 ^ 30 ≤ word then some (word, rest) else none
      else none

/-! ## The round trip, one mode at a time -/

section Modes

variable {value : Nat} (rest : List UInt8)

/-- The first byte of a little-endian word is its low byte. -/
theorem encodeLE_succ (bytes word : Nat) :
    encodeLE (bytes + 1) word = UInt8.ofNat (word % 256) :: encodeLE bytes (word / 256) :=
  rfl

theorem decodeCompact_single (small : value < 2 ^ 6) :
    decodeCompact (encodeCompact value ++ rest) = some (value, rest) := by
  have byte : (UInt8.ofNat (value * 4)).toNat = value * 4 := by
    rw [UInt8.toNat_ofNat']
    omega
  simp only [encodeCompact, small, if_true, List.singleton_append, decodeCompact, byte]
  rw [Nat.mul_mod_left]
  simp

theorem decodeCompact_two (large : 2 ^ 6 ≤ value) (small : value < 2 ^ 14) :
    decodeCompact (encodeCompact value ++ rest) = some (value, rest) := by
  have word := decodeLE_encodeLE 2 (value * 4 + 1) rest
  have wordFits : (value * 4 + 1) % 2 ^ (8 * 2) = value * 4 + 1 := by omega
  have mode : (UInt8.ofNat ((value * 4 + 1) % 256)).toNat % 4 = 1 := by
    rw [UInt8.toNat_ofNat']
    omega
  have shifted : (value * 4 + 1) / 4 = value := by omega
  rw [encodeLE_succ, List.cons_append] at word
  simp only [encodeCompact, show ¬value < 2 ^ 6 by omega, small, if_false, if_true]
  rw [encodeLE_succ, List.cons_append, decodeCompact, mode]
  dsimp only
  rw [word, wordFits]
  simp only [Option.bind_some, shifted]
  rw [if_pos large]

theorem decodeCompact_four (large : 2 ^ 14 ≤ value) (small : value < 2 ^ 30) :
    decodeCompact (encodeCompact value ++ rest) = some (value, rest) := by
  have word := decodeLE_encodeLE 4 (value * 4 + 2) rest
  have wordFits : (value * 4 + 2) % 2 ^ (8 * 4) = value * 4 + 2 := by omega
  have mode : (UInt8.ofNat ((value * 4 + 2) % 256)).toNat % 4 = 2 := by
    rw [UInt8.toNat_ofNat']
    omega
  have shifted : (value * 4 + 2) / 4 = value := by omega
  rw [encodeLE_succ, List.cons_append] at word
  simp only [encodeCompact, show ¬value < 2 ^ 6 by omega, show ¬value < 2 ^ 14 by omega, small,
    if_false, if_true]
  rw [encodeLE_succ, List.cons_append, decodeCompact, mode]
  dsimp only
  rw [word, wordFits]
  simp only [Option.bind_some, shifted]
  rw [if_pos large]

theorem decodeCompact_marked (large : 2 ^ 30 ≤ value) (fits : value < 2 ^ 32) :
    decodeCompact (encodeCompact value ++ rest) = some (value, rest) := by
  have word := decodeLE_encodeLE 4 value rest
  have wordFits : value % 2 ^ (8 * 4) = value := by omega
  simp only [encodeCompact, show ¬value < 2 ^ 6 by omega, show ¬value < 2 ^ 14 by omega,
    show ¬value < 2 ^ 30 by omega, if_false, List.cons_append, decodeCompact]
  have marker : (3 : UInt8).toNat % 4 = 3 ∧ (3 : UInt8).toNat / 4 = 0 := by decide
  rw [word, wordFits]
  simp only [Option.bind_some]
  rw [if_pos large, marker.1, if_pos marker.2]
  rfl

end Modes

/-- Reading a compact integer below `2 ^ 32` gives it back and leaves the
bytes after it. -/
theorem decodeCompact_encodeCompact {value : Nat} (fits : value < 2 ^ 32) (rest : List UInt8) :
    decodeCompact (encodeCompact value ++ rest) = some (value, rest) := by
  by_cases single : value < 2 ^ 6
  · exact decodeCompact_single rest single
  by_cases two : value < 2 ^ 14
  · exact decodeCompact_two rest (by omega) two
  by_cases four : value < 2 ^ 30
  · exact decodeCompact_four rest (by omega) four
  · exact decodeCompact_marked rest (by omega) fits

/-- The bytes a decoder leaves are the end of the stream it read. -/
theorem decodeCompact_suffix {bytes rest : List UInt8} {value : Nat}
    (decoded : decodeCompact bytes = some (value, rest)) : rest <:+ bytes := by
  cases bytes with
  | nil => cases decoded
  | cons first tail =>
    rw [decodeCompact] at decoded
    split at decoded
    · simp only [Option.some.injEq, Prod.mk.injEq] at decoded
      rw [← decoded.2]
      exact List.suffix_cons first tail
    · obtain ⟨⟨word, remaining⟩, read, checked⟩ := Option.bind_eq_some_iff.mp decoded
      dsimp only at checked
      split_ifs at checked
      simp only [Option.some.injEq, Prod.mk.injEq] at checked
      rw [← checked.2]
      exact decodeLE_suffix 2 read
    · obtain ⟨⟨word, remaining⟩, read, checked⟩ := Option.bind_eq_some_iff.mp decoded
      dsimp only at checked
      split_ifs at checked
      simp only [Option.some.injEq, Prod.mk.injEq] at checked
      rw [← checked.2]
      exact decodeLE_suffix 4 read
    · -- the marker byte, then the four bytes of the word
      split_ifs at decoded
      obtain ⟨⟨word, remaining⟩, read, checked⟩ := Option.bind_eq_some_iff.mp decoded
      dsimp only at checked
      split_ifs at checked
      simp only [Option.some.injEq, Prod.mk.injEq] at checked
      rw [← checked.2]
      exact (decodeLE_suffix 4 read).trans (List.suffix_cons first tail)


/-- The compact decoder reads a prefix: bytes appended after its input come
back after what it leaves. -/
theorem decodeCompact_append {bytes rest : List UInt8} {value : Nat} (extra : List UInt8)
    (decoded : decodeCompact bytes = some (value, rest)) : decodeCompact (bytes ++ extra) = some (value, rest ++ extra) := by
  cases bytes with
  | nil => cases decoded
  | cons first tail =>
    rw [decodeCompact] at decoded
    rw [List.cons_append, decodeCompact]
    split at decoded
    · simp only [Option.some.injEq, Prod.mk.injEq] at decoded ⊢
      rw [decoded.1, decoded.2]
      exact ⟨rfl, rfl⟩
    · rename_i two
      obtain ⟨⟨word, remaining⟩, read, checked⟩ := Option.bind_eq_some_iff.mp decoded
      rw [← List.cons_append, decodeLE_append extra 2 read, Option.bind_some]
      dsimp only at checked ⊢
      split_ifs at checked with large
      simp only [Option.some.injEq, Prod.mk.injEq] at checked
      rw [if_pos large, ← checked.1, ← checked.2]
    · rename_i four
      obtain ⟨⟨word, remaining⟩, read, checked⟩ := Option.bind_eq_some_iff.mp decoded
      rw [← List.cons_append, decodeLE_append extra 4 read, Option.bind_some]
      dsimp only at checked ⊢
      split_ifs at checked with large
      simp only [Option.some.injEq, Prod.mk.injEq] at checked
      rw [if_pos large, ← checked.1, ← checked.2]
    · rename_i marked notSingle notTwo notFour
      split_ifs at decoded with zeroHigh
      obtain ⟨⟨word, remaining⟩, read, checked⟩ := Option.bind_eq_some_iff.mp decoded
      rw [if_pos zeroHigh, decodeLE_append extra 4 read, Option.bind_some]
      dsimp only at checked ⊢
      split_ifs at checked with large
      simp only [Option.some.injEq, Prod.mk.injEq] at checked
      rw [if_pos large, ← checked.1, ← checked.2]

end Scale
