import Mathlib
import OffchainStorage.Lib.Limbs
import OffchainStorage.Lib.RustInt
import OffchainStorage.Lib.Transition

/-!
# `BigUint`: numbers as vectors of limbs

`biguint.rs` keeps a number as a vector of `u32` limbs, most significant
first, and its loops read and write them through getters that count from the
least significant.  The model keeps the vector as a list of `Fin (2 ^ 32)`
with at least one limb, which every constructor of the code guarantees (the
code leaves a number without limbs undefined), and each `u64` operation of a
loop as the checked operation of `RustInt`, `none` being the panic of a debug
build.  `get` and `set` panic past the end; the model reads zero and writes
nothing there, and the loops only use indices in range.

What each operation computes on the value of the limbs, `value`:

* `add` and `mul` give the sum and the product, on `max n m + 1` and `n + m`
  limbs (`add_spec`, `mul_spec`);
* `sub` gives the difference, or `Err` of the difference plus `B ^ n` when it
  is negative (`sub_spec`);
* `divUnit` gives the quotient by a limb read as at least one (`divUnit_spec`);
* `cmp` is the order of the values (`cmp_eq_compare`);
* `TryFrom` gives the value when the stripped limbs fit (`tryFrom_eq`), and a
  number whose limbs are all zero is not stripped at all
  (`tryFrom_rejects_zero_limbs`).

None of these loops overflows a `u64`: each operation returns `some`.
-/

namespace OffchainStorage.Arithmetic

open Transition

/-- `Single`, one limb. -/
abbrev Single := Fin (2 ^ 32)

namespace Biguint

/-- `B`, the base of the limbs. -/
def B : Nat := 2 ^ 32

/-- `x as Single`. -/
def asSingle (x : Nat) : Single := ⟨RustInt.cast 32 x, RustInt.cast_lt 32 x⟩

/-- `split`: the high and the low limb of a `Double`. -/
def split (a : Nat) : Single × Single := (asSingle (a >>> 32), asSingle a)

/-- `mul_single`: the product of two limbs as a `Double`. -/
def mulSingle (a b : Single) : Option Nat := RustInt.checkedMul 64 a.val b.val

/-- `div_single`: a `Double` by a limb, the quotient and the remainder; `none`
is the panic of a zero divisor. -/
def divSingle (a : Nat) (b : Single) : Option (Nat × Single) :=
  (RustInt.checkedDiv a b.val).map fun q => (q, asSingle (a % b.val))

end Biguint

open Biguint

/-- `BigUint`: the limbs, most significant first. -/
@[ext]
structure BigUint where
  digits : List Single
  nonempty : digits ≠ []
deriving DecidableEq

namespace BigUint

/-- `with_capacity`: `size` zero limbs, at least one. -/
def withCapacity (size : Nat) : BigUint :=
  ⟨List.replicate (max size 1) 0, by simp⟩

/-- `Zero::zero()`. -/
def zero : BigUint := ⟨[0], List.cons_ne_nil 0 []⟩

/-- `from_limbs`. -/
def fromLimbs (limbs : List Single) : BigUint :=
  if nonempty : limbs ≠ [] then ⟨limbs, nonempty⟩ else zero

/-- `From<Single>`. -/
def ofSingle (a : Single) : BigUint := ⟨[a], List.cons_ne_nil a []⟩

/-- `From<Double>`: the two limbs of `split`. -/
def ofDouble (a : Nat) : BigUint := ⟨[(split a).1, (split a).2], List.cons_ne_nil _ _⟩

def len (x : BigUint) : Nat := x.digits.length

/-- `get`: the limb at `index`, counted from the least significant. -/
def get (x : BigUint) (index : Nat) : Single :=
  if index < x.len then x.digits.getD (x.len - 1 - index) 0 else 0

def checkedGet (x : BigUint) (index : Nat) : Option Single := do
  let i ← RustInt.checkedSub x.len 1
  let j ← RustInt.checkedSub i index
  x.digits[j]?

/-- `set`: writes the limb at `index`, counted from the least significant. -/
def set (x : BigUint) (index : Nat) (value : Single) : BigUint :=
  if index < x.len then
    ⟨x.digits.set (x.len - 1 - index) value, fun empty => x.nonempty ((List.set_eq_nil_iff _ _).mp empty)⟩
  else x

def msb (x : BigUint) : Single := x.digits.head x.nonempty

/-- `lstrip`: drops the zero limbs before the first nonzero one; when every
limb is zero, `position` finds nothing and `unwrap_or(0)` strips nothing. -/
def lstrip (x : BigUint) : BigUint :=
  if x.len = 0 then x else
    match found : x.digits.findIdx? (· ≠ 0) with
    | some index =>
      if index > 0 then
        ⟨x.digits.drop index, fun empty => absurd (List.drop_eq_nil_iff.mp empty)
          (Nat.not_le.mpr (List.findIdx?_eq_some_iff_findIdx_eq.mp found).1)⟩
      else x
    | none => x

def lpad (x : BigUint) (size : Nat) : BigUint :=
  if x.len ≥ size then x else ⟨List.replicate (size - x.len) 0 ++ x.digits, by simp [x.nonempty]⟩

/-! ## Addition, subtraction and multiplication -/

/-- One round of the loop of `add`: the limb `j` of the sum, and the carry. -/
def addStep (x other : BigUint) (state : BigUint × Nat) (j : Nat) : Option (BigUint × Nat) := do
  let u := ((x.checkedGet j).getD 0).val
  let v := ((other.checkedGet j).getD 0).val
  let s ← RustInt.checkedAdd 64 u v >>= (RustInt.checkedAdd 64 · state.2)
  pure (state.1.set j (asSingle (s % B)), s / B)

def add (x other : BigUint) : Option BigUint := do
  let n := max x.len other.len
  let sum ← (List.range n).foldlM (addStep x other) (withCapacity (n + 1), 0)
  pure (sum.1.set n (asSingle sum.2))

/-- One round of the loop of `sub`: the limb `j` of the difference, and the
borrow. -/
def subStep (x other : BigUint) (state : BigUint × Nat) (j : Nat) : Option (BigUint × Nat) :=
  let u := ((x.checkedGet j).getD 0).val
  let v := ((other.checkedGet j).getD 0).val
  match (RustInt.checkedSub u v).bind (RustInt.checkedSub · state.2) with
  | some v2 => some (state.1.set j (asSingle (v2 % B)), 0)
  | none => do
    -- `needs_borrow`
    let t ← (RustInt.checkedAdd 64 u B).bind (RustInt.checkedSub · v) >>= (RustInt.checkedSub · state.2)
    pure (state.1.set j (asSingle t), 1)

def sub (x other : BigUint) : Option (Except BigUint BigUint) := do
  let n := max x.len other.len
  let result ← (List.range n).foldlM (subStep x other) (withCapacity n, 0)
  pure (if result.2 = 0 then .ok result.1 else .error result.1)

/-- One round of the inner loop of `mul`: the limb `i + j` of the product so
far, and the carry. -/
def mulStep (x other : BigUint) (j : Nat) (state : BigUint × Single) (i : Nat) :
    Option (BigUint × Single) := do
  let product ← mulSingle (x.get j) (other.get i)
  let t ← RustInt.checkedAdd 64 product (state.1.get (i + j)).val >>= (RustInt.checkedAdd 64 · state.2.val)
  pure (state.1.set (i + j) (asSingle (t % B)), asSingle (t / B))

/-- One round of the outer loop of `mul`: a zero limb `j` is skipped, since
the limb `j + m` it would write is still zero. -/
def mulRow (x other : BigUint) (w : BigUint) (j : Nat) : Option BigUint :=
  if x.get j = 0 then some w
  else do
    let row ← (List.range other.len).foldlM (mulStep x other j) (w, 0)
    pure (row.1.set (j + other.len) row.2)

def mul (x other : BigUint) : Option BigUint :=
  (List.range x.len).foldlM (mulRow x other) (withCapacity (other.len + x.len))

/-- One round of the loop of `div_unit`: the limb `d` of the quotient, and the
remainder. -/
def divUnitStep (x : BigUint) (other : Single) (state : BigUint × Single) (d : Nat) :
    Option (BigUint × Single) := do
  -- `with_r(self.get(d), r)`
  let withR ← RustInt.checkedMul 64 state.2.val B >>= (RustInt.checkedAdd 64 · (x.get d).val)
  let divided ← divSingle withR other
  pure (state.1.set d (asSingle divided.1), divided.2)

def divUnit (x : BigUint) (other : Single) : Option BigUint :=
  let other := max other 1
  ((List.range x.len).reverse.foldlM (divUnitStep x other) (withCapacity x.len, 0)).map Prod.fst

/-! ## Comparison and conversion -/

/-- `Ord` of slices of limbs: lexicographic. -/
def cmpLimbs : List Single → List Single → Ordering
  | [], [] => .eq
  | [], _ :: _ => .lt
  | _ :: _, [] => .gt
  | a :: as, b :: bs => (compare a b).then (cmpLimbs as bs)

def cmp (x other : BigUint) : Ordering :=
  match x.digits.findIdx? (· ≠ 0), other.digits.findIdx? (· ≠ 0) with
  | none, none => .eq
  | some _, none => .gt
  | none, some _ => .lt
  | some lhsIdx, some rhsIdx =>
    let lhs := x.digits.drop lhsIdx
    let rhs := other.digits.drop rhsIdx
    match compare lhs.length rhs.length with
    | .eq => cmpLimbs lhs rhs
    | lenCmp => lenCmp

/-- `PartialEq`, through `cmp`. -/
def eq (x other : BigUint) : Bool := x.cmp other == .eq

/-- One round of the loop of `try_from`: `acc += d << (SHIFT * i)`. -/
def accumulate (bits : Nat) (acc : Nat) (limb : Single × Nat) : Option Nat := do
  let shifted ← RustInt.checkedShl bits limb.1.val (32 * limb.2)
  RustInt.checkedAdd bits acc shifted

/-- `TryFrom<BigUint>` of `impl_try_from_number_for`, for an integer of `bits`
bits: `none` is an overflow panic. -/
def tryFrom (bits : Nat) (message : String) (value : BigUint) : Option (Except String Nat) :=
  let value := value.lstrip
  if value.len * 32 > bits then some (.error message)
  else (value.digits.reverse.zipIdx.foldlM (accumulate bits) 0).map .ok

def tryIntoU128 (value : BigUint) : Option (Except String Nat) :=
  tryFrom 128 "cannot fit a number into u128" value

def tryIntoU64 (value : BigUint) : Option (Except String Nat) :=
  tryFrom 64 "cannot fit a number into u64" value


/-! ## The limbs, least significant first -/

/-- The limbs as numbers, least significant first. -/
def limbs (x : BigUint) : List Nat := (x.digits.map Fin.val).reverse

/-- The number the limbs stand for. -/
def value (x : BigUint) : Nat := Nat.ofDigits B x.limbs

theorem one_lt_B : 1 < B := by decide

theorem length_limbs (x : BigUint) : x.limbs.length = x.len := by
  simp [limbs, len]

theorem len_pos (x : BigUint) : 0 < x.len :=
  List.length_pos_iff.mpr x.nonempty

theorem limbs_lt (x : BigUint) : ∀ d ∈ x.limbs, d < B := by
  intro d member
  simp only [limbs, List.mem_reverse, List.mem_map] at member
  obtain ⟨limb, -, rfl⟩ := member
  exact limb.isLt

theorem value_lt (x : BigUint) : x.value < B ^ x.len := by
  rw [← length_limbs]
  exact Nat.ofDigits_lt_base_pow_length one_lt_B x.limbs_lt

theorem asSingle_val (a : Nat) : (asSingle a).val = a % B :=
  rfl

theorem asSingle_val_of_lt {a : Nat} (fits : a < B) : (asSingle a).val = a :=
  Nat.mod_eq_of_lt fits

theorem get_val (x : BigUint) (i : Nat) : (x.get i).val = x.limbs.getD i 0 := by
  unfold get
  split
  · next within =>
    have inDigits : x.len - 1 - i < x.digits.length := by
      unfold len at within ⊢
      omega
    rw [List.getD_eq_getElem _ _ inDigits, List.getD_eq_getElem _ _ (by rwa [length_limbs])]
    simp [limbs, List.getElem_reverse, len]
  · next past =>
    rw [List.getD_eq_default _ _ (by rw [length_limbs]; omega)]
    rfl

theorem checkedGet_getD (x : BigUint) (j : Nat) : (x.checkedGet j).getD 0 = x.get j := by
  unfold checkedGet get
  rw [RustInt.checkedSub_of_le (len_pos x)]
  by_cases within : j < x.len
  · have inDigits : x.len - 1 - j < x.digits.length := by
      unfold len at within ⊢
      omega
    rw [if_pos within, Option.bind_eq_bind, Option.bind_some,
      RustInt.checkedSub_of_le (Nat.le_sub_one_of_lt within), Option.bind_some,
      List.getElem?_eq_getElem inDigits, List.getD_eq_getElem _ _ inDigits]
    rfl
  · have positive := len_pos x
    rw [if_neg within, Option.bind_eq_bind, Option.bind_some, RustInt.checkedSub_of_lt (by omega)]
    rfl

/-- Writing at the mirrored place of a list is writing at the place of its
reverse. -/
theorem reverse_set_mirror {α : Type} (l : List α) {i : Nat} (within : i < l.length) (a : α) :
    (l.set (l.length - 1 - i) a).reverse = l.reverse.set i a := by
  apply List.ext_getElem (by simp)
  intro k inLeft inRight
  simp only [List.length_reverse, List.length_set] at inLeft
  simp only [List.getElem_reverse, List.getElem_set, List.length_set]
  by_cases same : i = k
  · subst same
    simp
  · rw [if_neg (by omega), if_neg same]

theorem limbs_set (x : BigUint) (i : Nat) (v : Single) : (x.set i v).limbs = x.limbs.set i v.val := by
  unfold set
  split
  · next within =>
    have mirrored := reverse_set_mirror (x.digits.map Fin.val) (by simpa [len] using within) v.val
    simp only [List.length_map] at mirrored
    simp only [limbs, List.map_set]
    exact mirrored
  · next past =>
    rw [List.set_eq_of_length_le (by rw [length_limbs]; omega)]

theorem len_set (x : BigUint) (i : Nat) (v : Single) : (x.set i v).len = x.len := by
  unfold set
  split <;> simp [len]

theorem get_set_self (x : BigUint) {i : Nat} (within : i < x.len) (v : Single) : (x.set i v).get i = v := by
  apply Fin.ext
  rw [get_val, limbs_set, List.getD_eq_getElem?_getD, List.getElem?_set_self (by rwa [length_limbs])]
  rfl

theorem get_set_of_ne (x : BigUint) {i j : Nat} (apart : j ≠ i) (v : Single) : (x.set i v).get j = x.get j := by
  apply Fin.ext
  rw [get_val, get_val, limbs_set, List.getD_eq_getElem?_getD, List.getElem?_set_ne (Ne.symm apart),
    ← List.getD_eq_getElem?_getD]

/-- Writing `v` at place `i` takes off the limb there and adds `v`. -/
theorem value_set (x : BigUint) {i : Nat} (within : i < x.len) (v : Single) :
    (x.set i v).value + (x.get i).val * B ^ i = x.value + v.val * B ^ i := by
  have placed := Limbs.ofDigits_set B x.limbs (by rwa [length_limbs]) v.val
  rw [value, value, limbs_set, get_val, List.getD_eq_getElem _ _ (by rwa [length_limbs])]
  exact placed

/-- Writing at a place that holds zero adds the limb at its place. -/
theorem value_set_of_zero (x : BigUint) {i : Nat} (within : i < x.len) (zero : x.get i = 0) (v : Single) :
    (x.set i v).value = x.value + v.val * B ^ i := by
  have placed := value_set x within v
  rw [zero, Fin.val_zero, Nat.zero_mul, Nat.add_zero] at placed
  exact placed

theorem len_withCapacity (size : Nat) : (withCapacity size).len = max size 1 := by
  simp [withCapacity, len]

theorem get_withCapacity (size i : Nat) : (withCapacity size).get i = 0 := by
  apply Fin.ext
  rw [get_val]
  simp [withCapacity, limbs, List.getD_eq_getElem?_getD, List.getElem?_replicate]
  split <;> rfl

theorem value_withCapacity (size : Nat) : (withCapacity size).value = 0 := by
  simp [value, limbs, withCapacity, List.map_replicate, List.reverse_replicate]

/-- The limbs below a place are worth less than its power. -/
theorem ofDigits_take_lt (x : BigUint) (j : Nat) : Nat.ofDigits B (x.limbs.take j) < B ^ j :=
  Limbs.ofDigits_take_lt one_lt_B x.limbs_lt j

/-- All the limbs of `x` are those below any place at or past its length. -/
theorem ofDigits_take_of_le (x : BigUint) {j : Nat} (past : x.len ≤ j) :
    Nat.ofDigits B (x.limbs.take j) = x.value := by
  rw [List.take_of_length_le (by rw [length_limbs]; exact past)]
  rfl

/-- The limbs below place `j + 1` are those below `j` and the limb `j`. -/
theorem ofDigits_take_succ (x : BigUint) (j : Nat) :
    Nat.ofDigits B (x.limbs.take (j + 1)) = Nat.ofDigits B (x.limbs.take j) + (x.get j).val * B ^ j := by
  rw [Limbs.ofDigits_take_succ, get_val]

/-- A number `s` split at the base, its low part at place `j` and its high
part at place `j + 1`. -/
theorem mod_add_div_place (s j : Nat) : s % B * B ^ j + s / B * B ^ (j + 1) = s * B ^ j := by
  have split := Nat.mod_add_div s B
  calc s % B * B ^ j + s / B * B ^ (j + 1) = (s % B + B * (s / B)) * B ^ j := by ring
    _ = s * B ^ j := by rw [split]

/-! ## The limbs as digits of the value -/

section Places

/-- The limbs from place `d` on: the limb `d` and those from `d + 1` on. -/
theorem ofDigits_drop (x : BigUint) {d : Nat} (within : d < x.len) :
    Nat.ofDigits B (x.limbs.drop d) = (x.get d).val + B * Nat.ofDigits B (x.limbs.drop (d + 1)) := by
  rw [List.drop_eq_getElem_cons (by rwa [length_limbs]), Nat.ofDigits_cons, get_val,
    List.getD_eq_getElem _ _ (by rwa [length_limbs])]

theorem value_div_pow (x : BigUint) (k : Nat) : x.value / B ^ k = Nat.ofDigits B (x.limbs.drop k) :=
  Nat.ofDigits_div_pow_eq_ofDigits_drop k (by unfold B; positivity) x.limbs x.limbs_lt

/-- Each limb is the digit of the value at its place. -/
theorem get_val_eq (x : BigUint) (d : Nat) : (x.get d).val = x.value / B ^ d % B := by
  rw [value_div_pow]
  by_cases within : d < x.len
  · rw [ofDigits_drop x within, Nat.add_mul_mod_self_left, Nat.mod_eq_of_lt (show (x.get d).val < B from (x.get d).isLt)]
  · rw [List.drop_of_length_le (by rw [length_limbs]; omega), Nat.ofDigits_nil, Nat.zero_mod]
    unfold get
    rw [if_neg within]
    rfl

/-- The digits of `X` at the places `j` to `j + k - 1` make `X` read from
place `j`, below place `j + k`. -/
theorem ofDigits_map_digits (X j k : Nat) :
    Nat.ofDigits B ((List.range' j k).map fun d => X / B ^ d % B) = X / B ^ j % B ^ k := by
  induction k with
  | zero => rw [List.range'_zero, List.map_nil, Nat.ofDigits_nil, pow_zero, Nat.mod_one]
  | succ k ih =>
    rw [List.range'_concat, List.map_append, Nat.ofDigits_append, ih, List.map_singleton,
      Nat.ofDigits_singleton, List.length_map, List.length_range', Nat.mod_pow_succ, Nat.div_div_eq_div_mul,
      ← pow_add, Nat.one_mul]

theorem limbs_eq_map (x : BigUint) : x.limbs = (List.range x.len).map fun d => x.value / B ^ d % B := by
  apply List.ext_getElem (by simp [length_limbs])
  intro d inLimbs _
  rw [List.getElem_map, List.getElem_range, ← get_val_eq, get_val, List.getD_eq_getElem _ _ inLimbs]

/-- A number whose limbs are the digits of `X`, below the power of its length,
stands for `X`. -/
theorem value_eq_of_get {x : BigUint} {X : Nat} (digits : ∀ d < x.len, (x.get d).val = X / B ^ d % B)
    (below : X < B ^ x.len) : x.value = X := by
  have same : x.limbs = (List.range x.len).map fun d => X / B ^ d % B := by
    rw [limbs_eq_map]
    apply List.map_congr_left
    intro d member
    rw [← get_val_eq, digits d (List.mem_range.mp member)]
  rw [value, same, List.range_eq_range', ofDigits_map_digits, pow_zero, Nat.div_one, Nat.mod_eq_of_lt below]

theorem ext_limbs {x y : BigUint} (same : x.limbs = y.limbs) : x = y := by
  apply BigUint.ext
  have mapped : x.digits.map Fin.val = y.digits.map Fin.val := List.reverse_injective same
  exact List.map_injective_iff.mpr Fin.val_injective mapped

theorem set_comm (x : BigUint) {a b : Nat} (apart : a ≠ b) (v w : Single) :
    (x.set a v).set b w = (x.set b w).set a v := by
  apply ext_limbs
  rw [limbs_set, limbs_set, limbs_set, limbs_set, List.set_comm _ _ apart.symm]

theorem value_ofSingle (a : Single) : (ofSingle a).value = a.val := by
  simp [value, limbs, ofSingle]

theorem len_ofSingle (a : Single) : (ofSingle a).len = 1 :=
  rfl

theorem value_ofDouble {a : Nat} (fits : a < 2 ^ 64) : (ofDouble a).value = a := by
  have high : a >>> 32 < B := by
    rw [Nat.shiftRight_eq_div_pow]
    exact Nat.div_lt_of_lt_mul (by unfold B; omega)
  simp only [value, limbs, ofDouble, split, List.map_cons, List.map_nil, List.reverse_cons, List.reverse_nil,
    List.nil_append, List.cons_append, Nat.ofDigits_cons, Nat.ofDigits_nil, asSingle_val]
  rw [Nat.mod_eq_of_lt high, Nat.shiftRight_eq_div_pow]
  have split := Nat.mod_add_div a B
  unfold B at *
  omega

theorem len_ofDouble (a : Nat) : (ofDouble a).len = 2 :=
  rfl

theorem lpad_of_le {x : BigUint} {size : Nat} (within : size ≤ x.len) : x.lpad size = x :=
  if_pos within

end Places

/-! ## Addition -/

section Add

variable {x other : BigUint}

/-- What the loop of `add` keeps after `j` rounds: the limbs written and the
carry at place `j` make the sum of the limbs below `j`, and the limbs from `j`
on are still zero. -/
structure AddInvariant (x other : BigUint) (n j : Nat) (state : BigUint × Nat) : Prop where
  length : state.1.len = n + 1
  zero : ∀ i, j ≤ i → state.1.get i = 0
  carry : state.2 ≤ 1
  sum : state.1.value + state.2 * B ^ j =
    Nat.ofDigits B (x.limbs.take j) + Nat.ofDigits B (other.limbs.take j)

/-- A round of `add` with a carry of at most one does not overflow. -/
theorem addStep_eq (x other : BigUint) (state : BigUint × Nat) (j : Nat) (carry : state.2 ≤ 1) :
    addStep x other state j =
      some (state.1.set j (asSingle (((x.get j).val + (other.get j).val + state.2) % B)),
        ((x.get j).val + (other.get j).val + state.2) / B) := by
  have uBound := (x.get j).isLt
  have vBound := (other.get j).isLt
  have pairFits : (x.get j).val + (other.get j).val < 2 ^ 64 := by omega
  have sumFits : (x.get j).val + (other.get j).val + state.2 < 2 ^ 64 := by omega
  simp only [addStep, checkedGet_getD, RustInt.checkedAdd_of_lt pairFits, Option.bind_eq_bind,
    Option.bind_some, RustInt.checkedAdd_of_lt sumFits]
  rfl

theorem addStep_spec {n j : Nat} {state : BigUint × Nat} (within : j < n)
    (kept : AddInvariant x other n j state) :
    ∃ next, addStep x other state j = some next ∧ AddInvariant x other n (j + 1) next := by
  have uBound := (x.get j).isLt
  have vBound := (other.get j).isLt
  have carry := kept.carry
  have inRange : j < state.1.len := by rw [kept.length]; omega
  refine ⟨_, addStep_eq x other state j carry, ?_⟩
  generalize sumDef : (x.get j).val + (other.get j).val + state.2 = s
  have sBound : s < 2 * B := by unfold B at *; omega
  constructor
  · rw [len_set, kept.length]
  · intro i above
    rw [get_set_of_ne _ (by omega), kept.zero i (by omega)]
  · show s / B ≤ 1
    unfold B at *
    omega
  · show (state.1.set j (asSingle (s % B))).value + s / B * B ^ (j + 1) = _
    have written := value_set_of_zero state.1 inRange (kept.zero j (Nat.le_refl j)) (asSingle (s % B))
    rw [asSingle_val_of_lt (Nat.mod_lt _ (by unfold B; positivity))] at written
    have place := mod_add_div_place s j
    have spread : s * B ^ j = (x.get j).val * B ^ j + (other.get j).val * B ^ j + state.2 * B ^ j := by
      rw [← sumDef]
      ring
    rw [ofDigits_take_succ, ofDigits_take_succ, written]
    have sum := kept.sum
    omega

theorem add_spec (x other : BigUint) :
    ∃ w, x.add other = some w ∧ w.value = x.value + other.value ∧ w.len = max x.len other.len + 1 := by
  have initially : AddInvariant x other (max x.len other.len) 0 (withCapacity (max x.len other.len + 1), 0) :=
    ⟨by rw [len_withCapacity]; omega, fun i _ => get_withCapacity _ i, Nat.zero_le 1,
      by simp [value_withCapacity]⟩
  obtain ⟨final, ran, kept⟩ := foldlM_range_invariant (AddInvariant x other (max x.len other.len))
    (fun _ _ within kept => addStep_spec within kept) initially
  have inRange : max x.len other.len < final.1.len := by rw [kept.length]; omega
  have carryBound : final.2 < B := by have := kept.carry; unfold B; omega
  refine ⟨final.1.set (max x.len other.len) (asSingle final.2), ?_, ?_, ?_⟩
  · simp only [add, ran]
    rfl
  · rw [value_set_of_zero final.1 inRange (kept.zero _ (Nat.le_refl _)), asSingle_val_of_lt carryBound,
      kept.sum, ofDigits_take_of_le x (le_max_left _ _), ofDigits_take_of_le other (le_max_right _ _)]
  · rw [len_set, kept.length]

end Add

/-! ## Subtraction -/

section Sub

variable {x other : BigUint}

/-- What the loop of `sub` keeps after `j` rounds: the limbs written and the
limbs of `other` below `j` make those of `x` and the borrow at place `j`. -/
structure SubInvariant (x other : BigUint) (n j : Nat) (state : BigUint × Nat) : Prop where
  length : state.1.len = max n 1
  zero : ∀ i, j ≤ i → state.1.get i = 0
  borrow : state.2 ≤ 1
  difference : state.1.value + Nat.ofDigits B (other.limbs.take j) =
    Nat.ofDigits B (x.limbs.take j) + state.2 * B ^ j

/-- A round of `sub` with a borrow of at most one: the difference of the
limbs, or that difference plus `B` and a borrow. -/
theorem subStep_eq (x other : BigUint) (state : BigUint × Nat) (j : Nat) (borrow : state.2 ≤ 1) :
    subStep x other state j =
      if (other.get j).val + state.2 ≤ (x.get j).val then
        some (state.1.set j (asSingle (((x.get j).val - (other.get j).val - state.2) % B)), 0)
      else some (state.1.set j (asSingle ((x.get j).val + B - (other.get j).val - state.2)), 1) := by
  have uBound := (x.get j).isLt
  have vBound := (other.get j).isLt
  unfold subStep
  simp only [checkedGet_getD]
  by_cases fits : (other.get j).val + state.2 ≤ (x.get j).val
  · rw [if_pos fits, RustInt.checkedSub_of_le (by omega)]
    simp only [Option.bind_some, RustInt.checkedSub_of_le (show state.2 ≤ (x.get j).val - (other.get j).val by omega)]
  · rw [if_neg fits]
    have noDifference :
        (RustInt.checkedSub (x.get j).val (other.get j).val).bind (RustInt.checkedSub · state.2) = none := by
      by_cases above : (other.get j).val ≤ (x.get j).val
      · rw [RustInt.checkedSub_of_le above]
        simp only [Option.bind_some, RustInt.checkedSub_of_lt (show (x.get j).val - (other.get j).val < state.2 by omega)]
      · rw [RustInt.checkedSub_of_lt (by omega), Option.bind_none]
    have raised : (x.get j).val + B < 2 ^ 64 := by unfold B; omega
    rw [noDifference]
    simp only [RustInt.checkedAdd_of_lt raised, Option.bind_some, Option.bind_eq_bind,
      RustInt.checkedSub_of_le (show (other.get j).val ≤ (x.get j).val + B by unfold B at *; omega),
      RustInt.checkedSub_of_le (show state.2 ≤ (x.get j).val + B - (other.get j).val by unfold B at *; omega)]
    rfl

theorem subStep_spec {n j : Nat} {state : BigUint × Nat} (within : j < n)
    (kept : SubInvariant x other n j state) :
    ∃ next, subStep x other state j = some next ∧ SubInvariant x other n (j + 1) next := by
  have uBound := (x.get j).isLt
  have vBound := (other.get j).isLt
  have borrow := kept.borrow
  have inRange : j < state.1.len := by rw [kept.length]; omega
  have written := value_set_of_zero state.1 inRange (kept.zero j (Nat.le_refl j))
  have difference := kept.difference
  have zeroAbove : ∀ (v : Single) i, j + 1 ≤ i → (state.1.set j v).get i = 0 := fun v i above => by
    rw [get_set_of_ne _ (by omega), kept.zero i (by omega)]
  rw [subStep_eq x other state j borrow]
  by_cases fits : (other.get j).val + state.2 ≤ (x.get j).val
  · -- no borrow: the limb is the difference itself
    rw [if_pos fits]
    have limb : ((x.get j).val - (other.get j).val - state.2) % B < B := Nat.mod_lt _ (by unfold B; positivity)
    have exact : ((x.get j).val - (other.get j).val - state.2) % B = (x.get j).val - (other.get j).val - state.2 :=
      Nat.mod_eq_of_lt (by unfold B at *; omega)
    refine ⟨_, rfl, ⟨by rw [len_set, kept.length], zeroAbove _, Nat.zero_le 1, ?_⟩⟩
    show (state.1.set j _).value + _ = _ + 0 * B ^ (j + 1)
    rw [written, asSingle_val_of_lt limb, exact, ofDigits_take_succ, ofDigits_take_succ]
    have spread : ((x.get j).val - (other.get j).val - state.2) * B ^ j + (other.get j).val * B ^ j +
        state.2 * B ^ j = (x.get j).val * B ^ j := by
      rw [← Nat.add_mul, ← Nat.add_mul]
      congr 1
      omega
    omega
  · -- a borrow: the limb is the difference plus `B`
    rw [if_neg fits]
    have base : B = 2 ^ 32 := rfl
    have limb : (x.get j).val + B - (other.get j).val - state.2 < B := by omega
    refine ⟨_, rfl, ⟨by rw [len_set, kept.length], zeroAbove _, Nat.le_refl 1, ?_⟩⟩
    show (state.1.set j _).value + _ = _ + 1 * B ^ (j + 1)
    rw [written, asSingle_val_of_lt limb, ofDigits_take_succ, ofDigits_take_succ]
    have restored : (x.get j).val + B - (other.get j).val - state.2 + (other.get j).val + state.2 =
        (x.get j).val + B := by
      omega
    have spread : ((x.get j).val + B - (other.get j).val - state.2) * B ^ j + (other.get j).val * B ^ j +
        state.2 * B ^ j = (x.get j).val * B ^ j + 1 * B ^ (j + 1) := by
      calc _ = ((x.get j).val + B - (other.get j).val - state.2 + (other.get j).val + state.2) * B ^ j := by
            ring
        _ = (x.get j).val * B ^ j + 1 * B ^ (j + 1) := by
            rw [restored, pow_succ B j]
            ring
    omega

theorem sub_spec (x other : BigUint) :
    ∃ w, x.sub other = some (if other.value ≤ x.value then .ok w else .error w) ∧
      w.len = max x.len other.len ∧
      w.value + other.value = x.value + if other.value ≤ x.value then 0 else B ^ max x.len other.len := by
  have wide : 1 ≤ max x.len other.len := le_max_of_le_left (len_pos x)
  have initially : SubInvariant x other (max x.len other.len) 0 (withCapacity (max x.len other.len), 0) :=
    ⟨by rw [len_withCapacity], fun i _ => get_withCapacity _ i, Nat.zero_le 1, by simp [value_withCapacity]⟩
  obtain ⟨final, ran, kept⟩ := foldlM_range_invariant (SubInvariant x other (max x.len other.len))
    (fun _ _ within kept => subStep_spec within kept) initially
  have length : final.1.len = max x.len other.len := by rw [kept.length]; omega
  have bounded := value_lt final.1
  have difference := kept.difference
  rw [ofDigits_take_of_le x (le_max_left _ _), ofDigits_take_of_le other (le_max_right _ _)] at difference
  rw [length] at bounded
  refine ⟨final.1, ?_, length, ?_⟩
  · simp only [sub, ran, Option.bind_eq_bind, Option.bind_some]
    by_cases settled : final.2 = 0
    · rw [if_pos settled, if_pos (by rw [settled] at difference; omega)]
      rfl
    · have one : final.2 = 1 := by have := kept.borrow; omega
      rw [one] at difference
      rw [if_neg settled, if_neg (by omega)]
      rfl
  · have := kept.borrow
    by_cases settled : final.2 = 0
    · rw [settled] at difference
      rw [if_pos (by omega)]
      omega
    · have one : final.2 = 1 := by omega
      rw [one] at difference
      rw [if_neg (by omega)]
      omega

end Sub

/-! ## Multiplication -/

section Mul

variable {x other : BigUint}

/-- A round of the inner loop of `mul`: the product of two limbs with a limb
and a carry stays below `B ^ 2`, so it never overflows. -/
theorem mulStep_eq (x other : BigUint) (j : Nat) (state : BigUint × Single) (i : Nat) :
    mulStep x other j state i =
      some (state.1.set (i + j)
          (asSingle (((x.get j).val * (other.get i).val + (state.1.get (i + j)).val + state.2.val) % B)),
        asSingle (((x.get j).val * (other.get i).val + (state.1.get (i + j)).val + state.2.val) / B)) := by
  have aBound := (x.get j).isLt
  have bBound := (other.get i).isLt
  have wBound := (state.1.get (i + j)).isLt
  have kBound := state.2.isLt
  have product : (x.get j).val * (other.get i).val ≤ (2 ^ 32 - 1) * (2 ^ 32 - 1) :=
    Nat.mul_le_mul (by omega) (by omega)
  have productFits : (x.get j).val * (other.get i).val < 2 ^ 64 := by omega
  have withLimb : (x.get j).val * (other.get i).val + (state.1.get (i + j)).val < 2 ^ 64 := by omega
  have withCarry :
      (x.get j).val * (other.get i).val + (state.1.get (i + j)).val + state.2.val < 2 ^ 64 := by omega
  simp only [mulStep, mulSingle, RustInt.checkedMul_of_lt productFits, Option.bind_eq_bind, Option.bind_some,
    RustInt.checkedAdd_of_lt withLimb, RustInt.checkedAdd_of_lt withCarry]
  rfl

/-- What the inner loop of row `j` keeps after `i` rounds: the limbs and the
carry at place `i + j` add the row's product so far to the start, and the
limbs from `j + m` on are untouched. -/
structure RowInvariant (x other : BigUint) (j : Nat) (start : BigUint) (i : Nat) (state : BigUint × Single) :
    Prop where
  length : state.1.len = start.len
  untouched : ∀ p, j + other.len ≤ p → state.1.get p = start.get p
  sum : state.1.value + state.2.val * B ^ (i + j) =
    start.value + (x.get j).val * Nat.ofDigits B (other.limbs.take i) * B ^ j

theorem mulStep_spec {j : Nat} {start : BigUint} (wide : j + other.len ≤ start.len) {i : Nat}
    {state : BigUint × Single} (within : i < other.len) (kept : RowInvariant x other j start i state) :
    ∃ next, mulStep x other j state i = some next ∧ RowInvariant x other j start (i + 1) next := by
  have inRange : i + j < state.1.len := by rw [kept.length]; omega
  refine ⟨_, mulStep_eq x other j state i, ?_⟩
  generalize tDef : (x.get j).val * (other.get i).val + (state.1.get (i + j)).val + state.2.val = t
  have aBound := (x.get j).isLt
  have bBound := (other.get i).isLt
  have wBound := (state.1.get (i + j)).isLt
  have kBound := state.2.isLt
  have product : (x.get j).val * (other.get i).val ≤ (2 ^ 32 - 1) * (2 ^ 32 - 1) :=
    Nat.mul_le_mul (by omega) (by omega)
  have carryBound : t / B < B := by unfold B at *; omega
  constructor
  · rw [len_set, kept.length]
  · intro p above
    rw [get_set_of_ne _ (by omega), kept.untouched p above]
  · show (state.1.set (i + j) (asSingle (t % B))).value + (asSingle (t / B)).val * B ^ (i + 1 + j) = _
    have written := value_set state.1 inRange (asSingle (t % B))
    rw [asSingle_val_of_lt (Nat.mod_lt _ (by unfold B; positivity))] at written
    rw [asSingle_val_of_lt carryBound, show i + 1 + j = i + j + 1 by omega, ofDigits_take_succ]
    have place := mod_add_div_place t (i + j)
    have spread : t * B ^ (i + j) = (x.get j).val * ((other.get i).val * B ^ i) * B ^ j +
        (state.1.get (i + j)).val * B ^ (i + j) + state.2.val * B ^ (i + j) := by
      rw [← tDef, pow_add]
      ring
    have regroup : (x.get j).val * (Nat.ofDigits B (other.limbs.take i) + (other.get i).val * B ^ i) * B ^ j =
        (x.get j).val * Nat.ofDigits B (other.limbs.take i) * B ^ j +
          (x.get j).val * ((other.get i).val * B ^ i) * B ^ j := by
      ring
    have sum := kept.sum
    omega

/-- What the outer loop of `mul` keeps after `j` rounds: the product of the
limbs of `x` below `j` with `other`, and zero limbs from `j + m` on. -/
structure MulInvariant (x other : BigUint) (j : Nat) (w : BigUint) : Prop where
  length : w.len = other.len + x.len
  zero : ∀ p, j + other.len ≤ p → w.get p = 0
  product : w.value = Nat.ofDigits B (x.limbs.take j) * other.value

theorem mulRow_spec {j : Nat} {w : BigUint} (within : j < x.len) (kept : MulInvariant x other j w) :
    ∃ next, mulRow x other w j = some next ∧ MulInvariant x other (j + 1) next := by
  unfold mulRow
  by_cases skipped : x.get j = 0
  · -- a zero limb adds nothing to the product
    rw [if_pos skipped]
    refine ⟨w, rfl, kept.length, fun p above => kept.zero p (by omega), ?_⟩
    rw [kept.product, ofDigits_take_succ, skipped]
    simp
  · rw [if_neg skipped]
    have wide : j + other.len ≤ w.len := by rw [kept.length]; omega
    have initially : RowInvariant x other j w 0 (w, 0) := ⟨rfl, fun _ _ => rfl, by simp⟩
    obtain ⟨row, ran, rowKept⟩ := foldlM_range_invariant (RowInvariant x other j w)
      (fun _ _ within kept => mulStep_spec wide within kept) initially
    have inRange : j + other.len < row.1.len := by rw [rowKept.length, kept.length]; omega
    have topZero : row.1.get (j + other.len) = 0 := by
      rw [rowKept.untouched _ (Nat.le_refl _), kept.zero _ (Nat.le_refl _)]
    refine ⟨row.1.set (j + other.len) row.2, ?_, ?_⟩
    · simp only [ran, Option.bind_eq_bind, Option.bind_some]
      rfl
    · refine ⟨by rw [len_set, rowKept.length, kept.length], fun p above => ?_, ?_⟩
      · rw [get_set_of_ne _ (by omega), rowKept.untouched p (by omega), kept.zero p (by omega)]
      · have sum := rowKept.sum
        rw [ofDigits_take_of_le other (Nat.le_refl _), kept.product, Nat.add_comm other.len j] at sum
        rw [value_set_of_zero row.1 inRange topZero, sum, ofDigits_take_succ]
        ring

theorem mul_spec (x other : BigUint) :
    ∃ w, x.mul other = some w ∧ w.value = x.value * other.value ∧ w.len = x.len + other.len := by
  have wide : 1 ≤ other.len + x.len := Nat.le_add_right_of_le (len_pos other)
  have initially : MulInvariant x other 0 (withCapacity (other.len + x.len)) :=
    ⟨by rw [len_withCapacity]; omega, fun p _ => get_withCapacity _ p, by simp [value_withCapacity]⟩
  obtain ⟨final, ran, kept⟩ := foldlM_range_invariant (MulInvariant x other)
    (fun _ _ within kept => mulRow_spec within kept) initially
  exact ⟨final, ran, by rw [kept.product, ofDigits_take_of_le x (Nat.le_refl _)],
    by rw [kept.length, Nat.add_comm]⟩

end Mul

/-! ## Division by a limb -/

section DivUnit

/-- A round of `div_unit` with a remainder below the divisor: the quotient and
remainder of the remainder followed by the limb, which never overflow. -/
theorem divUnitStep_eq (x : BigUint) {other : Single} (positive : 0 < other.val) (state : BigUint × Single)
    (d : Nat) (below : state.2.val < other.val) :
    divUnitStep x other state d =
      some (state.1.set d (asSingle ((state.2.val * B + (x.get d).val) / other.val)),
        asSingle ((state.2.val * B + (x.get d).val) % other.val)) := by
  have limbBound := (x.get d).isLt
  have divisorBound := other.isLt
  have shifted : state.2.val * B < 2 ^ 64 := by unfold B; omega
  have withLimb : state.2.val * B + (x.get d).val < 2 ^ 64 := by unfold B; omega
  -- rewritten step by step: the kernel must not unfold a checked operation on `_ * B`
  unfold divUnitStep divSingle
  rw [RustInt.checkedMul_of_lt shifted, Option.bind_eq_bind, Option.bind_eq_bind, Option.bind_some,
    RustInt.checkedAdd_of_lt withLimb, Option.bind_some, RustInt.checkedDiv_of_pos _ positive,
    Option.map_some, Option.bind_eq_bind, Option.bind_some]
  rfl

/-- What the loop of `div_unit` keeps with the limbs from `k` on visited: the
quotient of those limbs at place `k`, their remainder, and zero limbs below. -/
structure DivUnitInvariant (x : BigUint) (other k : Nat) (state : BigUint × Single) : Prop where
  length : state.1.len = x.len
  zero : ∀ p, p < k → state.1.get p = 0
  remainder : state.2.val = Nat.ofDigits B (x.limbs.drop k) % other
  quotient : state.1.value = Nat.ofDigits B (x.limbs.drop k) / other * B ^ k

theorem divUnitStep_spec (x : BigUint) {other : Single} (positive : 0 < other.val) {d : Nat}
    {state : BigUint × Single} (within : d < x.len) (kept : DivUnitInvariant x other.val (d + 1) state) :
    ∃ next, divUnitStep x other state d = some next ∧ DivUnitInvariant x other.val d next := by
  have below : state.2.val < other.val := by rw [kept.remainder]; exact Nat.mod_lt _ positive
  refine ⟨_, divUnitStep_eq x positive state d below, ?_⟩
  have limbBound := (x.get d).isLt
  have divisorBound := other.isLt
  -- the remainder so far followed by the limb is below `other * B`
  have carried : state.2.val * B + (x.get d).val < other.val * B := by
    have : state.2.val * B + B ≤ other.val * B := by
      rw [← Nat.succ_mul]
      exact Nat.mul_le_mul_right B below
    unfold B at *
    omega
  have quotientBound : (state.2.val * B + (x.get d).val) / other.val < B :=
    Nat.div_lt_of_lt_mul carried
  have remainderBound : (state.2.val * B + (x.get d).val) % other.val < B :=
    lt_trans (Nat.mod_lt _ positive) (by unfold B; exact divisorBound)
  have inRange : d < state.1.len := by rw [kept.length]; exact within
  -- the limbs from `d` on are those from `d + 1` on, shifted, and the limb
  have split : Nat.ofDigits B (x.limbs.drop d) =
      other.val * (B * (Nat.ofDigits B (x.limbs.drop (d + 1)) / other.val)) +
        (state.2.val * B + (x.get d).val) := by
    rw [ofDigits_drop x within, kept.remainder]
    have := Nat.div_add_mod (Nat.ofDigits B (x.limbs.drop (d + 1))) other.val
    calc (x.get d).val + B * Nat.ofDigits B (x.limbs.drop (d + 1))
        = (x.get d).val + B * (other.val * (Nat.ofDigits B (x.limbs.drop (d + 1)) / other.val) +
            Nat.ofDigits B (x.limbs.drop (d + 1)) % other.val) := by rw [this]
      _ = _ := by ring
  constructor
  · rw [len_set, kept.length]
  · intro p above
    rw [get_set_of_ne _ (by omega), kept.zero p (by omega)]
  · show (asSingle _).val = _
    rw [asSingle_val_of_lt remainderBound, split, Nat.mul_add_mod]
  · show (state.1.set d _).value = _
    rw [value_set_of_zero state.1 inRange (kept.zero d (Nat.lt_succ_self d)), asSingle_val_of_lt quotientBound,
      kept.quotient, split, Nat.mul_add_div positive, pow_succ B d]
    ring

theorem divUnit_spec (x : BigUint) (other : Single) :
    ∃ w, x.divUnit other = some w ∧ w.value = x.value / max other.val 1 ∧ w.len = x.len := by
  have one : (1 : Single).val = 1 := rfl
  have divisor : (max other 1).val = max other.val 1 := by rw [Fin.coe_max, one]
  have positive : 0 < (max other 1).val := by rw [divisor]; omega
  have initially : DivUnitInvariant x (max other 1).val x.len (withCapacity x.len, 0) :=
    ⟨by rw [len_withCapacity]; have := len_pos x; omega, fun p _ => get_withCapacity _ p,
      by simp [List.drop_of_length_le, length_limbs], by simp [value_withCapacity, List.drop_of_length_le, length_limbs]⟩
  obtain ⟨final, ran, kept⟩ := foldlM_range_reverse_invariant (DivUnitInvariant x (max other 1).val)
    (fun _ _ within kept => divUnitStep_spec x positive within kept) initially
  refine ⟨final.1, ?_, ?_, kept.length⟩
  · simp only [divUnit, ran, Option.map_some]
  · rw [kept.quotient, List.drop_zero, pow_zero, Nat.mul_one, divisor]
    rfl

end DivUnit

/-! ## Comparison and stripping -/

section Cmp

/-- The number that limbs stored most significant first stand for. -/
def ofLimbs (digits : List Single) : Nat := Nat.ofDigits B (digits.map Fin.val).reverse

theorem value_eq_ofLimbs (x : BigUint) : x.value = ofLimbs x.digits :=
  rfl

theorem ofLimbs_cons (a : Single) (l : List Single) : ofLimbs (a :: l) = B ^ l.length * a.val + ofLimbs l := by
  rw [ofLimbs, List.map_cons, Nat.ofDigits_reverse_cons, List.length_map, Nat.add_comm]
  rfl

theorem ofLimbs_lt (l : List Single) : ofLimbs l < B ^ l.length := by
  have bounded := Nat.ofDigits_lt_base_pow_length (b := B) one_lt_B (l := (l.map Fin.val).reverse)
    (fun d member => by
      simp only [List.mem_reverse, List.mem_map] at member
      obtain ⟨limb, -, rfl⟩ := member
      exact limb.isLt)
  simpa [ofLimbs] using bounded

/-- Leading zero limbs add nothing. -/
theorem ofLimbs_replicate_append (k : Nat) (l : List Single) :
    ofLimbs (List.replicate k 0 ++ l) = ofLimbs l := by
  rw [ofLimbs, List.map_append, List.map_replicate]
  exact Limbs.ofDigits_reverse_replicate_append B k _

theorem ofLimbs_of_zeros {l : List Single} (zeros : ∀ d ∈ l, d = 0) : ofLimbs l = 0 := by
  rw [List.eq_replicate_iff.mpr ⟨rfl, zeros⟩, ← List.append_nil (List.replicate _ 0),
    ofLimbs_replicate_append]
  rfl

/-- A nonzero leading limb puts the value at or above the power of its place. -/
theorem pow_le_ofLimbs_cons {a : Single} (nonzero : a ≠ 0) (l : List Single) : B ^ l.length ≤ ofLimbs (a :: l) := by
  rw [ofLimbs_cons]
  have positive : 0 < a.val := Nat.pos_of_ne_zero (fun zero => nonzero (Fin.ext zero))
  have atLeast : B ^ l.length ≤ B ^ l.length * a.val := Nat.le_mul_of_pos_right _ positive
  omega

theorem compare_add_left (c a b : Nat) : compare (c + a) (c + b) = compare a b := by
  simp only [compare, compareOfLessAndEq, Nat.add_lt_add_iff_left, Nat.add_left_cancel_iff]

/-- Of two lists of limbs of one length, the lexicographic order is the order
of their values. -/
theorem cmpLimbs_eq_compare (l : List Single) :
    ∀ m : List Single, l.length = m.length → cmpLimbs l m = compare (ofLimbs l) (ofLimbs m) := by
  induction l with
  | nil =>
    intro m same
    rw [List.eq_nil_of_length_eq_zero same.symm]
    rfl
  | cons a l ih =>
    intro m same
    obtain ⟨b, m, rfl⟩ := List.exists_cons_of_length_eq_add_one same.symm
    have sameTail : l.length = m.length := Nat.succ.inj same
    have tailBound := ofLimbs_lt l
    have otherTailBound := ofLimbs_lt m
    rw [← sameTail] at otherTailBound
    rw [cmpLimbs, ofLimbs_cons, ofLimbs_cons, ← sameTail]
    rcases lt_trichotomy a b with smaller | equal | larger
    · have stepUp : B ^ l.length * a.val + B ^ l.length ≤ B ^ l.length * b.val := by
        rw [← Nat.mul_succ]
        exact Nat.mul_le_mul_left _ smaller
      rw [compare_lt_iff_lt.mpr smaller, Ordering.lt_then, eq_comm, compare_lt_iff_lt]
      omega
    · rw [equal, compare_eq_iff_eq.mpr rfl, Ordering.eq_then, ih m sameTail, compare_add_left]
    · have stepUp : B ^ l.length * b.val + B ^ l.length ≤ B ^ l.length * a.val := by
        rw [← Nat.mul_succ]
        exact Nat.mul_le_mul_left _ larger
      rw [compare_gt_iff_gt.mpr larger, Ordering.gt_then, eq_comm, compare_gt_iff_gt]
      omega

theorem findIdx_none_iff_zeros (l : List Single) :
    l.findIdx? (· ≠ 0) = none ↔ ∀ d ∈ l, d = 0 := by
  simp [List.findIdx?_eq_none_iff]

/-- The first nonzero limb: the limbs before it are zero, so the limbs from it
on have the same value and a nonzero leading limb. -/
theorem drop_of_findIdx {l : List Single} {i : Nat} (found : l.findIdx? (· ≠ 0) = some i) :
    ofLimbs (l.drop i) = ofLimbs l ∧ ∃ a rest, l.drop i = a :: rest ∧ a ≠ 0 := by
  obtain ⟨within, nonzero, before⟩ := List.findIdx?_eq_some_iff_getElem.mp found
  have zeros : l.take i = List.replicate i 0 := by
    apply List.eq_replicate_iff.mpr
    refine ⟨List.length_take_of_le (Nat.le_of_lt within), fun d member => ?_⟩
    obtain ⟨k, inTake, rfl⟩ := List.getElem_of_mem member
    have kBelow : k < i := by simp at inTake; omega
    have zero := before k kBelow
    rw [List.getElem_take]
    simpa using zero
  refine ⟨?_, l[i], l.drop (i + 1), List.drop_eq_getElem_cons within, by simpa using nonzero⟩
  conv_rhs => rw [← List.take_append_drop i l, zeros]
  rw [ofLimbs_replicate_append]

/-- Of two lists of limbs with nonzero leading limbs, the longer is the larger;
of one length, the lexicographic order decides. -/
theorem compare_stripped {a b : Single} {l m : List Single} (nonzero : a ≠ 0) (otherNonzero : b ≠ 0) :
    (match compare (a :: l).length (b :: m).length with
      | .eq => cmpLimbs (a :: l) (b :: m)
      | lenCmp => lenCmp) = compare (ofLimbs (a :: l)) (ofLimbs (b :: m)) := by
  have lower := pow_le_ofLimbs_cons nonzero l
  have otherLower := pow_le_ofLimbs_cons otherNonzero m
  have upper := ofLimbs_lt (a :: l)
  have otherUpper := ofLimbs_lt (b :: m)
  rw [List.length_cons] at upper otherUpper
  rcases lt_trichotomy l.length m.length with shorter | same | longer
  · have below : B ^ (l.length + 1) ≤ B ^ m.length := Nat.pow_le_pow_right (by unfold B; omega) shorter
    rw [compare_lt_iff_lt.mpr (by simpa using shorter), eq_comm, compare_lt_iff_lt]
    omega
  · rw [compare_eq_iff_eq.mpr (by simp [same])]
    exact cmpLimbs_eq_compare _ _ (by simp [same])
  · have below : B ^ (m.length + 1) ≤ B ^ l.length := Nat.pow_le_pow_right (by unfold B; omega) longer
    rw [compare_gt_iff_gt.mpr (by simpa using longer), eq_comm, compare_gt_iff_gt]
    omega

theorem cmp_eq_compare (x other : BigUint) : x.cmp other = compare x.value other.value := by
  rw [value_eq_ofLimbs, value_eq_ofLimbs]
  unfold cmp
  cases found : x.digits.findIdx? (· ≠ 0) with
  | none =>
    have zero := ofLimbs_of_zeros ((findIdx_none_iff_zeros _).mp found)
    cases otherFound : other.digits.findIdx? (· ≠ 0) with
    | none =>
      rw [zero, ofLimbs_of_zeros ((findIdx_none_iff_zeros _).mp otherFound)]
      rfl
    | some j =>
      obtain ⟨same, b, rest, dropped, nonzero⟩ := drop_of_findIdx otherFound
      have positive := pow_le_ofLimbs_cons nonzero rest
      rw [← dropped, same] at positive
      rw [zero, eq_comm, compare_lt_iff_lt]
      exact lt_of_lt_of_le (Nat.pow_pos (by unfold B; omega)) positive
  | some i =>
    obtain ⟨same, a, rest, dropped, nonzero⟩ := drop_of_findIdx found
    cases otherFound : other.digits.findIdx? (· ≠ 0) with
    | none =>
      have positive := pow_le_ofLimbs_cons nonzero rest
      rw [← dropped, same] at positive
      rw [ofLimbs_of_zeros ((findIdx_none_iff_zeros _).mp otherFound), eq_comm, compare_gt_iff_gt]
      exact lt_of_lt_of_le (Nat.pow_pos (by unfold B; omega)) positive
    | some j =>
      obtain ⟨otherSame, b, otherRest, otherDropped, otherNonzero⟩ := drop_of_findIdx otherFound
      rw [← same, ← otherSame]
      dsimp only
      rw [dropped, otherDropped]
      exact compare_stripped nonzero otherNonzero

theorem eq_iff_value (x other : BigUint) : x.eq other = true ↔ x.value = other.value := by
  rw [eq, cmp_eq_compare, beq_iff_eq, compare_eq_iff_eq]

theorem value_lstrip (x : BigUint) : x.lstrip.value = x.value := by
  unfold lstrip
  split
  · rfl
  · split
    · next index found =>
      split
      · exact (drop_of_findIdx found).1
      · rfl
    · rfl

/-- Stripping a number with a nonzero limb leaves a nonzero leading limb, so
the value reaches the power of the top place. -/
theorem pow_le_value_lstrip {x : BigUint} (positive : 0 < x.value) : B ^ (x.lstrip.len - 1) ≤ x.value := by
  cases found : x.digits.findIdx? (· ≠ 0) with
  | none =>
    rw [value_eq_ofLimbs, ofLimbs_of_zeros ((findIdx_none_iff_zeros _).mp found)] at positive
    omega
  | some i =>
    obtain ⟨same, a, rest, dropped, nonzero⟩ := drop_of_findIdx found
    have lower := pow_le_ofLimbs_cons nonzero rest
    rw [← dropped, same, ← value_eq_ofLimbs] at lower
    have stripped : x.lstrip.digits = x.digits.drop i := by
      unfold lstrip
      rw [if_neg (Nat.pos_iff_ne_zero.mp (len_pos x))]
      split
      · next index again =>
        rw [found] at again
        cases again
        split
        · rfl
        · next atStart =>
          rw [Nat.eq_zero_of_not_pos atStart, List.drop_zero]
      · next missing => rw [found] at missing; cases missing
    have length : x.lstrip.len - 1 = rest.length := by
      rw [len, stripped, dropped, List.length_cons, Nat.add_sub_cancel]
    rwa [length]

theorem lstrip_of_zeros {x : BigUint} (zeros : ∀ d ∈ x.digits, d = 0) : x.lstrip = x := by
  unfold lstrip
  split
  · rfl
  · split
    · next index found =>
      rw [(findIdx_none_iff_zeros _).mpr zeros] at found
      cases found
    · rfl

end Cmp

/-! ## Conversion to `u64` and `u128` -/

section TryFrom

/-- The loop of `try_from` from place `start` with `acc` below it, when every
shifted limb stays below `bits`: the limbs are added at their places. -/
theorem foldlM_accumulate (bits : Nat) (l : List Single) :
    ∀ (start acc : Nat), acc < 2 ^ (32 * start) → 32 * (start + l.length) ≤ bits →
      (l.zipIdx start).foldlM (accumulate bits) acc =
        some (acc + Nat.ofDigits B (l.map Fin.val) * 2 ^ (32 * start)) := by
  induction l with
  | nil =>
    intro start acc _ _
    simp
  | cons a l ih =>
    intro start acc below fits
    rw [List.length_cons] at fits
    have limbBound := a.isLt
    have placeUp : 2 ^ (32 * (start + 1)) = 2 ^ (32 * start) * B := by
      rw [Nat.mul_add, Nat.mul_one, pow_add]
      rfl
    have topFits : 2 ^ (32 * (start + 1)) ≤ 2 ^ bits := Nat.pow_le_pow_right (by omega) (by omega)
    have shiftedBelow : a.val * 2 ^ (32 * start) + 2 ^ (32 * start) ≤ 2 ^ (32 * (start + 1)) := by
      rw [placeUp, ← Nat.succ_mul, Nat.mul_comm]
      exact Nat.mul_le_mul_left _ limbBound
    have shifted : RustInt.checkedShl bits a.val (32 * start) = some (a.val * 2 ^ (32 * start)) := by
      rw [RustInt.checkedShl, if_pos (by omega), Nat.shiftLeft_eq, Nat.mod_eq_of_lt (by omega)]
    have added : RustInt.checkedAdd bits acc (a.val * 2 ^ (32 * start)) =
        some (acc + a.val * 2 ^ (32 * start)) :=
      RustInt.checkedAdd_of_lt (by omega)
    rw [List.zipIdx_cons, List.foldlM_cons]
    simp only [accumulate, shifted, added, Option.bind_eq_bind, Option.bind_some]
    rw [ih (start + 1) _ (by omega) (by omega), List.map_cons, Nat.ofDigits_cons, placeUp]
    apply congrArg some
    ring

theorem tryFrom_eq (bits : Nat) (message : String) (x : BigUint) :
    tryFrom bits message x = some (if bits < x.lstrip.len * 32 then .error message else .ok x.value) := by
  unfold tryFrom
  dsimp only
  split
  · rfl
  · next fits =>
    have run := foldlM_accumulate bits x.lstrip.digits.reverse 0 0 (by simp)
      (by simp only [List.length_reverse, Nat.zero_add]; unfold len at fits; omega)
    rw [run, Nat.zero_add, Nat.mul_zero, pow_zero, Nat.mul_one, ← value_lstrip x]
    simp only [Option.map_some, value, limbs, List.map_reverse]

/-- For a number with a nonzero limb and a type of `32 * k` bits, `try_from`
gives the value exactly when it fits. -/
theorem tryFrom_of_pos (k : Nat) (message : String) {x : BigUint} (positive : 0 < x.value) :
    tryFrom (32 * k) message x = some (if x.value < 2 ^ (32 * k) then .ok x.value else .error message) := by
  rw [tryFrom_eq]
  have lower := pow_le_value_lstrip positive
  have upper := value_lt x.lstrip
  rw [value_lstrip] at upper
  have stripped := len_pos x.lstrip
  have power : ∀ n, (2 : Nat) ^ (32 * n) = B ^ n := fun n => by rw [pow_mul]; rfl
  rw [power]
  by_cases fits : x.lstrip.len ≤ k
  · have below : B ^ x.lstrip.len ≤ B ^ k := Nat.pow_le_pow_right (by unfold B; omega) fits
    rw [if_neg (by omega), if_pos (by omega)]
  · have above : B ^ k ≤ B ^ (x.lstrip.len - 1) := Nat.pow_le_pow_right (by unfold B; omega) (by omega)
    rw [if_pos (by omega), if_neg (by omega)]

/-- A number whose limbs are all zero is not stripped, so `try_from` rejects
it when it has more limbs than the type holds, although its value is zero. -/
theorem tryFrom_rejects_zero_limbs (bits : Nat) (message : String) (x : BigUint)
    (zeros : ∀ d ∈ x.digits, d = 0) (long : bits < x.len * 32) :
    x.value = 0 ∧ tryFrom bits message x = some (.error message) := by
  refine ⟨by rw [value_eq_ofLimbs, ofLimbs_of_zeros zeros], ?_⟩
  rw [tryFrom_eq, lstrip_of_zeros zeros, if_pos long]

theorem tryIntoU128_rejects_five_zero_limbs :
    (∀ d ∈ [0, 0, 0, 0, 0], d = (0 : Single)) ∧ 128 < 5 * 32 ∧
      (BigUint.mk [0, 0, 0, 0, 0] (List.cons_ne_nil _ _)).value = 0 ∧
        tryIntoU128 ⟨[0, 0, 0, 0, 0], List.cons_ne_nil _ _⟩ = some (.error "cannot fit a number into u128") :=
  ⟨by simp, by decide, tryFrom_rejects_zero_limbs 128 "cannot fit a number into u128"
    ⟨[0, 0, 0, 0, 0], List.cons_ne_nil _ _⟩ (by simp) (by decide)⟩

end TryFrom

end BigUint

end OffchainStorage.Arithmetic
