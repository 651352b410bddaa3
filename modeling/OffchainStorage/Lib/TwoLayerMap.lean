import Mathlib

/-!
# Two-layer transactional maps

A transactional map keeps a committed layer and a pending layer over the same
locations.  Writes and clearings go to the pending layer; a read sees the
pending entry of a location if there is one and the committed entry
otherwise; committing moves the pending layer over the committed one, and
discarding drops it.

This is the specification of a storage overlay, stated over arbitrary
locations `L` and values `V`:

* `read`, `write`, `clearWhere`, `commit` and `discard`, and `Operation`,
  the operations as data, with `Operation.apply`;
* the read lemmas: a write is read back at its location and nowhere else, a
  commit changes no read, a discard leaves the committed layer, and a
  clearing turns every known location of its scope into the tombstone.
-/

universe u v

/-- A committed and a pending layer of partial maps over the same
locations. -/
@[ext]
structure TwoLayerMap (L : Type u) (V : Type v) where
  committed : L → Option V
  pending : L → Option V

namespace TwoLayerMap

variable {L : Type u} {V : Type v}

/-- The map with both layers empty. -/
def empty : TwoLayerMap L V :=
  ⟨fun _ => none, fun _ => none⟩

/-- The pending entry of a location, else its committed one. -/
def read (map : TwoLayerMap L V) (location : L) : Option V :=
  (map.pending location).or (map.committed location)

/-- A write to the pending layer. -/
def write [DecidableEq L] (map : TwoLayerMap L V) (location : L) (value : V) :
    TwoLayerMap L V :=
  { map with pending := Function.update map.pending location (some value) }

/-- Every location of the scope that either layer knows gets `tombstone` in
the pending layer; the others are left alone. -/
def clearWhere (map : TwoLayerMap L V) (inScope : L → Bool) (tombstone : V) :
    TwoLayerMap L V :=
  { map with
    pending := fun location =>
      if inScope location && ((map.pending location).isSome || (map.committed location).isSome)
      then some tombstone else map.pending location }

/-- The pending layer over the committed one, and an empty pending layer. -/
def commit (map : TwoLayerMap L V) : TwoLayerMap L V :=
  ⟨map.read, fun _ => none⟩

/-- The pending layer dropped. -/
def discard (map : TwoLayerMap L V) : TwoLayerMap L V :=
  { map with pending := fun _ => none }

/-- The operations of a two-layer map, as data. -/
inductive Operation (L : Type u) (V : Type v) where
  | write (location : L) (value : V)
  | clearWhere (inScope : L → Bool) (tombstone : V)
  | commit
  | discard

/-- One operation. -/
def Operation.apply [DecidableEq L] : Operation L V → TwoLayerMap L V → TwoLayerMap L V
  | .write location value, map => map.write location value
  | .clearWhere inScope tombstone, map => map.clearWhere inScope tombstone
  | .commit, map => map.commit
  | .discard, map => map.discard

/-! ## Reads -/

section Reads

variable (map : TwoLayerMap L V)

@[simp]
theorem read_write_self [DecidableEq L] (location : L) (value : V) :
    (map.write location value).read location = some value := by
  simp [read, write]

theorem read_write_of_ne [DecidableEq L] {location other : L} (value : V)
    (different : other ≠ location) : (map.write location value).read other = map.read other := by
  simp [read, write, Function.update_of_ne different]

/-- Committing changes no read. -/
@[simp]
theorem read_commit : map.commit.read = map.read := by
  funext location
  simp [read, commit]

/-- Discarding leaves the committed entries to be read. -/
@[simp]
theorem read_discard : map.discard.read = map.committed := by
  funext location
  simp [read, discard]

/-- A clearing turns every location of its scope that either layer knows into
the tombstone, and leaves every other read as it was. -/
theorem read_clearWhere (inScope : L → Bool) (tombstone : V) (location : L) :
    (map.clearWhere inScope tombstone).read location =
      if inScope location && (map.read location).isSome then some tombstone
      else map.read location := by
  -- a location is known to the map when either layer has it
  simp only [read, clearWhere, Option.isSome_or]
  split
  · rfl
  · rfl

end Reads

end TwoLayerMap
