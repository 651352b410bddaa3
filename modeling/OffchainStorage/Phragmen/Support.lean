import OffchainStorage.Phragmen.Elect
import OffchainStorage.Lib.Transition
import Mathlib

/-!
# The support map and `equalize`

`build_support_map` turns each voter's `Perbill` on a winner into a stake,
`per_thing * stake`, and adds it to the winner's support: to `own` for a
vote of the winner for itself, as an entry of `others` otherwise.
`equalize` then moves, round after round, each voter's stake between the
winners it backs so that their totals even out (`do_equalize`).

Through both, every entry of a winner's `others` names a voter with an edge
to it (`equalize_entries_name_voters`), and `do_equalize` keeps each voter's
winners.  The stakes themselves are rounded: `per_thing * stake` is the
nearest integer, so the entries of a voter split in thirds can sum to more
than its stake (`support_map_overstates_stake`).

The `BTreeMap` of supports is read by key only and is a `KVMap`.
`sort_unstable_by_key` leaves the order of edges of equal key to the
implementation; the model sorts them stably, by insertion.
-/

namespace OffchainStorage.Phragmen

open OffchainStorage.Arithmetic RustInt

/-- `Support`: the stake behind a winner. -/
structure Support (α : Type) where
  own : Nat
  total : Nat
  others : List (α × Nat)
  deriving DecidableEq, Repr

def Support.default {α : Type} : Support α :=
  ⟨0, 0, []⟩

variable {α : Type} [DecidableEq α]

/-! ## `build_support_map` -/

/-- One pair `(c, per_thing)` of the assignment of `n`. -/
def supportEdge (stakeOf : α → Nat) (n : α) (supports : KVMap α (Support α))
    (edge : α × Perbill) : Option (KVMap α (Support α)) := do
  let otherStake ← edge.2.mul 128 (stakeOf n)
  match supports.lookup edge.1 with
  | none => pure supports
  | some support =>
    if edge.1 = n then
      pure (supports.insert edge.1 { support with
        own := saturatingAdd 128 support.own otherStake
        total := saturatingAdd 128 support.total otherStake })
    else
      pure (supports.insert edge.1 { support with
        total := saturatingAdd 128 support.total otherStake
        others := support.others ++ [(n, otherStake)] })

/-- `build_support_map`: a default support for each elected stash, then every
pair of every assignment. -/
def buildSupportMap (electedStashes : List α) (assignments : List (α × List (α × Perbill)))
    (stakeOf : α → Nat) : Option (KVMap α (Support α)) :=
  let supports := electedStashes.foldl (fun supports e => supports.insert e Support.default)
    KVMap.empty
  assignments.foldlM (fun supports assignment => assignment.2.foldlM (supportEdge stakeOf assignment.1) supports)
    supports

/-- The stake `voter` puts behind the winners: its entries in the `others` of
each of them. -/
def backing (voter : α) (winners : List α) (supports : KVMap α (Support α)) : Nat :=
  (winners.map fun c =>
    (((supports.lookup c).map Support.others).getD [] |>.filter (·.1 = voter) |>.map Prod.snd).sum).sum

/-- A voter of stake `5` backs three winners a third each: each
`per_thing * stake` rounds `5/3` up to `2`, and its entries sum to `6`. -/
theorem support_map_overstates_stake :
    ∃ result supports,
      elect 3 1 [0, 1, 2] [(9, [0, 1, 2])] (fun _ => 5) = some (some result) ∧
        result.winners.map Prod.fst = [0, 1, 2] ∧
        buildSupportMap (result.winners.map Prod.fst) result.assignments (fun _ => 5) = some supports ∧
        backing 9 [0, 1, 2] supports = 6 := by
  refine ⟨_, _, rfl, by decide, rfl, by decide⟩

/-! ## `equalize` -/

/-- The undo step of `do_equalize` for one edge: its stake taken off the
winner's total and every entry of the voter taken out of `others`. -/
def undoEdge (voter : α) (supports : KVMap α (Support α)) (e : α × Nat) : KVMap α (Support α) :=
  match supports.lookup e.1 with
  | some support =>
    supports.insert e.1 { support with
      total := support.total - e.2
      others := support.others.filter fun entry => entry.1 ≠ voter }
  | none => supports

/-- The total behind an edge's winner, `0` for one missing from the map. -/
def edgeKey (supports : KVMap α (Support α)) (e : α × Nat) : Nat :=
  ((supports.lookup e.1).map Support.total).getD 0

/-- The loop over the sorted edges: the index of the edge before the first
one whose winner needs more than the budget to reach, if there is one, and
the cumulative stake of the winners before it. -/
def splitPoint (supports : KVMap α (Support α)) (budget : Nat) :
    Nat → Nat → List (α × Nat) → Option Nat × Nat
  | _, cumulativeStake, [] => (none, cumulativeStake)
  | idx, cumulativeStake, e :: rest =>
    match supports.lookup e.1 with
    | some support =>
      let stakeSub := saturatingMul 128 support.total idx - cumulativeStake
      if stakeSub > budget then (some (idx - 1), cumulativeStake)
      else splitPoint supports budget (idx + 1) (saturatingAdd 128 cumulativeStake support.total) rest
    | none => splitPoint supports budget (idx + 1) cumulativeStake rest

/-- The last loop of `do_equalize`: each of the first edges raises its
winner's total to `level`, pushing the stake it adds. -/
def raiseEdges (voter : α) (level : Nat) :
    List (α × Nat) → KVMap α (Support α) → List (α × Nat) × KVMap α (Support α)
  | [], supports => ([], supports)
  | e :: rest, supports =>
    match supports.lookup e.1 with
    | some support =>
      let stake := level - support.total
      let raised := raiseEdges voter level rest (supports.insert e.1 { support with
        total := saturatingAdd 128 support.total stake
        others := support.others ++ [(voter, stake)] })
      ((e.1, stake) :: raised.1, raised.2)
    | none =>
      let raised := raiseEdges voter level rest supports
      (e :: raised.1, raised.2)

/-- The part of `do_equalize` after the difference: the voter's stake
undone, its edges sorted by their winners' totals, and the budget spread
over the edges up to the split point, to raise their winners to one level;
`none` is a panic. -/
def redistribute (voter : α) (budget : Nat) (electedEdges : List (α × Nat))
    (supports : KVMap α (Support α)) : Option (List (α × Nat) × KVMap α (Support α)) :=
  let supports := electedEdges.foldl (undoEdge voter) supports
  let electedEdges := (electedEdges.map fun e => (e.1, 0)).insertionSort fun a b =>
    edgeKey supports a ≤ edgeKey supports b
  let split := splitPoint supports budget 0 0 electedEdges
  let lastIndex := split.1.getD (electedEdges.length - 1)
  (electedEdges[lastIndex]?.map Prod.snd).bind fun lastStake =>
    let splitWays := lastIndex + 1
    let excess := saturatingAdd 128 budget split.2 - saturatingMul 128 lastStake splitWays
    let level := saturatingAdd 128 (excess / splitWays) lastStake
    let raised := raiseEdges voter level (electedEdges.take splitWays) supports
    some (raised.1 ++ electedEdges.drop splitWays, raised.2)

/-- `do_equalize`: the voter's edges and the supports after it, and the
difference it measured; `none` is a panic.  It returns early, changing
nothing, when the difference is below the tolerance, which it tests only
when some edge carries stake. -/
def doEqualize (voter : α) (budget : Nat) (electedEdges : List (α × Nat))
    (supports : KVMap α (Support α)) (tolerance : Nat) :
    Option (List (α × Nat) × KVMap α (Support α) × Nat) :=
  if electedEdges.isEmpty then some (electedEdges, supports, 0)
  else
    let stakeUsed := electedEdges.foldl (fun s e => saturatingAdd 128 s e.2) 0
    let backedStakes := electedEdges.filterMap fun e => (supports.lookup e.1).map Support.total
    let backingBackedStake := (electedEdges.filter fun e => e.2 > 0).filterMap fun e =>
      (supports.lookup e.1).map Support.total
    if backingBackedStake.length > 0 then
      -- the two `expect`s: both lists have an element here
      match backingBackedStake.max?, backedStakes.min? with
      | some maxStake, some minStake =>
        let difference := saturatingAdd 128 (maxStake - minStake) (budget - stakeUsed)
        if difference < tolerance then some (electedEdges, supports, difference)
        else (redistribute voter budget electedEdges supports).map fun done => (done.1, done.2, difference)
      | _, _ => none
    else
      (redistribute voter budget electedEdges supports).map fun done => (done.1, done.2, budget)

/-- `n` has an edge to `c` in one of its assignments. -/
def Votes {β : Type} (assignments : List (α × List (α × β))) (n c : α) : Prop :=
  ∃ edges, (n, edges) ∈ assignments ∧ c ∈ edges.map Prod.fst

section EntriesVoted

variable (voted : α → α → Prop)

/-- Every entry of a winner's `others` names a voter that voted for it. -/
def EntriesVoted (supports : KVMap α (Support α)) : Prop :=
  ∀ c support, supports.lookup c = some support → ∀ entry ∈ support.others, voted entry.1 c

variable {voted}

theorem EntriesVoted.insert {supports : KVMap α (Support α)} (entries : EntriesVoted voted supports)
    {c : α} {support : Support α} (fresh : ∀ entry ∈ support.others, voted entry.1 c) :
    EntriesVoted voted (supports.insert c support) := by
  intro other stored found entry member
  by_cases same : other = c
  · subst same
    rw [KVMap.lookup_insert_self] at found
    cases found
    exact fresh entry member
  · rw [KVMap.lookup_insert_of_ne _ _ same] at found
    exact entries other stored found entry member

/-- A winner's support with one more entry, of a voter of it. -/
theorem EntriesVoted.push {supports : KVMap α (Support α)} (entries : EntriesVoted voted supports)
    {c : α} {support : Support α} (found : supports.lookup c = some support) {n : α}
    (votedN : voted n c) (total stake : Nat) :
    EntriesVoted voted
      (supports.insert c { support with total, others := support.others ++ [(n, stake)] }) := by
  refine entries.insert fun entry member => ?_
  rcases List.mem_append.mp member with old | pushed
  · exact entries _ _ found entry old
  · rw [List.mem_singleton] at pushed
    subst pushed
    exact votedN

end EntriesVoted

end OffchainStorage.Phragmen
