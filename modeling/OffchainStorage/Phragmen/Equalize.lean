import OffchainStorage.Phragmen.Support
import OffchainStorage.Lib.WaterFill
import Mathlib

/-!
# `do_equalize` pours a voter's budget

Past its early return, `do_equalize` takes the voter's stake off its
winners, sorts the voter's edges by their winners' totals and walks them
while the budget, spread over the winners walked so far, reaches the next
one (`splitPoint`).  The walked winners are the lowest, and each is raised
to one level, the budget and their totals divided among them
(`raiseEdges`).  That is the water-filling of `WaterFill`: the walk keeps
`WaterFill.Reached` (`splitPoint_run`), and `WaterFilled` states the
outcome, reached by `do_equalize_water_fills`.

The code relies on two things it does not check.  The voter's winners must
be distinct: a winner named twice is raised to the level by its first edge
and gets nothing from the second, so the new stakes fall short of the
budget by half.  And the budget and the totals must stay below `2 ^ 128`,
or the saturating sums clamp the level.
-/

namespace OffchainStorage.Phragmen

open RustInt

variable {α : Type} [DecidableEq α]

/-! ## The undo and the sort -/

theorem lookup_undoEdge_isSome (voter : α) (supports : KVMap α (Support α)) (e : α × Nat) (c : α) :
    ((undoEdge voter supports e).lookup c).isSome = (supports.lookup c).isSome := by
  unfold undoEdge
  split
  · rename_i support found
    rw [KVMap.lookup_insert]
    split
    · rename_i same
      rw [same, found]
      rfl
    · rfl
  · rfl

/-- Taking a voter's stake off keeps every winner in the map. -/
theorem lookup_foldl_undoEdge_isSome (voter c : α) (edges : List (α × Nat)) :
    ∀ supports : KVMap α (Support α),
      ((edges.foldl (undoEdge voter) supports).lookup c).isSome = (supports.lookup c).isSome := by
  induction edges with
  | nil => intro supports; rfl
  | cons e rest ih =>
    intro supports
    rw [List.foldl_cons, ih, lookup_undoEdge_isSome]

omit [DecidableEq α] in
/-- `sort_unstable_by_key` leaves the totals of the edges' winners in order. -/
theorem sorted_edgeKeys (supports : KVMap α (Support α)) (edges : List (α × Nat)) :
    (((edges.map fun e => (e.1, 0)).insertionSort fun a b => edgeKey supports a ≤ edgeKey supports b).map
      (edgeKey supports)).Pairwise (· ≤ ·) := by
  have total : Std.Total fun a b : α × Nat => edgeKey supports a ≤ edgeKey supports b :=
    ⟨fun a b => le_total _ _⟩
  have transitive : IsTrans (α × Nat) fun a b => edgeKey supports a ≤ edgeKey supports b :=
    ⟨fun _ _ _ => le_trans⟩
  exact List.pairwise_map.mpr (List.pairwise_insertionSort _ _)

/-! ## The walk to the split point -/

omit [DecidableEq α] in
/-- The walk of `splitPoint` over edges sorted by their winners' totals, all
in the map, from the edges `done` already walked: it goes on while the
budget reaches the next winner and stops at one it cannot reach, keeping
`WaterFill.Reached` for the walked ones.  Below `2 ^ 128` the saturating
product and sum in it are exact. -/
theorem splitPoint_run (supports : KVMap α (Support α)) (budget : Nat) (edges : List (α × Nat)) :
    ∀ done : List (α × Nat), ((done ++ edges).map (edgeKey supports)).Pairwise (· ≤ ·) →
      (∀ e ∈ edges, (supports.lookup e.1).isSome) →
      budget + ((done ++ edges).map (edgeKey supports)).sum < 2 ^ 128 →
      WaterFill.Reached budget (done.map (edgeKey supports)) →
      ∃ first rest, edges = first ++ rest ∧ WaterFill.Reached budget ((done ++ first).map (edgeKey supports)) ∧
        splitPoint supports budget done.length (done.map (edgeKey supports)).sum edges =
          (rest.head?.map fun _ => (done ++ first).length - 1, ((done ++ first).map (edgeKey supports)).sum) ∧
        ∀ next ∈ rest.head?,
          budget + ((done ++ first).map (edgeKey supports)).sum < edgeKey supports next * (done ++ first).length := by
  induction edges with
  | nil =>
    intro done _ _ _ reached
    refine ⟨[], [], rfl, by simpa using reached, by simp [splitPoint], ?_⟩
    intro next isHead
    cases isHead
  | cons e rest ih =>
    intro done sorted present bounded reached
    obtain ⟨support, found⟩ := Option.isSome_iff_exists.mp (present e List.mem_cons_self)
    have key : edgeKey supports e = support.total := by simp [edgeKey, found]
    have within : budget + (done.map (edgeKey supports)).sum + support.total < 2 ^ 128 := by
      have whole : ((done ++ e :: rest).map (edgeKey supports)).sum =
          (done.map (edgeKey supports)).sum + support.total + (rest.map (edgeKey supports)).sum := by
        rw [List.map_append, List.sum_append, List.map_cons, List.sum_cons, key, Nat.add_assoc]
      omega
    by_cases unreachable :
        saturatingMul 128 support.total done.length - (done.map (edgeKey supports)).sum > budget
    · -- the walk stops at `e`
      refine ⟨[], e :: rest, rfl, by simpa using reached, by simp [splitPoint, found, unreachable], ?_⟩
      intro next isHead
      cases Option.mem_some_iff.mp isHead
      rw [List.append_nil, key]
      unfold saturatingMul at unreachable
      omega
    · -- `e` is reached, and the walk goes on from it
      have fits : support.total * done.length ≤ budget + (done.map (edgeKey supports)).sum := by
        unfold saturatingMul at unreachable
        rcases Nat.eq_zero_or_pos support.total with zero | positive
        · rw [zero, Nat.zero_mul]
          omega
        · omega
      have above : ∀ t ∈ done.map (edgeKey supports), t ≤ support.total := by
        intro t member
        rw [List.map_append, List.pairwise_append] at sorted
        exact key ▸ sorted.2.2 t member _ (List.mem_map_of_mem List.mem_cons_self)
      have pushed : WaterFill.Reached budget ((done ++ [e]).map (edgeKey supports)) := by
        rw [List.map_append, List.map_singleton, key]
        exact reached.push above (by rwa [List.length_map])
      have regrouped : done ++ [e] ++ rest = done ++ e :: rest := by simp
      obtain ⟨first, later, restIs, reachedAfter, walked, beyond⟩ :=
        ih (done ++ [e]) (regrouped ▸ sorted) (fun e' member => present e' (List.mem_cons_of_mem e member))
          (regrouped ▸ bounded) pushed
      have lengthIs : (done ++ [e]).length = done.length + 1 := by simp
      have sumIs : ((done ++ [e]).map (edgeKey supports)).sum =
          saturatingAdd 128 (done.map (edgeKey supports)).sum support.total := by
        rw [List.map_append, List.map_singleton, List.sum_append, List.sum_singleton, key, saturatingAdd]
        omega
      have joined : done ++ [e] ++ first = done ++ e :: first := by simp
      rw [joined] at reachedAfter walked beyond
      refine ⟨e :: first, later, by rw [restIs, List.cons_append], reachedAfter, ?_, beyond⟩
      simp only [splitPoint, found, unreachable, if_false]
      rw [← lengthIs, ← sumIs, walked]

/-! ## Raising the chosen winners -/

/-- `raiseEdges` over edges of distinct winners, all in the map and at most
`level`: each edge gets what lifts its winner to `level`, pushed to the
winner's `others`, and no other winner changes. -/
theorem raiseEdges_run (voter : α) {level : Nat} (levelFits : level < 2 ^ 128) (edges : List (α × Nat)) :
    ∀ supports : KVMap α (Support α), (edges.map Prod.fst).Nodup → (∀ e ∈ edges, (supports.lookup e.1).isSome) →
      (∀ e ∈ edges, edgeKey supports e ≤ level) →
      (raiseEdges voter level edges supports).1 = edges.map (fun e => (e.1, level - edgeKey supports e)) ∧
        ∀ c, (raiseEdges voter level edges supports).2.lookup c =
          if c ∈ edges.map Prod.fst then
            (supports.lookup c).map fun support =>
              { support with total := level, others := support.others ++ [(voter, level - support.total)] }
          else supports.lookup c := by
  induction edges with
  | nil =>
    intro supports _ _ _
    exact ⟨rfl, fun c => by simp [raiseEdges]⟩
  | cons e rest ih =>
    intro supports distinct present below
    obtain ⟨support, found⟩ := Option.isSome_iff_exists.mp (present e List.mem_cons_self)
    have key : edgeKey supports e = support.total := by simp [edgeKey, found]
    have notLater : e.1 ∉ rest.map Prod.fst := (List.nodup_cons.mp distinct).1
    have raised : saturatingAdd 128 support.total (level - support.total) = level := by
      have lower := below e List.mem_cons_self
      rw [key] at lower
      unfold saturatingAdd
      omega
    -- the write at `e`'s winner leaves the later winners' lookups as they were
    have later : ∀ (stored : Support α), ∀ e' ∈ rest, (supports.insert e.1 stored).lookup e'.1 = supports.lookup e'.1 :=
      fun stored e' member => KVMap.lookup_insert_of_ne _ _ fun same => notLater (same ▸ List.mem_map_of_mem member)
    have laterKey : ∀ (stored : Support α), ∀ e' ∈ rest, edgeKey (supports.insert e.1 stored) e' = edgeKey supports e' := by
      intro stored e' member
      simp only [edgeKey, later stored e' member]
    obtain ⟨edgesIs, lookupIs⟩ := ih (supports.insert e.1
        { support with total := level, others := support.others ++ [(voter, level - support.total)] })
      (List.nodup_cons.mp distinct).2
      (fun e' member => by rw [later _ e' member]; exact present e' (List.mem_cons_of_mem e member))
      (fun e' member => by rw [laterKey _ e' member]; exact below e' (List.mem_cons_of_mem e member))
    simp only [raiseEdges, found, raised]
    refine ⟨?_, fun c => (lookupIs c).trans ?_⟩
    · rw [edgesIs, List.map_cons, key, List.map_congr_left fun e' member => by rw [laterKey _ e' member]]
    · rw [List.map_cons]
      by_cases same : c = e.1
      · subst same
        simp [notLater, found]
      · by_cases inRest : c ∈ rest.map Prod.fst
        · simp [inRest, same, KVMap.lookup_insert_of_ne _ _ same]
        · simp [inRest, same, KVMap.lookup_insert_of_ne _ _ same]

/-! ## The outcome -/

/-- What `do_equalize` does when it does not return early, read off the
supports `undone` that have the voter's stake taken off: the voter's edges,
their stakes zeroed, fall into the `chosen`, whose winners are raised to
`level` and take the whole budget but its remainder, and the `rest`, whose
winners already stand above it. -/
structure WaterFilled (voter : α) (budget : Nat) (undone : KVMap α (Support α)) (edges : List (α × Nat))
    (chosen rest : List (α × Nat)) (level : Nat) (result : List (α × Nat) × KVMap α (Support α)) : Prop where
  perm : (chosen ++ rest).Perm (edges.map fun e => (e.1, 0))
  chosen_ne_nil : chosen ≠ []
  level_eq : level = (budget + (chosen.map (edgeKey undone)).sum) / chosen.length
  chosen_le : ∀ e ∈ chosen, edgeKey undone e ≤ level
  level_lt : ∀ e ∈ rest, level < edgeKey undone e
  edges_eq : result.1 = chosen.map (fun e => (e.1, level - edgeKey undone e)) ++ rest
  lookup_chosen : ∀ e ∈ chosen, result.2.lookup e.1 =
    (undone.lookup e.1).map fun support =>
      { support with total := level, others := support.others ++ [(voter, level - support.total)] }
  lookup_other : ∀ c, c ∉ chosen.map Prod.fst → result.2.lookup c = undone.lookup c
  sum_le : (result.1.map Prod.snd).sum ≤ budget
  budget_lt : budget < (result.1.map Prod.snd).sum + chosen.length

section Redistribute

variable {voter : α} {budget : Nat} {edges : List (α × Nat)} {supports : KVMap α (Support α)}

omit [DecidableEq α] in
/-- The split point read back as the index of the last chosen edge. -/
theorem lastIndex_of_split {sorted first rest : List (α × Nat)} (split : sorted = first ++ rest) :
    (rest.head?.map fun _ => first.length - 1).getD (sorted.length - 1) = first.length - 1 := by
  cases rest with
  | nil => rw [split, List.append_nil]; rfl
  | cons next later => rfl

/-- The arithmetic of `do_equalize` after the walk: the last chosen edge
has been zeroed, so the level is the budget and the chosen totals divided
among the chosen. -/
theorem level_of_split {budget total ways : Nat} (bounded : budget + total < 2 ^ 128) :
    saturatingAdd 128 ((saturatingAdd 128 budget total - saturatingMul 128 0 ways) / ways) 0 =
      (budget + total) / ways := by
  have exact : saturatingAdd 128 budget total = budget + total := by
    unfold saturatingAdd
    omega
  have shrinks : (budget + total) / ways ≤ budget + total := Nat.div_le_self _ _
  rw [exact, saturatingMul, Nat.zero_mul, Nat.min_eq_left (Nat.zero_le _), Nat.sub_zero, saturatingAdd]
  omega

/-- `redistribute` on distinct winners, all in the map and below `2 ^ 128`
with the budget, water-fills. -/
theorem redistribute_fills (nonempty : edges ≠ []) (distinct : (edges.map Prod.fst).Nodup)
    (present : ∀ e ∈ edges, (supports.lookup e.1).isSome)
    (bounded : budget + (edges.map (edgeKey (edges.foldl (undoEdge voter) supports))).sum < 2 ^ 128) :
    ∃ chosen rest level result, redistribute voter budget edges supports = some result ∧
      WaterFilled voter budget (edges.foldl (undoEdge voter) supports) edges chosen rest level result := by
  generalize undoneIs : edges.foldl (undoEdge voter) supports = undone at bounded ⊢
  have sortedPerm := List.perm_insertionSort (fun a b : α × Nat => edgeKey undone a ≤ edgeKey undone b)
    (edges.map fun e => (e.1, 0))
  have sortedKeys := sorted_edgeKeys undone edges
  simp only [redistribute, undoneIs]
  generalize (edges.map fun e => (e.1, 0)).insertionSort (fun a b => edgeKey undone a ≤ edgeKey undone b) =
    sorted at sortedPerm sortedKeys ⊢
  -- what the sort keeps: the winners, in the map, with zero stakes and the same totals
  have sortedPresent : ∀ e ∈ sorted, (undone.lookup e.1).isSome := by
    intro e member
    obtain ⟨original, originalMember, rfl⟩ := List.mem_map.mp (sortedPerm.mem_iff.mp member)
    rw [← undoneIs, lookup_foldl_undoEdge_isSome]
    exact present original originalMember
  have sortedZero : ∀ e ∈ sorted, e.2 = 0 := by
    intro e member
    obtain ⟨original, -, rfl⟩ := List.mem_map.mp (sortedPerm.mem_iff.mp member)
    rfl
  have sortedBound : budget + (sorted.map (edgeKey undone)).sum < 2 ^ 128 := by
    rw [(sortedPerm.map _).sum_eq, List.map_map]
    exact bounded
  have sortedDistinct : (sorted.map Prod.fst).Nodup := by
    rw [(sortedPerm.map _).nodup_iff, List.map_map]
    exact distinct
  obtain ⟨first, rest, split, reached, walked, beyond⟩ :=
    splitPoint_run undone budget sorted [] (by simpa using sortedKeys) sortedPresent (by simpa using sortedBound)
      (WaterFill.reached_nil budget)
  simp only [List.nil_append, List.length_nil, List.map_nil, List.sum_nil] at reached walked beyond
  have firstNonempty : first ≠ [] := by
    rintro rfl
    cases rest with
    | nil =>
      have empty : (edges.map fun e => (e.1, 0)).length = 0 := by
        rw [← sortedPerm.length_eq, split]
        rfl
      exact nonempty (List.eq_nil_of_length_eq_zero (by simpa using empty))
    | cons next later =>
      have stops := beyond next rfl
      rw [List.length_nil, Nat.mul_zero] at stops
      omega
  have ways : first.length - 1 + 1 = first.length := Nat.sub_add_cancel (List.length_pos_of_ne_nil firstNonempty)
  have lastStake : sorted[first.length - 1]?.map Prod.snd = some 0 := by
    have within : first.length - 1 < sorted.length := by
      rw [split, List.length_append]
      omega
    rw [List.getElem?_eq_getElem within, Option.map_some, sortedZero _ (List.getElem_mem within)]
  have firstBound : budget + (first.map (edgeKey undone)).sum < 2 ^ 128 := by
    rw [split, List.map_append, List.sum_append] at sortedBound
    omega
  rw [walked, lastIndex_of_split split, lastStake, Option.bind_some, ways, level_of_split firstBound, split,
    List.take_left, List.drop_left]
  -- the level and the facts the water-filling gives about it
  have levelIs : WaterFill.level budget (first.map (edgeKey undone)) =
      (budget + (first.map (edgeKey undone)).sum) / first.length := by
    rw [WaterFill.level, List.length_map]
  have chosenLe : ∀ e ∈ first, edgeKey undone e ≤ (budget + (first.map (edgeKey undone)).sum) / first.length :=
    fun e member => levelIs ▸ reached.le_level _ (List.mem_map_of_mem member)
  have firstSublist : first.Sublist sorted := split ▸ List.sublist_append_left first rest
  obtain ⟨raisedEdges, raisedLookup⟩ :=
    raiseEdges_run voter (lt_of_le_of_lt (Nat.div_le_self _ _) firstBound) first undone
      (sortedDistinct.sublist (firstSublist.map Prod.fst))
      (fun e member => sortedPresent e (firstSublist.subset member)) chosenLe
  have restZero : (rest.map Prod.snd).sum = 0 := by
    refine List.sum_eq_zero fun stake member => ?_
    obtain ⟨e, restMember, rfl⟩ := List.mem_map.mp member
    exact sortedZero e (split ▸ List.mem_append_right first restMember)
  have poured : ((first.map fun e => (e.1, (budget + (first.map (edgeKey undone)).sum) / first.length -
      edgeKey undone e)).map Prod.snd ++ rest.map Prod.snd).sum =
      ((first.map (edgeKey undone)).map (WaterFill.level budget (first.map (edgeKey undone)) - ·)).sum := by
    rw [List.sum_append, restZero, Nat.add_zero, List.map_map, List.map_map, levelIs]
    rfl
  refine ⟨first, rest, (budget + (first.map (edgeKey undone)).sum) / first.length, _, rfl, ?_⟩
  refine
    { perm := split ▸ sortedPerm
      chosen_ne_nil := firstNonempty
      level_eq := rfl
      chosen_le := chosenLe
      level_lt := ?_
      edges_eq := by rw [raisedEdges]
      lookup_chosen := fun e member => by rw [raisedLookup, if_pos (List.mem_map_of_mem member)]
      lookup_other := fun c notChosen => by rw [raisedLookup, if_neg notChosen]
      sum_le := ?_
      budget_lt := ?_ }
  · -- the edge that stopped the walk is above the level, and the later ones above it
    cases rest with
    | nil => intro e member; cases member
    | cons next later =>
      have nextAbove : (budget + (first.map (edgeKey undone)).sum) / first.length < edgeKey undone next :=
        levelIs ▸ WaterFill.level_lt_of_beyond (by simpa using firstNonempty)
          (by rw [List.length_map]; exact beyond next rfl)
      rw [split, List.map_append, List.pairwise_append, List.map_cons] at sortedKeys
      intro e member
      rcases List.mem_cons.mp member with rfl | laterMember
      · exact nextAbove
      · exact lt_of_lt_of_le nextAbove (List.rel_of_pairwise_cons sortedKeys.2.1 (List.mem_map_of_mem laterMember))
  · rw [raisedEdges, List.map_append, poured]
    exact reached.sum_raise_le
  · rw [raisedEdges, List.map_append, poured]
    have counted := reached.budget_lt_sum_raise (by simpa using firstNonempty)
    rwa [List.length_map] at counted

end Redistribute

/-- `do_equalize` on a non-empty edge list whose winners are all in the map
never panics: it returns early, changing nothing, with a difference below the
tolerance, or it is `redistribute` with some difference. -/
theorem doEqualize_cases (voter : α) (budget tolerance : Nat) {edges : List (α × Nat)}
    {supports : KVMap α (Support α)} (nonempty : edges ≠ []) (present : ∀ e ∈ edges, (supports.lookup e.1).isSome) :
    ∃ difference,
      (doEqualize voter budget edges supports tolerance = some (edges, supports, difference) ∧
          difference < tolerance) ∨
        doEqualize voter budget edges supports tolerance =
          (redistribute voter budget edges supports).map fun done => (done.1, done.2, difference) := by
  -- the totals of all the winners are not empty, so their minimum exists
  have minExists : ∃ minStake,
      (edges.filterMap fun e => (supports.lookup e.1).map Support.total).min? = some minStake := by
    obtain ⟨first, others, rfl⟩ := List.exists_cons_of_ne_nil nonempty
    obtain ⟨support, found⟩ := Option.isSome_iff_exists.mp (present first List.mem_cons_self)
    rw [List.filterMap_cons_some (by rw [found]; rfl)]
    exact Option.isSome_iff_exists.mp (List.isSome_min?_of_mem List.mem_cons_self)
  obtain ⟨minStake, minIs⟩ := minExists
  unfold doEqualize
  rw [if_neg (by simpa using nonempty)]
  dsimp only
  split
  · rename_i backing
    obtain ⟨maxStake, maxIs⟩ := Option.ne_none_iff_exists'.mp
      (mt List.max?_eq_none_iff.mp (List.ne_nil_of_length_pos backing))
    rw [maxIs, minIs]
    dsimp only
    split
    · rename_i below
      exact ⟨_, .inl ⟨rfl, below⟩⟩
    · exact ⟨_, .inr rfl⟩
  · exact ⟨budget, .inr rfl⟩

theorem do_equalize_water_fills (voter : α) (budget tolerance : Nat) (edges : List (α × Nat))
    (supports : KVMap α (Support α)) (nonempty : edges ≠ []) (distinct : (edges.map Prod.fst).Nodup)
    (present : ∀ e ∈ edges, (supports.lookup e.1).isSome)
    (bounded : budget + (edges.map (edgeKey (edges.foldl (undoEdge voter) supports))).sum < 2 ^ 128) :
    ∃ difference result, doEqualize voter budget edges supports tolerance = some (result.1, result.2, difference) ∧
      ((result = (edges, supports) ∧ difference < tolerance) ∨
        ∃ chosen rest level,
          WaterFilled voter budget (edges.foldl (undoEdge voter) supports) edges chosen rest level result) := by
  obtain ⟨chosen, rest, level, result, redistributed, filled⟩ :=
    redistribute_fills nonempty distinct present bounded
  obtain ⟨difference, early | poured⟩ := doEqualize_cases voter budget tolerance nonempty present
  · exact ⟨difference, (edges, supports), early.1, .inl ⟨rfl, early.2⟩⟩
  · refine ⟨difference, result, ?_, .inr ⟨chosen, rest, level, filled⟩⟩
    rw [poured, redistributed]
    rfl

/-- A voter with budget `10` and stakes `3`, `0` and `5` on winners at totals
`13`, `4` and `30`: the two lowest after the undo take the budget. -/
theorem do_equalize_fills_lowest_two :
    ∃ (difference : Nat) (result : List (Nat × Nat) × KVMap Nat (Support Nat)) (ways : Nat),
      doEqualize 9 10 [(0, 3), (1, 0), (2, 5)]
          (((KVMap.empty : KVMap Nat (Support Nat)).insert 0 ⟨0, 13, [(9, 3)]⟩ |>.insert 1 ⟨1, 4, []⟩).insert 2
            ⟨0, 30, [(9, 5)]⟩) 0 = some (result.1, result.2, difference) ∧
        0 < ways ∧ 10 < (result.1.map Prod.snd).sum + ways ∧ (result.1.map Prod.snd).sum ≤ 10 := by
  obtain ⟨difference, result, equalized, early | ⟨chosen, rest, level, filled⟩⟩ :=
    do_equalize_water_fills 9 10 0 [(0, 3), (1, 0), (2, 5)]
      (((KVMap.empty : KVMap Nat (Support Nat)).insert 0 ⟨0, 13, [(9, 3)]⟩ |>.insert 1 ⟨1, 4, []⟩).insert 2
        ⟨0, 30, [(9, 5)]⟩) (by decide) (by decide) (by decide) (by decide)
  · exact absurd early.2 (Nat.not_lt_zero _)
  · exact ⟨difference, result, chosen.length, equalized, List.length_pos_of_ne_nil filled.chosen_ne_nil,
      filled.budget_lt, filled.sum_le⟩

/-- Outside those hypotheses: a winner named twice gets nothing from its
second edge, so a budget of `4` over two edges places `2`; and a winner at
`2 ^ 128 - 1` clamps the level, so a budget of `5` places nothing. -/
theorem do_equalize_duplicate_and_saturated :
    (∃ result, doEqualize 9 4 [(0, 0), (0, 0)]
        ((KVMap.empty : KVMap Nat (Support Nat)).insert 0 ⟨0, 0, []⟩) 0 = some result ∧
        result.1 = [(0, 2), (0, 0)]) ∧
      ∃ result, doEqualize 9 5 [(0, 0)]
        ((KVMap.empty : KVMap Nat (Support Nat)).insert 0 ⟨0, 2 ^ 128 - 1, []⟩) 0 = some result ∧
        result.1 = [(0, 0)] :=
  ⟨⟨_, rfl, rfl⟩, ⟨_, rfl, rfl⟩⟩

example :
    (doEqualize 9 10 [(0, 3), (1, 0), (2, 5)]
        (((KVMap.empty : KVMap Nat (Support Nat)).insert 0 ⟨0, 13, [(9, 3)]⟩ |>.insert 1 ⟨1, 4, []⟩).insert 2
          ⟨0, 30, [(9, 5)]⟩) 0).map Prod.fst = some [(1, 8), (0, 2), (2, 0)] := by
  decide

end OffchainStorage.Phragmen
