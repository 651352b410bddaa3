import Mathlib
import OffchainStorage.Lib.RustInt
import OffchainStorage.Lib.Transition

/-!
# Slashing spans

`SlashingSpans` records the slashing spans of a stash: the index and start of
the ongoing span, and the lengths of the closed spans before it, most recent
first, each as an offset back from the start of the span after it.  `iter`
rebuilds the spans from these offsets by subtraction, and `end_span` and
`prune` close the ongoing span and forget the old ones.

From `SlashingSpans::new` and any calls of `end_span` and `prune` on eras of
`u32`, the record stays `Wellformed`: the lengths are positive and sum to at
most the ongoing start, and there are at most as many as the span index.  So
`iter` never underflows and yields a `Chained` list of spans, which go back
from the ongoing span one index at a time, each closed span ending where the
next one starts.  Each call then does what the spans mean
(`slashing_spans_track_contiguous_eras`).
-/

namespace OffchainStorage.Staking

open RustInt Transition

/-- `SlashingSpan`: the eras from `start`, `length` of them once it is closed. -/
structure SlashingSpan where
  index : Nat
  start : Nat
  length : Option Nat
  deriving DecidableEq, Repr

namespace SlashingSpan

def containsEra (span : SlashingSpan) (era : Nat) : Bool :=
  decide (span.start ≤ era) && span.length.all fun length => decide (era < span.start + length)

/-- The test of `prune`: a closed span that ends by the window start. -/
def endsBy (span : SlashingSpan) (windowStart : Nat) : Bool :=
  span.length.any fun length => decide (span.start + length ≤ windowStart)

end SlashingSpan

structure SlashingSpans where
  spanIndex : Nat
  lastStart : Nat
  prior : List Nat
  deriving DecidableEq, Repr

namespace SlashingSpans

def new (windowStart : Nat) : SlashingSpans :=
  ⟨0, windowStart, []⟩

/-- `end_span(now)`; `none` is the overflow of `now + 1` or of the span index
in `u32`. -/
def endSpan (spans : SlashingSpans) (now : Nat) : Option (Bool × SlashingSpans) := do
  let nextStart ← checkedAdd 32 now 1
  if nextStart ≤ spans.lastStart then
    return (false, spans)
  let lastLength := nextStart - spans.lastStart
  let spanIndex ← checkedAdd 32 spans.spanIndex 1
  return (true, { spanIndex, lastStart := nextStart, prior := lastLength :: spans.prior })

/-- The closed spans `iter` yields after the ongoing one: each start is the
start after it less the length, and each index one less; `none` is an
underflow. -/
def priorSpans (lastStart index : Nat) : List Nat → Option (List SlashingSpan)
  | [] => some []
  | length :: rest => do
    let start ← checkedSub lastStart length
    let index ← checkedSub index 1
    let spans ← priorSpans start index rest
    return ⟨index, start, some length⟩ :: spans

/-- `iter()`, as the list of all it yields. -/
def iter (spans : SlashingSpans) : Option (List SlashingSpan) :=
  (priorSpans spans.lastStart spans.spanIndex spans.prior).map (⟨spans.spanIndex, spans.lastStart, none⟩ :: ·)

/-- `prune(window_start)`: the position of the first closed span that ends by
the window start, every span from it on forgotten, and the ongoing span moved
up to the window. -/
def prune (spans : SlashingSpans) (windowStart : Nat) : Option (Option (Nat × Nat) × SlashingSpans) := do
  let all ← spans.iter
  let oldIdx := (all.drop 1).findIdx? fun span => span.endsBy windowStart
  let earliestSpanIndex ← checkedSub spans.spanIndex spans.prior.length
  let (pruned, prior) ← match oldIdx with
    | some o => do
      let prior := spans.prior.take o
      let newEarliest ← checkedSub spans.spanIndex prior.length
      pure (some (earliestSpanIndex, newEarliest), prior)
    | none => pure (none, spans.prior)
  return (pruned, { spans with prior, lastStart := max spans.lastStart windowStart })

/-- `InspectingSpans::era_span(era)`: the first span that contains the era. -/
def eraSpan (spans : SlashingSpans) (era : Nat) : Option (Option SlashingSpan) :=
  spans.iter.map fun all => all.find? fun span => span.containsEra era

end SlashingSpans

/-! ## What the spans are -/

/-- Closed spans that go back from index `index` and era `stop`: the first has
index `index - 1` and ends at `stop`, and each next one ends where the one
before it starts, with a positive length. -/
inductive Chained : Nat → Nat → List SlashingSpan → Prop
  | nil (index stop : Nat) : Chained index stop []
  | cons {index start length stop : Nat} {rest : List SlashingSpan} (positive : 0 < length)
      (ends : start + length = stop) (chained : Chained index start rest) :
      Chained (index + 1) stop (⟨index, start, some length⟩ :: rest)

namespace Chained

theorem endsBy_of_le {index stop : Nat} {closed : List SlashingSpan} (chained : Chained index stop closed)
    {windowStart : Nat} (past : stop ≤ windowStart) : ∀ span ∈ closed, span.endsBy windowStart = true := by
  induction chained with
  | nil => simp
  | cons positive ends chained ih =>
    intro span member
    rcases List.mem_cons.mp member with rfl | inRest
    · simp [SlashingSpan.endsBy]
      omega
    · exact ih (by omega) span inRest

theorem lt_of_containsEra {index stop : Nat} {closed : List SlashingSpan} (chained : Chained index stop closed)
    {era : Nat} : ∀ span ∈ closed, span.containsEra era = true → era < stop := by
  induction chained with
  | nil => simp
  | cons positive ends chained ih =>
    intro span member contains
    rcases List.mem_cons.mp member with rfl | inRest
    · simp [SlashingSpan.containsEra] at contains
      omega
    · have := ih span inRest contains
      omega

theorem eq_of_containsEra {index stop : Nat} {closed : List SlashingSpan} (chained : Chained index stop closed)
    {era : Nat} : ∀ first ∈ closed, ∀ second ∈ closed, first.containsEra era = true →
      second.containsEra era = true → first = second := by
  induction chained with
  | nil => simp
  | @cons index start length stop rest positive ends chained ih =>
    have headContains : (⟨index, start, some length⟩ : SlashingSpan).containsEra era = true → start ≤ era := by
      simp [SlashingSpan.containsEra]
      omega
    intro first firstMember second secondMember firstContains secondContains
    rcases List.mem_cons.mp firstMember with rfl | firstInRest <;>
      rcases List.mem_cons.mp secondMember with rfl | secondInRest
    · rfl
    · have := chained.lt_of_containsEra second secondInRest secondContains
      have := headContains firstContains
      omega
    · have := chained.lt_of_containsEra first firstInRest firstContains
      have := headContains secondContains
      omega
    · exact ih first firstInRest second secondInRest firstContains secondContains

/-- The indices of the spans are those from `index - length` to `index`. -/
theorem indices {index stop : Nat} {closed : List SlashingSpan} (chained : Chained index stop closed) :
    closed.length ≤ index ∧ ∀ i, (∃ span ∈ closed, span.index = i) ↔ index - closed.length ≤ i ∧ i < index := by
  induction chained with
  | nil => simp
  | @cons index start length stop rest positive ends chained ih =>
    obtain ⟨short, within⟩ := ih
    refine ⟨by simp; omega, fun i => ?_⟩
    simp only [List.mem_cons, exists_eq_or_imp, within, List.length_cons]
    omega

theorem drop_append {index stop : Nat} {front back : List SlashingSpan}
    (chained : Chained index stop (front ++ back)) : ∃ start, Chained (index - front.length) start back := by
  induction front generalizing index stop with
  | nil => exact ⟨stop, chained⟩
  | cons span front ih =>
    cases chained with
    | cons positive ends rest =>
      obtain ⟨start, restChained⟩ := ih rest
      exact ⟨start, by simpa using restChained⟩

/-- The spans a window keeps are those before the first one that ends by it;
the test fails before it and holds from it on. -/
theorem split {index stop : Nat} {closed : List SlashingSpan} (chained : Chained index stop closed)
    (windowStart : Nat) :
    ∃ kept removed, closed = kept ++ removed ∧ (∀ span ∈ kept, span.endsBy windowStart = false) ∧
      (∀ span ∈ removed, span.endsBy windowStart = true) ∧
      closed.findIdx? (fun span => span.endsBy windowStart) = if removed = [] then none else some kept.length := by
  induction chained with
  | nil => exact ⟨[], [], rfl, by simp, by simp, by simp⟩
  | @cons index start length stop rest positive ends chained ih =>
    by_cases ended : start + length ≤ windowStart
    · have headEnds : (⟨index, start, some length⟩ : SlashingSpan).endsBy windowStart = true := by
        simp [SlashingSpan.endsBy, ended]
      refine ⟨[], _ :: rest, rfl, by simp, ?_, by simp [List.findIdx?_cons, headEnds]⟩
      intro span member
      rcases List.mem_cons.mp member with rfl | inRest
      · exact headEnds
      · exact chained.endsBy_of_le (by omega) span inRest
    · have headKept : (⟨index, start, some length⟩ : SlashingSpan).endsBy windowStart = false := by
        simp [SlashingSpan.endsBy]
        omega
      obtain ⟨kept, removed, rfl, keptFails, removedHolds, found⟩ := ih
      refine ⟨_ :: kept, removed, rfl, ?_, removedHolds, ?_⟩
      · intro span member
        rcases List.mem_cons.mp member with rfl | inKept
        · exact headKept
        · exact keptFails span inKept
      · rw [List.findIdx?_cons, headKept, found, if_neg Bool.false_ne_true]
        split <;> simp

theorem lt_of_head_kept {index stop : Nat} {span : SlashingSpan} {rest : List SlashingSpan}
    (chained : Chained index stop (span :: rest)) {windowStart : Nat} (kept : span.endsBy windowStart = false) :
    windowStart < stop := by
  cases chained with
  | cons positive ends rest =>
    simp [SlashingSpan.endsBy] at kept
    omega

/-- The ongoing span from `stop` and the closed spans before it contain each
era at most once. -/
theorem unique_containsEra {index stop : Nat} {closed : List SlashingSpan} (chained : Chained index stop closed)
    {era : Nat} {first second : SlashingSpan} (firstMember : first ∈ (⟨index, stop, none⟩ :: closed))
    (secondMember : second ∈ (⟨index, stop, none⟩ :: closed)) (firstContains : first.containsEra era = true)
    (secondContains : second.containsEra era = true) : first = second := by
  have ongoing : (⟨index, stop, none⟩ : SlashingSpan).containsEra era = true → stop ≤ era := by
    simp [SlashingSpan.containsEra]
  rcases List.mem_cons.mp firstMember with rfl | firstClosed <;>
    rcases List.mem_cons.mp secondMember with rfl | secondClosed
  · rfl
  · have := chained.lt_of_containsEra second secondClosed secondContains
    have := ongoing firstContains
    omega
  · have := chained.lt_of_containsEra first firstClosed firstContains
    have := ongoing secondContains
    omega
  · exact chained.eq_of_containsEra first firstClosed second secondClosed firstContains secondContains

end Chained

/-! ## The record keeps its meaning -/

namespace SlashingSpans

/-- What every reachable record satisfies. -/
structure Wellformed (spans : SlashingSpans) : Prop where
  lastFits : spans.lastStart < 2 ^ 32
  indexBelow : spans.spanIndex ≤ spans.lastStart
  priorSum : spans.prior.sum ≤ spans.lastStart
  priorCount : spans.prior.length ≤ spans.spanIndex
  positive : ∀ length ∈ spans.prior, 0 < length

theorem priorSpans_spec :
    ∀ (prior : List Nat) (lastStart index : Nat), prior.sum ≤ lastStart → prior.length ≤ index →
      (∀ length ∈ prior, 0 < length) →
      ∃ closed, priorSpans lastStart index prior = some closed ∧ Chained index lastStart closed ∧
        closed.map SlashingSpan.length = prior.map some
  | [], lastStart, index, _, _, _ => ⟨[], rfl, .nil index lastStart, rfl⟩
  | length :: rest, lastStart, index, summed, counted, positive => by
    obtain ⟨below, rfl⟩ : ∃ below, index = below + 1 := ⟨index - 1, by simp at counted; omega⟩
    simp only [List.sum_cons, List.length_cons] at summed counted
    obtain ⟨closed, spansRest, chained, lengths⟩ :=
      priorSpans_spec rest (lastStart - length) below (by omega) (by omega)
        (fun other member => positive other (List.mem_cons_of_mem _ member))
    refine ⟨_, ?_, .cons (positive length List.mem_cons_self) (by omega) chained, by simp [lengths]⟩
    rw [priorSpans, checkedSub_of_le (show length ≤ lastStart by omega), checkedSub_of_le (show 1 ≤ below + 1 by omega)]
    simp [spansRest]

/-- The spans of a prefix of the lengths are the prefix of the spans. -/
theorem priorSpans_take :
    ∀ (prior : List Nat) (lastStart index count : Nat) {closed : List SlashingSpan},
      priorSpans lastStart index prior = some closed → priorSpans lastStart index (prior.take count) = some (closed.take count)
  | [], _, _, _, _, spans => by
    cases spans
    simp [priorSpans]
  | _ :: _, _, _, 0, _, _ => rfl
  | length :: rest, lastStart, index, count + 1, closed, spans => by
    obtain ⟨start, started, afterStart⟩ := Option.bind_eq_some_iff.mp spans
    obtain ⟨below, belowIndex, afterIndex⟩ := Option.bind_eq_some_iff.mp afterStart
    obtain ⟨restSpans, restBuilt, built⟩ := Option.bind_eq_some_iff.mp afterIndex
    cases built
    rw [List.take_succ_cons, priorSpans, started, belowIndex]
    simp [priorSpans_take rest start below count restBuilt]

theorem iter_spec {spans : SlashingSpans} (wellformed : spans.Wellformed) :
    ∃ closed, spans.iter = some (⟨spans.spanIndex, spans.lastStart, none⟩ :: closed) ∧
      Chained spans.spanIndex spans.lastStart closed ∧ closed.map SlashingSpan.length = spans.prior.map some := by
  obtain ⟨closed, spansPrior, chained, lengths⟩ :=
    priorSpans_spec spans.prior spans.lastStart spans.spanIndex wellformed.priorSum wellformed.priorCount
      wellformed.positive
  exact ⟨closed, by rw [iter, spansPrior]; rfl, chained, lengths⟩

theorem new_wellformed {windowStart : Nat} (fits : windowStart < 2 ^ 32) : (new windowStart).Wellformed :=
  ⟨fits, Nat.zero_le _, Nat.zero_le _, Nat.zero_le _, by simp [new]⟩

/-! ## `end_span` -/

section EndSpan

variable {spans : SlashingSpans} {now : Nat}

theorem endSpan_of_le (fits : now + 1 < 2 ^ 32) (stale : now + 1 ≤ spans.lastStart) :
    spans.endSpan now = some (false, spans) := by
  simp [endSpan, checkedAdd_of_lt fits, stale]

theorem endSpan_of_lt (wellformed : spans.Wellformed) (fits : now + 1 < 2 ^ 32) (fresh : spans.lastStart < now + 1) :
    spans.endSpan now =
      some (true, ⟨spans.spanIndex + 1, now + 1, (now + 1 - spans.lastStart) :: spans.prior⟩) := by
  have indexFits : spans.spanIndex + 1 < 2 ^ 32 := by
    have := wellformed.indexBelow
    omega
  simp [endSpan, checkedAdd_of_lt fits, checkedAdd_of_lt indexFits, Nat.not_le.mpr fresh]

theorem Wellformed.endSpan (wellformed : spans.Wellformed) (fits : now + 1 < 2 ^ 32)
    (fresh : spans.lastStart < now + 1) :
    (⟨spans.spanIndex + 1, now + 1, (now + 1 - spans.lastStart) :: spans.prior⟩ : SlashingSpans).Wellformed := by
  obtain ⟨lastFits, indexBelow, priorSum, priorCount, positive⟩ := wellformed
  refine ⟨fits, by dsimp only; omega, by simp only [List.sum_cons]; omega, by simp only [List.length_cons]; omega, ?_⟩
  intro length member
  rcases List.mem_cons.mp member with rfl | inPrior
  · omega
  · exact positive length inPrior

/-- The ongoing span is closed where the new one starts. -/
theorem iter_endSpan {closed : List SlashingSpan}
    (iterated : spans.iter = some (⟨spans.spanIndex, spans.lastStart, none⟩ :: closed))
    (fresh : spans.lastStart < now + 1) :
    (⟨spans.spanIndex + 1, now + 1, (now + 1 - spans.lastStart) :: spans.prior⟩ : SlashingSpans).iter =
      some (⟨spans.spanIndex + 1, now + 1, none⟩ ::
        ⟨spans.spanIndex, spans.lastStart, some (now + 1 - spans.lastStart)⟩ :: closed) := by
  obtain ⟨closedSpans, spansPrior, built⟩ := Option.map_eq_some_iff.mp iterated
  simp only [List.cons.injEq, true_and] at built
  subst built
  have restarted : now + 1 - (now + 1 - spans.lastStart) = spans.lastStart := by omega
  have lowered : checkedSub (spans.spanIndex + 1) 1 = some spans.spanIndex := by
    rw [checkedSub_of_le (Nat.le_add_left 1 _), Nat.add_sub_cancel]
  simp [iter, priorSpans, checkedSub_of_le (Nat.sub_le (now + 1) spans.lastStart), restarted, lowered, spansPrior]

end EndSpan

/-! ## `prune` -/

section Prune

variable {spans : SlashingSpans} {windowStart : Nat}

theorem prune_eq (wellformed : spans.Wellformed) {closed kept removed : List SlashingSpan}
    (iterated : spans.iter = some (⟨spans.spanIndex, spans.lastStart, none⟩ :: closed))
    (found : closed.findIdx? (fun span => span.endsBy windowStart) = if removed = [] then none else some kept.length)
    (keptShort : kept.length ≤ spans.prior.length) :
    spans.prune windowStart =
      some (if removed = [] then none else some (spans.spanIndex - spans.prior.length, spans.spanIndex - kept.length),
        { spans with prior := if removed = [] then spans.prior else spans.prior.take kept.length,
                     lastStart := max spans.lastStart windowStart }) := by
  have earliest := checkedSub_of_le wellformed.priorCount
  by_cases none : removed = []
  · simp only [if_pos none] at found ⊢
    simp [prune, iterated, found, earliest]
  · simp only [if_neg none] at found ⊢
    have newEarliest : checkedSub spans.spanIndex kept.length = some (spans.spanIndex - kept.length) :=
      checkedSub_of_le (by have := wellformed.priorCount; omega)
    simp [prune, iterated, found, earliest, Nat.min_eq_left keptShort, newEarliest]

theorem Wellformed.prune (wellformed : spans.Wellformed) (fits : windowStart < 2 ^ 32) (prior : List Nat)
    (sublist : prior.Sublist spans.prior) :
    ({ spans with prior, lastStart := max spans.lastStart windowStart } : SlashingSpans).Wellformed := by
  obtain ⟨lastFits, indexBelow, priorSum, priorCount, positive⟩ := wellformed
  have shorter := sublist.length_le
  have smaller := sublist.sum_le_sum fun length _ => Nat.zero_le length
  refine ⟨by dsimp only; omega, by dsimp only; omega, by dsimp only; omega, by dsimp only; omega, ?_⟩
  exact fun length member => positive length (sublist.subset member)

theorem iter_prune {kept removed : List SlashingSpan}
    (iterated : spans.iter = some (⟨spans.spanIndex, spans.lastStart, none⟩ :: (kept ++ removed)))
    (chained : Chained spans.spanIndex spans.lastStart (kept ++ removed))
    (lengths : (kept ++ removed).map SlashingSpan.length = spans.prior.map some)
    (keptFails : ∀ span ∈ kept, span.endsBy windowStart = false) :
    ({ spans with prior := if removed = [] then spans.prior else spans.prior.take kept.length,
                  lastStart := max spans.lastStart windowStart } : SlashingSpans).iter =
      some (⟨spans.spanIndex, max spans.lastStart windowStart, none⟩ :: kept) := by
  have spansPrior : priorSpans spans.lastStart spans.spanIndex spans.prior = some (kept ++ removed) := by
    obtain ⟨built, spansPrior, rebuilt⟩ := Option.map_eq_some_iff.mp iterated
    simp only [List.cons.injEq, true_and] at rebuilt
    rw [spansPrior, rebuilt]
  have sameLength : spans.prior.length = kept.length + removed.length := by
    simpa using (congrArg List.length lengths).symm
  have taken : (if removed = [] then spans.prior else spans.prior.take kept.length) = spans.prior.take kept.length := by
    split
    · rename_i none
      subst none
      rw [List.take_of_length_le (by simp at sameLength; omega)]
    · rfl
  rw [iter, taken]
  cases kept with
  | nil => simp [priorSpans]
  | cons span rest =>
    have within := chained.lt_of_head_kept (keptFails span List.mem_cons_self)
    rw [Nat.max_eq_left within.le, priorSpans_take _ _ _ _ spansPrior, List.take_left' rfl]
    rfl

/-- `prune` forgets exactly the closed spans that end by the window, reports
their indices as a range, and moves the ongoing span up to the window. -/
theorem prune_spec (wellformed : spans.Wellformed) (windowStart : Nat) {closed : List SlashingSpan}
    (iterated : spans.iter = some (⟨spans.spanIndex, spans.lastStart, none⟩ :: closed)) :
    ∃ pruned after, spans.prune windowStart = some (pruned, after) ∧
      after.iter = some (⟨spans.spanIndex, max spans.lastStart windowStart, none⟩ ::
        closed.filter fun span => !span.endsBy windowStart) ∧
      (pruned = none ↔ ∀ span ∈ closed, span.endsBy windowStart = false) ∧
      ∀ first last, pruned = some (first, last) →
        ∀ i, (first ≤ i ∧ i < last ↔ ∃ span ∈ closed, span.endsBy windowStart = true ∧ span.index = i) := by
  obtain ⟨closedSpans, iteratedSpans, chained, lengths⟩ := iter_spec wellformed
  have same : closedSpans = closed := by
    rw [iterated, Option.some.injEq, List.cons.injEq] at iteratedSpans
    exact iteratedSpans.2.symm
  subst same
  obtain ⟨kept, removed, rfl, keptFails, removedHolds, found⟩ := chained.split windowStart
  have sameLength : spans.prior.length = kept.length + removed.length := by
    simpa using (congrArg List.length lengths).symm
  refine ⟨_, _, prune_eq wellformed iterated found (by omega), ?_, ?_, ?_⟩
  · have filtered : (kept ++ removed).filter (fun span => !span.endsBy windowStart) = kept := by
      rw [List.filter_append, List.filter_eq_self.mpr (by simpa using keptFails),
        List.filter_eq_nil_iff.mpr (by simpa using removedHolds), List.append_nil]
    rw [filtered]
    exact iter_prune iterated chained lengths keptFails
  · by_cases none : removed = []
    · subst none
      simpa using keptFails
    · simp only [if_neg none, reduceCtorEq, false_iff, not_forall]
      obtain ⟨span, member⟩ := List.exists_mem_of_ne_nil removed none
      exact ⟨span, List.mem_append_right kept member, by simp [removedHolds span member]⟩
  · intro first last reported i
    by_cases none : removed = []
    · simp [none] at reported
    · simp only [if_neg none, Option.some.injEq, Prod.mk.injEq] at reported
      obtain ⟨rfl, rfl⟩ := reported
      obtain ⟨start, removedChained⟩ := chained.drop_append
      obtain ⟨-, removedIndices⟩ := removedChained.indices
      have onlyRemoved : (∃ span ∈ kept ++ removed, span.endsBy windowStart = true ∧ span.index = i) ↔
          ∃ span ∈ removed, span.index = i := by
        constructor
        · rintro ⟨span, member, ends, rfl⟩
          rcases List.mem_append.mp member with inKept | inRemoved
          · simp [keptFails span inKept] at ends
          · exact ⟨span, inRemoved, rfl⟩
        · rintro ⟨span, member, rfl⟩
          exact ⟨span, List.mem_append_right kept member, removedHolds span member, rfl⟩
      rw [onlyRemoved, removedIndices, sameLength, Nat.sub_sub]

example : (⟨10, 1000, [10, 9, 8, 10]⟩ : SlashingSpans).prune 981 = some (some (6, 8), ⟨10, 1000, [10, 9]⟩) := by
  decide

end Prune

/-- `era_span` finds the one span that contains the era, if any does. -/
theorem eraSpan_spec {spans : SlashingSpans} (wellformed : spans.Wellformed) (era : Nat) {all : List SlashingSpan}
    (iterated : spans.iter = some all) :
    ∃ found, spans.eraSpan era = some found ∧ (found = none ↔ ∀ span ∈ all, span.containsEra era = false) ∧
      ∀ span, found = some span →
        span ∈ all ∧ span.containsEra era = true ∧ ∀ other ∈ all, other.containsEra era = true → other = span := by
  obtain ⟨closed, iteratedSpans, chained, -⟩ := iter_spec wellformed
  rw [iterated, Option.some.injEq] at iteratedSpans
  subst iteratedSpans
  refine ⟨_, by rw [eraSpan, iterated]; rfl, by simp [List.find?_eq_none], ?_⟩
  intro span found
  have contains := List.find?_some found
  have member := List.mem_of_find?_eq_some found
  exact ⟨member, contains, fun other otherMember otherContains =>
    chained.unique_containsEra otherMember member otherContains contains⟩

/-! ## Runs of calls -/

/-- A call on the record, with the era it is passed. -/
inductive Operation where
  | endSpan (now : Nat)
  | prune (windowStart : Nat)
  deriving DecidableEq, Repr

/-- The eras are of `u32`, and `end_span` is called before the last one. -/
def Operation.Allowed : Operation → Prop
  | .endSpan now => now + 1 < 2 ^ 32
  | .prune windowStart => windowStart < 2 ^ 32

instance : DecidablePred Operation.Allowed := fun operation =>
  match operation with
  | .endSpan now => inferInstanceAs (Decidable (now + 1 < 2 ^ 32))
  | .prune windowStart => inferInstanceAs (Decidable (windowStart < 2 ^ 32))

def perform (spans : SlashingSpans) : Operation → Option SlashingSpans
  | .endSpan now => (spans.endSpan now).map Prod.snd
  | .prune windowStart => (spans.prune windowStart).map Prod.snd

theorem perform_wellformed {spans : SlashingSpans} (wellformed : spans.Wellformed) {operation : Operation}
    (allowed : operation.Allowed) : ∃ next, perform spans operation = some next ∧ next.Wellformed := by
  cases operation with
  | endSpan now =>
    by_cases fresh : spans.lastStart < now + 1
    · exact ⟨_, by rw [perform, endSpan_of_lt wellformed allowed fresh]; rfl, wellformed.endSpan allowed fresh⟩
    · exact ⟨spans, by rw [perform, endSpan_of_le allowed (by omega)]; rfl, wellformed⟩
  | prune windowStart =>
    obtain ⟨closed, iterated, chained, lengths⟩ := iter_spec wellformed
    obtain ⟨kept, removed, rfl, -, -, found⟩ := chained.split windowStart
    have sameLength : spans.prior.length = kept.length + removed.length := by
      simpa using (congrArg List.length lengths).symm
    refine ⟨_, by rw [perform, prune_eq wellformed iterated found (by omega)]; rfl, wellformed.prune allowed _ ?_⟩
    split
    · exact List.Sublist.refl _
    · exact List.take_sublist _ _

/-- What the calls on a record do, as the spans it stands for. -/
structure Faithful (spans : SlashingSpans) : Prop where
  noUnderflow : spans.prior.sum ≤ spans.lastStart ∧ spans.prior.length ≤ spans.spanIndex
  iterates : ∃ closed, spans.iter = some (⟨spans.spanIndex, spans.lastStart, none⟩ :: closed) ∧
    Chained spans.spanIndex spans.lastStart closed
  endsSpan : ∀ now, now + 1 < 2 ^ 32 → ∀ closed,
    spans.iter = some (⟨spans.spanIndex, spans.lastStart, none⟩ :: closed) →
    ∃ after, spans.endSpan now = some (decide (spans.lastStart < now + 1), after) ∧
      (spans.lastStart < now + 1 → after.iter = some (⟨spans.spanIndex + 1, now + 1, none⟩ ::
        ⟨spans.spanIndex, spans.lastStart, some (now + 1 - spans.lastStart)⟩ :: closed)) ∧
      (now + 1 ≤ spans.lastStart → after = spans)
  prunes : ∀ windowStart closed, spans.iter = some (⟨spans.spanIndex, spans.lastStart, none⟩ :: closed) →
    ∃ pruned after, spans.prune windowStart = some (pruned, after) ∧
      after.iter = some (⟨spans.spanIndex, max spans.lastStart windowStart, none⟩ ::
        closed.filter fun span => !span.endsBy windowStart) ∧
      (pruned = none ↔ ∀ span ∈ closed, span.endsBy windowStart = false) ∧
      ∀ first last, pruned = some (first, last) →
        ∀ i, (first ≤ i ∧ i < last ↔ ∃ span ∈ closed, span.endsBy windowStart = true ∧ span.index = i)
  findsEraSpan : ∀ era all, spans.iter = some all →
    ∃ found, spans.eraSpan era = some found ∧ (found = none ↔ ∀ span ∈ all, span.containsEra era = false) ∧
      ∀ span, found = some span →
        span ∈ all ∧ span.containsEra era = true ∧ ∀ other ∈ all, other.containsEra era = true → other = span

theorem Wellformed.faithful {spans : SlashingSpans} (wellformed : spans.Wellformed) : spans.Faithful := by
  refine ⟨⟨wellformed.priorSum, wellformed.priorCount⟩, ?_, ?_, ?_, ?_⟩
  · obtain ⟨closed, iterated, chained, -⟩ := iter_spec wellformed
    exact ⟨closed, iterated, chained⟩
  · intro now fits closed iterated
    by_cases fresh : spans.lastStart < now + 1
    · refine ⟨_, by rw [endSpan_of_lt wellformed fits fresh, decide_eq_true fresh], fun _ => iter_endSpan iterated fresh,
        fun stale => absurd stale (by omega)⟩
    · refine ⟨spans, by rw [endSpan_of_le fits (by omega), decide_eq_false fresh], fun fresh' => absurd fresh' fresh,
        fun _ => rfl⟩
  · intro windowStart closed iterated
    exact prune_spec wellformed windowStart iterated
  · intro era all iterated
    exact eraSpan_spec wellformed era iterated

theorem slashing_spans_track_contiguous_eras {windowStart : Nat} (fits : windowStart < 2 ^ 32)
    (operations : List Operation) (allowed : ∀ operation ∈ operations, operation.Allowed) :
    ∃ spans, operations.foldlM perform (new windowStart) = some spans ∧ spans.Faithful := by
  obtain ⟨spans, ran, wellformed⟩ :=
    foldlM_some_invariant_of_allowed Wellformed Operation.Allowed
      (fun _ _ allowedOperation wellformedCurrent => perform_wellformed wellformedCurrent allowedOperation)
      operations allowed (new_wellformed fits)
  exact ⟨spans, ran, wellformed.faithful⟩

theorem slashing_spans_track_contiguous_eras_from_thousand :
    (1000 < 2 ^ 32 ∧ ∀ operation ∈ [Operation.endSpan 1009, .endSpan 1018, .prune 1010], operation.Allowed) ∧
      ∃ spans, [Operation.endSpan 1009, .endSpan 1018, .prune 1010].foldlM perform (new 1000) = some spans ∧
        spans.Faithful :=
  ⟨⟨by decide, by decide⟩, slashing_spans_track_contiguous_eras (by decide) _ (by decide)⟩

end SlashingSpans

end OffchainStorage.Staking
