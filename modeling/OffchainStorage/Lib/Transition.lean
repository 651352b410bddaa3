import Mathlib

/-!
# Runs of a deterministic machine

A runtime module, a client-side bookkeeping structure or a data structure
with mutating methods is a deterministic machine: each call maps the state to
a new state and an answer.  This module gives the two views of such a machine
that invariant proofs need:

* `Reachable step init`, the states some sequence of calls reaches, and
  `ReachableUnder allowed step init`, those reached by calls that each keep
  a contract with the state they are made in;
* `run step start calls`, the final state together with the history of
  every call and its answer, in order;
* `perform step start calls`, the final state of a machine whose calls
  answer nothing the invariant needs;
* `foldlM` in `Option`, a loop whose steps may panic, with a ghost
  component carried beside its state (`foldlM_ghost`);
* `exists_of_bind_eq_ok`, the step of a `do` block in `Except` that succeeds.

The invariant rules `Reachable.invariant`, `ReachableUnder.invariant`, `run_invariant`,
`perform_invariant`, `foldlM_invariant`, `foldlM_some_invariant` and the two rules over
ranges of indices, `foldlM_range_invariant` and `foldlM_range_reverse_invariant`, and the simulation rule
`perform_simulation`, are the only inductions over runs; a property of a whole run is proved by showing it
of the start and preserved by one call.
-/

universe u v w

namespace Transition

variable {state : Type u} {action : Type v} {output : Type w}

/-! ## Reachable states -/

/-- The states reached from `init` by performing actions one after the
other. -/
inductive Reachable (step : action → state → state) (init : state) :
    state → Prop
  | init : Reachable step init init
  | step {current : state} (performed : action) :
      Reachable step init current →
      Reachable step init (step performed current)

/-- An invariant holds of every reachable state when it holds initially and
every action preserves it. -/
theorem Reachable.invariant {step : action → state → state} {init : state}
    {invariant : state → Prop} (initially : invariant init)
    (preserved : ∀ performed current,
      invariant current → invariant (step performed current))
    {current : state} (reachable : Reachable step init current) :
    invariant current := by
  induction reachable with
  | init =>
      exact initially
  | step performed _ inductionHypothesis =>
      exact preserved performed _ inductionHypothesis

/-- A state reachable from a reachable state is reachable. -/
theorem Reachable.trans {step : action → state → state}
    {init middle final : state}
    (first : Reachable step init middle)
    (second : Reachable step middle final) :
    Reachable step init final := by
  induction second with
  | init =>
      exact first
  | step performed _ inductionHypothesis =>
      exact Reachable.step performed inductionHypothesis

/-- The states reached from `init` by actions each of which is `allowed` in
the state it is performed from: the runs of a component whose callers keep a
contract. -/
inductive ReachableUnder (allowed : state → action → Prop) (step : action → state → state)
    (init : state) : state → Prop
  | init : ReachableUnder allowed step init init
  | step {current : state} (performed : action) (permitted : allowed current performed) :
      ReachableUnder allowed step init current →
      ReachableUnder allowed step init (step performed current)

/-- An invariant holds of every state reached under the contract when it
holds initially and every allowed action preserves it. -/
theorem ReachableUnder.invariant {allowed : state → action → Prop} {step : action → state → state}
    {init : state} {invariant : state → Prop} (initially : invariant init)
    (preserved : ∀ performed current,
      invariant current → allowed current performed → invariant (step performed current))
    {current : state} (reachable : ReachableUnder allowed step init current) :
    invariant current := by
  induction reachable with
  | init =>
      exact initially
  | step performed permitted _ inductionHypothesis =>
      exact preserved performed _ inductionHypothesis permitted

/-! ## Runs with their history -/

/-- Perform one action and append it, with its answer, to the history. -/
def record (step : action → state → state × output)
    (progress : state × List (action × output)) (performed : action) :
    state × List (action × output) :=
  ((step performed progress.1).1,
    progress.2 ++ [(performed, (step performed progress.1).2)])

/-- Perform the actions in order from `start`: the final state and the
history of actions with their answers. -/
def run (step : action → state → state × output) (start : state)
    (actions : List action) : state × List (action × output) :=
  actions.foldl (record step) (start, [])

@[simp]
theorem run_nil (step : action → state → state × output) (start : state) :
    run step start [] = (start, []) := rfl

@[simp]
theorem run_append_singleton (step : action → state → state × output)
    (start : state) (actions : List action) (performed : action) :
    run step start (actions ++ [performed]) =
      ((step performed (run step start actions).1).1,
        (run step start actions).2 ++
          [(performed, (step performed (run step start actions).1).2)]) := by
  simp [run, List.foldl_append, record]

/-- The invariant rule for runs: a relation between the state and the
history that holds at the start and is preserved by one recorded action holds
after every run. -/
theorem run_invariant (step : action → state → state × output)
    {start : state} (invariant : state → List (action × output) → Prop)
    (initially : invariant start [])
    (preserved : ∀ current history performed,
      invariant current history →
      invariant (step performed current).1
        (history ++ [(performed, (step performed current).2)]))
    (actions : List action) :
    invariant (run step start actions).1 (run step start actions).2 := by
  induction actions using List.reverseRecOn with
  | nil =>
      exact initially
  | append_singleton actions performed inductionHypothesis =>
      rw [run_append_singleton]
      exact preserved _ _ performed inductionHypothesis

/-- The final state of every run is reachable with the state part of the
step, and every reachable state is the final state of some run. -/
theorem reachable_iff_exists_run (step : action → state → state × output)
    {start current : state} :
    Reachable (fun performed current => (step performed current).1) start
        current ↔
      ∃ actions, (run step start actions).1 = current := by
  constructor
  · intro reachable
    induction reachable with
    | init =>
        exact ⟨[], rfl⟩
    | step performed _ inductionHypothesis =>
        obtain ⟨actions, final⟩ := inductionHypothesis
        exact ⟨actions ++ [performed], by simp [final]⟩
  · rintro ⟨actions, rfl⟩
    induction actions using List.reverseRecOn with
    | nil =>
        exact Reachable.init
    | append_singleton actions performed inductionHypothesis =>
        rw [run_append_singleton]
        exact Reachable.step performed inductionHypothesis

/-! ## Runs without answers -/

/-- Perform the actions in order from `start`. -/
def perform (step : action → state → state) (start : state) (actions : List action) : state :=
  actions.foldl (fun current performed => step performed current) start

@[simp]
theorem perform_nil (step : action → state → state) (start : state) :
    perform step start [] = start := rfl

@[simp]
theorem perform_append_singleton (step : action → state → state) (start : state)
    (actions : List action) (performed : action) :
    perform step start (actions ++ [performed]) = step performed (perform step start actions) := by
  simp [perform, List.foldl_append]

theorem perform_cons (step : action → state → state) (start : state) (performed : action)
    (actions : List action) :
    perform step start (performed :: actions) = perform step (step performed start) actions :=
  rfl

theorem perform_append (step : action → state → state) (start : state)
    (first second : List action) :
    perform step start (first ++ second) = perform step (perform step start first) second := by
  simp [perform, List.foldl_append]

/-- The invariant rule for performed actions: a relation between the actions
performed so far and the state that holds at the start and is preserved by
one more action holds after every sequence of actions. -/
theorem perform_invariant (step : action → state → state) {start : state}
    (invariant : List action → state → Prop) (initially : invariant [] start)
    (preserved : ∀ done current performed,
      invariant done current → invariant (done ++ [performed]) (step performed current))
    (actions : List action) :
    invariant actions (perform step start actions) := by
  induction actions using List.reverseRecOn with
  | nil =>
      exact initially
  | append_singleton actions performed inductionHypothesis =>
      rw [perform_append_singleton]
      exact preserved _ _ performed inductionHypothesis

/-- The simulation rule: when one action of the machine is, seen through
`abstraction`, one action of another machine, a whole run of the first is a
run of the second. -/
theorem perform_simulation {abstractState : Type u} {abstractAction : Type v}
    (step : action → state → state) (abstractStep : abstractAction → abstractState → abstractState)
    (abstraction : state → abstractState) (translate : action → abstractAction)
    (simulates : ∀ performed current,
      abstraction (step performed current) = abstractStep (translate performed) (abstraction current)) :
    ∀ (start : state) (actions : List action),
      abstraction (perform step start actions) =
        perform abstractStep (abstraction start) (actions.map translate)
  | _, [] => rfl
  | start, performed :: rest => by
      rw [List.map_cons]
      simp only [perform, List.foldl_cons]
      rw [← simulates performed start]
      exact perform_simulation step abstractStep abstraction translate simulates _ rest

/-! ## Loops that may panic -/

/-- The invariant rule for a loop whose steps may panic: an invariant that
holds at the start and is kept by every step that does not panic holds of
the result of every loop that does not panic. -/
theorem foldlM_invariant {element : Type v} {step : state → element → Option state}
    (invariant : state → Prop) :
    ∀ {elements : List element},
      (∀ current performed next, performed ∈ elements → invariant current →
        step current performed = some next → invariant next) →
      ∀ {start final : state}, invariant start → elements.foldlM step start = some final →
        invariant final
  | [], _, _, _, initially, ran => by
    cases ran
    exact initially
  | performed :: rest, preserved, start, _, initially, ran => by
    rw [List.foldlM_cons] at ran
    obtain ⟨next, stepped, ranRest⟩ := Option.bind_eq_some_iff.mp ran
    have kept := preserved start performed next List.mem_cons_self initially stepped
    exact foldlM_invariant invariant
      (fun current other next member => preserved current other next (List.mem_cons_of_mem _ member))
      kept ranRest

/-- The progress rule for a loop whose steps may panic: when every step from
a state of the invariant succeeds and keeps it, the loop does not panic and
ends in the invariant. -/
theorem foldlM_some_invariant {element : Type v} {step : state → element → Option state}
    (invariant : state → Prop)
    (progress : ∀ current performed, invariant current →
      ∃ next, step current performed = some next ∧ invariant next) :
    ∀ (elements : List element) {start : state}, invariant start →
      ∃ final, elements.foldlM step start = some final ∧ invariant final
  | [], start, initially => ⟨start, rfl, initially⟩
  | performed :: rest, start, initially => by
    obtain ⟨next, stepped, kept⟩ := progress start performed initially
    rw [List.foldlM_cons, stepped]
    exact foldlM_some_invariant invariant progress rest kept

/-- The progress rule for loops over allowed elements only: each allowed step
from a state of the invariant succeeds and keeps it. -/
theorem foldlM_some_invariant_of_allowed {element : Type v} {step : state → element → Option state}
    (invariant : state → Prop) (allowed : element → Prop)
    (progress : ∀ current performed, allowed performed → invariant current →
      ∃ next, step current performed = some next ∧ invariant next) :
    ∀ (elements : List element) {start : state}, (∀ performed ∈ elements, allowed performed) → invariant start →
      ∃ final, elements.foldlM step start = some final ∧ invariant final
  | [], start, _, initially => ⟨start, rfl, initially⟩
  | performed :: rest, start, allowedAll, initially => by
    obtain ⟨next, stepped, kept⟩ := progress start performed (allowedAll performed List.mem_cons_self) initially
    rw [List.foldlM_cons, stepped]
    exact foldlM_some_invariant_of_allowed invariant allowed progress rest
      (fun other member => allowedAll other (List.mem_cons_of_mem _ member)) kept

/-- The progress rule for a loop over the indices `0, 1, …, count - 1`, the
`for index in 0..count` of the code, with an invariant that counts the rounds
done. -/
theorem foldlM_range_invariant {step : state → Nat → Option state} (invariant : Nat → state → Prop)
    {count : Nat}
    (progress : ∀ index current, index < count → invariant index current →
      ∃ next, step current index = some next ∧ invariant (index + 1) next)
    {start : state} (initially : invariant 0 start) :
    ∃ final, (List.range count).foldlM step start = some final ∧ invariant count final := by
  induction count with
  | zero => exact ⟨start, rfl, initially⟩
  | succ count ih =>
    obtain ⟨middle, ran, kept⟩ :=
      ih fun index current below => progress index current (Nat.lt_succ_of_lt below)
    obtain ⟨final, stepped, keptLast⟩ := progress count middle (Nat.lt_succ_self count) kept
    refine ⟨final, ?_, keptLast⟩
    simp [List.range_succ, List.foldlM_append, ran, stepped]

/-- The same rule for the loop downwards, `for index in (0..count).rev()`: the
invariant counts the indices not yet visited. -/
theorem foldlM_range_reverse_invariant {step : state → Nat → Option state}
    (invariant : Nat → state → Prop) {count : Nat}
    (progress : ∀ index current, index < count → invariant (index + 1) current →
      ∃ next, step current index = some next ∧ invariant index next)
    {start : state} (initially : invariant count start) :
    ∃ final, (List.range count).reverse.foldlM step start = some final ∧ invariant 0 final := by
  induction count generalizing start with
  | zero => exact ⟨start, rfl, initially⟩
  | succ count ih =>
    obtain ⟨next, stepped, kept⟩ := progress count start (Nat.lt_succ_self count) initially
    obtain ⟨final, ran, keptLast⟩ :=
      ih (fun index current below => progress index current (Nat.lt_succ_of_lt below)) kept
    refine ⟨final, ?_, keptLast⟩
    rw [List.range_succ, List.reverse_append, List.reverse_singleton, List.singleton_append,
      List.foldlM_cons, stepped]
    exact ran

/-- A ghost component carried beside the state of a loop whose steps may
panic, updated from the states before and after each step, leaves the loop's
states as they are. -/
theorem foldlM_ghost {element : Type v} {ghost : Type w} {step : state → element → Option state}
    (update : state → ghost → state → ghost) :
    ∀ (elements : List element) (start : state) (carried : ghost),
      (elements.foldlM (fun tracked performed =>
          (step tracked.1 performed).map fun next => (next, update tracked.1 tracked.2 next))
        (start, carried)).map Prod.fst = elements.foldlM step start
  | [], _, _ => rfl
  | performed :: rest, start, carried => by
    rw [List.foldlM_cons, List.foldlM_cons]
    cases stepped : step start performed with
    | none => rfl
    | some next => exact foldlM_ghost update rest next (update start carried next)

/-! ## Steps that may fail with an error -/

section Failing

variable {error : Type u} {first second : Type v}

@[simp]
theorem ok_bind (value : first) (next : first → Except error second) : (Except.ok value >>= next) = next value :=
  rfl

/-- A `do` block in `Except` that succeeds ran its first step to success. -/
theorem exists_of_bind_eq_ok {computation : Except error first} {next : first → Except error second}
    {result : second} (ok : (computation >>= next) = .ok result) :
    ∃ value, computation = .ok value ∧ next value = .ok result := by
  cases computation with
  | error failure => cases ok
  | ok value => exact ⟨value, rfl, ok⟩

theorem exists_of_map_eq_ok {computation : Except error first} {f : first → second} {result : second}
    (ok : computation.map f = .ok result) : ∃ value, computation = .ok value ∧ f value = result := by
  cases computation with
  | error failure => cases ok
  | ok value =>
    simp only [Except.map, Except.ok.injEq] at ok
    exact ⟨value, rfl, ok⟩

end Failing

end Transition
