import Mathlib

/-!
# Pre- and postconditions for methods that fail and keep what they wrote

A method that writes to its receiver and returns early on an error (`?`) is a
computation in `OptionT (StateM σ)`: when it fails, the state holds what it
wrote before the error.  `Triple pre x post fail` says that from every state
satisfying `pre`, `x` either succeeds with an answer and a state satisfying
`post`, or fails in a state satisfying `fail`.  With `fail` an invariant the
triple keeps the invariant through failures; with a stronger `fail` it also
says when the call may fail at all.

The rules follow the shape of a `do` block: `Triple.pure`, `Triple.failure`,
`Triple.modify`, `Triple.bind` for a `let ←`, `Triple.ite` for a branch, and
`Triple.mono` to weaken the conditions.
-/

universe u

namespace FallibleState

variable {σ α β : Type u}

/-- What a finished computation satisfies: `post` of its answer and its final
state, or `fail` of the state it failed in. -/
def Outcome (post : α → σ → Prop) (fail : σ → Prop) : Option α × σ → Prop
  | (some answer, next) => post answer next
  | (none, next) => fail next

/-- From every state satisfying `pre`, the outcome of `x` is described by
`post` and `fail`. -/
def Triple (pre : σ → Prop) (x : OptionT (StateM σ) α) (post : α → σ → Prop) (fail : σ → Prop) : Prop :=
  ∀ state, pre state → Outcome post fail (x.run state)

theorem run_bind_some {x : OptionT (StateM σ) α} {f : α → OptionT (StateM σ) β} {state next : σ} {answer : α}
    (succeeds : x.run state = (some answer, next)) : (x >>= f).run state = (f answer).run next := by
  rw [OptionT.run_bind, Option.elimM]
  change (x.run state >>= fun result => (result.1.elim (pure none) fun answer => (f answer).run) result.2) = _
  rw [succeeds]
  rfl

theorem run_bind_none {x : OptionT (StateM σ) α} {f : α → OptionT (StateM σ) β} {state next : σ}
    (fails : x.run state = (none, next)) : (x >>= f).run state = (none, next) := by
  rw [OptionT.run_bind, Option.elimM]
  change (x.run state >>= fun result => (result.1.elim (pure none) fun answer => (f answer).run) result.2) = _
  rw [fails]
  rfl

theorem run_get {state : σ} : (get : OptionT (StateM σ) σ).run state = (some state, state) :=
  rfl

variable {pre : σ → Prop} {post : α → σ → Prop} {fail : σ → Prop}

theorem Outcome.state {keep : σ → Prop} {result : Option α × σ} (outcome : Outcome post fail result)
    (fromPost : ∀ answer state, post answer state → keep state) (fromFail : ∀ state, fail state → keep state) :
    keep result.2 := by
  obtain ⟨_ | answer, next⟩ := result
  · exact fromFail next outcome
  · exact fromPost answer next outcome

theorem Outcome.answer {result : Option α × σ} {answer : α} (outcome : Outcome post fail result)
    (succeeded : result.1 = some answer) : post answer result.2 := by
  obtain ⟨_ | found, next⟩ := result
  · cases succeeded
  · cases succeeded
    exact outcome

theorem Outcome.isSome {result : Option α × σ} (outcome : Outcome post fail result) (never : ∀ state, ¬fail state) :
    result.1.isSome := by
  obtain ⟨_ | answer, next⟩ := result
  · exact absurd outcome (never next)
  · rfl

theorem Triple.pure {answer : α} (holds : ∀ state, pre state → post answer state) :
    Triple pre (Pure.pure answer) post fail :=
  fun state before => holds state before

theorem Triple.failure (holds : ∀ state, pre state → fail state) :
    Triple pre (failure : OptionT (StateM σ) α) post fail :=
  fun state before => holds state before

theorem Triple.modify {post : PUnit → σ → Prop} {change : σ → σ}
    (holds : ∀ state, pre state → post PUnit.unit (change state)) :
    Triple pre (modify change : OptionT (StateM σ) PUnit) post fail :=
  fun state before => holds state before

theorem Triple.bind {x : OptionT (StateM σ) α} {f : α → OptionT (StateM σ) β} {mid : α → σ → Prop}
    {post : β → σ → Prop} (first : Triple pre x mid fail) (rest : ∀ answer, Triple (mid answer) (f answer) post fail) :
    Triple pre (x >>= f) post fail := by
  intro state before
  have outcome := first state before
  rcases ran : x.run state with ⟨_ | answer, next⟩
  · rw [ran] at outcome
    rw [run_bind_none ran]
    exact outcome
  · rw [ran] at outcome
    rw [run_bind_some ran]
    exact rest answer next outcome

theorem Triple.ite {condition : Prop} [Decidable condition] {x y : OptionT (StateM σ) α}
    (pos : condition → Triple pre x post fail) (neg : ¬condition → Triple pre y post fail) :
    Triple pre (if condition then x else y) post fail := by
  by_cases holds : condition
  · rw [if_pos holds]
    exact pos holds
  · rw [if_neg holds]
    exact neg holds

theorem Triple.mono {x : OptionT (StateM σ) α} {pre' : σ → Prop} {post' : α → σ → Prop} {fail' : σ → Prop}
    (triple : Triple pre x post fail) (stronger : ∀ state, pre' state → pre state)
    (weakerPost : ∀ answer state, post answer state → post' answer state)
    (weakerFail : ∀ state, fail state → fail' state) : Triple pre' x post' fail' := by
  intro state before
  have outcome := triple state (stronger state before)
  rcases ran : x.run state with ⟨_ | answer, next⟩
  · rw [ran] at outcome
    exact weakerFail next outcome
  · rw [ran] at outcome
    exact weakerPost answer next outcome

/-- A fact known beforehand can be taken into the precondition. -/
theorem Triple.of_fact {x : OptionT (StateM σ) α} {fact : Prop}
    (triple : fact → Triple pre x post fail) : Triple (fun state => fact ∧ pre state) x post fail :=
  fun state before => triple before.1 state before.2

end FallibleState
