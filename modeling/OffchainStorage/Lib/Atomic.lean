import Mathlib

/-!
# Calls that fail without effect

A method on `&mut self` that returns a `Result` is a function from the state
to an `EStateM.Result`: on `Err` the state is whatever the method wrote before
it returned.  `ofExcept state outcome` is the result of a functional model,
`Except ε (α × σ)`, that keeps `state` on error; a stateful model equal to it
fails atomically (`failsAtomically_ofExcept`).  A run of such calls goes on
from `stateAfter`, whatever the call returned.
-/

namespace Atomic

variable {ε σ α : Type}

/-- The updated state on success, the state before the call on error. -/
def ofExcept (state : σ) : Except ε (α × σ) → EStateM.Result ε σ α
  | .error failure => .error failure state
  | .ok (value, updated) => .ok value updated

/-- The state at the exit, on success or on error. -/
def stateAfter : EStateM.Result ε σ α → σ
  | .ok _ after => after
  | .error _ after => after

/-- Every error leaves the state as it was before the call. -/
def FailsAtomically (state : σ) (result : EStateM.Result ε σ α) : Prop :=
  ∀ failure after, result = .error failure after → after = state

@[simp]
theorem ofExcept_error (state : σ) (failure : ε) :
    ofExcept state (.error failure : Except ε (α × σ)) = .error failure state := rfl

@[simp]
theorem ofExcept_ok (state updated : σ) (value : α) :
    ofExcept state (.ok (value, updated) : Except ε (α × σ)) = .ok value updated := rfl

theorem failsAtomically_ofExcept (state : σ) (outcome : Except ε (α × σ)) :
    FailsAtomically state (ofExcept state outcome) := by
  intro failure after fails
  cases outcome with
  | error => cases fails; rfl
  | ok => cases fails

end Atomic
