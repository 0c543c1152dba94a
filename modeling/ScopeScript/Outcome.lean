import ScopeScript.Diagnostic
import ScopeScript.Vault.Frame

/-!
# Computations with a state

A computation ends with a result, with a diagnostic, with a crash, or not at all; in each case
the state it has reached is kept. Results of computations are told apart by `Outcome`, and `Run`
sequences computations: what does not end with a result ends the whole.
-/

namespace ScopeScript

/-- How a computation ends. -/
inductive Outcome (α : Type)
  | done (value : α)
  | failed (diagnostic : Diagnostic)
  | crashed (crash : Crash)
  | endless
  deriving Inhabited

/-- A computation that reads and changes a state. -/
def Run (σ α : Type) := σ → Outcome α × σ

namespace Run

/-- End with a result and leave the state alone. -/
@[inline] def result (value : α) : Run σ α := fun state => (.done value, state)

/-- Go on with a result; everything else ends the computation. -/
@[inline] def andThen (first : Run σ α) (next : α → Run σ β) : Run σ β := fun state =>
  match first state with
  | (.done value, state) => next value state
  | (.failed diagnostic, state) => (.failed diagnostic, state)
  | (.crashed crash, state) => (.crashed crash, state)
  | (.endless, state) => (.endless, state)

instance : Monad (Run σ) where
  pure := result
  bind := andThen

/-- The state. -/
@[inline] def state : Run σ σ := fun state => (.done state, state)

/-- Change the state. -/
@[inline] def update (change : σ → σ) : Run σ Unit := fun state => (.done (), change state)

/-- End with a diagnostic. -/
@[inline] def fail (diagnostic : Diagnostic) : Run σ α := fun state =>
  (.failed diagnostic, state)

/-- End with a crash. -/
@[inline] def crash (crash : Crash) : Run σ α := fun state => (.crashed crash, state)

/-- Never end. -/
@[inline] def endless : Run σ α := fun state => (.endless, state)

/-- End with a result or a crash. -/
@[inline] def orCrash : Except Crash α → Run σ α
  | .ok value => result value
  | .error reason => crash reason

/-- End with a result or a diagnostic. -/
@[inline] def orFail : Except Diagnostic α → Run σ α
  | .ok value => result value
  | .error diagnostic => fail diagnostic

end Run

end ScopeScript
