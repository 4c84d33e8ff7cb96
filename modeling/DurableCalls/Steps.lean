/-
`Steps.lean` -- runs that leave room for others.

A run changes its state in one go. Where threads share a part of the state, others may come
between any two of its accesses. So a run is cut into steps, each a run of its own, and what comes
next depends on what a step has returned and on nothing else: the state in which the next step
finds itself may be another one by then.

Steps that follow each other without a pause are a run again (`Steps.run`), and so a run and its
steps can be compared.
-/
import DurableCalls.Failure

set_option autoImplicit false

namespace DurableCalls

/-- A value, or a step and what comes behind it. -/
inductive Steps (σ α : Type) : Type 1
  | done (a : α)
  | step {β : Type} (m : Run σ β) (rest : β → Steps σ α)

namespace Steps

variable {σ τ α β : Type}

protected def bind : Steps σ α → (α → Steps σ β) → Steps σ β
  | done a, f => f a
  | step m rest, f => step m fun b => (rest b).bind f

instance : Monad (Steps σ) where
  pure := done
  bind := Steps.bind

/-- A run between whose parts nobody comes. -/
def atom (m : Run σ α) : Steps σ α := step m done

instance : MonadLift (Run σ) (Steps σ) where
  monadLift := atom

/-- The steps without a pause. A halt ends them. -/
def run : Steps σ α → Run σ α
  | done a => pure a
  | step m rest => m >>= fun b => (rest b).run

/-- Each step is taken on another state. -/
def within (lift : {β : Type} → Run σ β → Run τ β) : Steps σ α → Steps τ α
  | done a => done a
  | step m rest => step (lift m) fun b => (rest b).within lift

/-- Gives back the failure of a run, if it fails. An abort is not a failure. -/
def attempted (m : Run σ β) : Run σ (Except Failure β) :=
  tryCatch (do return .ok (← m)) fun
    | .failed failure => return .error failure
    | .aborted abort => Run.abort abort

/-- The steps up to the first failure, which is given back. -/
def handled : Steps σ Unit → Steps σ (Option Failure)
  | done _ => done none
  | step m rest => step (attempted m) fun
    | .ok b => (rest b).handled
    | .error failure => done (some failure)

end Steps

end DurableCalls
