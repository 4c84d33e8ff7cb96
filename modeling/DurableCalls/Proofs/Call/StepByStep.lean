/-
`StepByStep.lean` -- steps without a pause are the operation.

The operations of a restoration are defined twice, in one go and cut into steps. The two are the
same as long as nobody comes between the steps (`Context.run_restoreSteps`): the steps of what is
done in a row are those of the parts in a row (`Steps.run_bind`), and so this goes through each
operation as it is defined, by the recursion of the ones that recur.

Two of them are more than that. Steps on the heap have asked for a heap before the first of them,
because the last may be behind and then nobody would have asked (`run_onHeapSteps`). And a body
whose failure is handled stops at the step that fails, with what the steps before it have done
(`run_handled`).
-/
import DurableCalls.StepByStep
import DurableCalls.Proofs.Call.Guards
import DurableCalls.Proofs.Context.Ends
import DurableCalls.Proofs.Swap.Effect

set_option autoImplicit false

namespace DurableCalls

namespace Steps

variable {σ α β : Type}

@[simp] theorem run_pure (a : α) : (pure a : Steps σ α).run = pure a := rfl

@[simp] theorem run_bind (t : Steps σ α) (f : α → Steps σ β) :
    (t >>= f).run = t.run >>= fun a => (f a).run := by
  induction t with
  | done a => exact (pure_bind a fun a => (f a).run).symm
  | step m rest ih =>
    show (m >>= fun b => (rest b >>= f).run) = _
    simp only [ih, run, bind_assoc]

@[simp] theorem run_atom (m : Run σ α) : (atom m).run = m := bind_pure m

@[simp] theorem run_lift (m : Run σ α) : (liftM m : Steps σ α).run = m := run_atom m

@[simp] theorem run_liftFailure (x : Except Failure α) :
    (liftM x : Steps σ α).run = liftM x := run_atom (liftM x)

@[simp] theorem run_liftHalt (x : Except Halt α) : (liftM x : Steps σ α).run = liftM x :=
  run_atom (liftM x)

@[simp] theorem run_get : (get : Steps σ σ).run = get := run_atom get

/-- A condition is decided before the steps. -/
theorem run_ite {p : Prop} [Decidable p] (t t' : Steps σ α) :
    (if p then t else t').run = if p then t.run else t'.run := apply_ite run p t t'

end Steps

namespace Swap

variable (s : Swap)

theorem run_attemptSteps : s.attemptSteps.run = s.attempt := by
  simp only [attemptSteps, attempt, Steps.run_bind, Steps.run_liftFailure, Steps.run_atom,
    bind_assoc]
  refine bind_congr fun _ => bind_congr fun heap => bind_congr fun observed => ?_
  cases observed with
  | none => rfl
  | some current => simp

/-- The cells are looked at in the heap as it is: nobody comes between, so a search that takes one
step for each cell finds what a search in one heap finds. -/
theorem run_announcedSteps (heap : Region) (left : Nat) : ∀ col,
    (s.announcedSteps col left).run heap = (s.announcedFrom heap col left, heap) := by
  induction left with
  | zero => exact fun _ => rfl
  | succ left ih =>
    intro col
    simp only [announcedSteps, Steps.run_bind, Steps.run_atom, bind_assoc]
    rw [Run.bind_of_ok (Run.get_apply heap), Run.bind_apply, Run.liftHalt_apply]
    cases hload : s.matrix.load heap s.thread (UInt32.ofNat col) with
    | error halt => rw [announcedFrom_of_error hload]
    | ok value =>
      by_cases hnew : value = s.new
      · simp only [announcedFrom_of_eq hload hnew, if_pos hnew]
        rfl
      · simp only [announcedFrom_of_ne hload hnew, if_neg hnew]
        exact ih (col + 1)

theorem run_recoverSteps : s.recoverSteps.run = s.recover := by
  simp only [recoverSteps, recover, announced, Steps.run_bind, Steps.run_liftFailure,
    Steps.run_atom, bind_assoc]
  refine bind_congr fun _ => funext fun heap => ?_
  rw [Run.bind_of_ok (Run.get_apply heap), Run.bind_of_ok (Run.get_apply heap), Run.bind_apply,
    Run.bind_apply, Run.lift_apply]
  cases Register.load heap s.register with
  | error failure => rfl
  | ok current =>
    simp only [Run.mapError_ok, Steps.run_ite, Steps.run_bind, run_attemptSteps, Steps.run_pure]
    by_cases hinstalled : current = s.installed
    · simp only [if_pos hinstalled]
    · simp only [if_neg hinstalled]
      rw [Run.bind_apply, Run.bind_apply, run_announcedSteps, Run.liftHalt_apply]

end Swap

namespace Context

/-- Steps on a heap that is there. -/
theorem run_within {α : Type} (t : Steps Region α) : ∀ {ctx : Context} {heap : Region},
    ctx.heap = some heap →
      (t.within onHeap).run ctx
        = ((t.run heap).1, { ctx with heap := some (t.run heap).2 }) := by
  induction t with
  | done a =>
    intro ctx heap hheap
    cases ctx
    cases hheap
    rfl
  | step m rest ih =>
    intro ctx heap hheap
    show (onHeap m >>= fun b => ((rest b).within onHeap).run) ctx
      = (((m >>= fun b => (rest b).run) heap).1,
        { ctx with heap := some ((m >>= fun b => (rest b).run) heap).2 })
    rw [Run.bind_apply, Run.bind_apply, onHeap_apply m hheap]
    rcases m heap with ⟨halt | b, next⟩
    · rfl
    · exact ih b rfl

theorem onHeap_of_none {α : Type} {ctx : Context} (m : Run Region α) (h : ctx.heap = none) :
    onHeap m ctx = (.error (.failed .heapNotAttached), ctx) := by
  cases ctx
  cases h
  rfl

theorem run_onHeapSteps {α : Type} (t : Steps Region α) : (onHeapSteps t).run = onHeap t.run := by
  funext ctx
  cases hheap : ctx.heap with
  | none =>
    -- the heap is asked for before the first step
    rw [onHeapSteps, Steps.run_bind, Steps.run_lift, Run.bind_of_error (onHeap_of_none _ hheap),
      onHeap_of_none _ hheap]
  | some heap =>
    have hasked : onHeap (pure () : Run Region Unit) ctx
        = (.ok (), { ctx with heap := some heap }) := onHeap_apply _ hheap
    rw [onHeapSteps, Steps.run_bind, Steps.run_lift, Run.bind_of_ok hasked, run_within t rfl,
      onHeap_apply _ hheap]

theorem run_handled (t : Steps Context Unit) : t.handled.run = Program.handled t.run := by
  induction t with
  | done a => rfl
  | step m rest ih =>
    funext ctx
    simp only [Steps.handled, Steps.run, Steps.attempted]
    rw [Run.bind_apply, Run.tryCatch_apply]
    rcases hm : m ctx with ⟨(failure | abort) | b, after⟩
    · rw [Program.handled_of_failed (Run.bind_of_error hm), Run.bind_of_error hm]
      rfl
    · rw [Program.handled_of_aborted (Run.bind_of_error hm), Run.bind_of_error hm]
      rfl
    · rw [Run.bind_of_ok hm]
      refine (congrFun (ih b) after).trans ?_
      rw [Program.handled, Program.handled, Run.tryCatch_apply, Run.tryCatch_apply, bind_assoc,
        Run.bind_of_ok hm]

end Context

namespace Builtin

open Context

theorem run_runSwapSteps (args : List UInt8) : (runSwapSteps args).run = runSwap args := by
  simp only [runSwapSteps, runSwap, Steps.run_bind, Steps.run_liftFailure, Steps.run_get,
    Steps.run_lift, run_onHeapSteps, Swap.run_attemptSteps]

theorem run_runRecoverSwapSteps (args : List UInt8) :
    (runRecoverSwapSteps args).run = runRecoverSwap args := by
  simp only [runRecoverSwapSteps, runRecoverSwap, Steps.run_bind, Steps.run_liftFailure,
    Steps.run_get, Steps.run_lift, Steps.run_ite, Steps.run_pure, run_onHeapSteps,
    Swap.run_recoverSteps]

theorem run_runTaskSteps {call : Caller} {steps : SteppingCaller}
    (hcall : ∀ request, (steps request).run = call request) (recover : Bool) (args : List UInt8) :
    (runTaskSteps steps recover args).run = runTask call recover args := by
  simp only [runTaskSteps, runTask, Steps.run_bind, Steps.run_liftFailure, Steps.run_lift,
    Steps.run_ite, Steps.run_pure, hcall]

theorem run_runSteps {call : Caller} {steps : SteppingCaller}
    (hcall : ∀ request, (steps request).run = call request) (args : List UInt8) (entry : Builtin) :
    (entry.runSteps steps args).run = entry.run call args := by
  cases entry with
  | swap => exact run_runSwapSteps args
  | recoverSwap => exact run_runRecoverSwapSteps args
  | task => exact run_runTaskSteps hcall false args
  | recoverTask => exact run_runTaskSteps hcall true args

end Builtin

namespace Program

theorem run_actionSteps {call : Caller} {steps : SteppingCaller}
    (hcall : ∀ request, (steps request).run = call request) (args : List UInt8) (action : Action) :
    (actionSteps steps args action).run = runAction call args action := by
  cases action with
  | call name own options => exact hcall _
  | _ => exact Steps.run_lift _

theorem run_runSteps {call : Caller} {steps : SteppingCaller}
    (hcall : ∀ request, (steps request).run = call request) (args : List UInt8)
    (program : Program) : (program.runSteps steps args).run = program.run call args := by
  induction program with
  | done => rfl
  | act action rest ih => simp only [runSteps, run, Steps.run_bind, run_actionSteps hcall, ih]
  | attempt body rest ihBody ihRest =>
    simp only [runSteps, run, Steps.run_bind, Context.run_handled, Steps.run_lift, ihBody, ihRest]
  | ifArgs yes no rest ihYes ihNo ihRest =>
    simp only [runSteps, run, Steps.run_bind, Steps.run_ite, ihYes, ihNo, ihRest]
  | ifAnswered yes no rest ihYes ihNo ihRest =>
    simp only [runSteps, run, Steps.run_bind, Steps.run_lift, Steps.run_ite, ihYes, ihNo, ihRest]

end Program

theorem EntryPoint.run_runSteps {call : Caller} {steps : SteppingCaller}
    (hcall : ∀ request, (steps request).run = call request) (args : List UInt8)
    (entry : EntryPoint) : (entry.runSteps steps args).run = entry.run call args := by
  cases entry with
  | builtin entry => exact Builtin.run_runSteps hcall args entry
  | program body => exact Program.run_runSteps hcall args body

namespace Context

theorem run_callSteps (depth : Nat) : ∀ request,
    (callSteps depth request).run = callWithin depth request := by
  induction depth with
  | zero => exact fun _ => Steps.run_atom _
  | succ depth ih =>
    intro request
    simp only [callSteps, callWithin, Steps.run_bind, Steps.run_lift, EntryPoint.run_runSteps ih]

theorem run_recoverTopSteps (top : Placed) : (recoverTopSteps top).run = recoverTop top := by
  simp only [recoverTopSteps, recoverTop, Steps.run_bind, Steps.run_get, Steps.run_liftFailure,
    Steps.run_lift, EntryPoint.run_runSteps (run_callSteps _)]

theorem run_recoverFramesSteps (rounds : Nat) : ∀ recovered,
    (recoverFramesSteps rounds recovered).run = recoverFrames rounds recovered := by
  induction rounds with
  | zero => exact fun _ => Steps.run_atom _
  | succ rounds ih =>
    intro recovered
    simp only [recoverFramesSteps, recoverFrames, Steps.run_bind, Steps.run_get]
    refine bind_congr fun ctx => ?_
    rcases ctx.stack.calls.frames with _ | ⟨top, _ | ⟨below, rest⟩⟩
    · rfl
    · rfl
    · simp only [Steps.run_bind, run_recoverTopSteps, Steps.run_liftHalt, ih]

/-- **The steps of a restoration are the restoration.** Every operation was cut into its accesses to
the heap; taken one after the other without a pause they are the operation again. What is shown of
one is shown of the other where nobody comes between. -/
theorem run_restoreSteps : restoreSteps.run = restore := by
  simp only [restoreSteps, restore, Steps.run_bind, Steps.run_get, Steps.run_ite, Steps.run_atom,
    Steps.run_lift, run_recoverFramesSteps]

end Context

end DurableCalls
