/-
`StepByStep.lean` -- restoration, with room for the restorations of other stacks.

Every stack is restored by a thread of its own, and all of them work on one heap at the same time.
Below are the operations of a restoration once more, cut into steps. The register and the cells of
the matrix are words that are accessed atomically, and each access of one is a step, and so is the
byte of an answer. All else that a restoration does concerns the stack and the memory of its own
thread, where a pause makes no difference. What a program reads or writes in the heap at once is
one step as well: a program that shares plain bytes with others has to see to that itself.

Each operation is cut where it is defined, and without pauses it is what it was before
(`Context.run_restoreSteps`).
-/
import DurableCalls.Restoration
import DurableCalls.Steps

set_option autoImplicit false

namespace DurableCalls

/-! ## 1. Swaps -/

namespace Swap

variable (s : Swap)

def attemptSteps : Steps Region Bool := do
  checkThread s.thread s.matrix.threads
  match ← Steps.atom (do s.observe (← get)) with
  | none => return false
  | some current =>
    s.announce current
    s.exchange current

/-- Looks at cell after cell. Others may note something between two of them. -/
def announcedSteps : (col left : Nat) → Steps Region Bool
  | _, 0 => return false
  | col, left + 1 => do
    let value ← Steps.atom (do s.matrix.load (← get) s.thread (UInt32.ofNat col))
    if value = s.new then return true
    announcedSteps (col + 1) left

def recoverSteps : Steps Region Bool := do
  checkThread s.thread s.matrix.threads
  let current ← Steps.atom (do Register.load (← get) s.register)
  if current = s.installed then return true
  if ← s.announcedSteps 0 s.matrix.threads.toNat then return true
  s.attemptSteps

end Swap

/-! ## 2. Built-in functions -/

/-- Runs a call that a program makes. -/
abbrev SteppingCaller := CallRequest → Steps Context Unit

/-- Steps on the heap. A context without a heap is told apart first. -/
def Context.onHeapSteps {α : Type} (t : Steps Region α) : Steps Context α := do
  onHeap (pure ())
  t.within onHeap

namespace Builtin

open Context

def runSwapSteps (args : List UInt8) : Steps Context Unit := do
  let a ← SwapArgs.decode args
  let ctx ← get
  let yes ← onHeapSteps (swapOf ctx a).attemptSteps
  writeAnswer (verdict yes)

def runRecoverSwapSteps (args : List UInt8) : Steps Context Unit := do
  let a ← SwapArgs.decode args
  let answered ← readCurrentAnswer 1
  if answerByte answered ≤ 1 then return ()
  let ctx ← get
  let yes ← onHeapSteps (swapOf ctx a).recoverSteps
  writeAnswer (verdict yes)

def runTaskSteps (call : SteppingCaller) (recover : Bool) (args : List UInt8) :
    Steps Context Unit := do
  let t ← SwapTask.decode args
  if recover then
    let answered ← readAnswer 1
    if answerByte answered ≤ 1 then
      publish t (answerByte answered)
      return ()
  call {
    name := swapFunction
    args := t.swap.encode
    options := { callerSeed := some [unanswered], recover } }
  let answered ← readAnswer 1
  publish t (answerByte answered)

def runSteps (call : SteppingCaller) (args : List UInt8) : Builtin → Steps Context Unit
  | swap => runSwapSteps args
  | recoverSwap => runRecoverSwapSteps args
  | task => runTaskSteps call false args
  | recoverTask => runTaskSteps call true args

end Builtin

/-! ## 3. Programs and calls -/

namespace Program

open Context

/-- A call is cut, and any other action is a step. -/
def actionSteps (call : SteppingCaller) (args : List UInt8) : Action → Steps Context Unit
  | .call name own options => call { name, args := own.getD (args.drop 1), options }
  | action => runAction (fun _ => return ()) args action

def runSteps (call : SteppingCaller) (args : List UInt8) : Program → Steps Context Unit
  | done => return ()
  | act action rest => do
    actionSteps call args action
    rest.runSteps call args
  | attempt body rest => do
    let failure ← (body.runSteps call args).handled
    note (.caught failure)
    rest.runSteps call args
  | ifArgs yes no rest => do
    if args.isEmpty then no.runSteps call args else yes.runSteps call args
    rest.runSteps call args
  | ifAnswered yes no rest => do
    let answered ← readCurrentAnswer 1
    if Builtin.answerByte answered ≠ unanswered then yes.runSteps call args
    else no.runSteps call args
    rest.runSteps call args

end Program

def EntryPoint.runSteps (call : SteppingCaller) (args : List UInt8) :
    EntryPoint → Steps Context Unit
  | .builtin entry => entry.runSteps call args
  | .program body => body.runSteps call args

namespace Context

def callSteps : (depth : Nat) → SteppingCaller
  | 0, _ => Steps.atom (Run.abort .callDepth)
  | depth + 1, request => do
    let entry ← enter request
    consult .afterFramePush
    entry.runSteps (callSteps depth) request.args
    consult .beforeFrameRemove
    popFrame

/-! ## 4. Restoration -/

def recoverTopSteps (top : Placed) : Steps Context Unit := do
  let ctx ← get
  let entry ← Registry.entry ctx.host.registry top.frame.name true
  entry.runSteps (callSteps ctx.depthBound) top.frame.args
  popFrame

def recoverFramesSteps : (rounds recovered : Nat) → Steps Context Nat
  | 0, _ => Steps.atom (Run.abort .addOverflow)
  | rounds + 1, recovered => do
    let ctx ← get
    match ctx.stack.calls.frames with
    | top :: _ :: _ =>
      recoverTopSteps top
      let recovered ← addWord recovered 1
      recoverFramesSteps rounds recovered
    | _ => return recovered

/-- Replays the suspended calls of a stack, and counts them. -/
def restoreSteps : Steps Context Nat := do
  let ctx ← get
  if ctx.host.mode ≠ .recovery then Steps.atom (Run.fail .illegalRecoveryCall)
  reload
  recoverFramesSteps wordLimit 0

end Context

end DurableCalls
