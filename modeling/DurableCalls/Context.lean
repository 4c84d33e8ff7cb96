/-
`Context.lean` -- the state of one thread: its stack, its heap, its fault hook.

Everything a registered function does, it does to a context (`Exec`). The context
holds the stack alone; the heap is lent to it for the time of an operation, and
another thread may be lent the same heap afterwards.

A fault hook is consulted at the fault points of a call and may stop the run there.
What is durable then is what a crash at that point would leave. A hook may keep a
memory, so that it can let the first few consultations pass.
-/
import DurableCalls.DurableStack
import DurableCalls.Program
import DurableCalls.Register

set_option autoImplicit false

namespace DurableCalls

/-! ## 1. Fault hooks -/

/-- Decides, consultation by consultation, whether a run is to stop. It is told the
point and the name of the running function. -/
structure FaultHook where
  memory : Nat := 0
  consult : (memory : Nat) → FaultPoint → String → Bool × Nat

namespace FaultHook

def whenever (cond : FaultPoint → String → Bool) : FaultHook where
  consult memory point function := (cond point function, memory)

/-- Stops wherever a condition holds, but lets the first `skip` such places pass. -/
def after (skip : Nat) (cond : FaultPoint → String → Bool) : FaultHook where
  memory := skip
  consult left point function :=
    if cond point function then (left = 0, left - 1) else (false, left)

end FaultHook

/-! ## 2. Contexts -/

/-- What a program notes while it runs. -/
inductive Note
  | text (words : String)
  | args (bytes : List UInt8)
  | names (names : List String)
  | answer (bytes : List UInt8)
  | current (bytes : List UInt8)
  | heap (bytes : List UInt8)
  /-- How a body ended whose failure is handled. -/
  | caught (failure : Option Failure)
deriving DecidableEq, Repr

/-- The state of one thread. -/
structure Context where
  host : Host
  thread : UInt32
  stack : DurableStack
  heap : Option Region := none
  hook : Option FaultHook := none
  notes : List Note := []

abbrev Exec := Run Context

namespace Context

/-! ### Construction -/

/-- A context over a stack region. It takes the region to be empty. -/
def make (host : Host) (thread : UInt32) (region : Region) : Except Failure Context := do
  checkThread thread host.threads
  return { host, thread, stack := { calls := .empty, region } }

/-- A context over a stack region, with the calls that the region stands for. -/
def resume (host : Host) (thread : UInt32) (region : Region) : Except Halt Context := do
  let ctx ← make host thread region
  return { ctx with stack.calls := ← scan region }

/-! ### Parts -/

/-- The name of the running function, or nothing when there is none. -/
def currentFunction (ctx : Context) : String := (ctx.stack.calls.top?.map (·.frame.name)).getD ""

def onStack {α : Type} (m : Run DurableStack α) : Exec α :=
  m.zoom fun ⟨host, thread, stack, heap, hook, notes⟩ =>
    (stack, fun stack => ⟨host, thread, stack, heap, hook, notes⟩)

/-- A run on a region that may not be there. -/
def ifAttached {α : Type} (m : Run Region α) : Run (Option Region) α
  | none => (.error (.failed .heapNotAttached), none)
  | some heap =>
    let (result, heap) := m heap
    (result, some heap)

def onHeap {α : Type} (m : Run Region α) : Exec α :=
  (ifAttached m).zoom fun ⟨host, thread, stack, heap, hook, notes⟩ =>
    (heap, fun heap => ⟨host, thread, stack, heap, hook, notes⟩)

def note (n : Note) : Exec Unit := modify fun ctx => { ctx with notes := n :: ctx.notes }

def consult (point : FaultPoint) : Exec Unit := do
  let ctx ← get
  match ctx.hook with
  | none => return ()
  | some hook =>
    let (stops, memory) := hook.consult hook.memory point ctx.currentFunction
    -- the memory is kept even if the run stops
    set { ctx with hook := some { hook with memory } }
    if stops then Run.fail (.simulatedCrash point ctx.currentFunction)

/-! ### Frames -/

/-- Pushes the frame of the root function on an empty stack. -/
def pushRoot (name : String) : Exec Unit := do
  let ctx ← get
  if !ctx.stack.calls.isEmpty then Run.fail (.setup (.rootPresent ctx.thread.toNat))
  let frame ← Frame.make name []
  discard <| onStack (DurableStack.push frame none)

def popFrame : Exec Unit := discard <| onStack DurableStack.pop

/-- Takes the calls from the stack region again. -/
def reload : Exec Unit := onStack DurableStack.reload

/-- Pops so many frames, and counts them. -/
def popFrames : (count removed : Nat) → Exec Nat
  | 0, removed => return removed
  | count + 1, removed => do
    popFrame
    popFrames count (removed + 1)

/-- Pops every frame above the root, and counts them. -/
def unwind : Exec Nat := do popFrames ((← get).stack.calls.depth - 1) 0

/-! ### Answers

A function answers into the slot of its caller. Once it has returned, that slot is
the top one, and the caller reads it there. -/

/-- Writes durably to the stack region, at a slot. -/
def writeSlot (slot : Nat) (bytes : List UInt8) : Exec Unit :=
  onStack (DurableStack.persist slot bytes)

/-- Reads from the stack region, at a slot. -/
def readSlot (slot len : Nat) : Exec (List UInt8) := do
  (← get).stack.region.read slot len

/-- Answers the caller with 1 to 8 bytes. -/
def writeAnswer (bytes : List UInt8) : Exec Unit := do
  checkAnswer bytes.length
  match (← get).stack.calls.answerSlot? with
  | none => Run.fail .noCallerFrame
  | some slot =>
    writeSlot slot bytes
    consult .afterAnswerWrite

/-- So many bytes of the answer that the last callee gave. -/
def readAnswer (len : Nat) : Exec (List UInt8) := do
  checkAnswer len
  match (← get).stack.calls.top? with
  | none => Run.fail .noCallerFrame
  | some top => readSlot top.slotAt len

/-- So many bytes of the slot that `writeAnswer` writes to. -/
def readCurrentAnswer (len : Nat) : Exec (List UInt8) := do
  checkAnswer len
  match (← get).stack.calls.answerSlot? with
  | none => Run.fail .noCallerFrame
  | some slot => readSlot slot len

end Context

end DurableCalls
