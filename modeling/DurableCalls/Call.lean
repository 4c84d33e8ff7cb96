/-
`Call.lean` -- calling a registered function inside a durable frame.

A call goes from *not pushed* to *running* to *popped*. Name, mode and fields are
checked before anything is written. A failure of the callee, or of a fault hook,
leaves the callee's frame on the stack: that is what a crash there would leave, and
all that restoration needs.

Every call under way has a frame of its own on a cache line of its own. So a stack
region bounds how deep calls nest, and `depthBound` is enough for any of them.
-/
import DurableCalls.Context
import DurableCalls.Swap

set_option autoImplicit false

namespace DurableCalls

/-- Runs a call that a program makes. -/
abbrev Caller := CallRequest → Exec Unit

/-! ## 1. Built-in functions -/

namespace Builtin

open Context

/-- The first byte of an answer of one byte. -/
def answerByte (bytes : List UInt8) : UInt8 := bytes.headD unanswered

/-- A yes or no as an answer. -/
def verdict (yes : Bool) : List UInt8 := [if yes then 1 else 0]

def swapOf (ctx : Context) (a : SwapArgs) : Swap where
  register := a.register.toNat
  matrix := ⟨a.matrix.toNat, ctx.host.threads⟩
  expected := a.expected
  new := a.new
  thread := ctx.thread

def runSwap (args : List UInt8) : Exec Unit := do
  let a ← SwapArgs.decode args
  let yes ← onHeap (swapOf (← get) a).attempt
  writeAnswer (verdict yes)

/-- Finishes a swap. An answer that the caller's slot already holds is final, so a
caller seeds its slot with a byte that is neither yes nor no. -/
def runRecoverSwap (args : List UInt8) : Exec Unit := do
  let a ← SwapArgs.decode args
  if answerByte (← readCurrentAnswer 1) ≤ 1 then return ()
  let yes ← onHeap (swapOf (← get) a).recover
  writeAnswer (verdict yes)

/-- Makes the result of a task durable in its heap byte. -/
def publish (t : SwapTask) (result : UInt8) : Exec Unit :=
  onHeap (Region.persist t.answer.toNat [result])

/-- Runs the swap of a task as a nested call, and publishes what it answered. When
recovering, an answer that the swap gave before the crash is published as it is. -/
def runTask (call : Caller) (recover : Bool) (args : List UInt8) : Exec Unit := do
  let t ← SwapTask.decode args
  if recover then
    let result := answerByte (← readAnswer 1)
    -- the swap answered before the crash, and its frame is gone
    if result ≤ 1 then
      publish t result
      return ()
  call {
    name := swapFunction
    args := t.swap.encode
    options := { callerSeed := some [unanswered], recover } }
  publish t (answerByte (← readAnswer 1))

def run (call : Caller) (args : List UInt8) : Builtin → Exec Unit
  | swap => runSwap args
  | recoverSwap => runRecoverSwap args
  | task => runTask call false args
  | recoverTask => runTask call true args

end Builtin

/-! ## 2. Programs -/

namespace Program

open Context

def runAction (call : Caller) (args : List UInt8) : Action → Exec Unit
  | .note text => note (.text text)
  | .noteArgs => note (.args args)
  | .noteNames => do note (.names (← get).stack.calls.names)
  | .answer bytes => writeAnswer bytes
  | .answerArgs => writeAnswer args
  | .noteAnswer len => do note (.answer (← readAnswer len))
  | .noteCurrent len => do note (.current (← readCurrentAnswer len))
  | .passAnswer len => do writeAnswer (← readAnswer len)
  | .call name own options => call { name, args := own.getD (args.drop 1), options }
  | .fail message => Run.fail (.task message)
  | .raise message => Run.abort (.raised message)
  | .noteHeap offset len => do
    let bytes ← onHeap do (← get).copyOut offset len
    note (.heap bytes)
  | .writeHeap offset bytes => onHeap (Region.write offset bytes)

/-- Runs a body and gives its failure, if it fails. An abort is not a failure. -/
def handled (body : Exec Unit) : Exec (Option Failure) :=
  tryCatch (do body; return none) fun
    | .failed failure => return some failure
    | .aborted abort => Run.abort abort

def run (call : Caller) (args : List UInt8) : Program → Exec Unit
  | done => return ()
  | act action rest => do
    runAction call args action
    rest.run call args
  | attempt body rest => do
    let failure ← handled (body.run call args)
    note (.caught failure)
    rest.run call args
  | ifArgs yes no rest => do
    if args.isEmpty then no.run call args else yes.run call args
    rest.run call args
  | ifAnswered yes no rest => do
    if Builtin.answerByte (← readCurrentAnswer 1) ≠ unanswered then yes.run call args
    else no.run call args
    rest.run call args

end Program

def EntryPoint.run (call : Caller) (args : List UInt8) : EntryPoint → Exec Unit
  | .builtin entry => entry.run call args
  | .program body => body.run call args

/-! ## 3. Calls -/

namespace Context

/-- Writes the seed of a call into the slot of its caller. Without a seed the slot is
cleared, so that it does not keep the answer of an earlier callee. -/
def seedCaller (seed : Option (List UInt8)) : Exec Unit := do
  let filler := seed.getD Slot.cleared.toList
  checkAnswer filler.length
  match (← get).stack.calls.top? with
  | some caller => writeSlot caller.slotAt filler
  | none => if seed.isSome then Run.fail .noCallerFrame

/-- Checks a call, seeds the slots and pushes its frame. -/
def enter (request : CallRequest) : Exec EntryPoint := do
  let { name, args, options } := request
  let host := (← get).host
  if options.recover ∧ host.mode ≠ .recovery then Run.fail .illegalRecoveryCall
  let entry ← Registry.entry host.registry name options.recover
  let frame ← Frame.make name args
  -- the slot of the caller is seeded before the push can fail
  seedCaller options.callerSeed
  discard <| onStack (DurableStack.push frame options.calleeSeed)
  return entry

/-- A call, with at most so many calls nested in it. -/
def callWithin : (depth : Nat) → Caller
  | 0, _ => Run.abort .callDepth
  | depth + 1, request => do
    let entry ← enter request
    consult .afterFramePush
    -- a halt from here on leaves the frame where it is
    entry.run (callWithin depth) request.args
    consult .beforeFrameRemove
    popFrame

/-- More calls than can have a frame on a stack region at the same time. -/
def depthBound (ctx : Context) : Nat := ctx.stack.region.size / lineSize + 2

/-- Calls a function: pushes a frame for it, runs it, and pops the frame. -/
def call (request : CallRequest) : Exec Unit := do
  callWithin (← get).depthBound request

/-! ## 4. Tasks -/

/-- The register at an offset of the heap. -/
def readTask (register : UInt64) : Exec Register :=
  onHeap do Register.load (← get) register.toNat

/-- Runs a task: a swap in a frame of its own, a read without one. -/
def dispatch : Task → Exec Unit
  | .swap t =>
    call {
      name := taskFunction
      args := t.encode
      options := { calleeSeed := some [unanswered] } }
  | .read register => discard (readTask register)

end Context

end DurableCalls
