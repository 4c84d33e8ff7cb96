/-
`Pool.lean` -- workers that share a heap and a queue of tasks.

Worker `i` owns stack `i`. It pushes the root frame and runs task after task; a task
that fails is counted and its frames are unwound, a task that a fault hook stops
freezes the worker, and the tasks that it takes afterwards are dropped.

Tasks are handed to the workers in turn: a worker that ends early leaves the rest of
the queue to the next one. This is one of the schedules that a pool may follow, and
the only one for a single worker. A queue of capacity `c` takes at most `c` tasks
that no worker takes, so more than `c` tasks left over is a refused submission.

The stacks that workers have left are restored by threads that all run at the same time,
one for each stack. Their steps may come in any order (`Pool.restoreBy`).
-/
import DurableCalls.StepByStep

set_option autoImplicit false

namespace DurableCalls

/-- What a worker did. -/
structure WorkerReport where
  thread : UInt32
  completed : Nat := 0
  failed : Nat := 0
  /-- Whether a fault hook stopped the worker. -/
  crashed : Bool := false
deriving DecidableEq, Repr

namespace Worker

open Context

/-- Runs a task and counts it. A stopped worker drops it. -/
def step (report : WorkerReport) (task : Task) : Exec WorkerReport := do
  if report.crashed then return report
  match ← Program.handled (dispatch task) with
  | none => return { report with completed := report.completed + 1 }
  | some failure =>
    -- a stopped worker keeps its frames, as a crash would
    if failure.isCrash then return { report with crashed := true }
    discard unwind
    return { report with failed := report.failed + 1 }

/-- How a worker ended, and the tasks that it did not take. -/
structure Ending where
  outcome : Except Halt WorkerReport
  context : Context
  left : List Task

/-- Runs the tasks in turn. A task is taken before it runs. -/
def drain (ctx : Context) (report : WorkerReport) : List Task → Ending
  | [] => ⟨.ok report, ctx, []⟩
  | task :: left =>
    match step report task ctx with
    | (.ok report, ctx) => drain ctx report left
    | (.error halt, ctx) => ⟨.error halt, ctx, left⟩

/-- Pushes the root frame and runs the tasks. -/
def run (ctx : Context) (tasks : List Task) : Ending :=
  match pushRoot rootFunction ctx with
  | (.ok (), ctx) => drain ctx { thread := ctx.thread } tasks
  | (.error halt, ctx) => ⟨.error halt, ctx, tasks⟩

end Worker

/-! ## 1. Threads in turn -/

/-- What threads over a shared heap leave behind. -/
structure Threads (α : Type) where
  /-- How each thread ended, by thread id. -/
  outcomes : List (Except Halt α)
  heap : Region
  stackRegions : List Region
  notes : List Note

/-- The outcomes, unless a thread ended with a halt: then the first failure. A thread
that was aborted has failed with `aborted`. -/
def joinAll {α : Type} (aborted : Failure) : List (Except Halt α) → Except Failure (List α)
  | [] => .ok []
  | .ok a :: rest => do return a :: (← joinAll aborted rest)
  | .error (.failed f) :: _ => .error f
  | .error (.aborted _) :: _ => .error aborted

/-! ## 2. Queues -/

/-- The queues that tasks wait in are not made here. Whoever makes them can be asked for a
queue of so many places, and either there is one, or the thread that has asked ends. Nothing
is assumed of which capacities are granted. -/
class Channels where
  bounded : (capacity : Nat) → Except Abort Unit

/-- A queue of so many places is granted. -/
def Channels.Grants [Channels] (capacity : Nat) : Prop := Channels.bounded capacity = .ok ()

/-! ## 3. Pools -/

namespace Pool

/-- Runs the workers in turn, each with its share of the tasks. They share the fault
hook and its memory. -/
def runWorkers (host : Host) :
    (thread : Nat) → Option FaultHook → Region → List Task → List Region →
      Threads WorkerReport × List Task
  | _, _, heap, tasks, [] => (⟨[], heap, [], []⟩, tasks)
  | thread, hook, heap, tasks, region :: regions =>
    let ctx : Context := {
      host, hook
      thread := UInt32.ofNat thread
      stack := { calls := .empty, region }
      heap := some heap }
    let ending := Worker.run ctx tasks
    let (rest, left) := runWorkers host (thread + 1) ending.context.hook
      (ending.context.heap.getD heap) ending.left regions
    let threads : Threads WorkerReport := {
      outcomes := ending.outcome :: rest.outcomes
      heap := rest.heap
      stackRegions := ending.context.stack.region :: rest.stackRegions
      notes := ending.context.notes.reverse ++ rest.notes }
    (threads, left)

/-- What a pool leaves behind: its reports or how it stopped, the heap, the stacks and
the notes. -/
structure Result (α : Type) where
  result : Except Halt α
  heap : Region
  stackRegions : List Region
  notes : List Note := []

/-- Starts one worker per stack, submits the tasks, closes the queue and waits. -/
def run [Channels] (host : Host) (hook : Option FaultHook) (capacity : Nat) (tasks : List Task)
    (heap : Region) (stackRegions : List Region) : Result (List WorkerReport) :=
  if stackRegions.length ≠ host.threads.toNat then
    { result := .error (.failed (.setup (.stackCount stackRegions.length host.threads.toNat)))
      heap, stackRegions }
  else match Channels.bounded capacity with
    | .error abort => { result := .error (.aborted abort), heap, stackRegions }
    | .ok () =>
      let (threads, left) := runWorkers host 0 hook heap tasks stackRegions
      { result :=
          -- the submission is refused before anybody waits for the workers
          if capacity < left.length then .error (.failed (.task "all workers have exited"))
          else liftM (joinAll (.task "worker thread panicked") threads.outcomes)
        heap := threads.heap
        stackRegions := threads.stackRegions
        notes := threads.notes }

end Pool

/-! ## 4. Threads amid each other -/

/-- A thread over a shared heap: what is left of its steps, or how it has ended, and its context.
The heap is lent to the context for the time of a step. -/
structure Thread (α : Type) where
  left : Except Halt (Steps Context α)
  context : Context

namespace Thread

variable {α : Type}

/-- Takes the next step on a heap, if there is one. -/
def step (t : Thread α) (heap : Region) : Thread α × Region :=
  match t.left with
  | .ok (.step m rest) =>
    match m { t.context with heap := some heap } with
    | (.ok b, ctx) => (⟨.ok (rest b), ctx⟩, ctx.heap.getD heap)
    | (.error halt, ctx) => (⟨.error halt, ctx⟩, ctx.heap.getD heap)
  | _ => (t, heap)

/-- Takes all the steps that are left, without a pause. -/
def finish (t : Thread α) (heap : Region) : Except Halt α × Context :=
  let ctx := { t.context with heap := some heap }
  match t.left with
  | .ok steps => steps.run ctx
  | .error halt => (.error halt, ctx)

end Thread

/-- One heap and the threads on it, which are numbered from 0. -/
structure Crew (α : Type) where
  heap : Region
  threads : List (Thread α)

namespace Crew

variable {α : Type}

/-- The thread of this number takes a step. -/
def step (c : Crew α) (number : Nat) : Crew α :=
  match c.threads[number]? with
  | none => c
  | some thread =>
    let (thread, heap) := thread.step c.heap
    ⟨heap, c.threads.set number thread⟩

/-- The threads take their steps in the order of a schedule. -/
def run (c : Crew α) (schedule : List Nat) : Crew α := schedule.foldl step c

/-- Thread after thread takes all the steps that it has left. -/
def finish (heap : Region) : List (Thread α) → Threads α
  | [] => ⟨[], heap, [], []⟩
  | thread :: threads =>
    let (outcome, ctx) := thread.finish heap
    let rest := finish (ctx.heap.getD heap) threads
    { outcomes := outcome :: rest.outcomes
      heap := rest.heap
      stackRegions := ctx.stack.region :: rest.stackRegions
      notes := ctx.notes.reverse ++ rest.notes }

end Crew

/-! ## 5. Restoring several stacks -/

namespace Pool

/-- A context that restores a stack for a thread. -/
def restorer (host : Host) (heap : Region) (stack : Region × Nat) : Context where
  host
  thread := UInt32.ofNat stack.2
  stack := { calls := .empty, region := stack.1 }
  heap := some heap

/-- A thread for each stack, which has all of its restoration before it. -/
def restorers (host : Host) (heap : Region) (stackRegions : List Region) : List (Thread Nat) :=
  stackRegions.zipIdx.map fun stack => ⟨.ok Context.restoreSteps, restorer host heap stack⟩

/-- Restores every stack, each in a thread of its own, and counts the frames of each. The
threads share the heap and take their steps as the schedule says; where it ends, those that are
not done go on one after the other. So every order in which the threads may run to their ends is
the order of some schedule.

More stacks than threads are refused when the first one too many is reached; the threads before
it have been started by then, and run on. -/
def restoreBy (host : Host) (schedule : List Nat) (heap : Region) (stackRegions : List Region) :
    Result (List Nat) :=
  let started := stackRegions.take host.threads.toNat
  let refused := stackRegions.drop host.threads.toNat
  let crew := (Crew.mk heap (restorers host heap started)).run schedule
  let threads := Crew.finish crew.heap crew.threads
  { result :=
      if refused.isEmpty then liftM (joinAll (.task "restore thread panicked") threads.outcomes)
      else .error (.failed (.invalidThread host.threads host.threads))
    heap := threads.heap
    stackRegions := threads.stackRegions ++ refused
    notes := threads.notes }

/-- Restores every stack by the schedule in which the threads run one after the other. -/
def restoreAll (host : Host) (heap : Region) (stackRegions : List Region) : Result (List Nat) :=
  restoreBy host [] heap stackRegions

end Pool

end DurableCalls
