/-
`Isolation.lean` -- tasks that do not see the failures of the tasks before them.

A worker without a hook takes task after task. One that fails stops at any depth, and leaves its
frames and what was written in the slots; the worker goes back to the root frame, and takes the
next one. What it does then cannot be told from what a new worker does, on a new stack of the
same size, with the same heap (`Context.Working.outcome_eq`): both do to the heap what the effect
of the task does.

So a pool of one worker reports as if its tasks had been dispatched one by one, each of them on
a stack of its own (`Worker.drain_eq`), and every task is counted once.
-/
import DurableCalls.Proofs.Call.TaskEffect
import DurableCalls.Proofs.Pool.Leftover

set_option autoImplicit false

namespace DurableCalls

open CallStack Region DurableStack Workload Context

variable {host : Host} {thread : UInt32} {room heap : Region} {ctx : Context}
  {report : WorkerReport} {task : Task}

/-! ## Tasks alone -/

/-- How a run ends, and the heap that it leaves. -/
def Context.outcome (m : Exec Unit) (ctx : Context) : Except Halt Unit × Option Region :=
  ((m ctx).1, (m ctx).2.heap)

/-- The report when one more task has ended so. -/
def WorkerReport.count (report : WorkerReport) : Except Halt Unit → WorkerReport
  | .ok () => { report with completed := report.completed + 1 }
  | .error _ => { report with failed := report.failed + 1 }

namespace WorkerReport

theorem count_total (report : WorkerReport) (result : Except Halt Unit) :
    (report.count result).completed + (report.count result).failed
      = report.completed + report.failed + 1 := by
  cases result with
  | ok => exact Nat.add_right_comm _ 1 _
  | error halt => rfl

@[simp] theorem count_crashed (report : WorkerReport) (result : Except Halt Unit) :
    (report.count result).crashed = report.crashed := by
  cases result <;> rfl

end WorkerReport

namespace Worker

/-- The only worker of a pool before it begins. No frame is on its stack yet, whatever the
region holds. -/
def newcomer (host : Host) (stack heap : Region) : Context :=
  ⟨host, 0, ⟨.empty, stack⟩, some heap, none, []⟩

/-- A task that is dispatched from a new context, on the root frame. -/
def alone (host : Host) (stack heap : Region) (task : Task) : Except Halt Unit × Option Region :=
  outcome (do pushRoot rootFunction; dispatch task) (newcomer host stack heap)

/-- The report on tasks that are dispatched one after the other, each of them alone, and the heap
that they leave. -/
def oneByOne (host : Host) (stack : Region) :
    (report : WorkerReport) → (heap : Region) → List Task → WorkerReport × Region
  | report, heap, [] => (report, heap)
  | report, heap, task :: tasks =>
    let (result, next) := alone host stack heap task
    oneByOne host stack (report.count result) (next.getD heap) tasks

theorem newcomer_working (host : Host) (stack heap : Region) :
    Working host 0 none stack [] heap (newcomer host stack heap) :=
  ⟨⟨rfl, rfl, rfl, rfl, trivial⟩, rfl, rfl, rfl⟩

end Worker

/-- **A task on the root frame has its outcome from the heap alone.** What the tasks before it have
left in the stack region behind the root frame, or in the memory of the worker, plays no part in it.
-/
theorem Context.Working.outcome_eq (hreserves : host.Reserves)
    (h : Working host thread none room [rootFrame] heap ctx) (task : Task) :
    outcome (Context.dispatch task) ctx = ((task.effect host thread room.size heap).1,
      some (task.effect host thread room.size heap).2) := by
  unfold outcome
  rcases h.dispatch_performs hreserves task with ⟨_, after, _, next, hrun, hwork, hafter⟩
    | ⟨halt, after, next, hrun, hwork, above, hafter⟩
  · rw [hrun, hwork, ← hafter.stands.heap_eq]
  · rw [hrun, hwork, ← hafter.stands.heap_eq]

namespace Worker

theorem alone_eq {stack : Region} (hreserves : host.Reserves)
    (hroom : rootFrame.frame.size ≤ stack.size) (heap : Region) (task : Task) :
    alone host stack heap task = ((task.effect host 0 stack.size heap).1,
      some (task.effect host 0 stack.size heap).2) := by
  obtain ⟨root, hpush, hroot⟩ := (newcomer_working host stack heap).pushRoot hroom
  rw [← hroot.outcome_eq hreserves task]
  unfold alone outcome
  rw [Run.bind_of_ok hpush]

theorem oneByOne_cons {stack : Region} (hreserves : host.Reserves)
    (hroom : rootFrame.frame.size ≤ stack.size) (report : WorkerReport) (heap : Region)
    (task : Task) (tasks : List Task) :
    oneByOne host stack report heap (task :: tasks)
      = oneByOne host stack (report.count (task.effect host 0 stack.size heap).1)
          (task.effect host 0 stack.size heap).2 tasks := by
  rw [oneByOne, alone_eq hreserves hroom]
  rfl

/-- Every task is counted once, as completed or as failed, and none of them is a crash. The
induction is on the tasks, over the report and the heap that they lead to. -/
theorem oneByOne_counts (stack : Region) (tasks : List Task) :
    ∀ (report : WorkerReport) (heap : Region),
      (oneByOne host stack report heap tasks).1.completed
          + (oneByOne host stack report heap tasks).1.failed
        = report.completed + report.failed + tasks.length ∧
      (oneByOne host stack report heap tasks).1.crashed = report.crashed := by
  induction tasks with
  | nil =>
    intro report heap
    exact ⟨rfl, rfl⟩
  | cons task tasks ih =>
    intro report heap
    obtain ⟨htotal, hcrashed⟩ := ih (report.count (alone host stack heap task).1)
      ((alone host stack heap task).2.getD heap)
    rw [WorkerReport.count_total] at htotal
    rw [WorkerReport.count_crashed] at hcrashed
    unfold oneByOne
    rw [htotal, hcrashed, List.length_cons]
    exact ⟨by omega, rfl⟩

/-! ## Tasks in turn -/

/-- **One task.** It is counted as its effect ends, and the worker is on the root frame again. A
task that fails has left its frames on the stack, and they are popped before the next one is
dispatched. -/
theorem step_eq (hreserves : host.Reserves) (hone : host.threads = 1)
    (hreport : report.crashed = false) (h : Working host thread none room [rootFrame] heap ctx)
    (task : Task) :
    ∃ after, step report task ctx
        = (.ok (report.count (task.effect host thread room.size heap).1), after) ∧
      Working host thread none room [rootFrame] (task.effect host thread room.size heap).2
        after := by
  rcases h.dispatch_performs hreserves task with ⟨⟨⟩, after, ⟨⟩, next, hrun, hwork, hafter⟩
    | ⟨halt, after, next, hrun, hwork, above, hafter⟩
  · rw [hwork]
    exact ⟨after, step_of_ok hreport hrun, hafter⟩
  · -- the frames that the task has left are popped
    obtain ⟨f, rfl, hcalm⟩ := task.effect_calm hone thread room.size heap halt (by rw [hwork])
    obtain ⟨n, unwound, hunwind, hroot⟩ := hafter.unwind
    rw [hwork]
    exact ⟨unwound, step_of_failure hreport hrun hcalm hunwind, hroot⟩

/-- **A queue of tasks**, by induction. Between two of them the worker stands on the root frame,
and so it does at the end. -/
theorem drain_eq {stack : Region} (hreserves : host.Reserves) (hone : host.threads = 1)
    (hroom : rootFrame.frame.size ≤ stack.size) (tasks : List Task) :
    ∀ {report : WorkerReport} {heap : Region} {ctx : Context}, report.crashed = false →
      Working host 0 none stack [rootFrame] heap ctx →
      ∃ after, drain ctx report tasks
          = ⟨.ok (oneByOne host stack report heap tasks).1, after, []⟩ ∧
        Working host 0 none stack [rootFrame] (oneByOne host stack report heap tasks).2 after := by
  induction tasks with
  | nil =>
    intro report heap ctx _ h
    exact ⟨ctx, rfl, h⟩
  | cons task tasks ih =>
    intro report heap ctx hreport h
    obtain ⟨mid, hstep, hmid⟩ := step_eq hreserves hone hreport h task
    have hcount : (report.count (task.effect host 0 stack.size heap).1).crashed = false := by
      simp [hreport]
    obtain ⟨after, hdrain, hafter⟩ := ih hcount hmid
    rw [oneByOne_cons hreserves hroom, drain, hstep]
    exact ⟨after, hdrain, hafter⟩

/-- A worker that has run some tasks goes on with the others. -/
theorem drain_append {report' : WorkerReport} {mid : Context} (later : List Task)
    (before : List Task) :
    ∀ {report : WorkerReport} {ctx : Context}, drain ctx report before = ⟨.ok report', mid, []⟩ →
      drain ctx report (before ++ later) = drain mid report' later := by
  induction before with
  | nil =>
    intro report ctx h
    cases h
    rfl
  | cons task before ih =>
    intro report ctx h
    rw [drain] at h
    rw [List.cons_append, drain]
    rcases hstep : step report task ctx with ⟨halt | report'', next⟩
    · rw [hstep] at h
      cases h
    · rw [hstep] at h
      exact ih h

end Worker

/-- The frames of a worker without a plan are those that its region is scanned for. -/
theorem Context.Working.scan_root (h : Working host thread none room [rootFrame] heap ctx) :
    ctx.stack.calls = ⟨[rootFrame]⟩ ∧ scan ctx.stack.region = .ok ⟨[rootFrame]⟩ := by
  have hcalls := h.stands.calls_eq
  have hne : ctx.stack.calls.frames ≠ [] := by
    rw [hcalls]
    exact List.cons_ne_nil _ _
  have hscan := (h.stands.mirrored.faithful hne).scan_eq
  rw [hcalls] at hscan
  exact ⟨hcalls, hscan⟩

/-! ## The pool -/

namespace Pool

/-- **The tasks of a worker are isolated from each other.** Whatever the tasks before have done
and wherever they have failed, a task is dispatched on the root frame alone, in memory and in the
region, and it has the outcome that it has from a new context on any stack of the same size, with
the heap of that moment. The report is the one on the tasks one by one, each of them is counted
once, and the root frame is what the region holds at the end. -/
theorem run_isolates [Channels] {stack : Region} {capacity : Nat} (hreserves : host.Reserves)
    (hone : host.threads = 1) (hcapacity : Channels.Grants capacity)
    (hroom : rootFrame.frame.size ≤ stack.size) (heap : Region) (tasks : List Task) :
    (∀ before task later, tasks = before ++ task :: later → ∃ report ctx current,
      Worker.run (Worker.newcomer host stack heap) before = ⟨.ok report, ctx, []⟩ ∧
      Worker.run (Worker.newcomer host stack heap) tasks
        = Worker.drain ctx report (task :: later) ∧
      ctx.stack.calls = ⟨[rootFrame]⟩ ∧ scan ctx.stack.region = .ok ⟨[rootFrame]⟩ ∧
      report.crashed = false ∧ ctx.heap = some current ∧
      ∀ fresh : Region, fresh.size = stack.size →
        outcome (dispatch task) ctx = Worker.alone host fresh current task) ∧
    ∃ report next left notes,
      run host none capacity tasks heap [stack]
        = { result := .ok [report], heap := next, stackRegions := [left], notes } ∧
      Worker.oneByOne host stack { thread := 0 } heap tasks = (report, next) ∧
      report.crashed = false ∧ report.completed + report.failed = tasks.length ∧
      scan left = .ok ⟨[rootFrame]⟩ := by
  obtain ⟨root, hpush, hroot⟩ := (Worker.newcomer_working host stack heap).pushRoot hroom
  -- the root frame comes first, and there is nothing else that all the tasks share
  have hnew : ({ thread := 0 } : WorkerReport).crashed = false := rfl
  have hworker : ∀ queue, Worker.run (Worker.newcomer host stack heap) queue
      = Worker.drain root { thread := 0 } queue := by
    intro queue
    rw [← hroot.stands.thread_eq, Worker.run, hpush]
  constructor
  · rintro before task later rfl
    obtain ⟨ctx, hdrain, hctx⟩ := Worker.drain_eq hreserves hone hroom before hnew hroot
    obtain ⟨hcalls, hscan⟩ := hctx.scan_root
    obtain ⟨-, hcrashed⟩ := Worker.oneByOne_counts stack before { thread := 0 } heap
    refine ⟨_, ctx, _, (hworker before).trans hdrain, ?_, hcalls, hscan, hcrashed,
      hctx.stands.heap_eq, ?_⟩
    · rw [hworker, Worker.drain_append _ _ hdrain]
    · intro fresh hsize
      have hroom' : rootFrame.frame.size ≤ fresh.size := by omega
      rw [hctx.outcome_eq hreserves, Worker.alone_eq hreserves hroom', hsize]
  · obtain ⟨last, hdrain, hlast⟩ := Worker.drain_eq hreserves hone hroom tasks hnew hroot
    obtain ⟨htotal, hcrashed⟩ := Worker.oneByOne_counts stack tasks { thread := 0 } heap
    have hrun := run_of_worker hone hcapacity hlast.stands.heap_eq
      ((hworker tasks).trans hdrain)
    refine ⟨_, _, _, _, hrun, rfl, hcrashed, ?_, hlast.scan_root.2⟩
    rw [htotal]
    exact Nat.zero_add _

/-- A stack with room for the frame of a task, and none for the frame of its swap. -/
def narrowStack : Region where
  path := .ofText "stack"
  cells := Array.replicate 120 0
  size_lt := by rw [Array.size_replicate]; decide

theorem narrowStack_size : narrowStack.size = 120 := Array.size_replicate

theorem narrowStack_rootFrame : rootFrame.frame.size ≤ narrowStack.size := by
  rw [narrowStack_size]
  decide

/-- On it a swap task fails with its own frame pushed, and to read is as on any other. -/
theorem narrowStack_oneByOne :
    Worker.oneByOne (soleHost .execution) narrowStack { thread := 0 } startHeap
        [.swap soleTask, .read 0]
      = ({ thread := 0, completed := 1, failed := 1 }, startHeap) := by
  have hreserves : (soleHost .execution).Reserves := reserves_of_addBuiltins
  have hswap : Task.effect (soleHost .execution) 0 120 (.swap soleTask) startHeap
      = (.error (.failed (.outOfBounds 128 40 120)), startHeap) := rfl
  have hshows : Site.Shows ⟨0, ⟨64, 1⟩⟩ startHeap ⟨Register.noOwner, 5⟩ fun _ _ => 0 :=
    startHeap_shows (by decide)
  have hload : Register.load startHeap 0 = .ok ⟨Register.noOwner, 5⟩ := hshows.load_register
  have hfound : (do Register.load (← get) (0 : UInt64).toNat : Run Region Register) startHeap
      = (.ok ⟨Register.noOwner, 5⟩, startHeap) := by
    rw [Run.bind_of_ok (Run.get_apply startHeap), Run.lift_apply, UInt64.toNat_zero, hload]
    rfl
  have hread : Task.effect (soleHost .execution) 0 120 (.read 0) startHeap
      = (.ok (), startHeap) := Run.discard_of_ok hfound
  rw [Worker.oneByOne_cons hreserves narrowStack_rootFrame, narrowStack_size, hswap,
    Worker.oneByOne_cons hreserves narrowStack_rootFrame, narrowStack_size, hread]
  rfl

/-- A task is left in the middle, and the next one does not see it: it starts on the root frame
alone, and ends as it would in a context of its own over the heap of that time. -/
theorem narrowStack_isolates :
    (∃ report ctx current,
      Worker.run (Worker.newcomer (soleHost .execution) narrowStack startHeap) [.swap soleTask]
        = ⟨.ok report, ctx, []⟩ ∧
      ctx.stack.calls = ⟨[rootFrame]⟩ ∧ scan ctx.stack.region = .ok ⟨[rootFrame]⟩ ∧
      outcome (dispatch (.read 0)) ctx
        = Worker.alone (soleHost .execution) narrowStack current (.read 0)) ∧
    ∃ left notes,
      @run roomyChannels (soleHost .execution) none 1 [.swap soleTask, .read 0] startHeap
        [narrowStack]
      = { result := .ok [{ thread := 0, completed := 1, failed := 1 }], heap := startHeap
          stackRegions := [left], notes } ∧
      scan left = .ok ⟨[rootFrame]⟩ := by
  let _ : Channels := roomyChannels
  have hcapacity : Channels.Grants 1 := by rfl
  obtain ⟨htasks, report, next, left, notes, hrun, hreport, -, -, hscan⟩ :=
    run_isolates reserves_of_addBuiltins rfl hcapacity narrowStack_rootFrame startHeap
      [.swap soleTask, .read 0]
  obtain ⟨report', ctx, current, hbefore, -, hcalls, hroot, -, -, halone⟩ :=
    htasks [.swap soleTask] (.read 0) [] rfl
  cases hreport.symm.trans narrowStack_oneByOne
  exact ⟨⟨report', ctx, current, hbefore, hcalls, hroot, halone narrowStack rfl⟩, left, notes,
    hrun, hscan⟩

end Pool

end DurableCalls
