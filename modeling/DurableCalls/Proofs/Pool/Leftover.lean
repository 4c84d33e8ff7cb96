/-
`Leftover.lean` -- what a single worker with a plan leaves of its stack and its heap.

The worker runs task after task, until the plan stops one of them. A task that fails is
unwound, so the worker stands on the root frame again, and nothing of it is published
(`Worker.step_leaves`). So at the end there is the root frame alone, or there are the frames
of the one task that was stopped; its answer is not published then, unless the plan is for
the moment in which the frame of the task is to go (`Pool.Leftover`). Either way, nothing was
written but the register, the matrix and the answers of tasks.
-/
import DurableCalls.Proofs.Call.Left
import DurableCalls.Proofs.Call.StepByStep
import DurableCalls.Proofs.Pool.CrashTransparency

set_option autoImplicit false

namespace DurableCalls

open CallStack Region DurableStack Workload Context

variable {host : Host} {thread : UInt32} {plan : Option CrashPlan} {room before heap : Region}
  {site : Site} {frames above : List Placed} {ctx : Context} {report : WorkerReport}
  {task : Task} {tasks : List Task} {written : List Nat}

/-- The byte that a task answers to. -/
def Task.answers : Task → List Nat
  | .swap t => [t.answer.toNat]
  | .read _ => []

/-- A task at a register and a matrix, in a heap of so many bytes. All tasks of a run are at the
same site, with answers in different places. -/
inductive Task.At (site : Site) (threads thread : UInt32) (size : Nat) : Task → Prop
  | swap {t : SwapTask} (site_eq : t.site threads = site) (suits : t.Suits threads thread size) :
      Task.At site threads thread size (.swap t)
  | read {register : UInt64} (register_eq : register.toNat = site.register)
      (fits : site.FitsIn size) : Task.At site threads thread size (.read register)

/-! ## Unwinding -/

theorem SwapTask.Left.frames_eq {t : SwapTask} {threads : UInt32} {f : Failure}
    (h : t.Left threads plan before f frames heap) : ∃ above, frames = above ++ [rootFrame] := by
  have hsuspends : ∀ {frames}, t.Suspends frames → ∃ above, frames = above ++ [rootFrame] := by
    intro frames hsuspends
    cases hsuspends with
    | task => exact ⟨[taskFrame t], rfl⟩
    | swap => exact ⟨[swapFrame t, taskFrame t], rfl⟩
  cases h with
  | refused calm spares => exact ⟨[], rfl⟩
  | failed calm suspends spares => exact hsuspends suspends
  | stopped crash suspends spares => exact hsuspends suspends
  | published crash plan_eq spares => exact ⟨[taskFrame t], rfl⟩

namespace Context

theorem Working.popFrames : ∀ (above : List Placed) {ctx : Context} (removed : Nat),
    Working host thread plan room (above ++ [rootFrame]) heap ctx →
    ∃ n after, Context.popFrames above.length removed ctx = (.ok n, after) ∧
      Working host thread plan room [rootFrame] heap after
  | [], ctx, removed, h => ⟨removed, ctx, rfl, h⟩
  | top :: above, ctx, removed, h => by
    obtain ⟨below, rest, hrest⟩ : ∃ below rest, above ++ [rootFrame] = below :: rest := by
      cases above with
      | nil => exact ⟨rootFrame, [], rfl⟩
      | cons below rest => exact ⟨below, rest ++ [rootFrame], rfl⟩
    rw [List.cons_append, hrest] at h
    obtain ⟨mid, hpop, hmid⟩ := h.popFrame
    rw [← hrest] at hmid
    obtain ⟨n, after, hrun, hafter⟩ := Working.popFrames above (removed + 1) hmid
    refine ⟨n, after, ?_, hafter⟩
    rw [List.length_cons, Context.popFrames, Run.bind_of_ok hpop]
    exact hrun

/-- A worker that unwinds stands on the root frame. -/
theorem Working.unwind (h : Working host thread plan room (above ++ [rootFrame]) heap ctx) :
    ∃ n after, Context.unwind ctx = (.ok n, after) ∧
      Working host thread plan room [rootFrame] heap after := by
  obtain ⟨n, after, hrun, hafter⟩ := Working.popFrames above 0 h
  refine ⟨n, after, ?_, hafter⟩
  rw [Context.unwind, Run.bind_of_ok (Run.get_apply ctx), CallStack.depth, h.stands.frames_eq,
    List.length_append, List.length_singleton, Nat.add_sub_cancel]
  exact hrun

/-- A task that reads leaves everything. -/
theorem Working.dispatch_read {register : UInt64}
    (h : Working host thread plan room frames heap ctx) (hregister : register.toNat = site.register)
    (hfits : site.FitsIn heap.size) :
    ∃ after, Context.dispatch (.read register) ctx = (.ok (), after) ∧
      Working host thread plan room frames heap after := by
  obtain ⟨current, cells, hshows⟩ := hfits.exists_shows
  have hload : (do Register.load (← get) register.toNat : Run Region Register) heap
      = (.ok current, heap) := by
    rw [Run.bind_of_ok (Run.get_apply heap), Run.lift_apply, hregister, hshows.load_register]
    rfl
  exact ⟨_, Run.discard_of_ok (h.onHeap hload), h.withHeap heap⟩

end Context

/-! ## Tasks in turn -/

namespace Worker

theorem step_of_failure {f : Failure} {n : Nat} {failed unwound : Context}
    (hreport : report.crashed = false) (h : dispatch task ctx = (.error (.failed f), failed))
    (hcalm : f.isCrash = false) (hunwind : unwind failed = (.ok n, unwound)) :
    step report task ctx = (.ok { report with failed := report.failed + 1 }, unwound) := by
  rw [step, hreport, if_neg Bool.false_ne_true, Run.bind_of_ok (Program.handled_of_failed h)]
  simp only [hcalm, if_neg Bool.false_ne_true]
  rw [Run.bind_of_ok (Run.discard_of_ok hunwind)]
  rfl

theorem step_of_stop {f : Failure} {stopped : Context} (hreport : report.crashed = false)
    (h : dispatch task ctx = (.error (.failed f), stopped)) (hcrash : f.isCrash = true) :
    step report task ctx = (.ok { report with crashed := true }, stopped) := by
  rw [step, hreport, if_neg Bool.false_ne_true, Run.bind_of_ok (Program.handled_of_failed h)]
  simp only [hcrash, if_true]
  rfl

/-- **One task.** The worker is on the root frame again, or it is stopped with the frames of the
task on its stack. A stopped task has not published its answer, unless the plan stops it in front of
the pop of its frame. -/
theorem step_leaves (hserves : host.Serves) (hreport : report.crashed = false)
    (htask : task.At site host.threads thread heap.size)
    (h : Working host thread plan room [rootFrame] heap ctx) :
    ∃ report' after, step report task ctx = (.ok report', after) ∧
      ((report'.crashed = false ∧ ∃ next, Working host thread plan room [rootFrame] next after ∧
          site.Spares task.answers heap next) ∨
        report'.crashed = true ∧ ∃ t frames next, task = .swap t ∧ t.Suspends frames ∧
          Working host thread plan room frames next after ∧
          (site.Spares [] heap next ∨
            plan = some ⟨.beforeFrameRemove, taskFunction⟩ ∧
              site.Spares task.answers heap next)) := by
  cases htask with
  | read register_eq fits =>
    obtain ⟨after, hrun, hafter⟩ := h.dispatch_read register_eq fits
    exact ⟨_, after, step_of_ok hreport hrun, .inl ⟨hreport, heap, hafter, .refl⟩⟩
  | @swap t site_eq suits =>
    rw [← site_eq]
    rcases h.dispatch hserves suits with ⟨⟨⟩, after, hrun, next, hafter, hspares⟩
      | ⟨halt, after, hrun, f, frames, next, rfl, hleft, hafter⟩
    · exact ⟨_, after, step_of_ok hreport hrun, .inl ⟨hreport, next, hafter, hspares⟩⟩
    · obtain ⟨above, habove⟩ := hleft.frames_eq
      -- heap next →] a failure is counted, and the worker goes on from its root frame
      have hfailed : f.isCrash = false → (t.site host.threads).Spares [] heap next →
          ∃ report' after, step report (.swap t) ctx = (.ok report', after) ∧
            report'.crashed = false ∧ ∃ next, Working host thread plan room [rootFrame] next after ∧
              (t.site host.threads).Spares (Task.answers (.swap t)) heap next := by
        intro hcalm hspares
        rw [habove] at hafter
        obtain ⟨n, unwound, hunwind, hroot⟩ := hafter.unwind
        exact ⟨_, unwound, step_of_failure hreport hrun hcalm hunwind, hreport, next, hroot,
          hspares.mono (List.nil_subset _)⟩
      cases hleft with
      | refused calm spares =>
        obtain ⟨report', after, hstep, hcalm⟩ := hfailed calm spares
        exact ⟨report', after, hstep, .inl hcalm⟩
      | failed calm suspends spares =>
        obtain ⟨report', after, hstep, hcalm⟩ := hfailed calm spares
        exact ⟨report', after, hstep, .inl hcalm⟩
      | stopped crash suspends spares =>
        exact ⟨_, after, step_of_stop hreport hrun crash,
          .inr ⟨rfl, t, frames, next, rfl, suspends, hafter, .inl spares⟩⟩
      | published crash plan_eq spares =>
        exact ⟨_, after, step_of_stop hreport hrun crash,
          .inr ⟨rfl, t, _, next, rfl, .task, hafter, .inr ⟨plan_eq, spares⟩⟩⟩

end Worker

namespace Pool

/-- What is left of a stack that was named and sized like `room`, and of the heap `before`. The heap
differs in the register, the matrix and the answers that were published; the stack holds the frames
of one task at most. -/
structure Leftover (plan : Option CrashPlan) (site : Site) (tasks : List Task)
    (before room : Region) (written : List Nat) (frames : List Placed) (heap region : Region) :
    Prop where
  spares : site.Spares written before heap
  written_subset : written ⊆ tasks.flatMap Task.answers
  stands : region.Written stackEnd frames
  path_eq : region.path = room.path
  size_eq : region.size = room.size
  /-- The frames of a task whose answer is published are there under one plan only. -/
  frames_cases : frames = [rootFrame] ∨ ∃ t, .swap t ∈ tasks ∧ t.Suspends frames ∧
    (t.answer.toNat ∈ written → plan = some ⟨.beforeFrameRemove, taskFunction⟩)

end Pool

namespace Worker

/-- **Task after task**, with some answers published before. The induction is on the queue: what a
task publishes joins what was published before it, and a task that is stopped ends the run, so there
is one suspended task at most. -/
theorem drain_leaves (hserves : host.Serves) : ∀ (tasks : List Task) {ctx : Context} {heap : Region}
    {report : WorkerReport} {written : List Nat},
    Working host thread plan room [rootFrame] heap ctx → site.Spares written before heap →
    report.crashed = false → (∀ task ∈ tasks, task.At site host.threads thread before.size) →
    (tasks.flatMap Task.answers).Nodup →
    (∀ i ∈ tasks.flatMap Task.answers, i ∉ written) →
    ∃ report' after published frames next, drain ctx report tasks = ⟨.ok report', after, []⟩ ∧
      Working host thread plan room frames next after ∧
      site.Spares (published ++ written) before next ∧
      published ⊆ tasks.flatMap Task.answers ∧
      (frames = [rootFrame] ∨ ∃ t, .swap t ∈ tasks ∧ t.Suspends frames ∧
        (t.answer.toNat ∈ published ++ written →
          plan = some ⟨.beforeFrameRemove, taskFunction⟩))
  | [], ctx, heap, report, written, h, hspares, _, _, _, _ =>
    ⟨report, ctx, [], [rootFrame], heap, rfl, h, hspares, List.nil_subset _, .inl rfl⟩
  | task :: tasks, ctx, heap, report, written, h, hspares, hreport, hat, hnodup, hnew => by
    rw [List.flatMap_cons] at hnodup hnew
    obtain ⟨-, hnodup', hapart⟩ := List.nodup_append.1 hnodup
    have htask := hat task List.mem_cons_self
    rw [← hspares.size_eq] at htask
    obtain ⟨report', after, hstep, ⟨hcalm, next, hafter, hnext⟩
      | ⟨hcrash, t, frames, next, rfl, hsuspends, hafter, hnext⟩⟩ :=
      step_leaves hserves hreport htask h
    · -- the next task begins with the answer of this one among those before it
      have hspares' : site.Spares (task.answers ++ written) before next :=
        (hspares.mono (List.subset_append_right _ _)).trans
          (hnext.mono (List.subset_append_left _ _))
      have hnew' : ∀ i ∈ tasks.flatMap Task.answers, i ∉ task.answers ++ written := by
        intro i hi hmem
        rcases List.mem_append.1 hmem with hmem | hmem
        · exact hapart i hmem i hi rfl
        · exact hnew i (List.mem_append_right _ hi) hmem
      obtain ⟨final, last, published, frames, end', hdrain, hlast, hspares'', hsub, hframes⟩ :=
        drain_leaves hserves tasks hafter hspares' hcalm
          (fun u hu => hat u (List.mem_cons_of_mem _ hu)) hnodup' hnew'
      refine ⟨final, last, published ++ task.answers, frames, end', ?_, hlast, ?_, ?_, ?_⟩
      · rw [drain, hstep]
        exact hdrain
      · rw [List.append_assoc]
        exact hspares''
      · rw [List.flatMap_cons]
        exact List.append_subset.2 ⟨fun i hi => List.mem_append_right _ (hsub hi),
          List.subset_append_left _ _⟩
      · refine hframes.imp_right ?_
        rintro ⟨t, ht, hsuspends, hplan⟩
        rw [← List.append_assoc] at hplan
        exact ⟨t, List.mem_cons_of_mem _ ht, hsuspends, hplan⟩
    · -- the rest is dropped
      have hdrain : drain ctx report (.swap t :: tasks) = ⟨.ok report', after, []⟩ := by
        rw [drain, hstep]
        exact drain_of_crashed hcrash tasks
      rcases hnext with hnext | ⟨hplan, hnext⟩
      · refine ⟨report', after, [], frames, next, hdrain, hafter,
          hspares.trans (hnext.mono (List.nil_subset _)), List.nil_subset _,
          .inr ⟨t, List.mem_cons_self, hsuspends, fun hmem => ?_⟩⟩
        exact absurd hmem (hnew _ (List.mem_append_left _ List.mem_cons_self))
      · refine ⟨report', after, Task.answers (.swap t), frames, next, hdrain, hafter,
          (hspares.mono (List.subset_append_right _ _)).trans
            (hnext.mono (List.subset_append_left _ _)), ?_,
          .inr ⟨t, List.mem_cons_self, hsuspends, fun _ => hplan⟩⟩
        rw [List.flatMap_cons]
        exact List.subset_append_left _ _

end Worker

/-! ## The pool -/

/-- A worker begins with its root frame. -/
theorem Context.Working.pushRoot (h : Working host thread plan room [] heap ctx)
    (hroom : rootFrame.frame.size ≤ room.size) :
    ∃ after, Context.pushRoot rootFunction ctx = (.ok (), after) ∧
      Working host thread plan room [rootFrame] heap after := by
  have hfits : rootFrame.frame.Fits := ⟨by decide, by decide⟩
  have hplace : nextPosition [] + rootFrame.frame.size ≤ ctx.stack.region.size := by
    rw [h.size_eq]
    exact hroom
  have hseed : DurableStack.seedSlot none = .ok .cleared := rfl
  obtain ⟨after, hpush, hhook, hstands, hstack⟩ := h.stands.push hfits hseed hplace
  have hempty : ctx.stack.calls.isEmpty = true := by
    rw [CallStack.isEmpty, h.stands.frames_eq]
    rfl
  refine ⟨after, ?_, hstands, hhook.trans h.hook_eq, ?_, ?_⟩
  · rw [Context.pushRoot, Run.bind_of_ok (Run.get_apply ctx), hempty]
    exact hpush
  · rw [hstack, path_pushed, h.path_eq]
  · rw [hstack, size_pushed, h.size_eq]

namespace Pool

theorem one_stack (hone : host.threads = 1) (region : Region) :
    ¬[region].length ≠ host.threads.toNat := by
  rw [hone]
  exact fun hne => hne rfl

/-- Channels as they may be: fewer than `2 ^ 62` places are granted, and more are refused with a
text. What is proved of pools asks nothing like that; it is for the runs on fixed inputs. -/
abbrev roomyChannels : Channels where
  bounded capacity :=
    if capacity < 4611686018427387904 then .ok ()
    else .error (.raised "bounded channel capacity is too large")

/-- A pool of one worker does what its worker does. -/
theorem run_of_worker [Channels] {region : Region} {hook : Option FaultHook} {capacity : Nat}
    {after : Context} (hone : host.threads = 1) (hcapacity : Channels.Grants capacity)
    (hheap : after.heap = some heap)
    (h : Worker.run ⟨host, 0, ⟨.empty, region⟩, some before, hook, []⟩ tasks
      = ⟨.ok report, after, []⟩) :
    run host hook capacity tasks before [region]
      = { result := .ok [report], heap, stackRegions := [after.stack.region]
          notes := after.notes.reverse ++ [] } := by
  have hzero : UInt32.ofNat 0 = 0 := rfl
  unfold Channels.Grants at hcapacity
  rw [run, if_neg (one_stack hone region), hcapacity]
  simp only [runWorkers, hzero, h, hheap, Option.getD_some, List.length_nil, Nat.not_lt_zero,
    if_false]
  rfl

/-- Without a queue no worker starts. -/
theorem run_of_refused [Channels] {hook : Option FaultHook} {capacity : Nat} {abort : Abort}
    (hone : host.threads = 1) (hcapacity : Channels.bounded capacity = .error abort)
    (region : Region) :
    run host hook capacity tasks heap [region]
      = { result := .error (.aborted abort), heap, stackRegions := [region] } := by
  rw [run, if_neg (one_stack hone region), hcapacity]

/-- **What a pool of one worker leaves.** It reports, unless its queue is refused. Then no worker
has started, and heap and stack are as they were; otherwise they are what `Leftover` says, under any
crash plan. -/
theorem run_leaves [Channels] {region : Region} (hserves : host.Serves) (hone : host.threads = 1)
    (hroom : 128 ≤ region.size) (hat : ∀ task ∈ tasks, task.At site 1 0 heap.size)
    (hnodup : (tasks.flatMap Task.answers).Nodup) (plan : Option CrashPlan) (capacity : Nat) :
    (∃ abort, Channels.bounded capacity = .error abort ∧
      run host (plan.map (·.hook)) capacity tasks heap [region]
        = { result := .error (.aborted abort), heap, stackRegions := [region] }) ∨
    (Channels.Grants capacity ∧ ∃ report written frames next left notes,
      run host (plan.map (·.hook)) capacity tasks heap [region]
        = { result := .ok [report], heap := next, stackRegions := [left], notes } ∧
      Leftover plan site tasks heap region written frames next left) := by
  cases hcapacity : Channels.bounded capacity with
  | error abort => exact .inl ⟨abort, rfl, run_of_refused hone hcapacity region⟩
  | ok made =>
    have hgranted : Channels.Grants capacity := hcapacity
    have hstart : Working host 0 plan region [] heap
        ⟨host, 0, ⟨.empty, region⟩, some heap, plan.map (·.hook), []⟩ :=
      ⟨⟨rfl, rfl, rfl, rfl, trivial⟩, rfl, rfl, rfl⟩
    obtain ⟨root, hpush, hroot⟩ := hstart.pushRoot (Nat.le_trans (by decide) hroom)
    rw [← hone] at hat
    have hreport : ({ thread := root.thread } : WorkerReport).crashed = false := rfl
    have hnothing : site.Spares [] heap heap := .refl
    obtain ⟨report, after, published, frames, next, hdrain, hafter, hspares, hsub, hframes⟩ :=
      Worker.drain_leaves hserves tasks hroot hnothing hreport hat hnodup
        fun _ _ => List.not_mem_nil
    have hworker : Worker.run ⟨host, 0, ⟨.empty, region⟩, some heap, plan.map (·.hook), []⟩ tasks
        = ⟨.ok report, after, []⟩ := by
      rw [Worker.run, hpush]
      exact hdrain
    have hrun := run_of_worker hone hgranted hafter.stands.heap_eq hworker
    have hmirrored : after.stack.region.Written stackEnd after.stack.calls.frames :=
      hafter.stands.mirrored
    rw [List.append_nil] at hspares hframes
    rw [hafter.stands.frames_eq] at hmirrored
    exact .inr ⟨hgranted, report, published, frames, next, _, _, hrun,
      ⟨hspares, hsub, hmirrored, hafter.path_eq, hafter.size_eq, hframes⟩⟩

/-! ## The restoration -/

/-- A stack that is restored alone. -/
theorem restoreAll_one {region : Region} {outcome : Except Halt Nat} {after : Context}
    (hone : host.threads = 1)
    (h : restore ⟨host, 0, ⟨.empty, region⟩, some heap, none, []⟩ = (outcome, after)) :
    (restoreAll host heap [region]).heap = after.heap.getD heap ∧
      (restoreAll host heap [region]).stackRegions = [after.stack.region] := by
  have htake : [region].take host.threads.toNat = [region] := by
    rw [hone]
    rfl
  have hdrop : [region].drop host.threads.toNat = [] := by
    rw [hone]
    rfl
  have hstack : restorers host heap [region]
      = [⟨.ok restoreSteps, ⟨host, 0, ⟨.empty, region⟩, some heap, none, []⟩⟩] := rfl
  simp only [restoreAll, restoreBy, htake, hdrop, hstack, Crew.run, List.foldl_nil, Crew.finish,
    Thread.finish, run_restoreSteps, h]
  exact ⟨trivial, rfl⟩

/-- Where nothing is under way, a restoration leaves heap and stack. -/
theorem restoreAll_of_short {region : Region} {calls : CallStack} (heap : Region)
    (hmode : host.mode = .recovery) (hone : host.threads = 1) (hscan : scan region = .ok calls)
    (hshort : calls.frames.length ≤ 1) :
    (restoreAll host heap [region]).heap = heap ∧
      (restoreAll host heap [region]).stackRegions = [region] :=
  restoreAll_one hone (restore_of_short hmode hscan hshort)

/-- **What a restoration may write**, whatever the heap holds by then: the register, the matrix and
the answer of the one task that the stack tells of. Whether it returns or fails makes no difference
to that, and the stack that it gives back is the same file. -/
theorem restoreAll_spares {t : SwapTask} {region : Region} (hserves : host.Serves)
    (hmode : host.mode = .recovery) (hone : host.threads = 1) (hsuits : t.Suits 1 0 heap.size)
    (hwritten : region.Written stackEnd frames) (hsuspends : t.Suspends frames) :
    (t.site 1).Spares [t.answer.toNat] heap (restoreAll host heap [region]).heap ∧
      ∃ left, (restoreAll host heap [region]).stackRegions = [left] ∧
        left.path = region.path ∧ left.size = region.size := by
  rw [← hone] at hsuits ⊢
  have hends : ∀ {outcome after},
      restore ⟨host, 0, ⟨.empty, region⟩, some heap, none, []⟩ = (outcome, after) →
      Replays host 0 none region t heap after := by
    intro outcome after hrun
    rcases restore_finishes hserves hmode hsuits hwritten hsuspends with ⟨n, after', hrun', hafter⟩
      | ⟨halt, after', hrun', hafter⟩
    · rw [hrun] at hrun'
      cases hrun'
      exact hafter
    · rw [hrun] at hrun'
      cases hrun'
      exact hafter
  rcases hrun : restore ⟨host, 0, ⟨.empty, region⟩, some heap, none, []⟩ with ⟨outcome, after⟩
  obtain ⟨frames', next, hworking, hspares⟩ := hends hrun
  obtain ⟨hheap, hregions⟩ := restoreAll_one hone hrun
  rw [hheap, hregions, hworking.stands.heap_eq]
  exact ⟨hspares, _, rfl, hworking.path_eq, hworking.size_eq⟩

end Pool

end DurableCalls
