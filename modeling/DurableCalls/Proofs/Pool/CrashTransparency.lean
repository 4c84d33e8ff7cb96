/-
`CrashTransparency.lean` -- a crash and its recovery cannot be told from no crash.

A worker runs swap tasks one after the other until a fault hook stops one of them. Then
the stack is replayed, by processes that may be stopped in turn, until one is not. The
heap is then what the same tasks leave when no hook is there: as tasks settle one heap
after the other (`Site.UsedBy.settles`), the run with the hook and the run without go
side by side up to the task that is stopped (`drain_stopped`), and from there the replay
takes it to the same heap.
-/
import DurableCalls.Pool
import DurableCalls.Proofs.Call.Guards
import DurableCalls.Proofs.Call.Replay
import DurableCalls.Proofs.Swap.Alone
import DurableCalls.Proofs.Swap.Trace

set_option autoImplicit false

namespace DurableCalls

open CallStack Context

/-! ## Tasks at a site -/

/-- A task that swaps the register of a site, to a value other than 0, and whose answer
has a place beside the register and the matrix, in a heap of so many bytes. -/
structure Site.Takes (site : Site) (size : Nat) (t : SwapTask) : Prop where
  register_eq : t.swap.register.toNat = site.register
  matrix_eq : t.swap.matrix.toNat = site.matrix.offset
  new_ne : t.swap.new ≠ 0
  answer_in : t.answer.toNat < size
  answer_register : t.answer.toNat < site.register ∨ site.register + 8 ≤ t.answer.toNat
  answer_matrix : t.answer.toNat < site.matrix.offset ∨
    site.matrix.offset + site.matrix.bytes ≤ t.answer.toNat

/-- **A task with a new value settles the heap**, and adds no value but its own. The swap and its
recovery are the same there, so it does not matter which of them a crash leaves to be run. That is
what makes the run with the crash end in the heap of the run without. -/
theorem Site.UsedBy.settles {site : Site} {used : List UInt32} {heap : Region} {t : SwapTask}
    (h : site.UsedBy used heap) (halone : site.matrix.threads = 1) (hal : site.Aligned)
    (ht : site.Takes heap.size t) (hfresh : t.swap.new ∉ used) :
    ∃ yes swapped, (∀ recover, t.Settles 1 0 recover heap swapped yes) ∧
      (t.settled swapped yes).size = heap.size ∧
      site.UsedBy (t.swap.new :: used) (t.settled swapped yes) := by
  have hsite : (t.swapBy 1 0).site = site := by
    rw [Swap.site, SwapTask.swapBy, ht.register_eq, ht.matrix_eq, ← halone]
  rw [← hsite] at h hal
  obtain ⟨yes, swapped, hattempt, hrecover, hsize, hused⟩ :=
    h.attempt_eq_recover (s := t.swapBy 1 0) rfl hal rfl ht.new_ne hfresh
  rw [hsite] at hused
  -- the answer is published beside what the site shows
  have hin : t.answer.toNat + 1 ≤ swapped.size := by
    rw [hsize]
    exact ht.answer_in
  refine ⟨yes, swapped, fun recover => ⟨?_, hin⟩, ?_, ?_⟩
  · cases recover with
    | false => exact hattempt
    | true => exact hrecover
  · rw [SwapTask.settled, Region.size_put, hsize]
  · exact hused.put_beside hin ht.answer_register ht.answer_matrix

/-! ## The worker -/

namespace Worker

variable {ctx after : Context} {report : WorkerReport} {task : Task}

theorem step_of_ok (hreport : report.crashed = false) (h : dispatch task ctx = (.ok (), after)) :
    step report task ctx = (.ok { report with completed := report.completed + 1 }, after) := by
  rw [step, hreport, if_neg Bool.false_ne_true, Run.bind_of_ok (Program.handled_of_ok h)]
  rfl

theorem step_of_crash {point : FaultPoint} {function : String} (hreport : report.crashed = false)
    (h : dispatch task ctx = (.error (.failed (.simulatedCrash point function)), after)) :
    step report task ctx = (.ok { report with crashed := true }, after) := by
  rw [step, hreport, if_neg Bool.false_ne_true, Run.bind_of_ok (Program.handled_of_failed h)]
  rfl

/-- A stopped worker drops what it takes. -/
theorem drain_of_crashed (hreport : report.crashed = true) (tasks : List Task) :
    drain ctx report tasks = ⟨.ok report, ctx, []⟩ := by
  induction tasks with
  | nil => rfl
  | cons task tasks ih =>
    have hstep : step report task ctx = (.ok report, ctx) := by
      rw [step, if_pos hreport]
      rfl
    rw [drain, hstep]
    exact ih

/-- The task of a worker that nothing stops, and then the others. -/
theorem drain_cons_of_ok (hreport : report.crashed = false)
    (h : dispatch task ctx = (.ok (), after)) (tasks : List Task) :
    drain ctx report (task :: tasks)
      = drain after { report with completed := report.completed + 1 } tasks := by
  rw [drain, step_of_ok hreport h]

/-- The task of a worker that is stopped, and none of the others. -/
theorem drain_cons_of_crash {point : FaultPoint} {function : String}
    (hreport : report.crashed = false)
    (h : dispatch task ctx = (.error (.failed (.simulatedCrash point function)), after))
    (tasks : List Task) :
    drain ctx report (task :: tasks) = ⟨.ok { report with crashed := true }, after, []⟩ := by
  rw [drain, step_of_crash hreport h]
  exact drain_of_crashed rfl tasks

/-- **The run that is stopped, and the run that is not.** Side by side from the same heap,
they settle the same tasks, up to the one that the first run leaves on its stack. -/
theorem drain_stopped {site : Site} (halone : site.matrix.threads = 1) (hal : site.Aligned)
    (ts : List SwapTask) :
    ∀ {used : List UInt32} {heap : Region} {ctx calm stopped : Context}
      {report calmly final : WorkerReport} {left : List Task},
    site.UsedBy used heap → (∀ t ∈ ts, site.Takes heap.size t) →
    (ts.map (·.swap.new)).Nodup → (∀ t ∈ ts, t.swap.new ∉ used) →
    Idle (soleHost .execution) 0 heap ctx → Idle (soleHost .execution) 0 heap calm →
    calm.hook = none →
    report.crashed = false → calmly.crashed = false →
    drain ctx report (ts.map .swap) = ⟨.ok final, stopped, left⟩ → final.crashed = true →
    ∃ k t before swapped yes whole, k < ts.length ∧ final.completed = report.completed + k ∧
      (∀ recover, t.Settles 1 0 recover before swapped yes) ∧
      (∃ point, Stopped (soleHost .execution) 0 t before swapped yes point stopped) ∧
      drain calm calmly ((ts.take (k + 1)).map .swap)
        = ⟨.ok { calmly with completed := calmly.completed + (k + 1) }, whole, []⟩ ∧
      whole.heap = some (t.settled swapped yes) := by
  induction ts with
  | nil =>
    intro used heap ctx calm stopped report calmly final left _ _ _ _ _ _ _ hreport _ hdrain hfinal
    cases hdrain
    rw [hreport] at hfinal
    cases hfinal
  | cons t ts ih =>
    intro used heap ctx calm stopped report calmly final left hused htakes hnew hfresh hidle hcalm
      hhook hreport hcalmly hdrain hfinal
    obtain ⟨yes, swapped, hs, hsize, hused'⟩ := hused.settles halone hal
      (htakes t List.mem_cons_self) (hfresh t List.mem_cons_self)
    -- without a hook the task ends, whatever the other run does
    obtain ⟨⟨⟩, calm', hcalmrun, hnone, hcalm'⟩ | ⟨-, -, -, -, hsome, -⟩ :=
      hcalm.dispatch (hs false)
    case inr => exact absurd hhook hsome
    rcases hidle.dispatch (hs false) with ⟨⟨⟩, ctx', hrun, -, hidle'⟩
      | ⟨point, function, ctx', hrun, -, hstopped⟩
    · -- both runs go on from the heap that the task has settled
      rw [List.map_cons, drain_cons_of_ok hreport hrun] at hdrain
      obtain ⟨hnotin, hnew'⟩ := List.nodup_cons.1 hnew
      have hfresh' : ∀ u ∈ ts, u.swap.new ∉ t.swap.new :: used := by
        intro u hu hin
        rcases List.mem_cons.1 hin with hsame | hin
        · exact hnotin (List.mem_map.2 ⟨u, hu, hsame⟩)
        · exact hfresh u (List.mem_cons_of_mem t hu) hin
      have htakes' : ∀ u ∈ ts, site.Takes (t.settled swapped yes).size u := by
        intro u hu
        rw [hsize]
        exact htakes u (List.mem_cons_of_mem t hu)
      have hreport' : { report with completed := report.completed + 1 }.crashed = false := hreport
      have hcalmly' : { calmly with completed := calmly.completed + 1 }.crashed = false := hcalmly
      obtain ⟨k, u, before, swapped', yes', whole, hk, hcompleted, hs', hstopped, hwhole, hheap⟩ :=
        ih hused' htakes' hnew' hfresh' hidle' hcalm' (hnone hhook) hreport' hcalmly' hdrain hfinal
      refine ⟨k + 1, u, before, swapped', yes', whole, Nat.succ_lt_succ hk, ?_, hs', hstopped, ?_,
        hheap⟩
      · rw [hcompleted]
        simp only [Nat.add_assoc, Nat.add_comm 1]
      · rw [List.take_succ_cons, List.map_cons, drain_cons_of_ok hcalmly hcalmrun, hwhole]
        simp only [Nat.add_assoc, Nat.add_comm 1]
    · -- this is the task that the first run leaves
      rw [List.map_cons, drain_cons_of_crash hreport hrun] at hdrain
      cases hdrain
      refine ⟨0, t, heap, swapped, yes, calm', Nat.succ_pos _, rfl, hs, ⟨point, hstopped⟩, ?_,
        hcalm'.stands.heap_eq⟩
      rw [List.take_succ_cons, List.take_zero, List.map_cons, drain_cons_of_ok hcalmly hcalmrun]
      rfl

/-- The only worker of a process, on a stack region and a heap. -/
def sole (hook : Option FaultHook) (region heap : Region) : Context where
  host := soleHost .execution
  thread := 0
  stack := { calls := .empty, region }
  heap := some heap
  hook := hook

/-- A worker pushes the root frame, and then runs its tasks. -/
theorem run_sole {region : Region} (hook : Option FaultHook) (heap : Region)
    (hroom : 168 ≤ region.size) :
    ∃ idle, Idle (soleHost .execution) 0 heap idle ∧ idle.hook = hook ∧
      ∀ tasks, run (sole hook region heap) tasks = drain idle { thread := 0 } tasks := by
  have hstands : Stands (soleHost .execution) 0 [] heap (sole hook region heap) :=
    ⟨rfl, rfl, rfl, rfl, trivial⟩
  have hfits : rootFrame.frame.Fits := ⟨by decide, by decide⟩
  have hplace : nextPosition [] + rootFrame.frame.size
      ≤ (sole hook region heap).stack.region.size :=
    Nat.le_trans (by decide) hroom
  have hseed : DurableStack.seedSlot none = .ok .cleared := rfl
  obtain ⟨idle, hpush, hhook, hidle, hstack⟩ := hstands.push hfits hseed hplace
  have hroot : pushRoot rootFunction (sole hook region heap) = (.ok (), idle) := by
    rw [pushRoot, Run.bind_of_ok (Run.get_apply _)]
    exact hpush
  refine ⟨idle, ⟨serves_of_addBuiltins, hidle, ?_⟩, hhook, fun tasks => ?_⟩
  · rw [hstack, DurableStack.size_pushed]
    exact hroom
  · rw [run, hroot]
    show drain idle { thread := idle.thread } tasks = _
    rw [hidle.thread_eq]

/-- What a stopped run leaves on its stack, beside the run of the same tasks that nothing
stops. -/
theorem run_stopped {site : Site} {region heap : Region} {hook : Option FaultHook}
    {ts : List SwapTask} {stopped : Context} {left : List Task} (hready : site.Ready heap)
    (halone : site.matrix.threads = 1) (hal : site.Aligned) (hroom : 168 ≤ region.size)
    (htakes : ∀ t ∈ ts, site.Takes heap.size t) (hnew : (ts.map (·.swap.new)).Nodup)
    (hrun : run (sole hook region heap) (ts.map .swap) = ⟨.ok report, stopped, left⟩)
    (hcrashed : report.crashed = true) :
    ∃ t before swapped yes whole, report.completed < ts.length ∧
      (∀ recover, t.Settles 1 0 recover before swapped yes) ∧
      (∃ point, Stopped (soleHost .execution) 0 t before swapped yes point stopped) ∧
      run (sole none region heap) ((ts.take (report.completed + 1)).map .swap)
        = ⟨.ok { thread := 0, completed := report.completed + 1 }, whole, []⟩ ∧
      whole.heap = some (t.settled swapped yes) := by
  obtain ⟨value, hshows⟩ := hready.shows
  have hused : site.UsedBy [] heap := ⟨_, _, hshows, .inl rfl, .inl rfl⟩
  obtain ⟨idle, hidle, -, hstart⟩ := run_sole hook heap hroom
  obtain ⟨calm, hcalm, hnone, hquiet⟩ := run_sole none heap hroom
  have hfirst : ({ thread := 0 } : WorkerReport).crashed = false := rfl
  rw [hstart] at hrun
  obtain ⟨k, t, before, swapped, yes, whole, hk, hcompleted, hs, hstopped, hwhole, hheap⟩ :=
    drain_stopped halone hal ts hused htakes hnew (fun _ _ => List.not_mem_nil) hidle hcalm hnone
      hfirst hfirst hrun hcrashed
  have hcount : report.completed = k := by rw [hcompleted, Nat.zero_add]
  rw [← hcount] at hk hwhole
  rw [Nat.zero_add] at hwhole
  exact ⟨t, before, swapped, yes, whole, hk, hs, hstopped, by rw [hquiet, hwhole], hheap⟩

end Worker

/-! ## Replays -/

namespace Context

/-- What is left behind by replays that were all stopped, one after the other. Each of them is a
process of its own, with its own hook, and begins with what the one before it has left. -/
inductive Replayed (left : Context) : Context → Prop
  | none : Replayed left left
  | stopped {before ctx after : Context} {point : FaultPoint} {function : String}
      (earlier : Replayed left before) (resumes : ctx.Resumes before)
      (halted : restore ctx = (.error (.failed (.simulatedCrash point function)), after)) :
      Replayed left after

variable {t : SwapTask} {before swapped : Region} {yes : Bool} {left last ctx : Context}

/-- A stopped replay leaves what the next one can go on with. -/
theorem Replayed.stopped_at (hs : ∀ recover, t.Settles 1 0 recover before swapped yes)
    (hleft : ∃ point, Stopped (soleHost .execution) 0 t before swapped yes point left)
    (h : Replayed left last) :
    ∃ mode point, Stopped (soleHost mode) 0 t before swapped yes point last := by
  induction h with
  | none => exact ⟨.execution, hleft⟩
  | stopped earlier resumes halted ih =>
    obtain ⟨mode, hstopped⟩ := ih
    rcases restore_ends hs hstopped resumes with ⟨n, after, hrun, -⟩ | ⟨point, function, after,
      hrun, -, hafter⟩
    · rw [hrun] at halted
      cases halted
    · rw [hrun] at halted
      cases halted
      exact ⟨.recovery, _, hafter⟩

end Context

/-! ## The theorem -/

/-- **A crash is transparent.** A single worker runs swap tasks on a register that was just
initialized, with a blank matrix, until a hook stops it. However many replays are stopped
as well: the first one that is not succeeds, leaves the root frame alone, and leaves the
heap that the tasks up to the stopped one leave when nothing stops them. -/
theorem crash_transparent {site : Site} {region heap : Region} {hook : Option FaultHook}
    {ts : List SwapTask} {report : WorkerReport} {stopped last ctx after : Context}
    {left : List Task} {outcome : Except Halt Nat}
    (hready : site.Ready heap) (halone : site.matrix.threads = 1) (hal : site.Aligned)
    (hroom : 168 ≤ region.size) (htakes : ∀ t ∈ ts, site.Takes heap.size t)
    (hnew : (ts.map (·.swap.new)).Nodup)
    (hrun : Worker.run (Worker.sole hook region heap) (ts.map .swap) = ⟨.ok report, stopped, left⟩)
    (hcrashed : report.crashed = true) (hreplayed : Replayed stopped last)
    (hresumes : ctx.Resumes last) (hrestore : restore ctx = (outcome, after))
    (hgoes : ∀ point function, outcome ≠ .error (.failed (.simulatedCrash point function))) :
    report.completed < ts.length ∧ (∃ n, outcome = .ok n) ∧
    scan after.stack.region = .ok ⟨[rootFrame]⟩ ∧
    ∃ whole, Worker.run (Worker.sole none region heap) ((ts.take (report.completed + 1)).map .swap)
        = ⟨.ok { thread := 0, completed := report.completed + 1 }, whole, []⟩ ∧
      after.heap = whole.heap := by
  obtain ⟨t, before, swapped, yes, whole, hcompleted, hs, hstopped, hwhole, hheap⟩ :=
    Worker.run_stopped hready halone hal hroom htakes hnew hrun hcrashed
  obtain ⟨mode, hlast⟩ := hreplayed.stopped_at hs hstopped
  -- the last replay is not stopped, so it settles the task
  rcases restore_ends hs hlast hresumes with ⟨n, final, hfinal, -, hdone⟩ | ⟨point, function, final,
    hfinal, -⟩
  · rw [hrestore] at hfinal
    cases hfinal
    have hne : after.stack.calls.frames ≠ [] := by
      rw [hdone.stands.frames_eq]
      exact List.cons_ne_nil _ _
    refine ⟨hcompleted, ⟨n, rfl⟩, ?_, whole, hwhole, ?_⟩
    · rw [hdone.stands.mirrored.scan_eq hne, hdone.stands.calls_eq]
    · rw [hdone.stands.heap_eq, hheap]
  · rw [hrestore] at hfinal
    cases hfinal
    exact absurd rfl (hgoes point function)

/-! ## A run -/

/-- One task of one thread, which replaces the 5 in the register by 7. -/
def soleTask : SwapTask := ⟨⟨0, 5, 7, 64⟩, 100⟩

/-- A stack region with just the room that a task needs. -/
def soleStack : Region where
  path := .ofText "stack"
  cells := Array.replicate 168 0
  size_lt := by rw [Array.size_replicate]; decide

theorem soleTask_takes : Site.Takes ⟨0, ⟨64, 1⟩⟩ startHeap.size soleTask :=
  ⟨rfl, rfl, by decide, by rw [size_startHeap]; decide, by decide, by decide⟩

/-- The task is stopped when it is entered, and a replay without a hook settles it. The heap is then
the one that a run without a stop leaves, and the stack is down to its root frame. -/
theorem soleTask_crash_transparent :
    ∃ report stopped ctx n after whole,
      Worker.run (Worker.sole (some (.whenever fun _ _ => true)) soleStack startHeap)
        [.swap soleTask] = ⟨.ok report, stopped, []⟩ ∧
      report.crashed = true ∧ ctx.Resumes stopped ∧ restore ctx = (.ok n, after) ∧
      scan after.stack.region = .ok ⟨[rootFrame]⟩ ∧
      Worker.run (Worker.sole none soleStack startHeap) [.swap soleTask]
        = ⟨.ok { thread := 0, completed := 1 }, whole, []⟩ ∧
      after.heap = whole.heap := by
  have hready : Site.Ready ⟨0, ⟨64, 1⟩⟩ startHeap := startHeap_ready (by decide)
  have hroom : 168 ≤ soleStack.size := Nat.le_of_eq Array.size_replicate.symm
  have hnew : ([soleTask].map (·.swap.new)).Nodup :=
    List.nodup_cons.2 ⟨List.not_mem_nil, List.nodup_nil⟩
  have htakes : ∀ t ∈ [soleTask], Site.Takes ⟨0, ⟨64, 1⟩⟩ startHeap.size t := by
    intro t ht
    rw [List.mem_singleton.1 ht]
    exact soleTask_takes
  obtain ⟨idle, hidle, hhook, hstart⟩ :=
    Worker.run_sole (some (.whenever fun _ _ => true)) startHeap hroom
  obtain ⟨stopped, hstops⟩ := hidle.dispatch_of_stops soleTask hhook rfl
  have hrun : Worker.run (Worker.sole (some (.whenever fun _ _ => true)) soleStack startHeap)
      ([soleTask].map .swap) = ⟨.ok { thread := 0, crashed := true }, stopped, []⟩ := by
    rw [hstart]
    exact Worker.drain_cons_of_crash rfl hstops []
  -- a process that recovers without a hook is not stopped
  obtain ⟨t, before, swapped, yes, -, -, hs, hstopped, -⟩ :=
    Worker.run_stopped hready rfl rfl hroom htakes hnew hrun rfl
  have hresumes : Context.Resumes ⟨soleHost .recovery, 0, stopped.stack, stopped.heap, none, []⟩
      stopped := ⟨rfl, rfl, rfl, rfl⟩
  obtain ⟨n, after, hrestore⟩ := restore_of_calm hs hstopped hresumes rfl
  obtain ⟨-, -, hscan, whole, hwhole, hheap⟩ := crash_transparent hready rfl rfl hroom htakes hnew
    hrun rfl .none hresumes hrestore nofun
  exact ⟨_, stopped, _, n, after, whole, hrun, rfl, hresumes, hrestore, hscan, hwhole, hheap⟩

end DurableCalls
