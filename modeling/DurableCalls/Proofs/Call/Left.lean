/-
`Left.lean` -- what a swap task leaves when it does not return, on any heap.

A worker stands on the root frame and runs a swap task. Its plan may stop it, the region may
be too small for the frame of the swap, and the register may have an owner that is no thread.
Whatever happens, nothing is written but the register and the matrix until the answer is
published, and the byte of the answer then (`SwapTask.Left`). There is one stop with the answer
published and the frame of the task still there: that of a plan for the moment in which this
frame is to be removed.

The same steps are taken when the frames are replayed, so what a replay writes is told with
them (`restore_finishes`).
-/
import DurableCalls.Proofs.Call.Replay
import DurableCalls.Proofs.Call.Working

set_option autoImplicit false

namespace DurableCalls

open CallStack Region DurableStack Workload

/-! ## What is left -/

namespace SwapTask

/-- Where the swap of a task is made. -/
def site (t : SwapTask) (threads : UInt32) : Site :=
  ⟨t.swap.register.toNat, ⟨t.swap.matrix.toNat, threads⟩⟩

/-- The register, the matrix and the answer of a task lie in a heap of this size, and the thread has
a row in the matrix. With that the task can fail for want of room on the stack only, or because of
an owner that is no thread. -/
structure Suits (t : SwapTask) (threads thread : UInt32) (size : Nat) : Prop where
  fits : (t.site threads).FitsIn size
  aligned : (t.site threads).Aligned
  known : thread < threads
  answer_in : t.answer.toNat + 1 ≤ size

/-- The frames of a task that is under way: its own on the root frame, and that of its swap while
this is called. A replay begins with one of these two. -/
inductive Suspends (t : SwapTask) : List Placed → Prop
  | task : Suspends t [taskFrame t, rootFrame]
  | swap : Suspends t [swapFrame t, taskFrame t, rootFrame]

/-- How a task is left, that began on the heap `before`: it failed, or it was stopped by the
plan. -/
inductive Left (t : SwapTask) (threads : UInt32) (plan : Option CrashPlan) (before : Region) :
    Failure → List Placed → Region → Prop
  | refused {f : Failure} {heap : Region} (calm : f.isCrash = false)
      (spares : (t.site threads).Spares [] before heap) :
      Left t threads plan before f [rootFrame] heap
  | failed {f : Failure} {frames : List Placed} {heap : Region} (calm : f.isCrash = false)
      (suspends : t.Suspends frames) (spares : (t.site threads).Spares [] before heap) :
      Left t threads plan before f frames heap
  | stopped {f : Failure} {frames : List Placed} {heap : Region} (crash : f.isCrash = true)
      (suspends : t.Suspends frames) (spares : (t.site threads).Spares [] before heap) :
      Left t threads plan before f frames heap
  /-- The answer is published, and the frame was to go. -/
  | published {f : Failure} {heap : Region} (crash : f.isCrash = true)
      (plan_eq : plan = some ⟨.beforeFrameRemove, taskFunction⟩)
      (spares : (t.site threads).Spares [t.answer.toNat] before heap) :
      Left t threads plan before f [taskFrame t, rootFrame] heap

theorem Left.spares {t : SwapTask} {threads : UInt32} {plan : Option CrashPlan}
    {before heap : Region} {f : Failure} {frames : List Placed}
    (h : t.Left threads plan before f frames heap) :
    (t.site threads).Spares [t.answer.toNat] before heap := by
  cases h with
  | refused calm spares => exact spares.mono (List.nil_subset _)
  | failed calm suspends spares => exact spares.mono (List.nil_subset _)
  | stopped crash suspends spares => exact spares.mono (List.nil_subset _)
  | published crash plan_eq spares => exact spares

end SwapTask

theorem Swap.perform_ends {s : Swap} {heap : Region} (hfits : s.site.FitsIn heap.size)
    (hal : s.site.Aligned) (hthread : s.thread < s.matrix.threads) (recover : Bool) :
    s.EndsBeside (s.perform recover) heap := by
  cases recover with
  | false => exact attempt_ends hfits hal hthread
  | true => exact recover_ends hfits hal hthread

namespace Context

section Task

variable {host : Host} {thread : UInt32} {plan : Option CrashPlan} {room before heap : Region}
  {t : SwapTask} {written : List Nat} {frames rest : List Placed} {top below : Placed}
  {ctx : Context}

/-- A worker on a task that began on the heap `before`. Nothing has been written since but
the register, the matrix and these bytes. -/
def OnTask (host : Host) (thread : UInt32) (plan : Option CrashPlan) (room : Region)
    (t : SwapTask) (before : Region) (written : List Nat) (frames : List Placed) (ctx : Context) :
    Prop :=
  ∃ heap, Working host thread plan room frames heap ctx ∧
    (t.site host.threads).Spares written before heap

/-- The context in which a task is left. -/
def Abandons (host : Host) (thread : UInt32) (plan : Option CrashPlan) (room : Region)
    (t : SwapTask) (before : Region) (halt : Halt) (ctx : Context) : Prop :=
  ∃ f frames heap, halt = .failed f ∧ t.Left host.threads plan before f frames heap ∧
    Working host thread plan room frames heap ctx

theorem OnTask.stopped {halt : Halt} {point : FaultPoint}
    (h : OnTask host thread plan room t before [] frames ctx) (hsuspends : t.Suspends frames)
    (hstops : StopsAt plan frames point halt) :
    Abandons host thread plan room t before halt ctx := by
  obtain ⟨heap, hworking, hspares⟩ := h
  obtain ⟨top, rest, -, -, rfl⟩ := hstops
  exact ⟨_, frames, heap, rfl, .stopped rfl hsuspends hspares, hworking⟩

theorem OnTask.failed {f : Failure} (h : OnTask host thread plan room t before [] frames ctx)
    (hsuspends : t.Suspends frames) (hcalm : f.isCrash = false) :
    Abandons host thread plan room t before (.failed f) ctx := by
  obtain ⟨heap, hworking, hspares⟩ := h
  exact ⟨f, frames, heap, rfl, .failed hcalm hsuspends hspares, hworking⟩

theorem OnTask.consult (h : OnTask host thread plan room t before written (top :: rest) ctx)
    (point : FaultPoint) :
    Finishes (Context.consult point) ctx
      (fun _ => OnTask host thread plan room t before written (top :: rest))
      (fun halt after => StopsAt plan (top :: rest) point halt ∧
        OnTask host thread plan room t before written (top :: rest) after) := by
  obtain ⟨heap, hworking, hspares⟩ := h
  refine (hworking.consult point).mono (fun _ after hafter => ⟨heap, hafter, hspares⟩) ?_
  rintro halt after ⟨hstops, hafter⟩
  exact ⟨hstops, heap, hafter, hspares⟩

theorem OnTask.popFrame
    (h : OnTask host thread plan room t before written (top :: below :: rest) ctx) :
    ∃ after, Context.popFrame ctx = (.ok (), after) ∧
      OnTask host thread plan room t before written (below :: rest) after := by
  obtain ⟨heap, hworking, hspares⟩ := h
  obtain ⟨after, hpop, hafter⟩ := hworking.popFrame
  exact ⟨after, hpop, heap, hafter, hspares⟩

theorem OnTask.readAnswer (h : OnTask host thread plan room t before written (top :: rest) ctx) :
    ∃ bytes, Context.readAnswer 1 ctx = (.ok bytes, ctx) := by
  obtain ⟨heap, hworking, -⟩ := h
  obtain ⟨bytes, hread⟩ := hworking.read_slot (p := top) List.mem_cons_self
  exact ⟨bytes, hworking.stands.readAnswer hread⟩

/-! ## The swap -/

/-- The swap is made, first or as a recovery, and its answer goes to the slot of the task. -/
theorem OnTask.swap (hsuits : t.Suits host.threads thread before.size)
    (h : OnTask host thread plan room t before [] [swapFrame t, taskFrame t, rootFrame] ctx)
    (recover : Bool) :
    Finishes (do
        let yes ← onHeap ((Builtin.swapOf (← get) t.swap).perform recover)
        Context.writeAnswer (Builtin.verdict yes) : Exec Unit) ctx
      (fun _ => OnTask host thread plan room t before [] [swapFrame t, taskFrame t, rootFrame])
      (Abandons host thread plan room t before) := by
  obtain ⟨heap, hworking, hspares⟩ := h
  have hswap : Builtin.swapOf ctx t.swap = t.swapBy host.threads thread := by
    rw [Builtin.swapOf, hworking.stands.host_eq, hworking.stands.thread_eq]
    rfl
  have hfits : (t.swapBy host.threads thread).site.FitsIn heap.size := by
    rw [hspares.size_eq]
    exact hsuits.fits
  refine .step (Run.get_apply ctx) ?_
  rw [hswap]
  rcases Swap.perform_ends hfits hsuits.aligned hsuits.known recover with
    ⟨yes, swapped, hrun, hswapped⟩ | ⟨f, hcalm, hrun⟩
  · have hspares' : (t.site host.threads).Spares [] before swapped := hspares.trans (hswapped [])
    refine .step (hworking.onHeap hrun) ?_
    refine ((hworking.withHeap swapped).writeAnswer (Builtin.verdict yes) (Nat.le_refl 1)
       (Nat.le_add_left 1 7)).mono
      (fun _ after hafter => ⟨swapped, hafter, hspares'⟩) ?_
    rintro halt after ⟨hstops, hafter⟩
    exact OnTask.stopped ⟨swapped, hafter, hspares'⟩ .swap hstops
  · exact .of_error (bindState_of_error (hworking.onHeap hrun))
      (OnTask.failed ⟨heap, hworking.withHeap heap, hspares⟩ .swap hcalm)

/-- Both entry points of the swap do that, unless a recovery finds the answer. -/
theorem OnTask.runSwap (hsuits : t.Suits host.threads thread before.size)
    (h : OnTask host thread plan room t before [] [swapFrame t, taskFrame t, rootFrame] ctx)
    (caller : Caller) (recover : Bool) :
    Finishes (EntryPoint.run caller t.swap.encode
        (.builtin (if recover then .recoverSwap else .swap))) ctx
      (fun _ => OnTask host thread plan room t before [] [swapFrame t, taskFrame t, rootFrame])
      (Abandons host thread plan room t before) := by
  cases recover with
  | false => exact .step (decode_apply t ctx) (h.swap hsuits false)
  | true =>
    obtain ⟨heap, hworking, hspares⟩ := id h
    have hmem : taskFrame t ∈ [swapFrame t, taskFrame t, rootFrame] :=
      List.mem_cons_of_mem _ List.mem_cons_self
    obtain ⟨bytes, hread⟩ := hworking.read_slot hmem
    refine .step (decode_apply t ctx) (.step (hworking.stands.readCurrentAnswer hread) ?_)
    split
    · exact .of_ok rfl h
    · exact h.swap hsuits true

/-- The call of the swap. It is refused where there is no room for its frame, and then the task
fails with its own frame on the stack. -/
theorem OnTask.callSwap (hserves : host.Serves) (hsuits : t.Suits host.threads thread before.size)
    (h : OnTask host thread plan room t before [] [taskFrame t, rootFrame] ctx) (depth : Nat)
    (recover : Bool) :
    Finishes (callWithin (depth + 1) {
        name := swapFunction
        args := t.swap.encode
        options := { callerSeed := some [unanswered], recover } }) ctx
      (fun _ => OnTask host thread plan room t before [] [taskFrame t, rootFrame])
      (Abandons host thread plan room t before) := by
  obtain ⟨heap, hworking, hspares⟩ := h
  have henter := hworking.enter
    ⟨swapFunction, t.swap.encode, { callerSeed := some [unanswered], recover }⟩
    (hserves.swap_eq recover) (make_swapFrame t)
  rw [nextPosition_taskFrame] at henter
  refine .bind (henter.mono (fun _ _ => id) ?_) ?_
  · rintro halt after ⟨⟨f, rfl, hcalm⟩, hafter⟩
    exact OnTask.failed ⟨heap, hafter, hspares⟩ .task hcalm
  rintro _ entered ⟨rfl, hentered⟩
  have hentered' : OnTask host thread plan room t before []
      [swapFrame t, taskFrame t, rootFrame] entered := ⟨heap, hentered, hspares⟩
  have hpoint : ∀ {ctx}, OnTask host thread plan room t before []
      [swapFrame t, taskFrame t, rootFrame] ctx → ∀ point, Finishes (Context.consult point) ctx
      (fun _ => OnTask host thread plan room t before [] [swapFrame t, taskFrame t, rootFrame])
      (Abandons host thread plan room t before) := fun hctx point =>
    (hctx.consult point).mono (fun _ _ => id) fun _ _ hstop => hstop.2.stopped .swap hstop.1
  refine .bind (hpoint hentered' _) fun _ pushed hpushed => ?_
  refine .bind (hpushed.runSwap hsuits _ recover) fun _ answered hanswered => ?_
  refine .bind (hpoint hanswered _) fun _ last hlast => ?_
  obtain ⟨popped, hpop, hpopped⟩ := hlast.popFrame
  exact .of_ok hpop hpopped

/-! ## The task -/

/-- The answer is published. -/
theorem OnTask.publish (hin : t.answer.toNat + 1 ≤ before.size)
    (h : OnTask host thread plan room t before [] frames ctx) (result : UInt8) :
    ∃ after, Builtin.publish t result ctx = (.ok (), after) ∧
      OnTask host thread plan room t before [t.answer.toNat] frames after := by
  obtain ⟨heap, hworking, hspares⟩ := h
  have hpersist : Region.persist t.answer.toNat [result] heap
      = (.ok (), heap.put t.answer.toNat [result]) := by
    rw [persist_eq_write, write_apply, List.length_singleton, hspares.size_eq, if_pos hin]
  exact ⟨_, hworking.onHeap hpersist, _, hworking.withHeap _, hspares.put hin result⟩

/-- The body of the task, first or as a recovery. If it returns, the only byte beside the register
and the matrix that it has written is that of its answer. -/
theorem OnTask.runTask (hserves : host.Serves) (hsuits : t.Suits host.threads thread before.size)
    (h : OnTask host thread plan room t before [] [taskFrame t, rootFrame] ctx) (depth : Nat)
    (recover : Bool) :
    Finishes (Builtin.runTask (callWithin (depth + 1)) recover t.encode) ctx
      (fun _ => OnTask host thread plan room t before [t.answer.toNat] [taskFrame t, rootFrame])
      (Abandons host thread plan room t before) := by
  -- without an answer to publish the swap is called, first or as a recovery
  have hcall : Finishes (do
      callWithin (depth + 1) {
        name := swapFunction
        args := t.swap.encode
        options := { callerSeed := some [unanswered], recover } }
      Builtin.publish t (Builtin.answerByte (← Context.readAnswer 1)) : Exec Unit) ctx
      (fun _ => OnTask host thread plan room t before [t.answer.toNat] [taskFrame t, rootFrame])
      (Abandons host thread plan room t before) := by
    refine .bind (h.callSwap hserves hsuits depth recover) fun _ returned hreturned => ?_
    obtain ⟨bytes, hread⟩ := hreturned.readAnswer
    obtain ⟨after, hpublish, hafter⟩ :=
      hreturned.publish hsuits.answer_in (Builtin.answerByte bytes)
    exact .step hread (.of_ok hpublish hafter)
  refine .step (decodeTask_apply t ctx) ?_
  cases recover with
  | false => exact hcall
  | true =>
    obtain ⟨bytes, hread⟩ := h.readAnswer
    refine .step hread ?_
    show Finishes (if Builtin.answerByte bytes ≤ 1 then _ else _) _ _ _
    split
    · obtain ⟨after, hpublish, hafter⟩ :=
        h.publish hsuits.answer_in (Builtin.answerByte bytes)
      exact .step hpublish (.of_ok rfl hafter)
    · exact hcall

/-- **A dispatched task** returns with its answer published, or it is left. The register, the matrix
and the place of the answer are all that it may have changed in both cases, and if it is left, then
its frames tell how far it has come. -/
theorem Working.dispatch (hserves : host.Serves) (hsuits : t.Suits host.threads thread heap.size)
    (h : Working host thread plan room [rootFrame] heap ctx) :
    Finishes (Context.dispatch (.swap t)) ctx
      (fun _ => OnTask host thread plan room t heap [t.answer.toNat] [rootFrame])
      (Abandons host thread plan room t heap) := by
  have henter := h.enter
    ⟨taskFunction, t.encode, { calleeSeed := some [unanswered] }⟩
    (hserves.task_eq false) (make_taskFrame t)
  rw [nextPosition_rootFrame] at henter
  -- two calls can be nested, whatever the size of the region
  refine .step (Run.get_apply ctx) (.bind (henter.mono (fun _ _ => id) ?_) ?_)
  · rintro halt after ⟨⟨f, rfl, hcalm⟩, hafter⟩
    exact ⟨f, _, heap, rfl, .refused hcalm .refl, hafter⟩
  rintro _ entered ⟨rfl, hentered⟩
  have hentered' : OnTask host thread plan room t heap [] [taskFrame t, rootFrame] entered :=
    ⟨heap, hentered, .refl⟩
  refine .bind ((hentered'.consult _).mono (fun _ _ => id)
    fun _ _ hstop => hstop.2.stopped .task hstop.1) fun _ pushed hpushed => ?_
  refine .bind (hpushed.runTask hserves hsuits _ false) fun _ told htold => ?_
  refine .bind ((htold.consult .beforeFrameRemove).mono (fun _ _ => id) ?_) fun _ last hlast => ?_
  · rintro halt after ⟨⟨top, rest, hframes, hplan, rfl⟩, heap', hafter, hspares⟩
    cases hframes
    exact ⟨_, _, heap', rfl, .published rfl hplan hspares, hafter⟩
  obtain ⟨popped, hpop, hpopped⟩ := hlast.popFrame
  exact .of_ok hpop hpopped

/-! ## Replays -/

theorem Abandons.onTask {halt : Halt} (h : Abandons host thread plan room t before halt ctx) :
    ∃ frames, OnTask host thread plan room t before [t.answer.toNat] frames ctx := by
  obtain ⟨f, frames, heap, -, hleft, hworking⟩ := h
  exact ⟨frames, heap, hworking, hleft.spares⟩

theorem OnTask.told (h : OnTask host thread plan room t before [] frames ctx) :
    OnTask host thread plan room t before [t.answer.toNat] frames ctx := by
  obtain ⟨heap, hworking, hspares⟩ := h
  exact ⟨heap, hworking, hspares.mono (List.nil_subset _)⟩

/-- The recovery of a frame looks up its entry point, and the frame goes. -/
theorem OnTask.recoverTop {told : List Nat}
    (h : OnTask host thread plan room t before written frames ctx) (top : Placed) (entry : Builtin)
    (hentry : Registry.entry host.registry top.frame.name true = .ok (.builtin entry))
    (hrun : ∀ depth, Finishes (entry.run (callWithin (depth + 1)) top.frame.args) ctx
      (fun _ => OnTask host thread plan room t before told (top :: below :: rest))
      (Abandons host thread plan room t before)) :
    Finishes (Context.recoverTop top) ctx
      (fun _ => OnTask host thread plan room t before told (below :: rest))
      (Abandons host thread plan room t before) := by
  obtain ⟨heap, hworking, -⟩ := h
  have hlookup : (liftM (Registry.entry ctx.host.registry top.frame.name true) : Exec EntryPoint)
      ctx = (.ok (.builtin entry), ctx) := by
    rw [Run.lift_apply, hworking.stands.host_eq, hentry]
    rfl
  refine .step (Run.get_apply ctx) (.step hlookup (.bind (hrun _) fun _ ran hran => ?_))
  obtain ⟨popped, hpop, hpopped⟩ := hran.popFrame
  exact .of_ok hpop hpopped

/-- One round of a replay, and the others behind it. A round that halts must have left what the
replay as a whole may leave, and so must one that is the last. -/
theorem recoverFrames_finishes {rounds recovered : Nat} {done last : Context → Prop}
    (hframes : ctx.stack.calls.frames = top :: below :: rest)
    (htop : Finishes (Context.recoverTop top) ctx (fun _ => done) fun _ => last)
    (hlast : ∀ ctx, done ctx → last ctx)
    (hrest : ∀ recovered ctx, done ctx →
      Finishes (recoverFrames rounds recovered) ctx (fun _ => last) fun _ => last) :
    Finishes (recoverFrames (rounds + 1) recovered) ctx (fun _ => last) fun _ => last := by
  refine .step (Run.get_apply ctx) ?_
  simp only [hframes]
  refine .bind htop fun _ mid hmid => ?_
  -- the count may leave its range, and then the replay ends here
  cases hcount : addWord recovered 1 with
  | error halt =>
    refine .of_error (e := halt) (bindState_of_error ?_) (hlast mid hmid)
    rw [Run.liftHalt_apply]
  | ok next =>
    refine .step ?_ (hrest next mid hmid)
    rw [Run.liftHalt_apply]

/-- The task of a replay, wherever it is by then. -/
abbrev Replays (host : Host) (thread : UInt32) (plan : Option CrashPlan) (room : Region)
    (t : SwapTask) (before : Region) (ctx : Context) : Prop :=
  ∃ frames, OnTask host thread plan room t before [t.answer.toNat] frames ctx

theorem Working.recoverFrames_root {rounds recovered : Nat}
    (h : Working host thread plan room [rootFrame] heap ctx) :
    recoverFrames (rounds + 1) recovered ctx = (.ok recovered, ctx) := by
  rw [recoverFrames, Run.bind_of_ok (Run.get_apply ctx)]
  simp only [h.stands.frames_eq]
  rfl

theorem OnTask.recoverFrames_task (hserves : host.Serves)
    (hsuits : t.Suits host.threads thread before.size)
    (h : OnTask host thread plan room t before [] [taskFrame t, rootFrame] ctx)
    (rounds recovered : Nat) :
    Finishes (recoverFrames (rounds + 2) recovered) ctx
      (fun _ => Replays host thread plan room t before)
      (fun _ => Replays host thread plan room t before) := by
  obtain ⟨_, hworking, -⟩ := id h
  have htop := h.recoverTop (taskFrame t) .recoverTask (hserves.task_eq true)
    fun depth => h.runTask hserves hsuits depth true
  refine recoverFrames_finishes hworking.stands.frames_eq
    (htop.mono (fun _ _ => id) fun _ _ => Abandons.onTask)
    (fun ctx hctx => ⟨_, hctx⟩) fun recovered ctx hctx => ?_
  obtain ⟨heap, hroot, -⟩ := id hctx
  exact .of_ok hroot.recoverFrames_root ⟨_, hctx⟩

theorem OnTask.recoverFrames_swap (hserves : host.Serves)
    (hsuits : t.Suits host.threads thread before.size)
    (h : OnTask host thread plan room t before [] [swapFrame t, taskFrame t, rootFrame] ctx)
    (rounds recovered : Nat) :
    Finishes (recoverFrames (rounds + 3) recovered) ctx
      (fun _ => Replays host thread plan room t before)
      (fun _ => Replays host thread plan room t before) := by
  obtain ⟨_, hworking, -⟩ := id h
  have htop := h.recoverTop (swapFrame t) .recoverSwap (hserves.swap_eq true)
    fun depth => h.runSwap hsuits (callWithin (depth + 1)) true
  exact recoverFrames_finishes hworking.stands.frames_eq
    (htop.mono (fun _ _ => id) fun _ _ => Abandons.onTask)
    (fun ctx hctx => ⟨_, hctx.told⟩)
    fun recovered ctx hctx => hctx.recoverFrames_task hserves hsuits rounds recovered

/-- A replay begins with the frames that are written. -/
theorem restore_of_scan {region : Region} {calls : CallStack} (hmode : host.mode = .recovery)
    (hscan : scan region = .ok calls) :
    restore ⟨host, thread, ⟨.empty, region⟩, some heap, none, []⟩
      = recoverFrames wordLimit 0 ⟨host, thread, ⟨calls, region⟩, some heap, none, []⟩ := by
  have hreload : Context.reload ⟨host, thread, ⟨.empty, region⟩, some heap, none, []⟩
      = (.ok (), ⟨host, thread, ⟨calls, region⟩, some heap, none, []⟩) := by
    rw [Context.reload, onStack_apply, DurableStack.reload, Run.update_apply, hscan]
    rfl
  rw [restore, Run.bind_of_ok (Run.get_apply _), if_neg fun hnot => hnot hmode]
  exact Run.bind_of_ok hreload

/-- With the root frame alone, or without any, there is nothing to replay. -/
theorem restore_of_short {region : Region} {calls : CallStack} (hmode : host.mode = .recovery)
    (hscan : scan region = .ok calls) (hshort : calls.frames.length ≤ 1) :
    restore ⟨host, thread, ⟨.empty, region⟩, some heap, none, []⟩
      = (.ok 0, ⟨host, thread, ⟨calls, region⟩, some heap, none, []⟩) := by
  obtain ⟨rounds, hrounds⟩ : ∃ rounds, wordLimit = rounds + 1 := ⟨wordLimit - 1, rfl⟩
  rw [restore_of_scan hmode hscan, hrounds, recoverFrames, Run.bind_of_ok (Run.get_apply _)]
  obtain ⟨_ | ⟨top, _ | ⟨below, rest⟩⟩⟩ := calls
  · rfl
  · rfl
  · exact absurd hshort (by simp)

/-- **What a replay may write**, whatever the heap holds by then: the register, the matrix and
the answer of the task whose frames it finds. -/
theorem restore_finishes {region : Region} (hserves : host.Serves) (hmode : host.mode = .recovery)
    (hsuits : t.Suits host.threads thread heap.size) (hwritten : region.Written stackEnd frames)
    (hsuspends : t.Suspends frames) :
    Finishes restore ⟨host, thread, ⟨.empty, region⟩, some heap, none, []⟩
      (fun _ => Replays host thread none region t heap)
      (fun _ => Replays host thread none region t heap) := by
  have hne : frames ≠ [] := by cases hsuspends <;> exact List.cons_ne_nil _ _
  have hworking : Working host thread none region frames heap
      ⟨host, thread, ⟨⟨frames⟩, region⟩, some heap, none, []⟩ :=
    ⟨⟨rfl, rfl, rfl, rfl, hwritten⟩, rfl, rfl, rfl⟩
  have hstart : OnTask host thread none region t heap [] frames
      ⟨host, thread, ⟨⟨frames⟩, region⟩, some heap, none, []⟩ := ⟨heap, hworking, .refl⟩
  refine .congr (restore_of_scan hmode (scan_of_written hne hwritten)) ?_
  obtain ⟨rounds, hrounds⟩ : ∃ rounds, wordLimit = rounds + 3 := ⟨wordLimit - 3, rfl⟩
  rw [hrounds]
  cases hsuspends with
  | task => exact hstart.recoverFrames_task hserves hsuits (rounds + 1) 0
  | swap => exact hstart.recoverFrames_swap hserves hsuits rounds 0

end Task

end Context

end DurableCalls
