/-
`Replay.lean` -- the replay of a stopped task, by a process that may be stopped as well.

A replay starts with what is durable, so it finds one of the cases of `Suspended`, and
each of them leads to the heap that the task settles. On the way it passes through
others of the cases, and only there can it be stopped (`At.recoverFrames_ends`). So it does not
matter how often a replay is stopped.

The heap is not looked at before the swap is recovered, or its answer is published. So it may be
another one by then than at the stop.
-/
import DurableCalls.Restoration
import DurableCalls.Proofs.Call.SwapTask

set_option autoImplicit false

namespace DurableCalls

open CallStack Region

namespace Context

variable {host host' : Host} {thread thread' : UInt32} {t : SwapTask}
  {before swapped heap heap' : Region} {yes : Bool} {ctx left : Context} {frames : List Placed}
  {slot : UInt8} {point : FaultPoint}

/-- The calls are taken from the region, by a process that has nothing else of the one before: the
context that comes out is for its own host, thread and heap. -/
theorem At.reload (h : At host thread frames slot heap left) (hne : frames ≠ [])
    (hserves : host'.Serves) (hhost : ctx.host = host') (hthread : ctx.thread = thread')
    (hregion : ctx.stack.region = left.stack.region) (hheap : ctx.heap = some heap') :
    ∃ after, Context.reload ctx = (.ok (), after) ∧ after.hook = ctx.hook ∧
      At host' thread' frames slot heap' after := by
  have hframes : left.stack.calls.frames ≠ [] := by
    rw [h.stands.frames_eq]
    exact hne
  -- the region was left as the calls say, so a scan of it finds them
  have hscan : scan ctx.stack.region = .ok ⟨frames⟩ := by
    rw [hregion, ← h.stands.calls_eq]
    exact h.stands.mirrored.scan_eq hframes
  have hreload : DurableStack.reload ctx.stack = (.ok (), ⟨⟨frames⟩, ctx.stack.region⟩) := by
    rw [DurableStack.reload, Run.update_apply, hscan]
    rfl
  have hmirrored : left.stack.region.Written stackEnd left.stack.calls.frames := h.stands.mirrored
  rw [h.stands.frames_eq, ← hregion] at hmirrored
  refine ⟨{ ctx with stack := ⟨⟨frames⟩, ctx.stack.region⟩ }, ?_, rfl, hserves,
    ⟨hhost, hthread, hheap, rfl, hmirrored⟩, ?_, ?_⟩
  · rw [Context.reload, onStack_apply, hreload]
  · show 168 ≤ ctx.stack.region.size
    rw [hregion]
    exact h.room
  · show ctx.stack.region.read 64 1 = _
    rw [hregion]
    exact h.slot_eq

/-! ## One frame -/

/-- The recovery of a frame is one of the built-in ones. -/
theorem At.recoverTop_apply (h : At host thread frames slot heap ctx) (top : Placed)
    (entry : Builtin)
    (hentry : Registry.entry host.registry top.frame.name true = .ok (.builtin entry)) :
    recoverTop top ctx
      = (do entry.run (callWithin ctx.depthBound) top.frame.args; popFrame : Exec Unit) ctx := by
  rw [recoverTop, Run.bind_of_ok (Run.get_apply ctx), h.stands.host_eq, hentry,
    Run.bind_of_ok (Run.lift_apply _ ctx)]
  rfl

/-- The frame of a swap goes once there is an answer. -/
theorem At.recoverSwapFrame_of
    (h : At host thread [swapFrame t, taskFrame t, rootFrame] slot heap ctx)
    (hrun : Ends (Builtin.runRecoverSwap t.swap.encode) ctx
      (fun _ => At host thread [swapFrame t, taskFrame t, rootFrame] (answerOf yes) swapped)
      (Stopped host thread t before swapped yes)) :
    Ends (recoverTop (swapFrame t)) ctx
      (fun _ => At host thread [taskFrame t, rootFrame] (answerOf yes) swapped)
      (Stopped host thread t before swapped yes) := by
  refine .congr (h.recoverTop_apply _ .recoverSwap (h.serves.swap_eq true)) (.bind hrun ?_)
  intro _ answered hanswered
  obtain ⟨after, hpop, hhook, hafter⟩ := hanswered.popSwap
  exact .of_ok hpop hhook hafter

/-- Without an answer the swap is recovered. -/
theorem At.recoverSwapFrame (hs : t.Settles host.threads thread true before swapped yes)
    (h : At host thread [swapFrame t, taskFrame t, rootFrame] unanswered before ctx) :
    Ends (recoverTop (swapFrame t)) ctx
      (fun _ => At host thread [taskFrame t, rootFrame] (answerOf yes) swapped)
      (Stopped host thread t before swapped yes) :=
  h.recoverSwapFrame_of (h.runRecoverSwap hs)

/-- An answer that is there is final. -/
theorem At.recoverSwapFrame_of_answered
    (h : At host thread [swapFrame t, taskFrame t, rootFrame] (answerOf yes) swapped ctx) :
    Ends (recoverTop (swapFrame t)) ctx
      (fun _ => At host thread [taskFrame t, rootFrame] (answerOf yes) swapped)
      (Stopped host thread t before swapped yes) :=
  h.recoverSwapFrame_of (.of_ok h.runRecoverSwap_of_answered rfl h)

/-- The frame of a task goes once its answer is published. -/
theorem At.recoverTaskFrame_of (h : At host thread [taskFrame t, rootFrame] slot heap ctx)
    (hrun : Ends (Builtin.runTask (callWithin ctx.depthBound) true t.encode) ctx
      (fun _ => At host thread [taskFrame t, rootFrame] (answerOf yes) (t.settled swapped yes))
      (Stopped host thread t before swapped yes)) :
    Ends (recoverTop (taskFrame t)) ctx (fun _ => Idle host thread (t.settled swapped yes))
      (Stopped host thread t before swapped yes) := by
  refine .congr (h.recoverTop_apply _ .recoverTask (h.serves.task_eq true)) (.bind hrun ?_)
  intro _ settled hsettled
  obtain ⟨after, hpop, hhook, hidle⟩ := hsettled.popTask
  exact .of_ok hpop hhook hidle

/-- Without an answer the swap is called. -/
theorem At.recoverTaskFrame (hs : t.Settles host.threads thread true before swapped yes)
    (hmode : host.mode = .recovery)
    (h : At host thread [taskFrame t, rootFrame] unanswered before ctx) :
    Ends (recoverTop (taskFrame t)) ctx (fun _ => Idle host thread (t.settled swapped yes))
      (Stopped host thread t before swapped yes) :=
  h.recoverTaskFrame_of (h.runTask hs fun _ => hmode)

/-- An answer that is there is published, again if need be. Whether the process was stopped before
the answer was published or behind that, the heap is the same in the end. -/
theorem At.recoverTaskFrame_of_answered (hin : t.answer.toNat + 1 ≤ swapped.size)
    (hheap : heap = swapped ∨ heap = t.settled swapped yes)
    (h : At host thread [taskFrame t, rootFrame] (answerOf yes) heap ctx) :
    Ends (recoverTop (taskFrame t)) ctx (fun _ => Idle host thread (t.settled swapped yes))
      (Stopped host thread t before swapped yes) := by
  refine h.recoverTaskFrame_of ?_
  rcases hheap with rfl | rfl
  · exact .of_ok (h.runTask_of_answered hin) rfl (h.withHeap _)
  · -- publishing an answer again changes nothing
    have hin' : t.answer.toNat + 1 ≤ (t.settled swapped yes).size := by
      rw [SwapTask.settled, size_put]
      exact hin
    have hagain : (t.settled swapped yes).put t.answer.toNat (Builtin.verdict yes)
        = t.settled swapped yes := put_put (by rw [verdict_eq]; exact hin)
    refine .of_ok (h.runTask_of_answered hin') rfl ?_
    rw [hagain]
    exact h.withHeap _

/-! ## Frame after frame -/

theorem Idle.recoverFrames (h : Idle host thread heap ctx) (rounds n : Nat) :
    recoverFrames (rounds + 1) n ctx = (.ok n, ctx) := by
  rw [Context.recoverFrames, Run.bind_of_ok (Run.get_apply ctx), h.stands.frames_eq]
  rfl

/-- One round of the replay, and the rounds behind it. -/
theorem recoverFrames_succ {top below : Placed} {rest : List Placed} {rounds n : Nat}
    {done : Context → Prop} {last : Nat → Context → Prop} {stopped : FaultPoint → Context → Prop}
    (hframes : ctx.stack.calls.frames = top :: below :: rest) (hn : n + 1 < wordLimit)
    (htop : Ends (recoverTop top) ctx (fun _ => done) stopped)
    (hrest : ∀ after, done after → Ends (recoverFrames rounds (n + 1)) after last stopped) :
    Ends (recoverFrames (rounds + 1) n) ctx last stopped := by
  refine .step (Run.get_apply ctx) rfl ?_
  rw [hframes]
  refine .bind htop fun _ after hafter => ?_
  have hcount : (liftM (addWord n 1) : Exec Nat) after = (.ok (n + 1), after) := by
    rw [Run.liftHalt_apply, addWord_eq hn]
  exact .step hcount rfl (hrest after hafter)

/-- **The rounds settle the task**, or are stopped where others can go on. They are as many as
there are frames above the root. -/
theorem At.recoverFrames_ends (h : At host thread frames slot heap ctx)
    (hmode : host.mode = .recovery)
    (hsuspended : Suspended t before swapped yes point frames slot heap)
    (hs : point = .afterFramePush → t.Settles host.threads thread true before swapped yes)
    (hin : t.answer.toNat + 1 ≤ swapped.size) :
    Ends (recoverFrames wordLimit 0) ctx
      (fun n after => n = frames.length - 1 ∧ Idle host thread (t.settled swapped yes) after)
      (Stopped host thread t before swapped yes) := by
  -- more rounds than the three that the longest replay takes
  have hrounds : wordLimit = 18446744073709551613 + 1 + 1 + 1 := rfl
  have hidle : ∀ rounds n after, Idle host thread (t.settled swapped yes) after →
      Ends (recoverFrames (rounds + 1) n) after
        (fun m after => m = n ∧ Idle host thread (t.settled swapped yes) after)
        (Stopped host thread t before swapped yes) :=
    fun rounds n after hafter => .of_ok (hafter.recoverFrames rounds n) rfl ⟨rfl, hafter⟩
  rw [hrounds]
  -- the frame of the swap leads to the frame of the task, with an answer in its slot
  cases hsuspended with
  | called =>
    exact recoverFrames_succ h.stands.frames_eq (by decide)
      (h.recoverTaskFrame (hs rfl) hmode) (hidle _ _)
  | returned behind heap_eq =>
    exact recoverFrames_succ h.stands.frames_eq (by decide)
      (h.recoverTaskFrame_of_answered hin heap_eq) (hidle _ _)
  | swapping =>
    refine recoverFrames_succ h.stands.frames_eq (by decide)
      (h.recoverSwapFrame (hs rfl)) fun after hafter => ?_
    exact recoverFrames_succ hafter.stands.frames_eq (by decide)
      (hafter.recoverTaskFrame_of_answered hin (.inl rfl)) (hidle _ _)
  | answered behind =>
    refine recoverFrames_succ h.stands.frames_eq (by decide)
      h.recoverSwapFrame_of_answered fun after hafter => ?_
    exact recoverFrames_succ hafter.stands.frames_eq (by decide)
      (hafter.recoverTaskFrame_of_answered hin (.inl rfl)) (hidle _ _)

/-- **A replay settles the task**, whatever heap it is given, and counts the frames above the root.
How far the task had come is told by what was suspended. The swap is asked for only where it had not
begun: a heap on which it cannot be settled is no obstacle behind its answer. -/
theorem At.restore_ends (h : At host thread frames slot heap left) (hserves : host'.Serves)
    (hmode : host'.mode = .recovery) (hhost : ctx.host = host') (hthread : ctx.thread = thread')
    (hregion : ctx.stack.region = left.stack.region) (hheap : ctx.heap = some heap')
    (hsuspended : Suspended t before swapped yes point frames slot heap')
    (hs : point = .afterFramePush → t.Settles host'.threads thread' true before swapped yes)
    (hin : t.answer.toNat + 1 ≤ swapped.size) :
    Ends restore ctx
      (fun n after => n = frames.length - 1 ∧ Idle host' thread' (t.settled swapped yes) after)
      (Stopped host' thread' t before swapped yes) := by
  have hne : frames ≠ [] := by cases hsuspended <;> exact List.cons_ne_nil _ _
  obtain ⟨loaded, hreload, hhook, hloaded⟩ := h.reload hne hserves hhost hthread hregion hheap
  have hallowed : ¬ctx.host.mode ≠ .recovery := by
    rw [hhost, hmode]
    exact fun hne => hne rfl
  refine .step (Run.get_apply ctx) rfl ?_
  rw [if_neg hallowed]
  exact .step hreload hhook (hloaded.recoverFrames_ends hmode hsuspended hs hin)

/-! ## The only thread -/

/-- A process that recovers what another one has left: the stack region and the heap.
It has its own hook, and nothing in memory. -/
structure Resumes (ctx left : Context) : Prop where
  host_eq : ctx.host = soleHost .recovery
  thread_eq : ctx.thread = 0
  region_eq : ctx.stack.region = left.stack.region
  heap_eq : ctx.heap = left.heap

/-- **A replay settles the task, or is stopped where it can go on.** What a stopped replay leaves is
again what a stopped task leaves, so the lemma can be used once more for each further crash. -/
theorem restore_ends (hs : ∀ recover, t.Settles 1 0 recover before swapped yes)
    (hstopped : ∃ point, Stopped host 0 t before swapped yes point left)
    (hresumes : ctx.Resumes left) :
    Ends restore ctx (fun _ => Idle (soleHost .recovery) 0 (t.settled swapped yes))
      (Stopped (soleHost .recovery) 0 t before swapped yes) := by
  obtain ⟨point, frames, slot, heap, hsuspended, hleft⟩ := hstopped
  have hheap : ctx.heap = some heap := hresumes.heap_eq.trans hleft.stands.heap_eq
  exact (hleft.restore_ends serves_of_addBuiltins rfl hresumes.host_eq hresumes.thread_eq
    hresumes.region_eq hheap hsuspended (fun _ => hs true) (hs true).answer_in).mono
    (fun _ _ hdone => hdone.2) fun _ _ hstop => hstop

/-- Without a hook a replay is not stopped. -/
theorem restore_of_calm (hs : ∀ recover, t.Settles 1 0 recover before swapped yes)
    (hstopped : ∃ point, Stopped host 0 t before swapped yes point left)
    (hresumes : ctx.Resumes left) (hcalm : ctx.hook = none) :
    ∃ n after, restore ctx = (.ok n, after) := by
  rcases restore_ends hs hstopped hresumes with ⟨n, after, hrun, -⟩ | ⟨-, -, -, -, hhook, -⟩
  · exact ⟨n, after, hrun⟩
  · exact absurd hcalm hhook

end Context

end DurableCalls
