/-
`SwapTask.lean` -- a swap task, from call to call.

The task runs in a frame behind the root, and its swap in a frame behind that. All that
a crash can leave is which of the two frames are there, whether the task's slot holds the
answer of the swap, and whether the heap was changed: the cases of `Suspended`. They come
from following the run to its fault points (`Idle.dispatch`). What the swap does to the heap
is looked up in one place only (`SwapTask.Settles`), and nothing else here depends on it.

A slot that holds an answer is what tells the recovery that the swap is done, so the byte
that seeds it must be none of the two answers.
-/
import DurableCalls.Proofs.Context.Stands
import DurableCalls.Proofs.Task.Codec

set_option autoImplicit false

namespace DurableCalls

open CallStack Region Context

/-! ## The host -/

/-- The built-in functions are registered, under their own names. A frame that a task has left names
one of them, so each process that serves can replay it. -/
structure Host.Serves (host : Host) : Prop where
  task_eq : ∀ recover, Registry.entry host.registry taskFunction recover
    = .ok (.builtin (if recover then .recoverTask else .task))
  swap_eq : ∀ recover, Registry.entry host.registry swapFunction recover
    = .ok (.builtin (if recover then .recoverSwap else .swap))

/-- They can be registered behind any others. -/
theorem serves_of_addBuiltins {registry : Registry} {mode : Mode} {threads : UInt32} :
    Host.Serves ⟨registry.addBuiltins, mode, threads⟩ := by
  constructor
  · intro recover
    simp only [Registry.entry, Registry.addBuiltins, Table.find?_insert]
    cases recover <;> rfl
  · intro recover
    simp only [Registry.entry, Registry.addBuiltins, Table.find?_insert]
    cases recover <;> rfl

/-- A process of one thread with the built-in functions. -/
def soleHost (mode : Mode) : Host := ⟨Registry.addBuiltins .empty, mode, 1⟩

theorem withBuiltins_one (mode : Mode) : Host.withBuiltins mode 1 = .ok (soleHost mode) := rfl

/-! ## The frames -/

/-- The frame that a worker stands on. -/
def rootFrame : Placed := ⟨⟨rootFunction, []⟩, 0⟩

/-- The frame of a task, and the frame of its swap. -/
def taskFrame (t : SwapTask) : Placed := ⟨⟨taskFunction, t.encode⟩, 64⟩

def swapFrame (t : SwapTask) : Placed := ⟨⟨swapFunction, t.swap.encode⟩, 128⟩

section Frames

variable (t : SwapTask)

theorem size_taskFrame : (taskFrame t).frame.size = 55 := by
  rw [Frame.size, taskFrame, SwapTask.length_encode]
  rfl

theorem size_swapFrame : (swapFrame t).frame.size = 40 := by
  rw [Frame.size, swapFrame, SwapArgs.length_encode]
  rfl

theorem past_taskFrame : (taskFrame t).past = 119 := by
  rw [Placed.past, size_taskFrame]
  rfl

theorem nextPosition_rootFrame : nextPosition [rootFrame] = 64 := rfl

theorem nextPosition_taskFrame : nextPosition [taskFrame t, rootFrame] = 128 := by
  rw [nextPosition, endOf, past_taskFrame]
  rfl

theorem make_taskFrame : Frame.make taskFunction t.encode = .ok (taskFrame t).frame := by
  have hname : taskFunction.utf8ByteSize ≤ 65535 := by decide
  have hargs : t.encode.length ≤ 65535 := by rw [SwapTask.length_encode]; decide
  exact Frame.make_eq_ok_iff.2 ⟨rfl, hname, hargs⟩

theorem make_swapFrame : Frame.make swapFunction t.swap.encode = .ok (swapFrame t).frame := by
  have hname : swapFunction.utf8ByteSize ≤ 65535 := by decide
  have hargs : t.swap.encode.length ≤ 65535 := by rw [SwapArgs.length_encode]; decide
  exact Frame.make_eq_ok_iff.2 ⟨rfl, hname, hargs⟩

end Frames

/-! ## What the task does to the heap -/

/-- A swap, first or as a recovery. -/
def Swap.perform (s : Swap) (recover : Bool) : Run Region Bool :=
  if recover then s.recover else s.attempt

namespace SwapTask

/-- The swap that one of so many threads makes for a task. -/
def swapBy (t : SwapTask) (threads thread : UInt32) : Swap :=
  ⟨t.swap.register.toNat, ⟨t.swap.matrix.toNat, threads⟩, t.swap.expected, t.swap.new, thread⟩

/-- On this heap the swap of the task answers `yes` and leaves `swapped`, first or as a
recovery. The answer of the task has a place in the heap. -/
structure Settles (t : SwapTask) (threads thread : UInt32) (recover : Bool)
    (before swapped : Region) (yes : Bool) : Prop where
  swap_eq : (t.swapBy threads thread).perform recover before = (.ok yes, swapped)
  answer_in : t.answer.toNat + 1 ≤ swapped.size

/-- The heap that the task leaves: the answer is published. -/
def settled (t : SwapTask) (swapped : Region) (yes : Bool) : Region :=
  swapped.put t.answer.toNat (Builtin.verdict yes)

end SwapTask

def answerOf (yes : Bool) : UInt8 := if yes then 1 else 0

theorem verdict_eq (yes : Bool) : Builtin.verdict yes = [answerOf yes] := rfl

theorem answerOf_le (yes : Bool) : answerOf yes ≤ 1 := by cases yes <;> decide

/-- What is on the stack and in the heap when a task is stopped at a point: its frames, the byte
in its slot, the heap. The swap has answered wherever the stop is not at the entry of a call. -/
inductive Suspended (t : SwapTask) (before swapped : Region) (yes : Bool) :
    FaultPoint → List Placed → UInt8 → Region → Prop
  | called : Suspended t before swapped yes .afterFramePush [taskFrame t, rootFrame] unanswered
      before
  | swapping : Suspended t before swapped yes .afterFramePush
      [swapFrame t, taskFrame t, rootFrame] unanswered before
  | answered {point : FaultPoint} (behind : point ≠ .afterFramePush) :
      Suspended t before swapped yes point [swapFrame t, taskFrame t, rootFrame] (answerOf yes)
        swapped
  | returned {point : FaultPoint} {heap : Region} (behind : point ≠ .afterFramePush)
      (heap_eq : heap = swapped ∨ heap = t.settled swapped yes) :
      Suspended t before swapped yes point [taskFrame t, rootFrame] (answerOf yes) heap

namespace Context

/-- The context of a thread on a region with room for the three frames, with a byte in the slot
of the task. -/
structure At (host : Host) (thread : UInt32) (frames : List Placed) (slot : UInt8) (heap : Region)
    (ctx : Context) : Prop where
  serves : host.Serves
  stands : Stands host thread frames heap ctx
  room : 168 ≤ ctx.stack.region.size
  slot_eq : ctx.stack.region.read 64 1 = .ok [slot]

/-- The context that a task leaves that is stopped at a point. -/
def Stopped (host : Host) (thread : UInt32) (t : SwapTask) (before swapped : Region) (yes : Bool)
    (point : FaultPoint) (ctx : Context) : Prop :=
  ∃ frames slot heap, Suspended t before swapped yes point frames slot heap ∧
    At host thread frames slot heap ctx

variable {host : Host} {thread : UInt32} {t : SwapTask} {before swapped heap : Region} {yes : Bool}
  {ctx : Context} {frames : List Placed} {slot : UInt8}

theorem At.withHook (h : At host thread frames slot heap ctx) (hook : Option FaultHook) :
    At host thread frames slot heap { ctx with hook } :=
  ⟨h.serves, h.stands.withHook hook, h.room, h.slot_eq⟩

/-- A fault point of a task whose context is one that a stop may leave. -/
theorem At.consult (h : At host thread frames slot heap ctx) {point : FaultPoint}
    (hsuspended : Suspended t before swapped yes point frames slot heap) :
    Ends (Context.consult point) ctx (fun _ => At host thread frames slot heap)
      (Stopped host thread t before swapped yes) := by
  refine (consult_ends point ctx).mono ?_ ?_
  · rintro - after ⟨hook, rfl⟩
    exact h.withHook hook
  · rintro place after ⟨rfl, hook, rfl⟩
    exact ⟨frames, slot, heap, hsuspended, h.withHook hook⟩

/-! ## The swap -/

theorem At.writeAnswer
    (h : At host thread [swapFrame t, taskFrame t, rootFrame] slot swapped ctx) :
    Ends (Context.writeAnswer (Builtin.verdict yes)) ctx
      (fun _ => At host thread [swapFrame t, taskFrame t, rootFrame] (answerOf yes) swapped)
      (Stopped host thread t before swapped yes) := by
  have hroom := h.room
  have hmem : taskFrame t ∈ [swapFrame t, taskFrame t, rootFrame] := by simp
  have hlen : (Builtin.verdict yes).length ≤ 8 := by rw [verdict_eq, List.length_singleton]; decide
  obtain ⟨written, hwrite, hhook, hstands, hstack⟩ := h.stands.writeSlot hmem hlen
  have hwritten : At host thread [swapFrame t, taskFrame t, rootFrame] (answerOf yes) swapped
      written := by
    refine ⟨h.serves, hstands, ?_, ?_⟩
    · rw [hstack, size_put]
      exact hroom
    · have hin : 64 + [answerOf yes].length ≤ ctx.stack.region.size := by
        rw [List.length_singleton]
        omega
      rw [hstack]
      exact read_put_self hin
  have hanswered : Suspended t before swapped yes .afterAnswerWrite
      [swapFrame t, taskFrame t, rootFrame] (answerOf yes) swapped := .answered nofun
  refine .step (Run.lift_apply _ ctx) rfl (.step (Run.get_apply ctx) rfl ?_)
  rw [h.stands.answerSlot_eq]
  exact .step hwrite hhook (hwritten.consult hanswered)

theorem At.withHeap (h : At host thread frames slot heap ctx) (next : Region) :
    At host thread frames slot next { ctx with heap := some next } :=
  ⟨h.serves, h.stands.withHeap next, h.room, h.slot_eq⟩

theorem At.swapOf_eq (h : At host thread frames slot heap ctx) :
    Builtin.swapOf ctx t.swap = t.swapBy host.threads thread := by
  rw [Builtin.swapOf, h.stands.host_eq, h.stands.thread_eq]
  rfl

theorem At.onHeap_apply {α : Type} {m : Run Region α} {a : α} {next : Region}
    (h : At host thread frames slot heap ctx) (hm : m heap = (.ok a, next)) :
    onHeap m ctx = (.ok a, { ctx with heap := some next }) := by
  rw [Context.onHeap_apply m h.stands.heap_eq, hm]

theorem decode_apply (t : SwapTask) (ctx : Context) :
    (liftM (SwapArgs.decode t.swap.encode) : Exec SwapArgs) ctx = (.ok t.swap, ctx) := by
  rw [Run.lift_apply, SwapArgs.decode_encode]
  rfl

/-- The swap of a task runs and answers. -/
theorem At.runSwap (hs : t.Settles host.threads thread false before swapped yes)
    (h : At host thread [swapFrame t, taskFrame t, rootFrame] slot before ctx) :
    Ends (Builtin.runSwap t.swap.encode) ctx
      (fun _ => At host thread [swapFrame t, taskFrame t, rootFrame] (answerOf yes) swapped)
      (Stopped host thread t before swapped yes) := by
  refine .step (decode_apply t ctx) rfl (.step (Run.get_apply ctx) rfl ?_)
  rw [h.swapOf_eq]
  exact .step (h.onHeap_apply hs.swap_eq) rfl (h.withHeap swapped).writeAnswer

/-- The recovery of the swap does the same as long as the slot holds no answer. -/
theorem At.runRecoverSwap (hs : t.Settles host.threads thread true before swapped yes)
    (h : At host thread [swapFrame t, taskFrame t, rootFrame] unanswered before ctx) :
    Ends (Builtin.runRecoverSwap t.swap.encode) ctx
      (fun _ => At host thread [swapFrame t, taskFrame t, rootFrame] (answerOf yes) swapped)
      (Stopped host thread t before swapped yes) := by
  have hread := h.stands.readCurrentAnswer h.slot_eq
  have hopen : ¬Builtin.answerByte [unanswered] ≤ 1 := by decide
  refine .step (decode_apply t ctx) rfl (.step hread rfl ?_)
  rw [if_neg hopen]
  refine .step (Run.get_apply ctx) rfl ?_
  rw [h.swapOf_eq]
  exact .step (h.onHeap_apply hs.swap_eq) rfl (h.withHeap swapped).writeAnswer

/-- An answer that is already there is left as it is. -/
theorem At.runRecoverSwap_of_answered
    (h : At host thread [swapFrame t, taskFrame t, rootFrame] (answerOf yes) heap ctx) :
    Builtin.runRecoverSwap t.swap.encode ctx = (.ok (), ctx) := by
  have hread := h.stands.readCurrentAnswer h.slot_eq
  have hanswered : Builtin.answerByte [answerOf yes] ≤ 1 := answerOf_le yes
  rw [Builtin.runRecoverSwap, Run.bind_of_ok (decode_apply t ctx), Run.bind_of_ok hread,
    if_pos hanswered]
  rfl

/-- The frame of the swap goes, and its answer stays. -/
theorem At.popSwap (h : At host thread [swapFrame t, taskFrame t, rootFrame] slot heap ctx) :
    ∃ after, popFrame ctx = (.ok (), after) ∧ after.hook = ctx.hook ∧
      At host thread [taskFrame t, rootFrame] slot heap after := by
  obtain ⟨after, hpop, hhook, hstands, hsame, hslot⟩ := h.stands.popFrame
  refine ⟨after, hpop, hhook, h.serves, hstands, by rw [hsame]; exact h.room, ?_⟩
  rw [← h.slot_eq]
  exact hslot 1 (by decide)

/-- The swap is entered: its frame is on the stack, and the slot of the task is filled again with
what is no answer. -/
theorem At.enterSwap {recover : Bool} (hmode : recover = true → host.mode = .recovery)
    (h : At host thread [taskFrame t, rootFrame] slot heap ctx) :
    ∃ entered, enter {
        name := swapFunction
        args := t.swap.encode
        options := { callerSeed := some [unanswered], recover } } ctx
          = (.ok (.builtin (if recover then .recoverSwap else .swap)), entered) ∧
      entered.hook = ctx.hook ∧
      At host thread [swapFrame t, taskFrame t, rootFrame] unanswered heap entered := by
  have hposition := nextPosition_taskFrame t
  have hroom : nextPosition [taskFrame t, rootFrame] + (swapFrame t).frame.size
      ≤ ctx.stack.region.size := by
    rw [hposition, size_swapFrame]
    exact h.room
  have hpos : 1 ≤ (filler { callerSeed := some [unanswered], recover }).length := by simp [filler]
  have hmax : (filler { callerSeed := some [unanswered], recover }).length ≤ 8 := by
    simp [filler]
  obtain ⟨entered, henter, hhook, hstands, hsame, hslot, -⟩ :=
    h.stands.enter hmode (h.serves.swap_eq recover) (make_swapFrame t) hpos hmax rfl hroom
  rw [hposition] at hstands
  exact ⟨entered, henter, hhook, h.serves, hstands, by rw [hsame]; exact h.room, hslot⟩

/-- The call of the swap, first or as a recovery: a frame for it, the swap, and the frame
is gone. -/
theorem At.callSwap {depth : Nat} {recover : Bool}
    (hs : t.Settles host.threads thread recover before swapped yes)
    (hmode : recover = true → host.mode = .recovery)
    (h : At host thread [taskFrame t, rootFrame] slot before ctx) :
    Ends (callWithin (depth + 1) {
        name := swapFunction
        args := t.swap.encode
        options := { callerSeed := some [unanswered], recover } }) ctx
      (fun _ => At host thread [taskFrame t, rootFrame] (answerOf yes) swapped)
      (Stopped host thread t before swapped yes) := by
  obtain ⟨entered, henter, hhook, hentered⟩ := h.enterSwap hmode
  refine .step henter hhook (.bind (hentered.consult .swapping) ?_)
  intro _ pushed hpushed
  -- without an answer both entry points make the same swap
  have hrun : Ends (EntryPoint.run (callWithin depth) t.swap.encode
      (.builtin (if recover then .recoverSwap else .swap))) pushed
      (fun _ => At host thread [swapFrame t, taskFrame t, rootFrame] (answerOf yes) swapped)
      (Stopped host thread t before swapped yes) := by
    cases recover with
    | false => exact hpushed.runSwap hs
    | true => exact hpushed.runRecoverSwap hs
  refine .bind hrun fun _ answered hanswered => ?_
  have hremove : Suspended t before swapped yes .beforeFrameRemove
      [swapFrame t, taskFrame t, rootFrame] (answerOf yes) swapped := .answered nofun
  refine .bind (hanswered.consult hremove) fun _ last hlast => ?_
  obtain ⟨popped, hpop, hhook', hpopped⟩ := hlast.popSwap
  exact .of_ok hpop hhook' hpopped

/-! ## The task -/

/-- The answer goes to its place in the heap. -/
theorem At.publish (h : At host thread frames slot heap ctx)
    (hin : t.answer.toNat + 1 ≤ heap.size) :
    Builtin.publish t (answerOf yes) ctx
      = (.ok (), { ctx with heap := some (heap.put t.answer.toNat (Builtin.verdict yes)) }) := by
  have hpersist : Region.persist t.answer.toNat [answerOf yes] heap
      = (.ok (), heap.put t.answer.toNat [answerOf yes]) := by
    rw [persist_eq_write, write_apply, List.length_singleton, if_pos hin]
  exact h.onHeap_apply hpersist

theorem decodeTask_apply (t : SwapTask) (ctx : Context) :
    (liftM (SwapTask.decode t.encode) : Exec SwapTask) ctx = (.ok t, ctx) := by
  rw [Run.lift_apply, SwapTask.decode_encode]
  rfl

/-- A task whose slot holds no answer calls its swap, and publishes what it answers. Where it is
stopped, the frames and the slot tell a replay how far it has come. -/
theorem At.runTask {depth : Nat} {recover : Bool}
    (hs : t.Settles host.threads thread recover before swapped yes)
    (hmode : recover = true → host.mode = .recovery)
    (h : At host thread [taskFrame t, rootFrame] unanswered before ctx) :
    Ends (Builtin.runTask (callWithin (depth + 1)) recover t.encode) ctx
      (fun _ => At host thread [taskFrame t, rootFrame] (answerOf yes) (t.settled swapped yes))
      (Stopped host thread t before swapped yes) := by
  -- what the task and its recovery have in common
  have hcall : Ends (do
      callWithin (depth + 1) {
        name := swapFunction
        args := t.swap.encode
        options := { callerSeed := some [unanswered], recover } }
      Builtin.publish t (Builtin.answerByte (← readAnswer 1))) ctx
      (fun _ => At host thread [taskFrame t, rootFrame] (answerOf yes) (t.settled swapped yes))
      (Stopped host thread t before swapped yes) := by
    refine .bind (h.callSwap hs hmode) fun _ after hafter => ?_
    refine .step (hafter.stands.readAnswer hafter.slot_eq) rfl ?_
    exact .of_ok (hafter.publish hs.answer_in) rfl (hafter.withHeap _)
  have hopen : ¬Builtin.answerByte [unanswered] ≤ 1 := by decide
  refine .step (decodeTask_apply t ctx) rfl ?_
  cases recover with
  | false => exact hcall
  | true =>
    refine .step (h.stands.readAnswer h.slot_eq) rfl ?_
    rw [if_neg hopen]
    exact hcall

/-- A task whose slot holds the answer publishes it, and calls nothing. -/
theorem At.runTask_of_answered {call : Caller}
    (h : At host thread [taskFrame t, rootFrame] (answerOf yes) heap ctx)
    (hin : t.answer.toNat + 1 ≤ heap.size) :
    Builtin.runTask call true t.encode ctx
      = (.ok (), { ctx with heap := some (heap.put t.answer.toNat (Builtin.verdict yes)) }) := by
  have hanswered : Builtin.answerByte [answerOf yes] ≤ 1 := answerOf_le yes
  have hpublish : Builtin.publish t (Builtin.answerByte [answerOf yes]) ctx
      = (.ok (), { ctx with heap := some (heap.put t.answer.toNat (Builtin.verdict yes)) }) :=
    h.publish hin
  rw [Builtin.runTask, Run.bind_of_ok (decodeTask_apply t ctx), if_pos rfl,
    Run.bind_of_ok (h.stands.readAnswer h.slot_eq), if_pos hanswered, Run.bind_of_ok hpublish]
  rfl

/-- The context of a worker between two tasks: on its root frame, with room for the two frames of a
task. A task that has ended leaves it so again. -/
structure Idle (host : Host) (thread : UInt32) (heap : Region) (ctx : Context) : Prop where
  serves : host.Serves
  stands : Stands host thread [rootFrame] heap ctx
  room : 168 ≤ ctx.stack.region.size

theorem Idle.withHeap (h : Idle host thread heap ctx) (next : Region) :
    Idle host thread next { ctx with heap := some next } :=
  ⟨h.serves, h.stands.withHeap next, h.room⟩

/-- The frame of the task goes, and its worker is idle. -/
theorem At.popTask (h : At host thread [taskFrame t, rootFrame] slot heap ctx) :
    ∃ after, popFrame ctx = (.ok (), after) ∧ after.hook = ctx.hook ∧
      Idle host thread heap after := by
  obtain ⟨after, hpop, hhook, hstands, hsame, -⟩ := h.stands.popFrame
  exact ⟨after, hpop, hhook, h.serves, hstands, by rw [hsame]; exact h.room⟩

/-- The task is entered: its frame is on the stack, and nothing is answered. -/
theorem Idle.enterTask (h : Idle host thread before ctx) (t : SwapTask) :
    ∃ entered, enter {
        name := taskFunction
        args := t.encode
        options := { calleeSeed := some [unanswered] } } ctx = (.ok (.builtin .task), entered) ∧
      entered.hook = ctx.hook ∧
      At host thread [taskFrame t, rootFrame] unanswered before entered := by
  have hroom : nextPosition [rootFrame] + (taskFrame t).frame.size ≤ ctx.stack.region.size := by
    rw [nextPosition_rootFrame, size_taskFrame]
    exact Nat.le_trans (by decide) h.room
  have hpos : 1 ≤ (filler { calleeSeed := some [unanswered] }).length := by decide
  have hmax : (filler { calleeSeed := some [unanswered] }).length ≤ 8 := by decide
  have hseed : DurableStack.seedSlot (some [unanswered]) = .ok (.seeded [unanswered]) := rfl
  obtain ⟨entered, henter, hhook, hstands, hsame, -, hslot⟩ :=
    h.stands.enter (fun hfalse => absurd hfalse (by decide)) (h.serves.task_eq false)
      (make_taskFrame t) hpos hmax hseed hroom
  exact ⟨entered, henter, hhook, h.serves, hstands, by rw [hsame]; exact h.room,
    hslot 1 (by decide)⟩

/-- **A dispatched task** leaves the heap that it settles, or is stopped at one of its fault points.
What is on the stack by then, and how much of the task has been carried out, is told by `Stopped`.
-/
theorem Idle.dispatch (hs : t.Settles host.threads thread false before swapped yes)
    (h : Idle host thread before ctx) :
    Ends (Context.dispatch (.swap t)) ctx (fun _ => Idle host thread (t.settled swapped yes))
      (Stopped host thread t before swapped yes) := by
  obtain ⟨entered, henter, hhook, hentered⟩ := h.enterTask t
  -- two calls can be nested, whatever the size of the region
  refine .step (Run.get_apply ctx) rfl (.step henter hhook ?_)
  refine .bind (hentered.consult .called) fun _ pushed hpushed => ?_
  refine .bind (hpushed.runTask hs nofun) fun _ answered hanswered => ?_
  have hremove : Suspended t before swapped yes .beforeFrameRemove [taskFrame t, rootFrame]
      (answerOf yes) (t.settled swapped yes) := .returned nofun (.inr rfl)
  refine .bind (hanswered.consult hremove) fun _ last hlast => ?_
  obtain ⟨after, hpop, hhook', hidle⟩ := hlast.popTask
  exact .of_ok hpop hhook' hidle

/-- A hook that stops calls when they are entered stops the task at once. -/
theorem Idle.dispatch_of_stops {hook : FaultHook} (h : Idle host thread before ctx) (t : SwapTask)
    (hhook : ctx.hook = some hook)
    (hstops : (hook.consult hook.memory .afterFramePush taskFunction).1 = true) :
    ∃ after, Context.dispatch (.swap t) ctx
      = (.error (.failed (.simulatedCrash .afterFramePush taskFunction)), after) := by
  obtain ⟨entered, henter, hsame, hentered⟩ := h.enterTask t
  have hname : entered.currentFunction = taskFunction := by
    rw [Context.currentFunction, hentered.stands.top_eq]
    rfl
  rw [← hname] at hstops ⊢
  obtain ⟨after, hconsult⟩ := consult_of_stops (hsame.trans hhook) hstops
  refine ⟨after, ?_⟩
  rw [Context.dispatch, Context.call, Run.bind_of_ok (Run.get_apply ctx), Context.depthBound,
    Context.callWithin, Run.bind_of_ok henter, Run.bind_of_error hconsult]

end Context

end DurableCalls
