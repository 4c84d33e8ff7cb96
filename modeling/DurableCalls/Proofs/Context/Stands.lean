/-
`Stands.lean` -- the steps of a call, on a context whose frames are written.

A context *stands* on a list of frames if they are its calls and its region mirrors them.
Every step of a call keeps that, so each has one lemma here: the frames it leads to, and
what it leaves of the bytes of the stack region. All of them keep the hook.
-/
import DurableCalls.Call
import DurableCalls.Proofs.Context.Ends
import DurableCalls.Proofs.Stack.Slots

set_option autoImplicit false

namespace DurableCalls

open CallStack Region

namespace Context

/-- The calls are these frames, newest first, and the region mirrors them. Fields of the context
that are not named here, the hook and the notes, may be any. -/
structure Stands (host : Host) (thread : UInt32) (frames : List Placed) (heap : Region)
    (ctx : Context) : Prop where
  host_eq : ctx.host = host
  thread_eq : ctx.thread = thread
  heap_eq : ctx.heap = some heap
  frames_eq : ctx.stack.calls.frames = frames
  mirrored : ctx.stack.Mirrored

variable {host : Host} {thread : UInt32} {frames rest : List Placed} {heap : Region} {ctx : Context}
  {p top below : Placed} {bytes : List UInt8}

theorem Stands.withHook (h : Stands host thread frames heap ctx) (hook : Option FaultHook) :
    Stands host thread frames heap { ctx with hook } :=
  ⟨h.host_eq, h.thread_eq, h.heap_eq, h.frames_eq, h.mirrored⟩

theorem Stands.withHeap (h : Stands host thread frames heap ctx) (next : Region) :
    Stands host thread frames next { ctx with heap := some next } :=
  ⟨h.host_eq, h.thread_eq, rfl, h.frames_eq, h.mirrored⟩

theorem Stands.calls_eq (h : Stands host thread frames heap ctx) : ctx.stack.calls = ⟨frames⟩ := by
  rw [← h.frames_eq]

theorem Stands.top_eq (h : Stands host thread (top :: rest) heap ctx) :
    ctx.stack.calls.top? = some top := by
  rw [CallStack.top?, h.frames_eq]
  rfl

theorem Stands.slot_in (h : Stands host thread frames heap ctx) (hp : p ∈ frames) :
    p.position + 8 ≤ ctx.stack.region.size := by
  rw [← h.frames_eq] at hp
  exact h.mirrored.slot_in hp

/-! ## Answers -/

theorem Stands.writeSlot (h : Stands host thread frames heap ctx) (hp : p ∈ frames)
    (hlen : bytes.length ≤ 8) :
    ∃ after, writeSlot p.slotAt bytes ctx = (.ok (), after) ∧ after.hook = ctx.hook ∧
      Stands host thread frames heap after ∧
      after.stack = ⟨ctx.stack.calls, ctx.stack.region.put p.position bytes⟩ := by
  have hslot := h.slot_in hp
  have hin : p.position + bytes.length ≤ ctx.stack.region.size := by omega
  have hpersist : DurableStack.persist p.slotAt bytes ctx.stack
      = (.ok (), ⟨ctx.stack.calls, ctx.stack.region.put p.position bytes⟩) :=
    DurableStack.persist_of_in hin
  refine ⟨{ ctx with stack := ⟨ctx.stack.calls, ctx.stack.region.put p.position bytes⟩ }, ?_, rfl,
    ⟨h.host_eq, h.thread_eq, h.heap_eq, h.frames_eq, ?_⟩, rfl⟩
  · rw [Context.writeSlot, onStack_apply]
    rw [hpersist]
  · rw [← h.frames_eq] at hp
    exact h.mirrored.put_slot hp hlen

theorem checkAnswer_of_le {len : Nat} (hpos : 1 ≤ len) (hmax : len ≤ 8) :
    checkAnswer len = .ok () :=
  if_neg (by simp only [slotSize]; omega)

theorem readSlot_of_read {slot len : Nat} (h : ctx.stack.region.read slot len = .ok bytes) :
    readSlot slot len ctx = (.ok bytes, ctx) := by
  rw [readSlot, Run.bind_of_ok (Run.get_apply ctx), Run.lift_apply, h, Run.mapError_ok]

/-- The top slot is read where the last callee has answered. -/
theorem Stands.readAnswer (h : Stands host thread (top :: rest) heap ctx)
    (hread : ctx.stack.region.read top.position 1 = .ok bytes) :
    readAnswer 1 ctx = (.ok bytes, ctx) := by
  rw [Context.readAnswer, Run.bind_of_ok (Run.lift_apply _ ctx), Run.bind_of_ok (Run.get_apply ctx)]
  simp only [h.top_eq]
  exact readSlot_of_read hread

theorem Stands.answerSlot_eq (h : Stands host thread (top :: below :: rest) heap ctx) :
    ctx.stack.calls.answerSlot? = some below.slotAt := by
  rw [CallStack.answerSlot?, h.frames_eq]

theorem Stands.readCurrentAnswer (h : Stands host thread (top :: below :: rest) heap ctx)
    (hread : ctx.stack.region.read below.position 1 = .ok bytes) :
    readCurrentAnswer 1 ctx = (.ok bytes, ctx) := by
  rw [Context.readCurrentAnswer, Run.bind_of_ok (Run.lift_apply _ ctx),
    Run.bind_of_ok (Run.get_apply ctx)]
  simp only [h.answerSlot_eq]
  exact readSlot_of_read hread

/-! ## Frames -/

/-- A frame is pushed behind the others if there is room for it. -/
theorem Stands.push {frame : Frame} {seed : Option (List UInt8)} {answer : Slot}
    (h : Stands host thread frames heap ctx) (hfits : frame.Fits)
    (hseed : DurableStack.seedSlot seed = .ok answer)
    (hroom : nextPosition frames + frame.size ≤ ctx.stack.region.size) :
    ∃ after, (discard (onStack (DurableStack.push frame seed)) : Exec PUnit) ctx
        = (.ok (), after) ∧ after.hook = ctx.hook ∧
      Stands host thread (⟨frame, nextPosition frames⟩ :: frames) heap after ∧
      after.stack = ctx.stack.pushed frame answer := by
  have hend : endOf ctx.stack.calls.frames ≤ ctx.stack.region.size := Written.endOf_le h.mirrored
  rw [← h.frames_eq] at hroom ⊢
  have hpush := DurableStack.push_of_room hseed hend hfits hroom
  refine ⟨{ ctx with stack := ctx.stack.pushed frame answer }, ?_, rfl,
    ⟨h.host_eq, h.thread_eq, h.heap_eq, rfl, h.mirrored.pushed hfits answer hroom⟩, rfl⟩
  refine Run.discard_of_ok (a := nextPosition ctx.stack.calls.frames) ?_
  rw [onStack_apply, hpush]

/-- The top frame is popped if there is one below it, and the slot of that one stays. So what the
callee has answered is what the caller reads. -/
theorem Stands.popFrame (h : Stands host thread (top :: below :: rest) heap ctx) :
    ∃ after, popFrame ctx = (.ok (), after) ∧ after.hook = ctx.hook ∧
      Stands host thread (below :: rest) heap after ∧
      after.stack.region.size = ctx.stack.region.size ∧
      ∀ n, n ≤ 8 → after.stack.region.read below.position n
        = ctx.stack.region.read below.position n := by
  have hpop := h.mirrored.pop_of_two h.frames_eq
  have hwritten : ctx.stack.region.Written stackEnd ctx.stack.calls.frames := h.mirrored
  rw [h.frames_eq] at hwritten
  have hin : below.past ≤ ctx.stack.region.size := hwritten.2.2.2.endOf_le
  have hover := below.overhead_le_past
  refine ⟨{ ctx with stack := ctx.stack.popped below rest }, ?_, rfl,
    ⟨h.host_eq, h.thread_eq, h.heap_eq, rfl, h.mirrored.popped h.frames_eq⟩,
    DurableStack.size_popped _ _ _, fun n hn => ?_⟩
  · refine Run.discard_of_ok (a := top) ?_
    rw [onStack_apply, hpop]
  · exact read_of_agree (DurableStack.agree_popped hin (by omega))

/-- What a caller's slot is given before its callee is pushed. -/
def filler (options : CallOptions) : List UInt8 := options.callerSeed.getD Slot.cleared.toList

theorem Stands.seedCaller (h : Stands host thread (top :: rest) heap ctx) (options : CallOptions)
    (hpos : 1 ≤ (filler options).length) (hmax : (filler options).length ≤ 8) :
    ∃ after, seedCaller options.callerSeed ctx = (.ok (), after) ∧ after.hook = ctx.hook ∧
      Stands host thread (top :: rest) heap after ∧
      after.stack = ⟨ctx.stack.calls, ctx.stack.region.put top.position (filler options)⟩ := by
  obtain ⟨after, hwrite, hafter⟩ := h.writeSlot (p := top) List.mem_cons_self hmax
  refine ⟨after, ?_, hafter⟩
  have hcheck : checkAnswer (options.callerSeed.getD Slot.cleared.toList).length = .ok () :=
    checkAnswer_of_le hpos hmax
  rw [Context.seedCaller]
  simp only [Run.bind_apply, Run.lift_apply, hcheck, Run.mapError_ok, Run.get_apply, h.top_eq]
  exact hwrite

/-- **A call enters its function**: its caller's slot is filled, and its frame is pushed
behind the caller's, with a slot of its own. -/
theorem Stands.enter {name : String} {args : List UInt8} {options : CallOptions}
    {entry : EntryPoint} {frame : Frame} {answer : Slot}
    (h : Stands host thread (top :: rest) heap ctx)
    (hmode : options.recover = true → host.mode = .recovery)
    (hentry : Registry.entry host.registry name options.recover = .ok entry)
    (hmade : Frame.make name args = .ok frame)
    (hpos : 1 ≤ (filler options).length) (hmax : (filler options).length ≤ 8)
    (hseed : DurableStack.seedSlot options.calleeSeed = .ok answer)
    (hroom : nextPosition (top :: rest) + frame.size ≤ ctx.stack.region.size) :
    ∃ after, enter ⟨name, args, options⟩ ctx = (.ok entry, after) ∧ after.hook = ctx.hook ∧
      Stands host thread (⟨frame, nextPosition (top :: rest)⟩ :: top :: rest) heap after ∧
      after.stack.region.size = ctx.stack.region.size ∧
      after.stack.region.read top.position (filler options).length = .ok (filler options) ∧
      ∀ n, n ≤ 8 →
        after.stack.region.read (nextPosition (top :: rest)) n = .ok (answer.toList.take n) := by
  have hfits := (Frame.make_eq_ok_iff.1 hmade).2
  -- only a process in recovery mode calls a function by its recovery
  have hallowed : ¬(options.recover = true ∧ host.mode ≠ .recovery) :=
    fun ⟨hrecover, hnot⟩ => hnot (hmode hrecover)
  obtain ⟨seeded, hseeds, hhook, hseeded, hstack⟩ := h.seedCaller options hpos hmax
  have hsize : seeded.stack.region.size = ctx.stack.region.size := by rw [hstack, size_put]
  have hroom' : nextPosition (top :: rest) + frame.size ≤ seeded.stack.region.size := by
    rw [hsize]
    exact hroom
  obtain ⟨after, hpush, hhook', hafter, hstack'⟩ := hseeded.push hfits hseed hroom'
  have hslot := h.slot_in (p := top) List.mem_cons_self
  have hover := top.overhead_le_past
  have hplace := hseeded.frames_eq
  -- the caller's slot lies below its marker, and that is where a push starts to write
  refine ⟨after, ?_, hhook'.trans hhook, hafter, ?_, ?_, fun n hn => ?_⟩
  · rw [Context.enter]
    simp only [Run.bind_apply, Run.get_apply, if_neg hallowed, Run.pure_apply, Run.lift_apply,
      h.host_eq, hentry, hmade, Run.mapError_ok, hseeds, hpush]
  · rw [hstack', DurableStack.size_pushed, hsize]
  · have hend : endOf seeded.stack.calls.frames = top.past := by
      rw [hplace]
      rfl
    rw [← hplace] at hroom'
    have hkept : Agree top.position (top.position + (filler options).length) seeded.stack.region
        after.stack.region := by
      rw [hstack']
      exact hseeded.mirrored.agree_pushed hroom' (by omega)
    rw [read_of_agree hkept, hstack]
    exact read_put_self (by omega)
  · rw [← hplace] at hroom' ⊢
    rw [hstack']
    exact hseeded.mirrored.read_slot_pushed hroom' hn

end Context

end DurableCalls
