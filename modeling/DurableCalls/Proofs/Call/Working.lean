/-
`Working.lean` -- the steps of a call under a crash plan, on a stack region of any size.

A worker with a plan is stopped at one point of one function and nowhere else
(`Working.consult`). A call may also be refused for want of room, and then its frames are
those of before (`Working.enter`). The heap is any heap, and the steps of a call leave it.
-/
import DurableCalls.Workload
import DurableCalls.Proofs.Call.Refused
import DurableCalls.Proofs.Context.Finishes
import DurableCalls.Proofs.Swap.AnyHeap

set_option autoImplicit false

namespace DurableCalls

open CallStack Region DurableStack Workload

/-! ## Refusals -/

theorem DurableStack.NoPush.calm {s : DurableStack} {frame : Frame} {seed : Option (List UInt8)}
    {f : Failure} (h : s.NoPush frame seed f) : f.isCrash = false := by
  cases h with
  | seed bad => rfl
  | room fits stop_eq position_eq outside => rfl

namespace Context

theorem Refusal.calm {ctx : Context} {request : CallRequest} {seeded : Option Placed}
    {f : Failure} (h : Refusal ctx request seeded f) : f.isCrash = false := by
  cases h with
  | illegalRecovery recover mode => rfl
  | unknownFunction missing => rfl
  | oversized made =>
    rw [Frame.make] at made
    split at made
    · cases made
      rfl
    · split at made
      · cases made
        rfl
      · cases made
  | callerSeed bad => rfl
  | noCaller nobody seeds => rfl
  | slotOutside top outside => rfl
  | noPush made refused => exact refused.calm

/-! ## The steps of a call -/

/-- The context of a worker with a plan, on a stack region of this name and size. The plan is the
only hook that it has, so its stops are known. -/
structure Working (host : Host) (thread : UInt32) (plan : Option CrashPlan) (room : Region)
    (frames : List Placed) (heap : Region) (ctx : Context) : Prop where
  stands : Stands host thread frames heap ctx
  hook_eq : ctx.hook = plan.map (·.hook)
  path_eq : ctx.stack.region.path = room.path
  size_eq : ctx.stack.region.size = room.size

/-- The same hook, and a stack region of the same name and size. All operations keep these, and it
is what is left to say when the frames and the heap are told separately. -/
structure Resembles (ctx after : Context) : Prop where
  hook_eq : after.hook = ctx.hook
  path_eq : after.stack.region.path = ctx.stack.region.path
  size_eq : after.stack.region.size = ctx.stack.region.size

variable {host : Host} {thread : UInt32} {plan : Option CrashPlan} {room heap heap' : Region}
  {frames frames' rest : List Placed} {top below p : Placed} {ctx after : Context}
  {bytes : List UInt8}

theorem Resembles.refl : Resembles ctx ctx := ⟨rfl, rfl, rfl⟩

theorem withSlot_resembles (ctx : Context) (p : Placed) (bytes : List UInt8) :
    Resembles ctx (ctx.withSlot p bytes) := ⟨rfl, path_put _ _ _, size_put _ _ _⟩

theorem path_pushed (s : DurableStack) (frame : Frame) (answer : Slot) :
    (s.pushed frame answer).region.path = s.region.path := by
  rw [DurableStack.pushed]
  cases s.calls.frames with
  | nil => exact path_put _ _ _
  | cons last below => exact (path_put _ _ _).trans (path_put _ _ _)

theorem Stands.withSlot (h : Stands host thread frames heap ctx) (hp : p ∈ frames)
    (hlen : bytes.length ≤ 8) : Stands host thread frames heap (ctx.withSlot p bytes) := by
  have hp' := hp
  rw [← h.frames_eq] at hp'
  exact ⟨h.host_eq, h.thread_eq, h.heap_eq, h.frames_eq, h.mirrored.put_slot hp' hlen⟩

theorem Stands.seeded (h : Stands host thread frames heap ctx) (hseeded : Seeded ctx after) :
    Stands host thread frames heap after ∧ Resembles ctx after := by
  rcases hseeded with rfl | ⟨p, rest, bytes, hframes, hlen, rfl⟩
  · exact ⟨h, .refl⟩
  · refine ⟨h.withSlot ?_ hlen, withSlot_resembles _ _ _⟩
    rw [← h.frames_eq, hframes]
    exact List.mem_cons_self

/-- A call is refused, or its frame is pushed. A refusal is a failure and no crash, and leaves the
frames as they were. -/
theorem Stands.enter_finishes {entry : EntryPoint} {frame : Frame}
    (h : Stands host thread frames heap ctx) (request : CallRequest)
    (hentry : Registry.entry host.registry request.name request.options.recover = .ok entry)
    (hmade : Frame.make request.name request.args = .ok frame) :
    Finishes (Context.enter request) ctx
      (fun found after => found = entry ∧
        Stands host thread (⟨frame, nextPosition frames⟩ :: frames) heap after ∧
        Resembles ctx after)
      (fun halt after => (∃ f, halt = .failed f ∧ f.isCrash = false) ∧
        Stands host thread frames heap after ∧ Resembles ctx after) := by
  rcases enter_cases h.mirrored request with ⟨f, mid, hrun, hseeded⟩
    | ⟨entry', frame', answer, mid, hentry', hmade', hseeded, hroom, hrun⟩
  · obtain ⟨_, hrefusal, -⟩ := enter_failed hrun
    exact .of_error hrun ⟨⟨f, rfl, hrefusal.calm⟩, h.seeded hseeded⟩
  · obtain ⟨hmid, halike⟩ := h.seeded hseeded
    rw [h.host_eq] at hentry'
    cases hentry.symm.trans hentry'
    cases hmade.symm.trans hmade'
    have hfits := (Frame.make_eq_ok_iff.1 hmade).2
    refine .of_ok hrun ⟨rfl, ⟨hmid.host_eq, hmid.thread_eq, hmid.heap_eq, ?_,
      hmid.mirrored.pushed hfits answer hroom⟩, halike.hook_eq,
      (path_pushed _ _ _).trans halike.path_eq, (size_pushed _ _ _).trans halike.size_eq⟩
    rw [← hmid.frames_eq]
    rfl

/-- The frame of a call goes, and the answer in the slot of its caller stays. -/
theorem Stands.popFrame_resembles (h : Stands host thread (top :: below :: rest) heap ctx) :
    ∃ after, Context.popFrame ctx = (.ok (), after) ∧
      Stands host thread (below :: rest) heap after ∧ Resembles ctx after ∧
      after.stack.region.read below.position 1 = ctx.stack.region.read below.position 1 := by
  rcases popFrame_cases h.mirrored with ⟨hshort, -⟩ | ⟨top', below', rest', hframes, hrun⟩
  · rw [h.frames_eq] at hshort
    exact absurd hshort (by simp)
  · rw [h.frames_eq] at hframes
    cases hframes
    obtain ⟨after, hpop, hhook, hafter, hsize, hslot⟩ := h.popFrame
    cases hrun.symm.trans hpop
    exact ⟨_, hrun, hafter, ⟨hhook, rfl, hsize⟩, hslot 1 (by decide)⟩

theorem Working.of_resembles (h : Working host thread plan room frames heap ctx)
    (hstands : Stands host thread frames' heap' after) (halike : Resembles ctx after) :
    Working host thread plan room frames' heap' after :=
  ⟨hstands, halike.hook_eq.trans h.hook_eq, halike.path_eq.trans h.path_eq,
    halike.size_eq.trans h.size_eq⟩

theorem Working.withHeap (h : Working host thread plan room frames heap ctx) (next : Region) :
    Working host thread plan room frames next { ctx with heap := some next } :=
  ⟨⟨h.stands.host_eq, h.stands.thread_eq, rfl, h.stands.frames_eq, h.stands.mirrored⟩, h.hook_eq,
    h.path_eq, h.size_eq⟩

theorem Working.withSlot (h : Working host thread plan room frames heap ctx) (hp : p ∈ frames)
    (hlen : bytes.length ≤ 8) :
    Working host thread plan room frames heap (ctx.withSlot p bytes) :=
  h.of_resembles (h.stands.withSlot hp hlen) (withSlot_resembles _ _ _)

/-- A stop of the plan, at the top frame. -/
def StopsAt (plan : Option CrashPlan) (frames : List Placed) (point : FaultPoint) (halt : Halt) :
    Prop :=
  ∃ top rest, frames = top :: rest ∧ plan = some ⟨point, top.frame.name⟩ ∧
    halt = .failed (.simulatedCrash point top.frame.name)

/-- The plan stops a call at its own place, and nowhere else. Its hook remembers nothing, so it is
the same behind every fault point, and stops the next call at that place as well. -/
theorem Working.consult (h : Working host thread plan room (top :: rest) heap ctx)
    (point : FaultPoint) :
    Finishes (Context.consult point) ctx
      (fun _ => Working host thread plan room (top :: rest) heap)
      (fun halt after => StopsAt plan (top :: rest) point halt ∧
        Working host thread plan room (top :: rest) heap after) := by
  have hname : ctx.currentFunction = top.frame.name := by
    rw [currentFunction, h.stands.top_eq]
    rfl
  have hhook := h.hook_eq
  -- without a plan there is no hook to ask
  cases plan with
  | none =>
    exact .of_ok (consult_of_no_hook point hhook) h
  | some plan =>
    have hkept : Working host thread (some plan) room (top :: rest) heap
        { ctx with hook := some plan.hook } :=
      ⟨h.stands.withHook _, rfl, h.path_eq, h.size_eq⟩
    have hconsult : Context.consult point ctx
        = (if point = plan.point ∧ top.frame.name = plan.function then
            Run.fail (.simulatedCrash point top.frame.name) else pure () : Exec Unit)
          { ctx with hook := some plan.hook } := by
      rw [Context.consult, Run.bind_of_ok (Run.get_apply ctx)]
      simp only [hhook, Option.map_some, hname]
      simp only [CrashPlan.hook, FaultHook.whenever, decide_eq_true_eq]
      rw [Run.bind_of_ok (Run.set_apply _ _)]
    by_cases hstops : point = plan.point ∧ top.frame.name = plan.function
    · refine .of_error (e := .failed (.simulatedCrash point top.frame.name)) ?_
        ⟨⟨top, rest, rfl, ?_, rfl⟩, hkept⟩
      · rw [hconsult, if_pos hstops]
        rfl
      · rw [hstops.1, hstops.2]
    · refine .of_ok (a := ()) ?_ hkept
      rw [hconsult, if_neg hstops]
      rfl

/-- A call is refused, or its frame is pushed. -/
theorem Working.enter {entry : EntryPoint} {frame : Frame}
    (h : Working host thread plan room frames heap ctx) (request : CallRequest)
    (hentry : Registry.entry host.registry request.name request.options.recover = .ok entry)
    (hmade : Frame.make request.name request.args = .ok frame) :
    Finishes (Context.enter request) ctx
      (fun found after => found = entry ∧
        Working host thread plan room (⟨frame, nextPosition frames⟩ :: frames) heap after)
      (fun halt after => (∃ f, halt = .failed f ∧ f.isCrash = false) ∧
        Working host thread plan room frames heap after) :=
  (h.stands.enter_finishes request hentry hmade).mono
    (fun _ _ hafter => ⟨hafter.1, h.of_resembles hafter.2.1 hafter.2.2⟩)
    fun _ _ hafter => ⟨hafter.1, h.of_resembles hafter.2.1 hafter.2.2⟩

/-- An answer is in the slot of the caller when the hook is consulted. -/
theorem Stands.writeAnswer_eq (h : Stands host thread (top :: below :: rest) heap ctx)
    (hpos : 1 ≤ bytes.length) (hmax : bytes.length ≤ 8) :
    Context.writeAnswer bytes ctx
      = Context.consult .afterAnswerWrite (ctx.withSlot below bytes) := by
  have hmem : below ∈ ctx.stack.calls.frames := by
    rw [h.frames_eq]
    exact List.mem_cons_of_mem _ List.mem_cons_self
  have hcheck : (liftM (checkAnswer bytes.length) : Exec Unit) ctx = (.ok (), ctx) := by
    rw [Run.lift_apply, checkAnswer_of_le hpos hmax]
    rfl
  rw [Context.writeAnswer, Run.bind_of_ok hcheck, Run.bind_of_ok (Run.get_apply ctx)]
  simp only [h.answerSlot_eq]
  exact Run.bind_of_ok (writeSlot_apply h.mirrored hmem hmax)

/-- An answer is written, and the plan may stop the call then. -/
theorem Working.writeAnswer (h : Working host thread plan room (top :: below :: rest) heap ctx)
    (bytes : List UInt8) (hpos : 1 ≤ bytes.length) (hmax : bytes.length ≤ 8) :
    Finishes (Context.writeAnswer bytes) ctx
      (fun _ => Working host thread plan room (top :: below :: rest) heap)
      (fun halt after => StopsAt plan (top :: below :: rest) .afterAnswerWrite halt ∧
        Working host thread plan room (top :: below :: rest) heap after) := by
  have hmem : below ∈ top :: below :: rest := List.mem_cons_of_mem _ List.mem_cons_self
  exact .congr (h.stands.writeAnswer_eq hpos hmax) ((h.withSlot hmem hmax).consult _)

theorem Working.popFrame (h : Working host thread plan room (top :: below :: rest) heap ctx) :
    ∃ after, Context.popFrame ctx = (.ok (), after) ∧
      Working host thread plan room (below :: rest) heap after := by
  obtain ⟨after, hpop, hafter, halike, -⟩ := h.stands.popFrame_resembles
  exact ⟨after, hpop, h.of_resembles hafter halike⟩

/-- The slot of a frame can be read. -/
theorem Working.read_slot (h : Working host thread plan room frames heap ctx) (hp : p ∈ frames) :
    ∃ bytes, ctx.stack.region.read p.position 1 = .ok bytes :=
  exists_read (Nat.le_trans (Nat.add_le_add_left (by decide) _) (h.stands.slot_in hp))

theorem Working.onHeap {α : Type} {m : Run Region α} {result : Except Halt α}
    (h : Working host thread plan room frames heap ctx) (hm : m heap = (result, heap')) :
    Context.onHeap m ctx = (result, { ctx with heap := some heap' }) := by
  rw [Context.onHeap_apply m h.stands.heap_eq, hm]

end Context

end DurableCalls
