/-
`Cramped.lean` -- regions that no frame fits into.

A frame takes 13 bytes at least. Over a smaller region nothing is ever pushed: a call is
refused before it begins, and a scan finds no frame. So a context over such a region keeps
its empty stack through all of its operations, and where a call has returned the region has
room (`Reachable.room_of_call`).
-/
import DurableCalls.Proofs.Call.Reached

set_option autoImplicit false

namespace DurableCalls

open CallStack DurableStack

/-- A frame is read only where its fixed parts are inside the region. -/
theorem overhead_le_of_readFrame {r : Region} {offset : Nat} {out : Frame × Bool}
    (h : readFrame r offset = .ok out) : offset + Frame.overhead ≤ r.size := by
  -- the whole frame is read at once
  obtain ⟨n, m, bytes, -, -, hread, -⟩ := Placed.exists_of_readFrame h
  have hin := (Region.read_eq_ok_iff.1 hread).1
  omega

/-- A stack without frames, over a region that has no room for one. Every push on it is refused, so
it is what it is for ever. -/
structure DurableStack.Cramped (s : DurableStack) : Prop where
  empty : s.calls.frames = []
  cramped : s.region.size < Frame.overhead

namespace DurableStack.Cramped

variable {s : DurableStack} {frame : Frame}

theorem mirrored (h : s.Cramped) : s.Mirrored := by
  rw [Mirrored, h.empty]
  trivial

theorem no_room (h : s.Cramped) (frame : Frame) :
    ¬nextPosition s.calls.frames + frame.size ≤ s.region.size := by
  have hcramped := h.cramped
  have hsize := frame.overhead_le_size
  omega

theorem eq_of_scan (h : s.Cramped) {calls : CallStack} (hscan : scan s.region = .ok calls) :
    calls = s.calls := by
  have hempty : s.calls = .empty := by
    rw [show s.calls = ⟨s.calls.frames⟩ from rfl, h.empty]
    rfl
  cases hread : readFrame s.region 0 with
  | error halt =>
    rw [scan, scanFrom_of_error hread] at hscan
    split at hscan
    · cases hscan
      exact hempty.symm
    · cases hscan
  | ok out =>
    have hroom := overhead_le_of_readFrame hread
    have hcramped := h.cramped
    omega

/-- So a reload finds nothing either. -/
theorem reload_eq (h : s.Cramped) : (reload s).2 = s := by
  rw [reload, Run.update_apply]
  cases hscan : scan s.region with
  | error halt => rfl
  | ok calls =>
    rw [h.eq_of_scan hscan]
    rfl

end DurableStack.Cramped

namespace Context

variable {α : Type} {m : Exec α} {s : DurableStack} {start ctx : Context}

/-- The run leaves a stack as it is. -/
abbrev Leaves (s : DurableStack) (m : Exec α) : Prop :=
  Guards (fun ctx => ctx.stack = s) (fun _ => True) m

theorem Quiet.leaves (h : Quiet m) (s : DurableStack) : Leaves s m := fun ctx hctx =>
  ⟨(h ctx).2.trans hctx, fun _ _ => trivial⟩

/-! ## Calls are refused -/

/-- No call begins. -/
theorem enter_of_cramped (h : ctx.stack.Cramped) (request : CallRequest) :
    ∃ failure, enter request ctx = (.error (.failed failure), ctx) := by
  have hseeded : ∀ {mid}, Seeded ctx mid → mid = ctx := by
    rintro mid (rfl | ⟨top, rest, bytes, hframes, -, -⟩)
    · rfl
    · rw [h.empty] at hframes
      cases hframes
  rcases enter_cases h.mirrored request with ⟨failure, mid, hrun, hmid⟩ |
    ⟨entry, frame, answer, mid, -, -, hmid, hroom, -⟩
  · rw [hseeded hmid] at hrun
    exact ⟨failure, hrun⟩
  · rw [hseeded hmid] at hroom
    exact absurd hroom (h.no_room frame)

theorem callWithin_of_cramped (h : ctx.stack.Cramped) (depth : Nat) (request : CallRequest) :
    ∃ halt, callWithin depth request ctx = (.error halt, ctx) := by
  cases depth with
  | zero => exact ⟨_, rfl⟩
  | succ depth =>
    obtain ⟨failure, hrun⟩ := enter_of_cramped h request
    exact ⟨_, Run.bind_of_error hrun⟩

theorem call_of_cramped (h : ctx.stack.Cramped) (request : CallRequest) :
    ∃ halt, call request ctx = (.error halt, ctx) := by
  rw [call_apply]
  exact callWithin_of_cramped h _ request

/-! ## Every operation leaves the stack -/

theorem recoverFrames_leaves (h : s.Cramped) (rounds recovered : Nat) :
    Leaves s (recoverFrames rounds recovered) := by
  cases rounds with
  | zero => exact .abort trivial
  | succ rounds =>
    intro ctx hctx
    have hempty : ctx.stack.calls.frames = [] := by
      rw [hctx]
      exact h.empty
    rw [EndsIn, recoverFrames, Run.bind_of_ok (Run.get_apply ctx)]
    simp only [hempty]
    exact ⟨hctx, fun _ _ => trivial⟩

theorem reload_leaves (h : s.Cramped) : Leaves s reload := by
  intro ctx hctx
  refine ⟨?_, fun _ _ => trivial⟩
  rw [reload, onStack_apply, hctx]
  exact h.reload_eq

theorem restore_leaves (h : s.Cramped) : Leaves s restore := by
  have hreplay := (reload_leaves h).bind fun _ => recoverFrames_leaves h wordLimit 0
  refine (Quiet.get.leaves s).bind fun ctx => ?_
  by_cases hmode : ctx.host.mode ≠ .recovery
  · simp only [if_pos hmode]
    exact ((Quiet.fail _).leaves s).bind fun _ => hreplay
  · simp only [if_neg hmode]
    exact hreplay

theorem popFrame_leaves (h : s.Cramped) : Leaves s popFrame := by
  rintro ctx rfl
  rcases popFrame_cases h.mirrored with ⟨-, hrun⟩ | ⟨top, below, rest, hframes, -⟩
  · exact .of_error hrun rfl trivial
  · rw [h.empty] at hframes
    cases hframes

theorem popFrames_leaves (h : s.Cramped) (count removed : Nat) :
    Leaves s (popFrames count removed) := by
  induction count generalizing removed with
  | zero => exact .pure _
  | succ count ih => exact (popFrame_leaves h).bind fun _ => ih _

theorem Operation.run_leaves (h : s.Cramped) (op : Operation) : Leaves s op.run := by
  cases op with
  | pushRoot name =>
    rintro ctx rfl
    rcases pushRoot_cases h.mirrored name with ⟨failure, hrun⟩ | ⟨frame, answer, -, hroom, -⟩
    · exact .of_error hrun rfl trivial
    · exact absurd hroom (h.no_room frame)
  | call request =>
    rintro ctx rfl
    -- not even the frame of the call has room, so it is refused
    obtain ⟨halt, hrun⟩ := call_of_cramped h request
    exact .of_error hrun rfl trivial
  | enter request =>
    refine Guards.discard ?_
    rintro ctx rfl
    obtain ⟨failure, hrun⟩ := enter_of_cramped h request
    exact .of_error hrun rfl trivial
  | popFrame => exact popFrame_leaves h
  | writeAnswer bytes =>
    rintro ctx rfl
    rcases writeAnswer_cases h.mirrored bytes with ⟨failure, hrun⟩ |
      ⟨top, below, rest, hframes, -⟩
    · exact .of_error hrun rfl trivial
    · rw [h.empty] at hframes
      cases hframes
  | readAnswer len => exact ((Quiet.readAnswer len).leaves s).discard
  | readCurrentAnswer len => exact ((Quiet.readCurrentAnswer len).leaves s).discard
  | access heap => exact (Quiet.onHeap heap).leaves s
  | unwind => exact ((Quiet.get.leaves s).bind fun _ => popFrames_leaves h _ _).discard
  | reload => exact reload_leaves h
  | restore => exact (restore_leaves h).discard

theorem Reachable.stack_of_cramped (hstart : start.stack.Cramped) (h : Reachable start ctx) :
    ctx.stack = start.stack := by
  induction h with
  | start => rfl
  | step reached op ih => exact (op.run_leaves hstart _ ih).1
  | hooked reached hook ih => exact ih
  | attached reached heap ih => exact ih
  | resumed reached run ih =>
    rw [← ih] at hstart
    exact (stack_of_resume hstart.eq_of_scan run).trans ih

/-- **Where a call has returned, the region has room for a frame.** The shortest one has no name and
no arguments and takes thirteen bytes. On a smaller region every push is refused, and the stack
stays what it was when the context was made. -/
theorem Reachable.room_of_call {host : Host} {thread : UInt32} {region : Region} {after : Context}
    {request : CallRequest} (hmake : make host thread region = .ok start)
    (h : Reachable start ctx) (hcall : call request ctx = (.ok (), after)) :
    13 ≤ region.size := by
  by_contra hroom
  have hstart : start.stack.Cramped := by
    rw [stack_of_make hmake]
    exact ⟨rfl, Nat.lt_of_not_le hroom⟩
  have hctx : ctx.stack.Cramped := by
    rw [h.stack_of_cramped hstart]
    exact hstart
  obtain ⟨halt, hrefused⟩ := call_of_cramped hctx request
  rw [hcall] at hrefused
  cases hrefused

end Context

end DurableCalls
