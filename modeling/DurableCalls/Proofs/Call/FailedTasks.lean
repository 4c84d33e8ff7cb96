/-
`FailedTasks.lean` -- why a swap task fails, and what it has done by then.

A swap task asks for its functions, for the room of its frames, for the register and for the cell
of its note before it writes to the heap. Whatever is refused of these, the heap is as it was. One
thing is asked for too late: the byte that takes the answer is looked for when the swap is made.
Without it the task fails, and it is counted as failed, but its value is in the register.

So the failure of a task settles what it has done (`Context.failed_swap_keeps`): no other access
of a task is to a single byte.
-/
import DurableCalls.Proofs.Pool.Isolation
import DurableCalls.Proofs.Swap.Refusals

set_option autoImplicit false

namespace DurableCalls

open CallStack Region Context

variable {root : Placed} {host : Host} {thread : UInt32} {room : Nat} {heap next : Region}
  {halt : Halt} {t : SwapTask} {yes : Bool}

/-! ## Why the effect of a task fails -/

namespace SwapTask

/-- Where a task ends without a value, and the heap that it leaves then: at one of its frames, in
its swap, or behind that, for want of the byte that takes the answer. -/
inductive Fails (t : SwapTask) (root : Placed) (host : Host) (thread : UInt32) (room : Nat)
    (heap : Region) : Halt → Region → Prop
  | taskFrame {f : Failure} (refused : (t.frameOver root).permit host room = .error f) :
      Fails t root host thread room heap (.failed f) heap
  | swapFrame {f : Failure} (admitted : (t.frameOver root).permit host room = .ok ())
      (refused : (t.swapFrameOver root).permit host room = .error f) :
      Fails t root host thread room heap (.failed f) heap
  | unanswered {halt : Halt} (refused : (t.swapBy host.threads thread).NoAnswer heap halt) :
      Fails t root host thread room heap halt heap
  | unpublished {yes : Bool} {swapped : Region}
      (answered : (t.swapBy host.threads thread).attempt heap = (.ok yes, swapped))
      (outside : heap.size ≤ t.answer.toNat) :
      Fails t root host thread room heap
        (.failed (.outOfBounds t.answer.toNat 1 heap.size)) swapped

theorem size_frameOver (t : SwapTask) (root : Placed) : (t.frameOver root).frame.size = 55 :=
  size_taskFrame t

theorem size_swapFrameOver (t : SwapTask) (root : Placed) :
    (t.swapFrameOver root).frame.size = 40 :=
  size_swapFrame t

/-- Behind its frames a task swaps and publishes. -/
theorem effectOver_of_admitted (htask : (t.frameOver root).permit host room = .ok ())
    (hswap : (t.swapFrameOver root).permit host room = .ok ()) :
    t.effectOver root host thread room = (do
      let yes ← (t.swapBy host.threads thread).attempt
      Region.persist t.answer.toNat (Builtin.verdict yes)) := by
  rw [effectOver, swapEffectOver, htask, hswap]
  rfl

theorem effectOver_of_no_task {f : Failure}
    (h : (t.frameOver root).permit host room = .error f) (heap : Region) :
    t.effectOver root host thread room heap = (.error (.failed f), heap) := by
  rw [effectOver, h]
  rfl

theorem effectOver_of_no_swap {f : Failure} (htask : (t.frameOver root).permit host room = .ok ())
    (hswap : (t.swapFrameOver root).permit host room = .error f) (heap : Region) :
    t.effectOver root host thread room heap = (.error (.failed f), heap) := by
  rw [effectOver, swapEffectOver, htask, hswap]
  rfl

/-- A swap that is made is lost if there is no byte for its answer. -/
theorem effectOver_of_lost (htask : (t.frameOver root).permit host room = .ok ())
    (hswap : (t.swapFrameOver root).permit host room = .ok ())
    (hattempt : (t.swapBy host.threads thread).attempt heap = (.ok yes, next))
    (hout : heap.size ≤ t.answer.toNat) :
    t.effectOver root host thread room heap
      = (.error (.failed (.outOfBounds t.answer.toNat 1 heap.size)), next) := by
  have hsize := Swap.size_of_attempt hattempt
  have hout' : ¬t.answer.toNat + (Builtin.verdict yes).length ≤ next.size := by
    rw [hsize, verdict_eq, List.length_singleton]
    omega
  rw [effectOver_of_admitted htask hswap, Run.bind_of_ok hattempt, persist_eq_write, write_apply,
    if_neg hout', hsize]
  rfl

/-- **Why the effect of a task fails.** One of its two frames is not admitted, its swap gives no
answer, or there is no place for the answer that it gives. Only in the last case has the heap been
changed. -/
theorem effectOver_failed (h : t.effectOver root host thread room heap = (.error halt, next)) :
    t.Fails root host thread room heap halt next := by
  -- the cases are in the order in which the task asks
  cases htask : (t.frameOver root).permit host room with
  | error f =>
    cases (effectOver_of_no_task htask heap).symm.trans h
    exact .taskFrame htask
  | ok _ =>
  cases hswap : (t.swapFrameOver root).permit host room with
  | error f =>
    cases (effectOver_of_no_swap htask hswap heap).symm.trans h
    exact .swapFrame htask hswap
  | ok _ =>
  rcases (t.swapBy host.threads thread).attempt_outcome heap with
    ⟨yes, swapped, hattempt, hsize⟩ | ⟨halt', hattempt, hrefused⟩
  · by_cases hin : t.answer.toNat < heap.size
    · have hin' : t.answer.toNat + (Builtin.verdict yes).length ≤ swapped.size := by
        rw [hsize, verdict_eq, List.length_singleton]
        omega
      rw [effectOver_of_admitted htask hswap, Run.bind_of_ok hattempt, persist_eq_write,
        write_apply, if_pos hin'] at h
      cases h
    · have hout := Nat.not_lt.1 hin
      cases (effectOver_of_lost htask hswap hattempt hout).symm.trans h
      exact .unpublished hattempt hout
  · rw [effectOver_of_admitted htask hswap, Run.bind_of_error hattempt] at h
    cases h
    exact .unanswered hrefused

/-- Only the last access of a task is to a single byte, that of its answer. If it fails, the swap
has been made before, and it was not told to anybody. -/
theorem Fails.byte {offset size : Nat}
    (h : t.Fails root host thread room heap (.failed (.outOfBounds offset 1 size)) next) :
    offset = t.answer.toNat ∧ size = heap.size ∧ heap.size ≤ t.answer.toNat ∧
      ∃ yes, (t.swapBy host.threads thread).attempt heap = (.ok yes, next) := by
  have hframe : ∀ {p : Placed}, p.frame.size ≠ 1 →
      p.permit host room ≠ .error (.outOfBounds offset 1 size) := by
    -- the whole frame is refused and not a part of it
    intro p hsize hpermit
    rcases Placed.permit_failed hpermit with hunknown | ⟨hroom, -⟩
    · cases hunknown
    · exact hsize (Failure.outOfBounds.inj hroom).2.1.symm
  cases h with
  | taskFrame refused =>
    exact absurd refused (hframe (by rw [size_frameOver]; decide))
  | swapFrame admitted refused =>
    exact absurd refused (hframe (by rw [size_swapFrameOver]; decide))
  | unanswered refused =>
    rcases refused.outOfBounds with ⟨-, hlen⟩ | ⟨hlen, -⟩
    · cases hlen
    · cases hlen
  | unpublished answered outside => exact ⟨rfl, rfl, outside, _, answered⟩

/-- A task that fails elsewhere has left the heap as it was. -/
theorem Fails.keeps (h : t.Fails root host thread room heap halt next)
    (hother : halt ≠ .failed (.outOfBounds t.answer.toNat 1 heap.size)) : next = heap := by
  cases h with
  | taskFrame refused => rfl
  | swapFrame admitted refused => rfl
  | unanswered refused => rfl
  | unpublished answered outside => exact absurd rfl hother

end SwapTask

/-! ## Failed tasks -/

namespace Context

variable {ctx after : Context} {f : Failure}

/-- A task that fails on its root frame, and is not stopped, fails as its effect does. So whatever
is known of the effect of a task, which is told without calls and frames, holds of its dispatch. -/
theorem Stands.failed_dispatch (hreserves : host.Reserves)
    (h : Stands host thread [root] heap ctx)
    (hrun : dispatch (.swap t) ctx = (.error (.failed f), after)) (hcalm : f.isCrash = false) :
    ∃ next, after.heap = some next ∧
      t.Fails root host thread ctx.stack.region.size heap (.failed f) next := by
  have hstacked : Stacked True host thread ctx.stack.region [root] heap ctx :=
    ⟨h, fun hnot => absurd trivial hnot, rfl, rfl⟩
  rcases hstacked.dispatchSwap_performs hreserves t with
    (⟨_, _, _, _, hok, -, -⟩ | ⟨halt, last, next, hfailed, heffect, above, hleft⟩)
    | ⟨-, point, function, last, hcrash⟩
  · cases hok.symm.trans hrun
  · cases hfailed.symm.trans hrun
    exact ⟨next, hleft.stands.heap_eq, SwapTask.effectOver_failed heffect⟩
  · cases hcrash.symm.trans hrun
    cases hcalm

/-- **What a failed task has done.** A task that fails on the root frame, whatever that is, with any
hook that does not stop it and on a stack of any size, has left the whole heap as it was, unless its
failure is that of the single byte that was to take the answer. Then that byte is outside the heap,
and the swap has been made and has answered. So a task whose answer has its place in the heap has
done nothing if it fails. -/
theorem failed_swap_keeps (hreserves : host.Reserves) (h : Stands host thread [root] heap ctx)
    (hrun : dispatch (.swap t) ctx = (.error (.failed f), after)) (hcalm : f.isCrash = false) :
    (f ≠ .outOfBounds t.answer.toNat 1 heap.size → after.heap = some heap) ∧
    (f = .outOfBounds t.answer.toNat 1 heap.size → heap.size ≤ t.answer.toNat ∧
      ∃ yes next, (t.swapBy host.threads thread).attempt heap = (.ok yes, next) ∧
        after.heap = some next) ∧
    (t.answer.toNat < heap.size → after.heap = some heap) := by
  obtain ⟨next, hheap, hfails⟩ := h.failed_dispatch hreserves hrun hcalm
  have hkept : f ≠ .outOfBounds t.answer.toNat 1 heap.size → after.heap = some heap := by
    intro hother
    rw [hheap, hfails.keeps fun hhalt => hother (Halt.failed.inj hhalt)]
  refine ⟨hkept, ?_, fun hin => hkept ?_⟩
  · rintro rfl
    obtain ⟨-, -, hout, yes, hattempt⟩ := hfails.byte
    exact ⟨hout, yes, next, hattempt, hheap⟩
  · rintro rfl
    exact absurd hin (Nat.not_lt.2 hfails.byte.2.2.1)

/-- A task on the root frame of a new worker. -/
theorem exists_dispatch {stack : Region} (hreserves : host.Reserves)
    (hroom : rootFrame.frame.size ≤ stack.size) (heap : Region) (task : Task) :
    ∃ ctx after, Stands host 0 [rootFrame] heap ctx ∧ ctx.hook = none ∧
      ctx.stack.region.size = stack.size ∧
      dispatch task ctx = ((task.effect host 0 stack.size heap).1, after) ∧
      after.heap = some (task.effect host 0 stack.size heap).2 := by
  obtain ⟨ctx, -, hctx⟩ := (Worker.newcomer_working host stack heap).pushRoot hroom
  have houtcome := hctx.outcome_eq hreserves task
  have hresult : (dispatch task ctx).1 = (task.effect host 0 stack.size heap).1 :=
    congrArg Prod.fst houtcome
  exact ⟨ctx, _, hctx.stands, hctx.hook_eq, hctx.size_eq, Prod.ext hresult rfl,
    congrArg Prod.snd houtcome⟩

/-- A task that has no room for the frame of its swap does nothing. -/
theorem narrowStack_keeps :
    (soleHost .execution).Reserves ∧
    ∃ ctx after, Stands (soleHost .execution) 0 [rootFrame] startHeap ctx ∧
      dispatch (.swap soleTask) ctx = (.error (.failed (.outOfBounds 128 40 120)), after) ∧
      (Failure.outOfBounds 128 40 120).isCrash = false ∧ after.heap = some startHeap := by
  have hreserves : (soleHost .execution).Reserves := reserves_of_addBuiltins
  obtain ⟨ctx, after, hctx, -, -, hrun, -⟩ :=
    exists_dispatch hreserves Pool.narrowStack_rootFrame startHeap (.swap soleTask)
  have hrefused : dispatch (.swap soleTask) ctx
      = (.error (.failed (.outOfBounds 128 40 120)), after) := by
    rw [hrun, Pool.narrowStack_size]
    rfl
  exact ⟨hreserves, ctx, after, hctx, hrefused, rfl,
    (failed_swap_keeps hreserves hctx hrefused rfl).1 (by decide)⟩

/-- The same task with its answer far outside the heap. -/
def lostTask : SwapTask := { soleTask with answer := 4096 }

/-- **A task that fails with its swap made.** It is refused the byte of its answer, and the
register holds the new value. -/
theorem lostTask_swaps :
    ∃ ctx after next, Stands (soleHost .execution) 0 [rootFrame] startHeap ctx ∧
      dispatch (.swap lostTask) ctx = (.error (.failed (.outOfBounds 4096 1 128)), after) ∧
      (Failure.outOfBounds 4096 1 128).isCrash = false ∧
      Register.load startHeap 0 = .ok ⟨Register.noOwner, 5⟩ ∧
      after.heap = some next ∧ Register.load next 0 = .ok ⟨0, 7⟩ := by
  have hshows : Site.Shows ⟨0, ⟨64, 1⟩⟩ startHeap ⟨Register.noOwner, 5⟩ fun _ _ => 0 :=
    startHeap_shows (by decide)
  -- the swap does not know where its answer goes, so it is made as that of `soleTask` is
  obtain ⟨swapped, hattempt, hregister⟩ : ∃ swapped,
      (lostTask.swapBy 1 0).attempt startHeap = (.ok true, swapped) ∧
      Register.load swapped 0 = .ok ⟨0, 7⟩ := by
    rcases Swap.attempt_cases (s := ⟨0, ⟨64, 1⟩, 5, 7, 0⟩) hshows (by decide) (.inl rfl) with
      ⟨hvalue, -⟩ | ⟨-, -, swapped, hattempt, hafter, -⟩ | ⟨-, hnote, -⟩
    · exact absurd rfl hvalue
    · exact ⟨swapped, hattempt, hafter.load_register⟩
    · exact absurd (.inl rfl) hnote
  have heffect : lostTask.effectOver rootFrame (soleHost .execution) 0 168 startHeap
      = (.error (.failed (.outOfBounds 4096 1 startHeap.size)), swapped) :=
    SwapTask.effectOver_of_lost rfl rfl hattempt (by rw [size_startHeap]; decide)
  rw [SwapTask.effectOver_rootFrame, size_startHeap] at heffect
  have hroom : soleStack.size = 168 := Array.size_replicate
  have hreserves : (soleHost .execution).Reserves := reserves_of_addBuiltins
  obtain ⟨ctx, after, hctx, -, -, hrun, hheap⟩ :=
    exists_dispatch hreserves (by rw [hroom]; decide) startHeap (.swap lostTask)
  rw [hroom, Task.effect, heffect] at hrun hheap
  exact ⟨ctx, after, swapped, hctx, hrun, rfl, hshows.load_register, hheap, hregister⟩

end Context

end DurableCalls
