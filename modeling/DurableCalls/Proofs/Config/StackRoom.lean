/-
`StackRoom.lean` -- the stack that a swap task needs, and the stack that a configuration is asked
for.

A swap task stands in three frames, each on a cache line of its own: that of the root function, its
own, and that of its swap. The last one ends behind 168 bytes. The check of a configuration asks for
two cache lines, which hold the first two. So with a heap that has all the places of a task, the
stack decides alone whether an access is refused for want of room, and it does so at the third
frame (`Config.dispatch_outOfBounds_iff`).
-/
import DurableCalls.Proofs.Call.FailedTasks
import DurableCalls.Proofs.Config.Overflow

set_option autoImplicit false

namespace DurableCalls

open CallStack Region Context

/-! ## Three frames -/

theorem past_swapFrame (t : SwapTask) : (swapFrame t).past = 168 := by
  rw [Placed.past, size_swapFrame]
  rfl

namespace SwapTask

variable {t : SwapTask} {host : Host} {thread : UInt32} {room offset len size : Nat}
  {heap next : Region}

theorem permit_taskFrame (hserves : host.Serves) (hroom : 119 ≤ room) :
    (taskFrame t).permit host room = .ok () := by
  rw [Placed.permit_of_known (hserves.task_eq false), past_taskFrame, if_neg (Nat.not_lt.2 hroom)]

theorem permit_swapFrame (hserves : host.Serves) :
    (swapFrame t).permit host room
      = if room < 168 then .error (.outOfBounds 128 40 room) else .ok () := by
  rw [Placed.permit_of_known (hserves.swap_eq false), past_swapFrame, size_swapFrame]
  rfl

/-- The register, the only cell and the answer of a task lie in a heap of this size. So nothing that
the task does to the heap is out of bounds, and what is left is the room on the stack. -/
structure Inside (t : SwapTask) (size : Nat) : Prop where
  register_in : t.swap.register.toNat + 8 ≤ size
  matrix_in : t.swap.matrix.toNat + 4 ≤ size
  answer_in : t.answer.toNat + 1 ≤ size

/-- Where a task has all its places in the heap, only a frame can be refused its room. Of its two
frames the first has room on every stack that the check accepts, so it is the second one, of 40
bytes. -/
theorem Fails.frame (h : t.Fails rootFrame host thread room heap
      (.failed (.outOfBounds offset len size)) next)
    (hone : host.threads = 1) (hinside : t.Inside heap.size) (hroom : 119 ≤ room) :
    room < 168 ∧ offset = 128 ∧ len = 40 ∧ size = room := by
  cases h with
  | taskFrame refused =>
    -- that frame ends behind 119 bytes
    rcases Placed.permit_failed refused with hunknown | ⟨-, hout⟩
    · cases hunknown
    · rw [frameOver_rootFrame, past_taskFrame] at hout
      exact absurd hroom (Nat.not_le.2 hout)
  | swapFrame admitted refused =>
    rcases Placed.permit_failed refused with hunknown | ⟨hfailure, hout⟩
    · cases hunknown
    · rw [swapFrameOver_rootFrame, size_swapFrame] at hfailure
      rw [swapFrameOver_rootFrame, past_swapFrame] at hout
      obtain ⟨hoffset, hlen, hsize⟩ := Failure.outOfBounds.inj hfailure
      exact ⟨hout, hoffset, hlen, hsize⟩
  | unanswered refused =>
    rcases refused.outOfBounds with ⟨hout, -⟩ | ⟨-, hthread, owner, howner, hout⟩
    · exact absurd hinside.register_in (Nat.not_le.2 hout)
    · -- one thread has one cell, where the matrix begins
      rw [Matrix.cellOffset_of_one hone howner hthread] at hout
      exact absurd hinside.matrix_in (Nat.not_le.2 hout)
  | unpublished answered outside => exact absurd hinside.answer_in (Nat.not_le.2 (by omega))

end SwapTask

/-! ## Configurations -/

namespace Config

variable {c : Config} {host : Host} {thread : UInt32} {heap : Region} {ctx : Context}
  {t : SwapTask}

theorem sound_of_check (h : c.check = .ok none) : c.Sound := by
  by_contra hnot
  obtain ⟨fault, hfault⟩ := check_of_not_sound hnot
  cases h.symm.trans hfault

/-- The stack of a configuration without a fault has room for the frame of a task. -/
theorem taskFrame_in (h : c.check = .ok none) : 119 ≤ c.stackSize :=
  Nat.le_trans (by decide) (sound_of_check h).stack_ge

/-- **The room on the stack.** A task of the only worker of a configuration without a fault, with
all its places in the heap, aligned or not, is dispatched on the root frame of the worker. If an
access outside its region is reported then, under whatever hook, it is the frame of the swap on a
stack below 168 bytes. And without a hook to stop the task, that is reported from every such
stack. -/
theorem dispatch_outOfBounds_iff (hcheck : c.check = .ok none) (hone : c.threads = 1)
    (hserves : host.Serves) (hthreads : host.threads = UInt32.ofNat c.threads)
    (hheap : heap.size = c.heapSize) (hinside : t.Inside c.heapSize)
    (h : Stands host thread [rootFrame] heap ctx) (hstack : ctx.stack.region.size = c.stackSize) :
    (∀ offset len size after,
      dispatch (.swap t) ctx = (.error (.failed (.outOfBounds offset len size)), after) →
        c.stackSize < 168 ∧ offset = 128 ∧ len = 40 ∧ size = c.stackSize) ∧
    (ctx.hook = none → (c.stackSize < 168 ↔ ∃ after,
      dispatch (.swap t) ctx
        = (.error (.failed (.outOfBounds 128 40 c.stackSize)), after))) := by
  have hroom := taskFrame_in hcheck
  have hsole : host.threads = 1 := by
    rw [hthreads, hone]
    rfl
  rw [← hheap] at hinside
  rw [← hstack] at hroom ⊢
  have honly : ∀ offset len size after,
      dispatch (.swap t) ctx = (.error (.failed (.outOfBounds offset len size)), after) →
        ctx.stack.region.size < 168 ∧ offset = 128 ∧ len = 40 ∧ size = ctx.stack.region.size := by
    intro offset len size after hrun
    obtain ⟨next, -, hfails⟩ := h.failed_dispatch hserves.reserves hrun rfl
    exact hfails.frame hsole hinside hroom
  refine ⟨honly, fun hnone => ⟨fun hshort => ?_, ?_⟩⟩
  · have hworking : Working host thread none ctx.stack.region [rootFrame] heap ctx :=
      ⟨h, hnone, rfl, rfl⟩
    -- two frames are admitted, and the third is not
    have heffect : Task.effect host thread ctx.stack.region.size (.swap t) heap
        = (.error (.failed (.outOfBounds 128 40 ctx.stack.region.size)), heap) := by
      have htask : (t.frameOver rootFrame).permit host ctx.stack.region.size = .ok () :=
        SwapTask.permit_taskFrame hserves hroom
      have hswap : (t.swapFrameOver rootFrame).permit host ctx.stack.region.size
          = .error (.outOfBounds 128 40 ctx.stack.region.size) := by
        rw [SwapTask.swapFrameOver_rootFrame, SwapTask.permit_swapFrame hserves, if_pos hshort]
      rw [Task.effect, ← SwapTask.effectOver_rootFrame]
      exact SwapTask.effectOver_of_no_swap htask hswap heap
    have houtcome := hworking.outcome_eq hserves.reserves (.swap t)
    rw [heffect] at houtcome
    have hresult : (dispatch (.swap t) ctx).1
        = .error (.failed (.outOfBounds 128 40 ctx.stack.region.size)) :=
      congrArg Prod.fst houtcome
    exact ⟨_, Prod.ext hresult rfl⟩
  · rintro ⟨after, hrun⟩
    exact (honly _ _ _ after hrun).1

/-- A heap of the usual size, before anything is in it. -/
def usualHeap : Region where
  path := .ofText "heap"
  cells := Array.replicate defaultHeapSize 0
  size_lt := by rw [Array.size_replicate]; decide

/-- A swap on the register and the matrix of the usual heap, with its answer in a block. -/
def usualTask : SwapTask := ⟨⟨2048, 42, 24, 3008⟩, 2⟩

theorem usualTask_inside : usualTask.Inside defaultHeapSize :=
  ⟨by decide, by decide, by decide⟩

/-- The stack below which a task is refused is large enough itself. No access of the task is out of
bounds on a stack of 168 bytes. -/
theorem leastStack_suffices :
    ({ stackSize := 168 } : Config).check = .ok none ∧ usualTask.Inside defaultHeapSize ∧
    (soleHost .execution).Serves ∧ usualHeap.size = defaultHeapSize ∧
    ∃ ctx, Stands (soleHost .execution) 0 [rootFrame] usualHeap ctx ∧
      ctx.stack.region.size = 168 ∧
      ∀ offset len size after, dispatch (.swap usualTask) ctx
        ≠ (.error (.failed (.outOfBounds offset len size)), after) := by
  have hcheck : ({ stackSize := 168 } : Config).check = .ok none := rfl
  have hserves : (soleHost .execution).Serves := serves_of_addBuiltins
  have hheap : usualHeap.size = defaultHeapSize := Array.size_replicate
  have hroom : soleStack.size = 168 := Array.size_replicate
  obtain ⟨ctx, -, hctx, -, hstack, -, -⟩ := exists_dispatch hserves.reserves
    (by rw [hroom]; decide) usualHeap (.swap usualTask)
  have honly := (dispatch_outOfBounds_iff hcheck rfl hserves rfl hheap usualTask_inside hctx
    (hstack.trans hroom)).1
  refine ⟨hcheck, usualTask_inside, hserves, hheap, ctx, hctx, hstack.trans hroom, ?_⟩
  intro offset len size after hrun
  exact absurd (honly offset len size after hrun).1 (by decide)

/-- Two cache lines for a stack, as many bytes as there are in the blank heap. -/
def twoLines : Region := { blankHeap with path := .ofText "stack" }

/-- **A stack that the check accepts, and no task can run on.** Nothing is wrong with two cache
lines, and the frame of the swap begins behind them. -/
theorem twoLines_refused :
    ({ stackSize := 128 } : Config).check = .ok none ∧ usualTask.Inside defaultHeapSize ∧
    usualTask.swap.register.toNat % lineSize = 0 ∧ usualTask.swap.matrix.toNat % 4 = 0 ∧
    usualHeap.size = defaultHeapSize ∧
    ∃ ctx after, Stands (soleHost .execution) 0 [rootFrame] usualHeap ctx ∧
      ctx.stack.region.size = 128 ∧
      dispatch (.swap usualTask) ctx = (.error (.failed (.outOfBounds 128 40 128)), after) := by
  have hreserves : (soleHost .execution).Reserves := reserves_of_addBuiltins
  have hroom : twoLines.size = 128 := size_blankHeap
  obtain ⟨ctx, after, hctx, -, hstack, hrun, -⟩ := exists_dispatch hreserves
    (by rw [hroom]; decide) usualHeap (.swap usualTask)
  refine ⟨rfl, usualTask_inside, rfl, rfl, Array.size_replicate, ctx, after, hctx,
    hstack.trans hroom, ?_⟩
  rw [hrun, hroom]
  rfl

end Config

end DurableCalls
