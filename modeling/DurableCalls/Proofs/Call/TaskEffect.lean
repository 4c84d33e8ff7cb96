/-
`TaskEffect.lean` -- what a task does to the heap, told without a stack.

A task runs in frames, and what is on the stack below and behind them is left from other tasks.
None of it can be seen in the heap. A swap task asks for its two functions and for room for its
two frames, then it swaps, and then it publishes the answer (`SwapTask.effect`). A worker on the
root frame does that and nothing else, whatever the bytes of its stack are: it ends as the effect
ends, with the heap that the effect leaves (`Working.dispatch_performs`).

The frames are there in between, and a task that fails leaves them. All of them are above the
root frame, so a worker can go back to it.
-/
import DurableCalls.Proofs.Call.AnyRoot
import DurableCalls.Proofs.Context.Aborts
import DurableCalls.Proofs.Swap.Offsets

set_option autoImplicit false

namespace DurableCalls

open CallStack Region DurableStack Workload

/-! ## The effect -/

/-- The swap of a task, as one thread makes it with so much room for its frames. -/
def SwapTask.swapEffect (t : SwapTask) (host : Host) (thread : UInt32) (room : Nat) :
    Run Region Bool := do
  (swapFrame t).permit host room
  (t.swapBy host.threads thread).attempt

/-- **What a swap task does to the heap.** -/
def SwapTask.effect (t : SwapTask) (host : Host) (thread : UInt32) (room : Nat) :
    Run Region Unit := do
  (taskFrame t).permit host room
  let yes ← t.swapEffect host thread room
  Region.persist t.answer.toNat (Builtin.verdict yes)

/-- What a task does to the heap. To read takes no room. -/
def Task.effect (host : Host) (thread : UInt32) (room : Nat) : Task → Run Region Unit
  | .swap t => t.effect host thread room
  | .read register => discard (do Register.load (← get) register.toNat : Run Region Register)

theorem SwapTask.frameOver_rootFrame (t : SwapTask) : t.frameOver rootFrame = taskFrame t := rfl

theorem SwapTask.swapFrameOver_rootFrame (t : SwapTask) :
    t.swapFrameOver rootFrame = swapFrame t := by
  rw [SwapTask.swapFrameOver]
  exact congrArg _ (nextPosition_taskFrame t)

/-- The root frame of a worker is one of those that a task can stand on. -/
theorem SwapTask.effectOver_rootFrame (t : SwapTask) (host : Host) (thread : UInt32) (room : Nat) :
    t.effectOver rootFrame host thread room = t.effect host thread room := by
  rw [SwapTask.effectOver, SwapTask.swapEffectOver, t.swapFrameOver_rootFrame]
  rfl

namespace Context

variable {host : Host} {thread : UInt32} {room heap : Region} {ctx : Context}

/-- A worker without a plan whose frames are those of the worker on its root frame, and others
above them. -/
def OverRoot (host : Host) (thread : UInt32) (room : Region) (heap : Region) (ctx : Context) :
    Prop :=
  ∃ above, Working host thread none room (above ++ [rootFrame]) heap ctx

/-- **A task does to the heap what its effect does**, and it ends as its effect ends. The worker
is on the root frame again when the task returns, and it can go back to it when the task
fails. -/
theorem Working.dispatch_performs (hreserves : host.Reserves)
    (h : Working host thread none room [rootFrame] heap ctx) (task : Task) :
    Performs (Context.dispatch task) ctx (task.effect host thread room.size) heap
      (fun _ _ next after => Working host thread none room [rootFrame] next after)
      (OverRoot host thread room) := by
  have hstacked := stacked_false_iff.2 h
  cases task with
  | swap t =>
    rcases hstacked.dispatchSwap_performs hreserves t with hperforms | ⟨hhooked, -⟩
    · rw [t.effectOver_rootFrame] at hperforms
      refine hperforms.mono (fun _ _ _ _ => stacked_false_iff.1) ?_
      rintro next after ⟨above, hafter⟩
      exact ⟨above, stacked_false_iff.1 hafter⟩
    · exact hhooked.elim
  | read register =>
    show Performs (discard (readTask register)) ctx (discard _) heap _ _
    rw [Run.discard_eq_bind, Run.discard_eq_bind]
    refine .bind ((hstacked.onHeap_performs _).mono (fun _ _ _ _ => id) ?_) ?_
    · intro next after hafter
      exact ⟨[], stacked_false_iff.1 hafter⟩
    · rintro _ _ next after ⟨-, -, hafter⟩
      exact .of_ok rfl rfl (stacked_false_iff.1 hafter)

end Context

/-! ## The only thread -/

/-- A failure after which a worker goes on. -/
def Halt.Calm (halt : Halt) : Prop := ∃ f, halt = .failed f ∧ f.isCrash = false

open Run

/-- The matrix of one thread is one cell, and it is where the matrix begins. -/
theorem Matrix.cellOffset_of_one {m : Matrix} {row col : UInt32} (hone : m.threads = 1)
    (hrow : row < m.threads) (hcol : col < m.threads) : m.cellOffset row col = m.offset := by
  have hthreads : m.threads.toNat = 1 := by rw [hone]; rfl
  rw [UInt32.lt_iff_toNat_lt, hthreads, Nat.lt_one_iff] at hrow hcol
  rw [Matrix.cellOffset, hrow, hcol, Nat.zero_mul]
  rfl

/-- So no sum leads out of the word. -/
theorem Swap.attempt_calm {s : Swap} (hone : s.matrix.threads = 1)
    (hword : s.matrix.offset < wordLimit) : HaltsBy Halt.Calm s.attempt := by
  intro heap halt hhalt
  have hnever : ∀ reason, halt ≠ .aborted reason := by
    rintro reason rfl
    have haborted : s.perform false heap
        = (.error (.aborted reason), (s.perform false heap).2) := Prod.ext hhalt rfl
    obtain ⟨row, col, hreaches, hbeyond⟩ := perform_aborts haborted
    rw [Matrix.cellOffset_of_one hone hreaches.lt.1 hreaches.lt.2] at hbeyond
    exact absurd hword (Nat.not_lt.2 hbeyond)
  cases s.attempt_ofHeap heap halt hhalt with
  | failed refused => exact ⟨_, rfl, refused.calm⟩
  | addOverflow => exact absurd rfl (hnever _)
  | mulOverflow => exact absurd rfl (hnever _)

theorem Placed.permit_calm (p : Placed) (host : Host) (room : Nat) :
    EndsBy (fun f => Halt.Calm (.failed f)) (p.permit host room) := by
  intro f h
  rcases permit_failed h with rfl | ⟨rfl, -⟩
  · exact ⟨_, rfl, rfl⟩
  · exact ⟨_, rfl, rfl⟩

/-- **A task of the only thread fails, if it does not return.** It aborts nobody, and it is no
crash. -/
theorem Task.effect_calm {host : Host} (hone : host.threads = 1) (thread : UInt32) (room : Nat)
    (task : Task) : HaltsBy Halt.Calm (task.effect host thread room) := by
  cases task with
  | swap t =>
    have hword : t.swap.matrix.toNat < wordLimit := t.swap.matrix.toNat_lt
    have hswap : HaltsBy Halt.Calm (t.swapBy host.threads thread).attempt :=
      Swap.attempt_calm hone hword
    have hpublish : ∀ yes, HaltsBy Halt.Calm
        (Region.persist t.answer.toNat (Builtin.verdict yes)) := by
      intro yes heap
      rw [persist_eq_write, write_apply]
      split
      · exact .ok ()
      · exact .error ⟨_, rfl, rfl⟩
    refine (HaltsBy.lift ((taskFrame t).permit_calm host room)).bind fun _ => ?_
    refine HaltsBy.bind ?_ hpublish
    exact (HaltsBy.lift ((swapFrame t).permit_calm host room)).bind fun _ => hswap
  | read register =>
    have hload : HaltsBy Halt.Calm (do Register.load (← get) register.toNat) :=
      HaltsBy.get.bind fun heap => .lift ((Register.load_ofHeap heap _).mono
        fun f h => ⟨f, rfl, h.calm⟩)
    show HaltsBy Halt.Calm (discard _)
    rw [discard_eq_bind]
    exact hload.bind fun _ => .pure _

end DurableCalls
