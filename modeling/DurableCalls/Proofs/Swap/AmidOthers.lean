/-
`AmidOthers.lean` -- swaps while others write to the heap.

A swap looks at its register twice, and a recovery also looks at the cells of its row, at one after
the other. In the meantime others may write to the heap, to other registers and to cells, those of
this row among them. As long as they leave the register alone, the swap makes the same writes as on
a heap that stands still (`attemptSteps_performs`); and as long as no cell of the row ever shows
the new value, the recovery finds no trace in any of the heaps that it looks at, and swaps
(`recoverSteps_performs`).
-/
import DurableCalls.StepByStep
import DurableCalls.Proofs.Context.Amid
import DurableCalls.Proofs.Swap.Effect

set_option autoImplicit false

namespace DurableCalls

open Region

namespace Swap

variable {s : Swap} {look : Region → Prop} {plan : List Write} {current : Register} {here : Region}

/-- How a swap ends that finds this in its register. -/
def Swaps (s : Swap) (current : Register) (yes : Bool) (_ : Region) (all : List Write) : Prop :=
  yes = decide (current.value = s.expected) ∧ all = s.writes current

theorem checkThread_apply {thread threads : UInt32} (h : thread < threads) (heap : Region) :
    (liftM (checkThread thread threads) : Run Region Unit) heap = (.ok (), heap) := by
  rw [Run.lift_apply, checkThread_of_lt h]
  rfl

/-- **A swap amid others**, none of which writes to its register. Between two of its steps any note
may appear in the matrix. It finds the same register at each step, so it makes the writes that it
would make alone, and gives that answer. -/
theorem attemptSteps_performs (hthread : s.thread < s.matrix.threads) (howner : s.Owned current)
    (hnote : s.CanNote current)
    (hlook : ∀ heap, look heap → ∃ cells, s.site.Shows heap current cells)
    (hplan : s.writes current ⊆ plan) :
    Performs look plan (s.Swaps current) s.attemptSteps here [] := by
  apply Performs.quiet
  intro heap hheap
  refine ⟨(), heap, checkThread_apply hthread heap, rfl, ?_⟩
  apply Performs.quiet
  intro heap hheap
  obtain ⟨cells, hshows⟩ := hlook heap hheap
  have hobserve : (do s.observe (← get) : Run Region (Option Register)) heap
      = (.ok (if current.value = s.expected then some current else none), heap) := by
    rw [Run.bind_of_ok (Run.get_apply heap), Run.lift_apply, observe_of_shows hshows]
    rfl
  refine ⟨_, heap, hobserve, rfl, ?_⟩
  unfold Swaps
  unfold writes at hplan ⊢
  by_cases hvalue : current.value = s.expected
  · simp only [if_pos hvalue] at hplan ⊢
    obtain ⟨hnotes, hinstall⟩ := List.append_subset.1 hplan
    -- the note is left on the heap as it is by now, and the exchange finds what was observed
    apply Performs.step
    intro heap hheap
    obtain ⟨cells, hshows⟩ := hlook heap hheap
    refine ⟨(), _, s.noteWrites current, announce_apply hshows.fits hthread howner hnote, rfl,
      hnotes, ?_⟩
    apply Performs.ended
    apply Performs.step
    intro heap hheap
    obtain ⟨cells, hshows⟩ := hlook heap hheap
    have hexchange := exchange_apply (shows_noted hshows rfl hthread howner) current
    rw [if_pos rfl] at hexchange
    refine ⟨true, _, [s.installWrite], hexchange, ?_, hinstall, ?_, rfl⟩
    · rw [List.nil_append, putAll_append]
      rfl
    · exact (decide_eq_true hvalue).symm
  · simp only [if_neg hvalue]
    exact ⟨(decide_eq_false hvalue).symm, rfl⟩

/-- A search that finds the value in no cell of the row, whatever is noted there meanwhile. The
induction is on the cells that are left, each of them looked at in a heap of its own. -/
theorem announcedSteps_performs (hal : s.site.Aligned) (hthread : s.thread < s.matrix.threads)
    (hlook : ∀ heap, look heap → ∃ cells, s.site.Shows heap current cells ∧ ¬s.Noticed cells)
    (left : Nat) : ∀ {col : Nat} {here : Region}, col + left = s.matrix.threads.toNat →
      Performs look plan (fun found _ all => found = false ∧ all = [])
        (s.announcedSteps col left) here [] := by
  induction left with
  | zero =>
    intro col here _
    exact ⟨rfl, rfl⟩
  | succ left ih =>
    intro col here hcol
    have hthreads := s.matrix.threads.toNat_lt
    have hlt : UInt32.ofNat col < s.matrix.threads := by
      rw [UInt32.lt_iff_toNat_lt, UInt32.toNat_ofNat', Nat.mod_eq_of_lt (by omega)]
      omega
    apply Performs.quiet
    intro heap hheap
    obtain ⟨cells, hshows, hnoticed⟩ := hlook heap hheap
    have hload : s.matrix.load heap s.thread (UInt32.ofNat col)
        = .ok (cells s.thread (UInt32.ofNat col)) := hshows.load_cell hal hthread hlt
    -- the heap of this moment has the value in no cell of the row
    have hother : cells s.thread (UInt32.ofNat col) ≠ s.new := by
      intro hnew
      exact hnoticed ⟨UInt32.ofNat col, hlt, hnew⟩
    have hrun : (do s.matrix.load (← get) s.thread (UInt32.ofNat col) : Run Region UInt32) heap
        = (.ok (cells s.thread (UInt32.ofNat col)), heap) := by
      rw [Run.bind_of_ok (Run.get_apply heap), Run.liftHalt_apply, hload]
    refine ⟨_, heap, hrun, rfl, ?_⟩
    rw [if_neg hother]
    exact ih (by omega)

/-- **A recovery amid others**, in whose row the new value is never seen. Cell after cell its search
finds no trace, whatever has been noted by then, and so it comes to be the swap. The induction is on
the cells that are left. -/
theorem recoverSteps_performs (hal : s.site.Aligned) (hthread : s.thread < s.matrix.threads)
    (howner : s.Owned current) (hregister : current ≠ s.installed)
    (hlook : ∀ heap, look heap → ∃ cells, s.site.Shows heap current cells ∧ ¬s.Noticed cells)
    (hplan : s.writes current ⊆ plan) :
    Performs look plan (s.Swaps current) s.recoverSteps here [] := by
  apply Performs.quiet
  intro heap hheap
  refine ⟨(), heap, checkThread_apply hthread heap, rfl, ?_⟩
  apply Performs.quiet
  intro heap hheap
  obtain ⟨cells, hshows, -⟩ := hlook heap hheap
  have hload : (do Register.load (← get) s.register : Run Region Register) heap
      = (.ok current, heap) := by
    have hload : Register.load heap s.register = .ok current := hshows.load_register
    rw [Run.bind_of_ok (Run.get_apply heap), Run.lift_apply, hload]
    rfl
  refine ⟨current, heap, hload, rfl, ?_⟩
  rw [if_neg hregister]
  apply (announcedSteps_performs hal hthread hlook _ (Nat.zero_add _)).bind
  rintro found after all ⟨rfl, rfl⟩
  rw [if_neg Bool.false_ne_true]
  apply attemptSteps_performs hthread howner (.inr hal) _ hplan
  intro heap hheap
  obtain ⟨cells, hshows, -⟩ := hlook heap hheap
  exact ⟨cells, hshows⟩

end Swap

end DurableCalls
