/-
`Alone.lean` -- the swaps of a single thread.

A thread that is alone finds nothing in the register and in its one cell but what it put
there. So the recovery of a swap with a value that was not used before cannot take an
older trace for its own: it does what the swap does (`UsedBy.attempt_eq_recover`).
-/
import DurableCalls.Proofs.Swap.Effect

set_option autoImplicit false

namespace DurableCalls

namespace Site

/-- The heap shows only these values of the only thread. -/
def UsedBy (site : Site) (used : List UInt32) (heap : Region) : Prop :=
  ∃ current cells, site.Shows heap current cells ∧
    (current.owner = Register.noOwner ∨ current.owner = 0 ∧ current.value ∈ used) ∧
    (cells 0 0 = 0 ∨ cells 0 0 ∈ used)

variable {site : Site} {used : List UInt32} {heap : Region}

theorem UsedBy.put_beside {offset : Nat} {data : List UInt8} (h : site.UsedBy used heap)
    (hin : offset + data.length ≤ heap.size)
    (hregister : offset + data.length ≤ site.register ∨ site.register + 8 ≤ offset)
    (hmatrix : offset + data.length ≤ site.matrix.offset ∨
      site.matrix.offset + site.matrix.bytes ≤ offset) :
    site.UsedBy used (heap.put offset data) := by
  obtain ⟨current, cells, hshows, howner, hcell⟩ := h
  exact ⟨current, cells, hshows.put_beside hin hregister hmatrix, howner, hcell⟩

/-- What a swap with a new value leaves is shown by that value at most. -/
theorem used_noted {s : Swap} {current : Register} {cells : Cells}
    (howner : current.owner = Register.noOwner ∨ current.owner = 0 ∧ current.value ∈ used)
    (hcell : cells 0 0 = 0 ∨ cells 0 0 ∈ used) (hthread : s.thread = 0) :
    s.noted current cells 0 0 = 0 ∨ s.noted current cells 0 0 ∈ s.new :: used := by
  by_cases hnone : current.owner = Register.noOwner
  · rw [Swap.noted, if_pos hnone]
    exact hcell.imp_right (List.mem_cons_of_mem s.new)
  · obtain ⟨hzero, hvalue⟩ := howner.resolve_left hnone
    rw [Swap.noted, if_neg hnone, Cells.set, if_pos ⟨hzero.symm, hthread.symm⟩]
    exact .inr (List.mem_cons_of_mem s.new hvalue)

/-- **Alone, a swap and its recovery are the same** as long as the value is new. No trace of the
value is in the register or in the only cell, so the recovery does not take the swap for done and
makes it itself. -/
theorem UsedBy.attempt_eq_recover {s : Swap} (h : s.site.UsedBy used heap)
    (halone : s.matrix.threads = 1) (hal : s.site.Aligned) (hthread : s.thread = 0)
    (hnew : s.new ≠ 0) (hfresh : s.new ∉ used) :
    ∃ yes after, s.attempt heap = (.ok yes, after) ∧ s.recover heap = (.ok yes, after) ∧
      after.size = heap.size ∧ s.site.UsedBy (s.new :: used) after := by
  obtain ⟨current, cells, hshows, howner, hcell⟩ := h
  have hknown : s.thread < s.matrix.threads := by
    rw [hthread, halone]
    decide
  have howned : s.Owned current := by
    refine howner.imp_right fun ⟨hzero, _⟩ => ?_
    rw [hzero, ← hthread]
    exact hknown
  -- the only values in sight were installed before, and this one was not
  have hregister : current ≠ s.installed := by
    rintro rfl
    rcases howner with hnone | ⟨-, hvalue⟩
    · have hzero : s.thread = Register.noOwner := hnone
      rw [hthread] at hzero
      exact absurd hzero (by decide)
    · exact hfresh hvalue
  have hnoticed : ¬s.Noticed cells := by
    rintro ⟨col, hcol, hshown⟩
    -- a matrix of one thread has one column
    have hcolumn : col = 0 := by
      rw [halone, UInt32.lt_iff_toNat_lt] at hcol
      exact UInt32.toNat_inj.1 (Nat.lt_one_iff.1 hcol)
    rw [hthread, hcolumn] at hshown
    rw [hshown] at hcell
    exact hcell.elim hnew hfresh
  have hnote : s.CanNote current := .inr hal
  rw [Swap.recover_of_no_trace hshows hal hknown hregister hnoticed]
  rcases Swap.attempt_cases hshows hknown howned with ⟨-, hend⟩ | ⟨-, -, after, hend, hafter, hsize⟩
    | ⟨-, hnot, -⟩
  · exact ⟨false, heap, hend, hend, rfl, current, cells, hshows,
      howner.imp_right fun ⟨hzero, hvalue⟩ => ⟨hzero, List.mem_cons_of_mem s.new hvalue⟩,
      hcell.imp_right (List.mem_cons_of_mem s.new)⟩
  · exact ⟨true, after, hend, hend, hsize, s.installed, _, hafter,
      .inr ⟨hthread, List.mem_cons_self⟩, used_noted howner hcell hthread⟩
  · exact absurd hnote hnot

end Site

end DurableCalls
