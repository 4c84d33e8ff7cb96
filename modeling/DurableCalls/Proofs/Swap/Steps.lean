/-
`Steps.lean` -- the recovery of a swap in steps, and what the steps of a swap may write.

A recovery loads the register, then the cells of its thread's row one after the other, and
then it swaps, in steps that are known already. Others may come between any two loads. If
nobody does, the steps are the recovery (`Search.leads_iff_recover`).

Whatever a heap shows, a step writes to the register and to cells of the matrix, and to
nothing else (`advance_leaves`, `Search.advance_leaves`).
-/
import DurableCalls.Proofs.Swap.Concurrent

set_option autoImplicit false

namespace DurableCalls

open Region

/-! ## Ranges that a run leaves -/

/-- Whatever it starts from, the run leaves the bytes of a range, and the size. -/
def Region.Leaves {α : Type} (lo hi : Nat) (m : Run Region α) : Prop :=
  ∀ r, Agree lo hi r (m r).2

namespace Region.Leaves

variable {α β : Type} {lo hi : Nat} {m : Run Region α}

theorem pure (a : α) : Leaves lo hi (pure a) := fun _ => Agree.refl

theorem get : Leaves lo hi get := fun _ => Agree.refl

theorem lift (x : Except Failure α) : Leaves lo hi (liftM x) := fun r => by
  rw [Run.lift_apply]
  exact Agree.refl

theorem liftHalt (x : Except Halt α) : Leaves lo hi (liftM x) := fun r => by
  rw [Run.liftHalt_apply]
  exact Agree.refl

/-- Runs one after the other. The second one may depend on a value that the first returned. -/
theorem bind_of {f : α → Run Region β} (hm : Leaves lo hi m)
    (hf : ∀ a r t, m r = (.ok a, t) → Agree lo hi t (f a t).2) : Leaves lo hi (m >>= f) := by
  intro r
  have hagree := hm r
  rcases hrun : m r with ⟨halt | a, t⟩
  · rw [Run.bind_of_error hrun]
    rw [hrun] at hagree
    exact hagree
  · rw [Run.bind_of_ok hrun]
    rw [hrun] at hagree
    exact hagree.trans (hf a r t hrun)

theorem bind {f : α → Run Region β} (hm : Leaves lo hi m) (hf : ∀ a, Leaves lo hi (f a)) :
    Leaves lo hi (m >>= f) :=
  hm.bind_of fun a _ t _ => hf a t

/-- A durable store, also one that is refused. -/
theorem commit {width offset value : Nat} (h : hi ≤ offset ∨ offset + width ≤ lo) :
    Leaves lo hi (Region.commit width offset value) := by
  intro r
  by_cases hin : offset + width ≤ r.size
  · by_cases hal : offset % width = 0
    · rw [commit_of_aligned hin hal]
      exact agree_put (by rw [length_toBytes]; exact hin) (by rw [length_toBytes]; exact h)
    · rw [commit_of_misaligned hin hal]
      exact Agree.refl
  · rw [commit_of_outside (Nat.not_le.1 hin)]
    exact Agree.refl

end Region.Leaves

/-! ## The steps of a swap -/

theorem lt_of_checkThread {thread threads : UInt32} (h : checkThread thread threads = .ok ()) :
    thread < threads := by
  by_contra hlt
  rw [checkThread, if_neg hlt] at h
  cases h

/-- A cell with an offset is one of the matrix. -/
theorem Matrix.cellAt_eq_ok {m : Matrix} {row col : UInt32} {offset : Nat}
    (h : m.cellAt row col = .ok offset) :
    row < m.threads ∧ col < m.threads ∧ offset = m.cellOffset row col := by
  obtain ⟨⟨⟩, hrow, h⟩ := exists_of_bind_eq_ok h
  obtain ⟨⟨⟩, hcol, h⟩ := exists_of_bind_eq_ok h
  obtain ⟨product, hproduct, h⟩ := exists_of_bind_eq_ok h
  obtain ⟨index, hindex, h⟩ := exists_of_bind_eq_ok h
  obtain ⟨scaled, hscaled, h⟩ := exists_of_bind_eq_ok h
  obtain ⟨-, rfl⟩ := mulWord_eq_ok.1 hproduct
  obtain ⟨-, rfl⟩ := addWord_eq_ok.1 hindex
  obtain ⟨-, rfl⟩ := mulWord_eq_ok.1 hscaled
  exact ⟨lt_of_checkThread (eq_ok_of_lift hrow), lt_of_checkThread (eq_ok_of_lift hcol),
    (addWord_eq_ok.1 h).2⟩

/-- A range beside the register and the matrix. -/
structure Site.Beside (site : Site) (lo hi : Nat) : Prop where
  register : hi ≤ site.register ∨ site.register + 8 ≤ lo
  matrix : hi ≤ site.matrix.offset ∨ site.matrix.offset + site.matrix.bytes ≤ lo

namespace Swap

variable {s : Swap} {lo hi : Nat}

theorem announce_leaves (h : s.site.Beside lo hi) (current : Register) :
    Leaves lo hi (s.announce current) := by
  unfold announce
  split
  · refine (Leaves.liftHalt _).bind_of fun offset r t hoffset => ?_
    rw [Run.liftHalt_apply] at hoffset
    obtain ⟨hcell, rfl⟩ := Prod.mk.inj hoffset
    obtain ⟨hrow, hcol, rfl⟩ := Matrix.cellAt_eq_ok hcell
    have hle := Matrix.cellOffset_add_le hrow hcol
    have hge : s.matrix.offset ≤ s.matrix.cellOffset current.owner s.thread :=
      Nat.le_add_right _ _
    have hmatrix : hi ≤ s.matrix.offset ∨ s.matrix.offset + s.matrix.bytes ≤ lo := h.matrix
    exact Leaves.commit (by omega) r
  · exact Leaves.pure ()

theorem exchange_leaves (h : s.site.Beside lo hi) (current : Register) :
    Leaves lo hi (s.exchange current) := by
  refine Leaves.get.bind fun heap => (Leaves.lift _).bind fun found => ?_
  split
  · refine Leaves.bind ?_ fun _ => Leaves.pure _
    exact (Leaves.lift _).bind fun _ => Leaves.commit h.register
  · exact Leaves.pure _

/-- **Each step of a swap** writes to the register or to the matrix, whatever the heap holds: a
range that lies beside both is as it was. -/
theorem advance_leaves (h : s.site.Beside lo hi) (stage : Stage) :
    Leaves lo hi (s.advance stage) := by
  cases stage with
  | entered =>
    refine (Leaves.lift _).bind fun _ => Leaves.get.bind fun heap =>
      (Leaves.lift _).bind fun observed => ?_
    cases observed with
    | none => exact Leaves.pure _
    | some current => exact Leaves.pure _
  | observed current => exact (announce_leaves h current).bind fun _ => Leaves.pure _
  | announced current => exact (exchange_leaves h current).bind fun _ => Leaves.pure _

/-! ## The steps of a recovery -/

/-- How far a recovery is: it looks at the register, then at the cells of its row from a column
on, and at last it swaps. -/
inductive Search
  | entered
  | searching (col left : Nat)
  | trying (stage : Stage)
deriving DecidableEq, Repr

namespace Search

/-- The next atomic step of a recovery. It looks at the register, then at one cell of its row after
the other, and at last it swaps. -/
def advance (s : Swap) : Search → Run Region (Search ⊕ Bool)
  | .entered => do
    checkThread s.thread s.matrix.threads
    if (← Register.load (← get) s.register) = s.installed then return .inr true
    else return .inl (.searching 0 s.matrix.threads.toNat)
  | .searching _ 0 => return .inl (.trying .entered)
  | .searching col (left + 1) => do
    if (← s.matrix.load (← get) s.thread (UInt32.ofNat col)) = s.new then return .inr true
    else return .inl (.searching (col + 1) left)
  | .trying stage => do
    match ← s.advance stage with
    | .inl next => return .inl (.trying next)
    | .inr answer => return .inr answer

/-- What is left to do. -/
def remaining (s : Swap) : Search → Run Region Bool
  | .entered => s.recover
  | .searching col left => do
    if ← s.announcedFrom (← get) col left then return true
    s.attempt
  | .trying stage => s.remaining stage

/-- **The steps are the recovery**, cut at each cell that its search looks at. What is left of it at
a stage is one step, and then what is left at the next stage, or the answer. -/
theorem remaining_eq_advance (s : Swap) (search : Search) :
    remaining s search = advance s search >>= Sum.elim (remaining s) pure := by
  cases search with
  | entered =>
    simp only [remaining, advance, recover, announced, bind_assoc]
    refine bind_congr fun _ => ?_
    funext heap
    -- the row is searched in the heap in which the register was looked at
    rw [Run.bind_of_ok (Run.get_apply heap), Run.bind_of_ok (Run.get_apply heap), Run.bind_apply,
      Run.bind_apply, Run.lift_apply]
    cases Register.load heap s.register with
    | error failure => rfl
    | ok current =>
      by_cases hinstalled : current = s.installed
      · simp [hinstalled, Run.mapError_ok]
      · simp only [Run.mapError_ok, if_neg hinstalled, pure_bind, Sum.elim_inl, remaining]
        rw [Run.bind_of_ok (Run.get_apply heap)]
  | searching col left =>
    funext heap
    cases left with
    | zero =>
      simp only [remaining, advance, announcedFrom, pure_bind]
      rw [Run.bind_of_ok (Run.get_apply heap)]
      rfl
    | succ left =>
      simp only [remaining, advance, bind_assoc]
      rw [Run.bind_of_ok (Run.get_apply heap), Run.bind_of_ok (Run.get_apply heap), Run.bind_apply,
        Run.bind_apply, Run.liftHalt_apply, Run.liftHalt_apply]
      cases hload : s.matrix.load heap s.thread (UInt32.ofNat col) with
      | error halt => rw [announcedFrom_of_error hload]
      | ok value =>
        by_cases hnew : value = s.new
        · simp only [announcedFrom_of_eq hload hnew, if_pos hnew, if_true, pure_bind, Sum.elim_inr]
        · simp only [announcedFrom_of_ne hload hnew, if_neg hnew, pure_bind, Sum.elim_inl,
            remaining]
          rw [Run.bind_of_ok (Run.get_apply heap), Run.bind_apply, Run.liftHalt_apply]
  | trying stage =>
    simp only [remaining, advance, bind_assoc, s.remaining_eq_advance stage]
    refine bind_congr fun goesOn => ?_
    cases goesOn with
    | inl next => simp [remaining]
    | inr answer => simp

/-- First the register, then so many cells of the row, and then the swap. -/
def rank : Search → Nat × Nat
  | entered => (4, 0)
  | searching _ left => (3, left)
  | trying stage => stage.rank

/-- Each step of the search leaves one cell less, and behind the last one come the stages of the
swap. -/
theorem staged (s : Swap) : Staged (advance s) (remaining s) rank where
  apart := remaining_eq_advance s
  nearer search := by
    cases search with
    | entered =>
      apply Run.Returns.behind
      intro _
      apply Run.Returns.behind
      intro _
      apply Run.Returns.behind
      intro current
      split
      · exact .pure trivial
      · exact .pure (.left _ _ (by decide))
    | searching col left =>
      cases left with
      | zero => exact .pure (.left _ _ (by decide))
      | succ left =>
        apply Run.Returns.behind
        intro _
        apply Run.Returns.behind
        intro value
        split
        · exact .pure trivial
        · exact .pure (.right _ (Nat.lt_succ_self left))
    | trying stage =>
      refine (s.staged.nearer stage).bind fun goesOn hnearer => ?_
      cases goesOn with
      | inl next => exact .pure hnearer
      | inr answer => exact .pure trivial

/-- **A recovery that nobody interrupts** is the one that is told in one go. The rank counts the
cells that the search has not seen, above the three stages of the swap that may come behind it. -/
theorem leads_iff_recover {s : Swap} {heap after : Region} {result : Except Halt Bool} :
    Leads (advance s) .entered heap result after ↔ s.recover heap = (result, after) :=
  (staged s).leads_iff

/-- **Each step of a recovery** writes to the register or to the matrix. Its search only reads, and
the steps of the swap behind it are those of a swap. -/
theorem advance_leaves (h : s.site.Beside lo hi) (search : Search) :
    Leaves lo hi (advance s search) := by
  cases search with
  | entered =>
    refine (Leaves.lift _).bind fun _ => Leaves.get.bind fun heap =>
      (Leaves.lift _).bind fun found => ?_
    split
    · exact Leaves.pure _
    · exact Leaves.pure _
  | searching col left =>
    cases left with
    | zero => exact Leaves.pure _
    | succ left =>
      refine Leaves.get.bind fun heap => (Leaves.liftHalt _).bind fun found => ?_
      split
      · exact Leaves.pure _
      · exact Leaves.pure _
  | trying stage =>
    refine (s.advance_leaves h stage).bind fun goesOn => ?_
    cases goesOn with
    | inl next => exact Leaves.pure _
    | inr answer => exact Leaves.pure _

end Search

end Swap

end DurableCalls
