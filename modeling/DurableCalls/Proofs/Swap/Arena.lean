/-
`Arena.lean` -- several registers that share one matrix, and what their past leaves in them.

Threads swap on any of the registers, and all of them note what they replace in the same
matrix. Their steps come in any order (`Past`). Nothing is asked of the order in which a thread
takes its own steps, only that it notes and compares contents that some swap has found: so the
past may be that of threads that were stopped anywhere, of recoveries, and of recoveries of
these.

Whatever has happened, each value in sight was put there by the thread that it is told of: the
owner of a register has installed its value, and in the row of a thread stand only values that
this thread has installed (`Past.traced`). So a value that its thread has never installed has left
no trace, and the recovery of its swap is the swap.

That is so also while others are at work, on registers of their own. The writes that they make to
the matrix are notes of contents that are known, and so nothing stands in a cell that is not known
either (`Looks.put_of_mem`). This is all that a recovery has to rely on
(`recoverSteps_performs`).
-/
import DurableCalls.Proofs.Swap.AmidOthers
import DurableCalls.Proofs.Swap.ExactlyOnce
import DurableCalls.Proofs.Swap.Steps

set_option autoImplicit false

namespace DurableCalls

open Region

/-! ## Arenas -/

/-- A heap of so many bytes with some registers, each on a line of its own, and a matrix that
they share. -/
structure Arena where
  size : Nat
  registers : List Nat
  matrix : Matrix
  fits : ∀ register ∈ registers, Site.FitsIn ⟨register, matrix⟩ size
  aligned : matrix.offset % 4 = 0

/-- What is installed by a step that ends so. -/
def Swap.installs (s : Swap) : Except Halt (Swap.Stage ⊕ Bool) → List Register
  | .ok (.inr true) => [s.installed]
  | _ => []

/-- What is found by a step that ends so. -/
def Swap.finds : Except Halt (Swap.Stage ⊕ Bool) → List Register
  | .ok (.inl (.observed found)) => [found]
  | _ => []

namespace Arena

def site (a : Arena) (register : Nat) : Site := ⟨register, a.matrix⟩

/-- A range beside the registers and the matrix. -/
def Beside (a : Arena) (lo hi : Nat) : Prop :=
  ∀ register ∈ a.registers, (a.site register).Beside lo hi

/-- The heaps that an arena may be in: with what was installed so far, and by whom, and with all
that was ever found in a register.

A matrix is blank at first, and no thread has a value in a register then. Registers are
initialized, threads take steps of swaps, and anything is written beside all of it. The steps of a
recovery that change the heap are steps of its swap. -/
inductive Past (a : Arena) : (heap : Region) → (installed found : List Register) → Prop
  | blank {heap : Region} (size : heap.size = a.size)
      (cells : ∀ row col, row < a.matrix.threads → col < a.matrix.threads →
        heap.readNumber 4 (a.matrix.cellOffset row col) = .ok 0)
      (registers : ∀ register ∈ a.registers, ∃ first : Register,
        heap.readNumber 8 register = .ok first.pack ∧
        (first.owner = Register.noOwner ∨ first.owner < a.matrix.threads ∧ first.value = 0)) :
      Past a heap [] []
  | write {heap : Region} {installed found : List Register} {offset : Nat} {data : List UInt8}
      (past : Past a heap installed found) (inside : offset + data.length ≤ heap.size)
      (beside : a.Beside offset (offset + data.length)) :
      Past a (heap.put offset data) installed found
  | init {heap after : Region} {installed found : List Register} {register : Nat} {value : UInt32}
      (past : Past a heap installed found) (mem : register ∈ a.registers)
      (run : Register.init register value heap = (.ok (), after)) : Past a after installed found
  | step {heap after : Region} {installed found : List Register} {s : Swap} {stage : Swap.Stage}
      {outcome : Except Halt (Swap.Stage ⊕ Bool)} (past : Past a heap installed found)
      (mem : s.register ∈ a.registers) (matrix_eq : s.matrix = a.matrix)
      (known : s.thread < a.matrix.threads)
      (was_found : ∀ r, stage.found = some r → r ∈ found)
      (run : s.advance stage heap = (outcome, after)) :
      Past a after (s.installs outcome ++ installed) (Swap.finds outcome ++ found)

variable {a : Arena} {heap after : Region} {installed installed' found : List Register}
  {current : Register} {contents : Nat → Register} {cells : Cells} {register register' : Nat}
  {registers registers' : List Nat} {s : Swap}

/-- A heap of zeros is one of them, also if no register is initialized yet. -/
theorem Past.of_zeros (hsize : heap.size = a.size)
    (hzeros : ∀ i, i < heap.size → heap.cells[i]? = some 0) (hthreads : 0 < a.matrix.threads)
    (hmatrix : a.matrix.offset + a.matrix.bytes ≤ heap.size) : a.Past heap [] [] := by
  have hnumber : ∀ {width offset : Nat}, offset + width ≤ heap.size →
      heap.readNumber width offset = .ok 0 := by
    intro width offset hin
    exact readNumber_of_zeros hin fun i _ hlt => hzeros i (Nat.lt_of_lt_of_le hlt hin)
  refine .blank hsize ?_ ?_
  · intro row col hrow hcol
    exact hnumber (Nat.le_trans (Matrix.cellOffset_add_le hrow hcol) hmatrix)
  · intro register hmem
    refine ⟨⟨0, 0⟩, hnumber ?_, .inr ⟨hthreads, rfl⟩⟩
    rw [hsize]
    exact (a.fits register hmem).register_in

/-! ## What is known of a value -/

/-- Contents of a register that nobody owns, or a thread that has not written yet, or one that
has installed them. -/
def Known (a : Arena) (installed : List Register) (current : Register) : Prop :=
  current.owner = Register.noOwner ∨
    current.owner < a.matrix.threads ∧ (current.value = 0 ∨ current ∈ installed)

/-- The values in the row of a thread were installed by it. -/
def CellsKnown (a : Arena) (installed : List Register) (cells : Cells) : Prop :=
  ∀ row col, row < a.matrix.threads → col < a.matrix.threads →
    cells row col = 0 ∨ ⟨row, cells row col⟩ ∈ installed

theorem Known.mono (h : a.Known installed current) (hsub : installed ⊆ installed') :
    a.Known installed' current := by
  rcases h with hnone | ⟨howner, hvalue⟩
  · exact .inl hnone
  · exact .inr ⟨howner, hvalue.imp_right fun hmem => hsub hmem⟩

theorem CellsKnown.mono (h : a.CellsKnown installed cells) (hsub : installed ⊆ installed') :
    a.CellsKnown installed' cells := by
  intro row col hrow hcol
  exact (h row col hrow hcol).imp_right fun hmem => hsub hmem

/-- A note adds nothing that is not known. -/
theorem CellsKnown.noted (h : a.CellsKnown installed cells) (hcurrent : a.Known installed current) :
    a.CellsKnown installed (s.noted current cells) := by
  intro row col hrow hcol
  unfold Swap.noted
  by_cases hnone : current.owner = Register.noOwner
  · rw [if_pos hnone]
    exact h row col hrow hcol
  · obtain ⟨-, hvalue⟩ := hcurrent.resolve_left hnone
    rw [if_neg hnone]
    unfold Cells.set
    by_cases hcell : row = current.owner ∧ col = s.thread
    · rw [if_pos hcell, hcell.1]
      exact hvalue
    · rw [if_neg hcell]
      exact h row col hrow hcol

theorem Known.owned (h : a.Known installed current) (hmatrix : s.matrix = a.matrix) :
    s.Owned current := by
  rw [Swap.Owned, hmatrix]
  exact h.imp_right And.left

theorem site_eq (hmatrix : s.matrix = a.matrix) : s.site = a.site s.register := by
  rw [Swap.site, hmatrix]
  rfl

theorem aligned_of (hmatrix : s.matrix = a.matrix) : s.site.Aligned := by
  rw [site_eq hmatrix]
  exact a.aligned

/-! ## What a heap holds -/

/-- The contents of some of the registers, and the values in the cells that they share. The cells
are the same for all registers, because they have the matrix in common. -/
structure Holds (a : Arena) (registers : List Nat) (heap : Region) (contents : Nat → Register)
    (cells : Cells) : Prop where
  size_eq : heap.size = a.size
  shows : ∀ register ∈ registers, (a.site register).Shows heap (contents register) cells

theorem Holds.mono (h : a.Holds registers heap contents cells) (hsub : registers' ⊆ registers) :
    a.Holds registers' heap contents cells :=
  ⟨h.size_eq, fun register hmem => h.shows register (hsub hmem)⟩

/-- A write beside them all is not seen. -/
theorem Holds.put_beside {offset : Nat} {data : List UInt8}
    (h : a.Holds registers heap contents cells) (hin : offset + data.length ≤ heap.size)
    (hbeside : ∀ register ∈ registers, (a.site register).Beside offset (offset + data.length)) :
    a.Holds registers (heap.put offset data) contents cells := by
  constructor
  · rw [size_put]
    exact h.size_eq
  · intro register hmem
    obtain ⟨hregister, hmatrix⟩ := hbeside register hmem
    exact (h.shows register hmem).put_beside hin hregister hmatrix

/-- Two registers stand on two lines. -/
theorem registers_apart (hmem : register ∈ a.registers) (hmem' : register' ∈ a.registers)
    (hne : register ≠ register') : register + 8 ≤ register' ∨ register' + 8 ≤ register := by
  have hline : register % lineSize = 0 := (a.fits register hmem).line
  have hline' : register' % lineSize = 0 := (a.fits register' hmem').line
  unfold lineSize at hline hline'
  omega

/-- What one register is given is not seen in the others. -/
theorem Holds.put_register (h : a.Holds registers heap contents cells)
    (hsub : registers ⊆ a.registers) (hmem : register ∈ a.registers) (next : Register) :
    a.Holds registers (heap.put register (toBytes 8 next.pack))
      (Function.update contents register next) cells := by
  constructor
  · rw [size_put]
    exact h.size_eq
  · intro other hother
    have hshows := h.shows other hother
    by_cases hsame : other = register
    · subst hsame
      rw [Function.update_self]
      exact hshows.put_register next
    · rw [Function.update_of_ne hsame]
      have hfits := a.fits register hmem
      have hin : register + 8 ≤ a.size := hfits.register_in
      apply hshows.put_beside
      · rw [length_toBytes, h.size_eq]
        exact hin
      · rw [length_toBytes]
        exact (registers_apart (hsub hother) hmem hsame).symm
      · rw [length_toBytes]
        exact hfits.apart

/-- A note is seen by all of them. -/
theorem Holds.noted (h : a.Holds registers heap contents cells) (hmatrix : s.matrix = a.matrix)
    (hthread : s.thread < s.matrix.threads) (howner : s.Owned current) :
    a.Holds registers (heap.putAll (s.noteWrites current)) contents (s.noted current cells) := by
  constructor
  · rw [size_putAll]
    exact h.size_eq
  · intro register hmem
    exact Swap.shows_noted (h.shows register hmem) hmatrix.symm hthread howner

/-- What can be relied on while others are at work: the contents of some registers, and that nothing
stands in a cell that is not known. -/
def Looks (a : Arena) (installed : List Register) (registers : List Nat)
    (contents : Nat → Register) (heap : Region) : Prop :=
  ∃ cells, a.Holds registers heap contents cells ∧ a.CellsKnown installed cells

theorem Looks.put_beside {offset : Nat} {data : List UInt8}
    (h : a.Looks installed registers contents heap) (hin : offset + data.length ≤ a.size)
    (hbeside : ∀ register ∈ registers, (a.site register).Beside offset (offset + data.length)) :
    a.Looks installed registers contents (heap.put offset data) := by
  obtain ⟨cells, hholds, hcells⟩ := h
  rw [← hholds.size_eq] at hin
  exact ⟨cells, hholds.put_beside hin hbeside, hcells⟩

/-- **A write of a swap of another register** is seen in the cells alone, and it adds nothing there
that is not known. -/
theorem Looks.put_of_mem {w : Write} (h : a.Looks installed registers contents heap)
    (hsub : registers ⊆ a.registers) (hmem : s.register ∈ a.registers)
    (hnot : s.register ∉ registers) (hmatrix : s.matrix = a.matrix)
    (hthread : s.thread < s.matrix.threads) (hknown : a.Known installed current)
    (hw : w ∈ s.writes current) :
    a.Looks installed registers contents (heap.put w.offset w.data) := by
  obtain ⟨cells, hholds, hcells⟩ := h
  unfold Swap.writes at hw
  split at hw
  · rcases List.mem_append.1 hw with hw | hw
    · -- there is one note at most
      have hnotes : s.noteWrites current = [w] := by
        unfold Swap.noteWrites at hw ⊢
        split at hw
        · cases hw
        · next hsome => rw [if_neg hsome, List.mem_singleton.1 hw]
      have hnoted := hholds.noted hmatrix hthread (hknown.owned hmatrix)
      rw [hnotes, putAll_cons, putAll_nil] at hnoted
      exact ⟨s.noted current cells, hnoted, hcells.noted hknown⟩
    · rw [List.mem_singleton.1 hw]
      have hswapped := hholds.put_register hsub hmem s.installed
      refine ⟨cells, ⟨hswapped.size_eq, ?_⟩, hcells⟩
      intro register hregister
      have hne : register ≠ s.register := by
        rintro rfl
        exact hnot hregister
      have hshows := hswapped.shows register hregister
      rw [Function.update_of_ne hne] at hshows
      exact hshows
  · cases hw

/-! ## What the past leaves -/

/-- All that a heap holds is known, and so is all that was ever found. What a thread remembers of a
register may be old by the time it is noted, so the second part is needed as well. -/
structure Traced (a : Arena) (heap : Region) (installed found : List Register)
    (contents : Nat → Register) (cells : Cells) : Prop where
  holds : a.Holds a.registers heap contents cells
  known : ∀ register ∈ a.registers, a.Known installed (contents register)
  cells_known : a.CellsKnown installed cells
  found_known : ∀ r ∈ found, a.Known installed r

theorem Traced.put_register (h : a.Traced heap installed found contents cells)
    (hmem : register ∈ a.registers) {next : Register} (hsub : installed ⊆ installed')
    (hnext : a.Known installed' next) :
    a.Traced (heap.put register (toBytes 8 next.pack)) installed' found
      (Function.update contents register next) cells := by
  refine ⟨h.holds.put_register (List.Subset.refl _) hmem next, ?_, h.cells_known.mono hsub, ?_⟩
  · intro other hother
    by_cases hsame : other = register
    · rw [hsame, Function.update_self]
      exact hnext
    · rw [Function.update_of_ne hsame]
      exact (h.known other hother).mono hsub
  · intro r hr
    exact (h.found_known r hr).mono hsub

/-- **One step** installs its own value, and notes what was found. Both are known then: the value
because the step has just installed it, and the note because what was found was in a register once.
-/
theorem Traced.step {stage : Swap.Stage} {outcome : Except Halt (Swap.Stage ⊕ Bool)}
    (h : a.Traced heap installed found contents cells) (hmem : s.register ∈ a.registers)
    (hmatrix : s.matrix = a.matrix) (hthread : s.thread < a.matrix.threads)
    (hfound : ∀ r, stage.found = some r → r ∈ found)
    (hrun : s.advance stage heap = (outcome, after)) :
    ∃ contents' cells', a.Traced after (s.installs outcome ++ installed)
      (Swap.finds outcome ++ found) contents' cells' := by
  have hshows := h.holds.shows s.register hmem
  rw [← site_eq hmatrix] at hshows
  have hthread' : s.thread < s.matrix.threads := hmatrix ▸ hthread
  cases stage with
  | entered =>
    -- what is observed is in the register, and so it is known
    rcases Swap.advance_entered_cases hshows with ⟨-, halt, hend⟩ | ⟨-, -, hend⟩ | ⟨-, hend⟩
    · cases hrun.symm.trans hend
      exact ⟨contents, cells, h⟩
    · cases hrun.symm.trans hend
      refine ⟨contents, cells, h.holds, h.known, h.cells_known, ?_⟩
      intro r hr
      rcases List.mem_cons.1 hr with rfl | hr
      · exact h.known s.register hmem
      · exact h.found_known r hr
    · cases hrun.symm.trans hend
      exact ⟨contents, cells, h⟩
  | observed current =>
    have hknown : a.Known installed current := h.found_known current (hfound current rfl)
    have howner := hknown.owned hmatrix
    cases hrun.symm.trans (Swap.advance_observed_apply hshows hthread' howner
      (.inr (aligned_of hmatrix)))
    exact ⟨contents, s.noted current cells, h.holds.noted hmatrix hthread' howner, h.known,
      h.cells_known.noted hknown, h.found_known⟩
  | announced current =>
    rcases Swap.advance_announced_cases hshows current with ⟨-, hend⟩ | ⟨-, hend⟩
    · cases hrun.symm.trans hend
      have hinstalled : a.Known (s.installed :: installed) s.installed :=
        .inr ⟨hthread, .inr List.mem_cons_self⟩
      exact ⟨_, cells, h.put_register hmem (List.subset_cons_self _ _) hinstalled⟩
    · cases hrun.symm.trans hend
      exact ⟨contents, cells, h⟩

/-- **Whatever has happened, all that is seen is known**: what is in the registers, what is in the
cells, and what was ever found. The induction is on the past of the heap, and one step of a swap is
the case that adds to it. -/
theorem Past.traced (h : a.Past heap installed found) :
    ∃ contents cells, a.Traced heap installed found contents cells := by
  induction h with
  | @blank heap size cells registers =>
    -- of the other places nothing is said, so any value will do for them
    have hfirst : ∀ register, ∃ first : Register, register ∈ a.registers →
        heap.readNumber 8 register = .ok first.pack ∧ a.Known [] first := by
      intro register
      by_cases hmem : register ∈ a.registers
      · obtain ⟨first, hread, howner⟩ := registers register hmem
        exact ⟨first, fun _ => ⟨hread, howner.imp_right fun h => ⟨h.1, .inl h.2⟩⟩⟩
      · exact ⟨⟨0, 0⟩, fun hin => absurd hin hmem⟩
    choose contents hcontents using hfirst
    refine ⟨contents, fun _ _ => 0, ⟨size, ?_⟩, ?_, ?_, ?_⟩
    · intro register hmem
      refine ⟨?_, (hcontents register hmem).1, cells⟩
      rw [size]
      exact a.fits register hmem
    · intro register hmem
      exact (hcontents register hmem).2
    · intro row col _ _
      exact .inl rfl
    · intro r hr
      cases hr
  | write past inside beside ih =>
    obtain ⟨contents, cells, h⟩ := ih
    exact ⟨contents, cells, h.holds.put_beside inside beside, h.known, h.cells_known,
      h.found_known⟩
  | @init heap after installed found register value past mem run ih =>
    obtain ⟨contents, cells, h⟩ := ih
    have hfits : (a.site register).FitsIn heap.size := by
      rw [h.holds.size_eq]
      exact a.fits register mem
    cases run.symm.trans (Register.init_of_fits value hfits.line hfits.register_in)
    exact ⟨_, cells, h.put_register mem (List.Subset.refl _) (.inl rfl)⟩
  | step past mem matrix_eq known was_found run ih =>
    obtain ⟨contents, cells, h⟩ := ih
    exact h.step mem matrix_eq known was_found run

/-! ## Recoveries -/

/-- A register does not hold what its thread has never installed. -/
theorem ne_installed (hthread : s.thread < a.matrix.threads) (hknown : a.Known installed current)
    (hnew : s.new ≠ 0) (hnot : s.installed ∉ installed) : current ≠ s.installed := by
  rintro rfl
  rcases hknown with hnone | ⟨-, hzero | hmem⟩
  · apply SwapCall.noOwner_not_lt a.matrix.threads
    rw [← hnone]
    exact hthread
  · exact hnew hzero
  · exact hnot hmem

/-- In the row of a thread stands nothing that it has never installed. -/
theorem CellsKnown.not_noticed (hcells : a.CellsKnown installed cells)
    (hmatrix : s.matrix = a.matrix) (hthread : s.thread < a.matrix.threads) (hnew : s.new ≠ 0)
    (hnot : s.installed ∉ installed) : ¬s.Noticed cells := by
  rintro ⟨col, hcol, hcell⟩
  rw [hmatrix] at hcol
  rcases hcells s.thread col hthread hcol with hzero | hmem
  · exact hnew (hcell.symm.trans hzero)
  · rw [hcell] at hmem
    exact hnot hmem

/-- **Then the recovery of its swap is the swap**, whatever others note meanwhile. Notes tell of
values that somebody has installed. Its own value is not among them, so it is never taken for done.
-/
theorem recoverSteps_performs {plan : List Write} {here : Region} (hmatrix : s.matrix = a.matrix)
    (hthread : s.thread < a.matrix.threads)
    (hknown : a.Known installed (contents s.register)) (hnew : s.new ≠ 0)
    (hnot : s.installed ∉ installed) (hplan : s.writes (contents s.register) ⊆ plan) :
    Performs (a.Looks installed [s.register] contents) plan (s.Swaps (contents s.register))
      s.recoverSteps here [] := by
  have hthread' : s.thread < s.matrix.threads := hmatrix ▸ hthread
  apply Swap.recoverSteps_performs (aligned_of hmatrix) hthread' (hknown.owned hmatrix)
    (ne_installed hthread hknown hnew hnot) _ hplan
  rintro heap ⟨cells, hholds, hcells⟩
  refine ⟨cells, ?_, hcells.not_noticed hmatrix hthread hnew hnot⟩
  rw [site_eq hmatrix]
  exact hholds.shows s.register List.mem_cons_self

end Arena

end DurableCalls
