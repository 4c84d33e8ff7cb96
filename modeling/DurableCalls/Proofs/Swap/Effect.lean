/-
`Effect.lean` -- what a swap and its recovery do to what a heap shows.

A swap run alone ends in one of three ways (`attempt_cases`): the register does not hold
the expected value, or the value is noted and replaced, or the note cannot be left
because the cells are off their alignment. Its two writes are atomic, so a crash leaves
the heap before, between or behind them (`CutOff`), and `Effect` has a case for each.

The recovery looks for a trace first, in the register and then in the row of its thread,
and writes only where there is none.
-/
import DurableCalls.Proofs.Region.Writes
import DurableCalls.Proofs.Swap.Site

set_option autoImplicit false

namespace DurableCalls

open Region Site

namespace Swap

variable {s : Swap} {heap : Region} {current : Register} {cells : Cells}

/-! ## The steps -/

/-- An owner for whom a note can be left, or for whom none is due. -/
def Owned (s : Swap) (current : Register) : Prop :=
  current.owner = Register.noOwner ∨ current.owner < s.matrix.threads

/-- The cells once the overwritten value has been noted. -/
def noted (s : Swap) (current : Register) (cells : Cells) : Cells :=
  if current.owner = Register.noOwner then cells
  else cells.set current.owner s.thread current.value

/-- No note is due, or it can be left. -/
def CanNote (s : Swap) (current : Register) : Prop :=
  current.owner = Register.noOwner ∨ s.site.Aligned

theorem checkThread_of_lt {thread threads : UInt32} (h : thread < threads) :
    checkThread thread threads = .ok () := if_pos h

theorem observe_of_shows (h : s.site.Shows heap current cells) :
    s.observe heap = .ok (if current.value = s.expected then some current else none) := by
  have hload : Register.load heap s.register = .ok current := h.load_register
  simp only [observe, hload, bind, Except.bind, pure, Except.pure]

/-- What is written to note that a value is about to be replaced. -/
def noteWrites (s : Swap) (found : Register) : List Write :=
  if found.owner = Register.noOwner then []
  else [⟨s.matrix.cellOffset found.owner s.thread, toBytes 4 found.value.toNat⟩]

theorem announce_apply {found : Register} (hfits : s.site.FitsIn heap.size)
    (hthread : s.thread < s.matrix.threads) (howner : s.Owned found) (hnote : s.CanNote found) :
    s.announce found heap = (.ok (), heap.putAll (s.noteWrites found)) := by
  by_cases hnone : found.owner = Register.noOwner
  · rw [announce, if_neg fun hsome => hsome hnone, noteWrites, if_pos hnone]
    rfl
  · rw [announce, if_pos hnone, noteWrites, if_neg hnone]
    exact hfits.commit_cell (hnote.resolve_left hnone) (howner.resolve_left hnone) hthread
      found.value

/-- The note is seen in the matrix, by every register that has it. -/
theorem shows_noted {site : Site} {found : Register} (h : site.Shows heap current cells)
    (hmatrix : site.matrix = s.matrix) (hthread : s.thread < s.matrix.threads)
    (howner : s.Owned found) :
    site.Shows (heap.putAll (s.noteWrites found)) current (s.noted found cells) := by
  by_cases hnone : found.owner = Register.noOwner
  · rw [noteWrites, if_pos hnone, noted, if_pos hnone]
    exact h
  · have hrow := howner.resolve_left hnone
    rw [← hmatrix] at hrow hthread
    rw [noteWrites, if_neg hnone, noted, if_neg hnone, ← hmatrix]
    exact h.put_cell hrow hthread found.value

theorem announce_of_canNote (h : s.site.Shows heap current cells)
    (hthread : s.thread < s.matrix.threads) (howner : s.Owned current) (hnote : s.CanNote current) :
    ∃ after, s.announce current heap = (.ok (), after) ∧
      s.site.Shows after current (s.noted current cells) ∧ after.size = heap.size :=
  ⟨_, announce_apply h.fits hthread howner hnote, shows_noted h rfl hthread howner,
    size_putAll _ _⟩

theorem announce_of_not_canNote (h : s.site.Shows heap current cells)
    (hthread : s.thread < s.matrix.threads) (howner : s.Owned current)
    (hnote : ¬s.CanNote current) : ∃ halt, s.announce current heap = (.error halt, heap) := by
  obtain ⟨hsome, hal⟩ := not_or.1 hnote
  obtain ⟨halt, hcommit⟩ := h.commit_cell_of_misaligned hal (howner.resolve_left hsome) hthread
    current.value
  refine ⟨halt, ?_⟩
  rw [announce, if_pos hsome]
  exact hcommit

/-- What is written to install the new value. -/
def installWrite (s : Swap) : Write := ⟨s.register, toBytes 8 s.installed.pack⟩

/-- An exchange replaces what was found exactly if it is still there. -/
theorem exchange_apply (h : s.site.Shows heap current cells) (found : Register) :
    s.exchange found heap = if current = found then (.ok true, heap.putAll [s.installWrite])
      else (.ok false, heap) := by
  have hload : Register.load heap s.register = .ok current := h.load_register
  have hcommit : Register.commit s.register s.installed heap
      = (.ok (), heap.putAll [s.installWrite]) := h.fits.commit_register s.installed
  by_cases hsame : current = found
  · simp only [exchange, Run.bind_apply, Run.get_apply, Run.lift_apply, hload, Run.mapError_ok,
      if_pos hsame, hcommit, Run.pure_apply]
  · simp only [exchange, Run.bind_apply, Run.get_apply, Run.lift_apply, hload, Run.mapError_ok,
      if_neg hsame, Run.pure_apply]

/-- What was observed is still there when nobody comes between. -/
theorem exchange_of_shows (h : s.site.Shows heap current cells) :
    ∃ after, s.exchange current heap = (.ok true, after) ∧
      s.site.Shows after s.installed cells ∧ after.size = heap.size := by
  refine ⟨heap.putAll [s.installWrite], ?_, h.put_register s.installed, size_putAll _ _⟩
  rw [exchange_apply h, if_pos rfl]

/-! ## The swap -/

/-- What a swap does is up to what it loads. -/
theorem attempt_of_load (hthread : s.thread < s.matrix.threads)
    (hload : Register.load heap s.register = .ok current) :
    s.attempt heap = if current.value = s.expected
      then (s.announce current >>= fun _ => s.exchange current) heap
      else (.ok false, heap) := by
  have hobserve : s.observe heap
      = .ok (if current.value = s.expected then some current else none) := by
    rw [observe, hload]
    rfl
  by_cases hvalue : current.value = s.expected
  · rw [if_pos hvalue] at hobserve ⊢
    simp only [attempt, Run.bind_apply, Run.lift_apply, Run.get_apply, checkThread_of_lt hthread,
      hobserve, Run.mapError_ok]
  · rw [if_neg hvalue] at hobserve ⊢
    simp only [attempt, Run.bind_apply, Run.lift_apply, Run.get_apply, checkThread_of_lt hthread,
      hobserve, Run.mapError_ok, Run.pure_apply]

/-- **How a swap ends** when it runs alone. It finds another value and changes nothing, or it leaves
its note and installs its value, or the note cannot be left, and then nothing is changed either. -/
theorem attempt_cases (h : s.site.Shows heap current cells)
    (hthread : s.thread < s.matrix.threads) (howner : s.Owned current) :
    (current.value ≠ s.expected ∧ s.attempt heap = (.ok false, heap)) ∨
    (current.value = s.expected ∧ s.CanNote current ∧
      ∃ after, s.attempt heap = (.ok true, after) ∧
        s.site.Shows after s.installed (s.noted current cells) ∧ after.size = heap.size) ∨
    (current.value = s.expected ∧ ¬s.CanNote current ∧
      ∃ halt, s.attempt heap = (.error halt, heap)) := by
  rw [attempt_of_load hthread h.load_register]
  by_cases hvalue : current.value = s.expected
  · rw [if_pos hvalue]
    by_cases hnote : s.CanNote current
    · obtain ⟨between, hannounce, hbetween, hsize⟩ := announce_of_canNote h hthread howner hnote
      obtain ⟨after, hexchange, hafter, hsize'⟩ := exchange_of_shows hbetween
      rw [Run.bind_of_ok hannounce]
      exact .inr (.inl ⟨hvalue, hnote, after, hexchange, hafter, hsize'.trans hsize⟩)
    · obtain ⟨halt, hannounce⟩ := announce_of_not_canNote h hthread howner hnote
      exact .inr (.inr ⟨hvalue, hnote, halt, Run.bind_of_error hannounce⟩)
  · exact .inl ⟨hvalue, if_neg hvalue⟩

/-- All that a swap writes which finds this in the register. -/
def writes (s : Swap) (found : Register) : List Write :=
  if found.value = s.expected then s.noteWrites found ++ [s.installWrite] else []

/-- **A swap is its writes**, and tells whether it has found what it expects. In this form a swap
can be compared with other ones, and its writes can be moved past theirs. -/
theorem attempt_apply (h : s.site.Shows heap current cells) (hthread : s.thread < s.matrix.threads)
    (howner : s.Owned current) (hnote : s.CanNote current) :
    s.attempt heap
      = (.ok (decide (current.value = s.expected)), heap.putAll (s.writes current)) := by
  rw [attempt_of_load hthread h.load_register]
  by_cases hvalue : current.value = s.expected
  · have hexchange := exchange_apply (shows_noted h rfl hthread howner) current
    rw [if_pos rfl] at hexchange
    rw [if_pos hvalue, writes, if_pos hvalue, decide_eq_true hvalue, putAll_append,
      Run.bind_of_ok (announce_apply h.fits hthread howner hnote), hexchange]
  · rw [if_neg hvalue, writes, if_neg hvalue, decide_eq_false hvalue, putAll_nil]

/-- The heaps that a swap leaves when a crash cuts it off: as it was, with the note, or
as the swap leaves it when it returns. -/
inductive CutOff (s : Swap) (heap : Region) : Region → Prop
  | untouched : CutOff s heap heap
  | noted {current : Register} (observed : s.observe heap = .ok (some current)) :
      CutOff s heap (s.announce current heap).2
  | finished : CutOff s heap (s.attempt heap).2

/-- What a swap may do to what its heap shows, and what it then returns: nothing if it
was cut off. -/
inductive Effect (s : Swap) (current : Register) (cells : Cells) :
    Option (Except Halt Bool) → Register → Cells → Prop
  | unchanged {outcome : Option (Except Halt Bool)}
      (returned : outcome = none ∨ outcome = some (.ok false) ∨
        ¬s.site.Aligned ∧ ∃ halt, outcome = some (.error halt)) :
      Effect s current cells outcome current cells
  | noted (note : s.CanNote current) : Effect s current cells none current (s.noted current cells)
  | installed {outcome : Option (Except Halt Bool)} (note : s.CanNote current)
      (returned : outcome = none ∨ outcome = some (.ok true)) :
      Effect s current cells outcome s.installed (s.noted current cells)

theorem effect_of_attempt {outcome : Except Halt Bool} {after : Region}
    (h : s.site.Shows heap current cells) (hthread : s.thread < s.matrix.threads)
    (howner : s.Owned current) (hattempt : s.attempt heap = (outcome, after)) :
    ∃ current' cells', s.site.Shows after current' cells' ∧
      s.Effect current cells (some outcome) current' cells' := by
  rcases attempt_cases h hthread howner with ⟨-, hend⟩ | ⟨-, hnote, after', hend, hafter, -⟩
    | ⟨-, hnote, halt, hend⟩
  · rw [hend] at hattempt
    cases hattempt
    exact ⟨current, cells, h, .unchanged (.inr (.inl rfl))⟩
  · rw [hend] at hattempt
    cases hattempt
    exact ⟨_, _, hafter, .installed hnote (.inr rfl)⟩
  · rw [hend] at hattempt
    cases hattempt
    exact ⟨current, cells, h, .unchanged (.inr (.inr ⟨(not_or.1 hnote).2, halt, rfl⟩))⟩

/-- What a swap that is cut off has done is a part of what it does: nothing, the note, or the note
and the exchange. In each case it has given no answer. -/
theorem effect_of_cutOff {after : Region} (h : s.site.Shows heap current cells)
    (hthread : s.thread < s.matrix.threads) (howner : s.Owned current)
    (hcut : s.CutOff heap after) :
    ∃ current' cells', s.site.Shows after current' cells' ∧
      s.Effect current cells none current' cells' := by
  cases hcut with
  | untouched => exact ⟨current, cells, h, .unchanged (.inl rfl)⟩
  | @noted found observed =>
    -- what was observed is what the heap shows
    have hobserve := observe_of_shows h
    rw [observed] at hobserve
    have hfound : found = current := by
      by_cases hvalue : current.value = s.expected
      · rw [if_pos hvalue] at hobserve
        exact Option.some.inj (Except.ok.inj hobserve)
      · rw [if_neg hvalue] at hobserve
        cases hobserve
    rw [hfound]
    by_cases hnote : s.CanNote current
    · obtain ⟨after, hannounce, hafter, -⟩ := announce_of_canNote h hthread howner hnote
      rw [hannounce]
      exact ⟨_, _, hafter, .noted hnote⟩
    · obtain ⟨halt, hannounce⟩ := announce_of_not_canNote h hthread howner hnote
      rw [hannounce]
      exact ⟨current, cells, h, .unchanged (.inl rfl)⟩
  | finished =>
    obtain ⟨current', cells', hafter, heffect⟩ := effect_of_attempt h hthread howner
      (Prod.eta (s.attempt heap)).symm
    refine ⟨current', cells', hafter, ?_⟩
    -- the same effect, with the return lost
    cases heffect with
    | unchanged returned => exact .unchanged (.inl rfl)
    | installed note returned => exact .installed note (.inl rfl)

/-! ## The recovery -/

/-- A cell of the thread's row shows the new value. -/
def Noticed (s : Swap) (cells : Cells) : Prop :=
  ∃ col, col < s.matrix.threads ∧ cells s.thread col = s.new

section Search

variable {col left : Nat} {value : UInt32} {halt : Halt}

/-- A search ends at a cell that cannot be loaded. -/
theorem announcedFrom_of_error
    (hload : s.matrix.load heap s.thread (UInt32.ofNat col) = .error halt) :
    s.announcedFrom heap col (left + 1) = .error halt := by
  simp only [announcedFrom, hload, bind, Except.bind]

/-- It ends at a cell that shows the new value. -/
theorem announcedFrom_of_eq
    (hload : s.matrix.load heap s.thread (UInt32.ofNat col) = .ok value) (hnew : value = s.new) :
    s.announcedFrom heap col (left + 1) = .ok true := by
  simp only [announcedFrom, hload, bind, Except.bind, if_pos hnew, pure, Except.pure]

/-- It goes on behind any other cell. -/
theorem announcedFrom_of_ne
    (hload : s.matrix.load heap s.thread (UInt32.ofNat col) = .ok value) (hother : value ≠ s.new) :
    s.announcedFrom heap col (left + 1) = s.announcedFrom heap (col + 1) left := by
  simp only [announcedFrom, hload, bind, Except.bind, if_neg hother]

end Search

/-- The search from a column on finds what is noted there or behind it. The induction is
on the number of columns that are left. -/
theorem announcedFrom_of_shows (h : s.site.Shows heap current cells) (hal : s.site.Aligned)
    (hthread : s.thread < s.matrix.threads) (left : Nat) :
    ∀ col, col + left = s.matrix.threads.toNat →
      ∃ found, s.announcedFrom heap col left = .ok found ∧
        (found = true ↔
          ∃ j, col ≤ j ∧ j < col + left ∧ cells s.thread (UInt32.ofNat j) = s.new) := by
  induction left with
  | zero =>
    intro col hcol
    refine ⟨false, rfl, ?_, ?_⟩
    · intro hfalse
      cases hfalse
    · rintro ⟨j, hle, hlt, -⟩
      omega
  | succ left ih =>
    intro col hcol
    have hthreads := s.matrix.threads.toNat_lt
    have hlt : UInt32.ofNat col < s.matrix.threads := by
      rw [UInt32.lt_iff_toNat_lt, UInt32.toNat_ofNat', Nat.mod_eq_of_lt (by omega)]
      omega
    have hload : s.matrix.load heap s.thread (UInt32.ofNat col)
        = .ok (cells s.thread (UInt32.ofNat col)) := h.load_cell hal hthread hlt
    by_cases hhere : cells s.thread (UInt32.ofNat col) = s.new
    · refine ⟨true, ?_, ?_⟩
      · exact announcedFrom_of_eq hload hhere
      · exact ⟨fun _ => ⟨col, Nat.le_refl _, by omega, hhere⟩, fun _ => rfl⟩
    · obtain ⟨found, hrest, hfound⟩ := ih (col + 1) (by omega)
      refine ⟨found, ?_, hfound.trans ⟨?_, ?_⟩⟩
      · rw [announcedFrom_of_ne hload hhere]
        exact hrest
      · rintro ⟨j, hle, hlt', hj⟩
        exact ⟨j, by omega, by omega, hj⟩
      · -- the column that was just looked at is none of those
        rintro ⟨j, hle, hlt', hj⟩
        have hne : j ≠ col := fun hsame => hhere (hsame ▸ hj)
        exact ⟨j, by omega, by omega, hj⟩

theorem announced_of_shows (h : s.site.Shows heap current cells) (hal : s.site.Aligned)
    (hthread : s.thread < s.matrix.threads) :
    ∃ found, s.announced heap = .ok found ∧ (found = true ↔ s.Noticed cells) := by
  obtain ⟨found, hsearch, hfound⟩ :=
    announcedFrom_of_shows h hal hthread s.matrix.threads.toNat 0 (Nat.zero_add _)
  refine ⟨found, hsearch, hfound.trans ⟨?_, ?_⟩⟩
  · rintro ⟨j, -, hlt, hj⟩
    have hthreads := s.matrix.threads.toNat_lt
    refine ⟨UInt32.ofNat j, ?_, hj⟩
    rw [UInt32.lt_iff_toNat_lt, UInt32.toNat_ofNat', Nat.mod_eq_of_lt (by omega)]
    omega
  · rintro ⟨col, hcol, hnew⟩
    refine ⟨col.toNat, Nat.zero_le _, ?_, ?_⟩
    · rw [Nat.zero_add]
      exact UInt32.lt_iff_toNat_lt.1 hcol
    · rw [UInt32.ofNat_toNat]
      exact hnew

/-- What a recovery does is up to what it loads, and then to what it finds in its row. -/
theorem recover_of_load (hthread : s.thread < s.matrix.threads)
    (hload : Register.load heap s.register = .ok current) :
    s.recover heap = if current = s.installed then (.ok true, heap)
      else match s.announced heap with
        | .error halt => (.error halt, heap)
        | .ok true => (.ok true, heap)
        | .ok false => s.attempt heap := by
  by_cases hinstalled : current = s.installed
  · simp only [recover, Run.bind_apply, Run.lift_apply, Run.get_apply, checkThread_of_lt hthread,
      hload, Run.mapError_ok, if_pos hinstalled, Run.pure_apply]
  · simp only [recover, Run.bind_apply, Run.lift_apply, Run.get_apply, checkThread_of_lt hthread,
      hload, Run.mapError_ok, if_neg hinstalled, Run.liftHalt_apply]
    rcases s.announced heap with halt | _ | _ <;> rfl

/-- A swap whose trace is seen is not attempted again. -/
theorem recover_of_trace (h : s.site.Shows heap current cells)
    (hthread : s.thread < s.matrix.threads)
    (htrace : current = s.installed ∨ s.site.Aligned ∧ s.Noticed cells) :
    s.recover heap = (.ok true, heap) := by
  rw [recover_of_load hthread h.load_register]
  -- the register is looked at first, and then nothing is searched
  by_cases hinstalled : current = s.installed
  · exact if_pos hinstalled
  · obtain ⟨hal, hnoticed⟩ := htrace.resolve_left hinstalled
    obtain ⟨found, hsearch, hfound⟩ := announced_of_shows h hal hthread
    rw [if_neg hinstalled, hsearch, hfound.2 hnoticed]

/-- A swap without a trace is attempted again. -/
theorem recover_of_no_trace (h : s.site.Shows heap current cells) (hal : s.site.Aligned)
    (hthread : s.thread < s.matrix.threads) (hregister : current ≠ s.installed)
    (hnoticed : ¬s.Noticed cells) : s.recover heap = s.attempt heap := by
  obtain ⟨found, hsearch, hfound⟩ := announced_of_shows h hal hthread
  have hnone : found = false := Bool.eq_false_iff.2 fun htrue => hnoticed (hfound.1 htrue)
  rw [recover_of_load hthread h.load_register, if_neg hregister, hsearch, hnone]

/-- The search for a note halts at the first cell that is off its alignment. -/
theorem announced_of_misaligned (h : s.site.Shows heap current cells) (hal : ¬s.site.Aligned)
    (hthread : s.thread < s.matrix.threads) : ∃ halt, s.announced heap = .error halt := by
  have hpos : 0 < s.matrix.threads.toNat :=
    Nat.lt_of_le_of_lt (Nat.zero_le _) (UInt32.lt_iff_toNat_lt.1 hthread)
  obtain ⟨left, hleft⟩ : ∃ left, s.matrix.threads.toNat = left + 1 :=
    ⟨s.matrix.threads.toNat - 1, by omega⟩
  have hcol : UInt32.ofNat 0 < s.matrix.threads := by
    rw [UInt32.lt_iff_toNat_lt]
    exact hpos
  obtain ⟨halt, hload⟩ := h.load_cell_of_misaligned hal hthread hcol
  have hload' : s.matrix.load heap s.thread (UInt32.ofNat 0) = .error halt := hload
  refine ⟨halt, ?_⟩
  rw [announced, hleft, announcedFrom_of_error hload']

theorem recover_of_misaligned (h : s.site.Shows heap current cells) (hal : ¬s.site.Aligned)
    (hthread : s.thread < s.matrix.threads) (hregister : current ≠ s.installed) :
    ∃ halt, s.recover heap = (.error halt, heap) := by
  obtain ⟨halt, hsearch⟩ := announced_of_misaligned h hal hthread
  refine ⟨halt, ?_⟩
  rw [recover_of_load hthread h.load_register, if_neg hregister, hsearch]

/-- The heaps that a recovery leaves when a crash cuts it off. It writes only where it
found no trace and attempts the swap again. -/
inductive RecoveryCutOff (s : Swap) (heap : Region) : Region → Prop
  | untouched : RecoveryCutOff s heap heap
  | retried {after : Region} (register : Register.load heap s.register ≠ .ok s.installed)
      (row : s.announced heap = .ok false) (cut : s.CutOff heap after) :
      RecoveryCutOff s heap after

/-- Without a trace the recovery is the swap. -/
theorem effect_of_recover {outcome : Except Halt Bool} {after : Region}
    (h : s.site.Shows heap current cells) (hthread : s.thread < s.matrix.threads)
    (howner : s.Owned current) (hregister : current ≠ s.installed) (hnoticed : ¬s.Noticed cells)
    (hrecover : s.recover heap = (outcome, after)) :
    ∃ current' cells', s.site.Shows after current' cells' ∧
      s.Effect current cells (some outcome) current' cells' := by
  by_cases hal : s.site.Aligned
  · rw [recover_of_no_trace h hal hthread hregister hnoticed] at hrecover
    exact effect_of_attempt h hthread howner hrecover
  · obtain ⟨halt, hend⟩ := recover_of_misaligned h hal hthread hregister
    rw [hend] at hrecover
    cases hrecover
    exact ⟨current, cells, h, .unchanged (.inr (.inr ⟨hal, halt, rfl⟩))⟩

theorem effect_of_recoveryCutOff {after : Region} (h : s.site.Shows heap current cells)
    (hthread : s.thread < s.matrix.threads) (howner : s.Owned current)
    (hcut : s.RecoveryCutOff heap after) :
    ∃ current' cells', s.site.Shows after current' cells' ∧
      s.Effect current cells none current' cells' := by
  cases hcut with
  | untouched => exact ⟨current, cells, h, .unchanged (.inl rfl)⟩
  | retried register row cut => exact effect_of_cutOff h hthread howner cut

/-- Where there is a trace, a recovery writes nothing, however far it gets. -/
theorem recoveryCutOff_of_trace {after : Region} (h : s.site.Shows heap current cells)
    (hthread : s.thread < s.matrix.threads)
    (htrace : current = s.installed ∨ s.site.Aligned ∧ s.Noticed cells)
    (hcut : s.RecoveryCutOff heap after) : after = heap := by
  cases hcut with
  | untouched => rfl
  | retried register row cut =>
    rcases htrace with rfl | ⟨hal, hnoticed⟩
    · exact absurd h.load_register register
    · -- a retry has searched the row in vain
      obtain ⟨found, hsearch, hfound⟩ := announced_of_shows h hal hthread
      rw [hsearch] at row
      cases row
      exact absurd (hfound.2 hnoticed) (by decide)

end Swap

end DurableCalls
