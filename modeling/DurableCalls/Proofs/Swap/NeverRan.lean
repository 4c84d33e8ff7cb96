/-
`NeverRan.lean` -- the recovery of a swap that had not begun.

A crash may come before the first step of a swap, and the recovery should then do what the swap
does. It does so unless it finds a trace. The swap has left none, so what it finds is the trace
of an older swap of the same thread that installed the same value.

Cells are never cleared, so the older one may be arbitrarily old. What the heap shows after calls
that ran to their ends is a function of the calls that replaced the register (`held`, `lastNote`):
a cell shows what its column has replaced in its row the last time. So a thread that installs a
value again may lose the swap: if its last note in some column is that value, then the recovery
says that the swap has happened, and nothing happens.
-/
import DurableCalls.Proofs.Swap.ExactlyOnce

set_option autoImplicit false

namespace DurableCalls

open Site

namespace Swap

variable {site : Site} {start heap : Region} {init : UInt32} {calls earlier : List Swap}
  {s c : Swap} {current r : Register} {cells cells' : Cells}

/-! ## What the calls have replaced -/

/-- What the register holds behind these replacements, newest first. -/
def newest (init : UInt32) : List (Swap × Register) → Register
  | [] => ⟨Register.noOwner, init⟩
  | (c, _) :: _ => c.installed

/-- The calls that replaced the register, newest first, each with what it replaced. -/
def replacements (init : UInt32) : (calls : List Swap) → List (Swap × Register)
  | [] => []
  | c :: earlier =>
    let replaced := replacements init earlier
    if (newest init replaced).value = c.expected then (c, newest init replaced) :: replaced
    else replaced

/-- What the register holds after these calls. -/
def held (init : UInt32) (calls : List Swap) : Register := newest init (replacements init calls)

/-- What one thread replaced when it last replaced a value of another one. -/
def lastNote (init : UInt32) (calls : List Swap) (row col : UInt32) : Option UInt32 :=
  ((replacements init calls).find? fun p => p.2.owner = row ∧ p.1.thread = col).map (·.2.value)

/-- The heap that these calls lead to, newest first, each of them run to its end. -/
def heapAfter (start : Region) : (calls : List Swap) → Region
  | [] => start
  | c :: earlier => (c.attempt (heapAfter start earlier)).2

theorem replacements_cons_of_eq (h : (held init earlier).value = c.expected) :
    replacements init (c :: earlier) = (c, held init earlier) :: replacements init earlier :=
  if_pos h

theorem replacements_cons_of_ne (h : (held init earlier).value ≠ c.expected) :
    replacements init (c :: earlier) = replacements init earlier := if_neg h

theorem held_cons_of_eq (h : (held init earlier).value = c.expected) :
    held init (c :: earlier) = c.installed := by
  rw [held, replacements_cons_of_eq h]
  rfl

theorem held_cons_of_ne (h : (held init earlier).value ≠ c.expected) :
    held init (c :: earlier) = held init earlier := by
  rw [held, replacements_cons_of_ne h]
  rfl

/-- What is in the register was there at the start or was installed. -/
theorem held_cases (init : UInt32) (calls : List Swap) :
    held init calls = ⟨Register.noOwner, init⟩ ∨
      ∃ p ∈ replacements init calls, held init calls = p.1.installed := by
  rw [held]
  cases replacements init calls with
  | nil => exact .inl rfl
  | cons p _ => exact .inr ⟨p, List.mem_cons_self, rfl⟩

/-- What was replaced was there at the start or had been installed. -/
theorem replaced_cases {p : Swap × Register} (hp : p ∈ replacements init calls) :
    p.2 = ⟨Register.noOwner, init⟩ ∨ ∃ q ∈ replacements init calls, p.2 = q.1.installed := by
  induction calls with
  | nil => cases hp
  | cons c earlier ih =>
    by_cases hvalue : (held init earlier).value = c.expected
    · rw [replacements_cons_of_eq hvalue] at hp ⊢
      have hlift : ∀ {r : Register}, (∃ q ∈ replacements init earlier, r = q.1.installed) →
          ∃ q ∈ (c, held init earlier) :: replacements init earlier, r = q.1.installed :=
        fun ⟨q, hq, hinstalled⟩ => ⟨q, List.mem_cons_of_mem _ hq, hinstalled⟩
      rcases List.mem_cons.1 hp with rfl | hp
      · exact (held_cases init earlier).imp_right hlift
      · exact (ih hp).imp_right hlift
    · rw [replacements_cons_of_ne hvalue] at hp ⊢
      exact ih hp

theorem mem_of_mem_replacements {p : Swap × Register} (hp : p ∈ replacements init calls) :
    p.1 ∈ calls := by
  induction calls with
  | nil => cases hp
  | cons c earlier ih =>
    by_cases hvalue : (held init earlier).value = c.expected
    · rw [replacements_cons_of_eq hvalue] at hp
      rcases List.mem_cons.1 hp with rfl | hp
      · exact List.mem_cons_self
      · exact List.mem_cons_of_mem _ (ih hp)
    · rw [replacements_cons_of_ne hvalue] at hp
      exact List.mem_cons_of_mem _ (ih hp)

theorem exists_of_lastNote {row col value : UInt32}
    (h : lastNote init calls row col = some value) :
    ∃ p ∈ replacements init calls, p.2.owner = row ∧ p.1.thread = col ∧ p.2.value = value := by
  obtain ⟨p, hfind, hvalue⟩ := Option.map_eq_some_iff.1 h
  obtain ⟨howner, hthread⟩ : p.2.owner = row ∧ p.1.thread = col := by
    simpa using List.find?_some hfind
  exact ⟨p, List.mem_of_find?_eq_some hfind, howner, hthread, hvalue⟩

/-! ## What the heap shows -/

/-- The cells as the last notes, with 0 where there is none. -/
def lastNotes (init : UInt32) (calls : List Swap) : Cells :=
  fun row col => (lastNote init calls row col).getD 0

/-- Only cells of the matrix count. -/
theorem shows_of_cells_eq (h : site.Shows heap current cells)
    (heq : ∀ row col, row < site.matrix.threads → cells' row col = cells row col) :
    site.Shows heap current cells' := by
  refine ⟨h.fits, h.register_eq, fun row col hrow hcol => ?_⟩
  rw [heq row col hrow]
  exact h.cell_eq row col hrow hcol

theorem lastNotes_cons_of_ne (h : (held init earlier).value ≠ c.expected) :
    lastNotes init (c :: earlier) = lastNotes init earlier := by
  unfold lastNotes lastNote
  rw [replacements_cons_of_ne h]

/-- A call that replaces the register leaves the note of what it replaced. -/
theorem lastNotes_cons_of_eq (h : (held init earlier).value = c.expected) {row : UInt32}
    (hrow : row < site.matrix.threads) (col : UInt32) :
    lastNotes init (c :: earlier) row col
      = c.noted (held init earlier) (lastNotes init earlier) row col := by
  have hrow_ne : row ≠ Register.noOwner := by
    rintro rfl
    exact SwapCall.noOwner_not_lt _ hrow
  rw [lastNotes, lastNote, replacements_cons_of_eq h]
  by_cases hhere : (held init earlier).owner = row ∧ c.thread = col
  · obtain ⟨rfl, rfl⟩ := hhere
    rw [List.find?_cons_of_pos (by simp), noted, if_neg hrow_ne, Cells.set, if_pos ⟨rfl, rfl⟩]
    rfl
  · rw [List.find?_cons_of_neg (by simpa using hhere), noted]
    split
    · rfl
    · rw [Cells.set, if_neg fun hset => hhere ⟨hset.1.symm, hset.2.symm⟩]
      rfl

/-- Calls of known threads at a site. -/
def AllAt (site : Site) (calls : List Swap) : Prop :=
  ∀ c ∈ calls, c.site = site ∧ c.thread < site.matrix.threads

theorem held_owned (hcalls : AllAt site calls) :
    (held init calls).owner = Register.noOwner ∨
      (held init calls).owner < site.matrix.threads := by
  rcases held_cases init calls with hheld | ⟨p, hp, hheld⟩
  · exact .inl (by rw [hheld])
  · rw [hheld]
    exact .inr (hcalls p.1 (mem_of_mem_replacements hp)).2

/-- **What the heap shows after the calls**: in the register the value of the last one that
replaced it, and in each cell the last note. -/
theorem shows_heapAfter (hal : site.Aligned)
    (hstart : site.Shows start ⟨Register.noOwner, init⟩ fun _ _ => 0) (hcalls : AllAt site calls) :
    site.Shows (heapAfter start calls) (held init calls) (lastNotes init calls) := by
  induction calls with
  | nil => exact hstart
  | cons c earlier ih =>
    obtain ⟨⟨rfl, hknown⟩, hearlier⟩ := List.forall_mem_cons.1 hcalls
    have hshows := ih hearlier
    rw [heapAfter]
    rcases attempt_cases hshows hknown (held_owned hearlier) with ⟨hvalue, hend⟩
      | ⟨hvalue, -, after, hend, hafter, -⟩ | ⟨-, hnote, -⟩
    · rw [hend, held_cons_of_ne hvalue, lastNotes_cons_of_ne hvalue]
      exact hshows
    · rw [hend, held_cons_of_eq hvalue]
      exact shows_of_cells_eq hafter fun row col hrow => lastNotes_cons_of_eq hvalue hrow col
    · exact absurd (.inr hal) hnote

/-! ## The recovery -/

/-- The same answer, and the same register behind it. -/
def RecoversAlike (s : Swap) (heap : Region) : Prop :=
  (s.recover heap).1 = (s.attempt heap).1 ∧
    Register.load (s.recover heap).2 s.register = Register.load (s.attempt heap).2 s.register

/-- **With a trace in sight the recovery says that the swap happened.** That is what the swap does
only if it replaces its own value by itself. -/
theorem recoversAlike_iff (h : s.site.Shows heap current cells) (hal : s.site.Aligned)
    (hthread : s.thread < s.matrix.threads) (howner : s.Owned current) :
    s.RecoversAlike heap ↔
      ¬(current = s.installed ∨ s.Noticed cells) ∨ current = s.installed ∧ s.expected = s.new := by
  by_cases htrace : current = s.installed ∨ s.Noticed cells
  · have hload : Register.load heap s.register = .ok current := h.load_register
    rw [RecoversAlike, recover_of_trace h hthread (htrace.imp_right fun hrow => ⟨hal, hrow⟩)]
    -- the recovery says yes and leaves the heap, so the swap has to do the same
    rcases attempt_cases h hthread howner with ⟨hvalue, hend⟩ | ⟨hvalue, -, after, hend, hafter, -⟩
      | ⟨-, hnote, -⟩
    · rw [hend]
      constructor
      · rintro ⟨hanswer, -⟩
        cases hanswer
      · rintro (hnone | ⟨rfl, hsame⟩)
        · exact absurd htrace hnone
        · exact absurd hsame.symm hvalue
    · have hload' : Register.load after s.register = .ok s.installed := hafter.load_register
      rw [hend, hload, hload']
      constructor
      · rintro ⟨-, hregister⟩
        obtain rfl := Except.ok.inj hregister
        exact .inr ⟨rfl, hvalue.symm⟩
      · rintro (hnone | ⟨rfl, -⟩)
        · exact absurd htrace hnone
        · exact ⟨rfl, rfl⟩
    · exact absurd (.inr hal) hnote
  · obtain ⟨hregister, hnoticed⟩ := not_or.1 htrace
    rw [RecoversAlike, recover_of_no_trace h hal hthread hregister hnoticed]
    exact ⟨fun _ => .inl htrace, fun _ => ⟨rfl, rfl⟩⟩

/-- In the row of a thread a value is found exactly if it is the last note of some column. -/
theorem noticed_iff (hcalls : AllAt s.site calls) (hnew : s.new ≠ 0) :
    s.Noticed (lastNotes init calls) ↔ ∃ col, lastNote init calls s.thread col = some s.new := by
  constructor
  · rintro ⟨col, -, hcell⟩
    refine ⟨col, ?_⟩
    rw [lastNotes] at hcell
    cases hnote : lastNote init calls s.thread col with
    | none =>
      rw [hnote] at hcell
      exact absurd hcell.symm hnew
    | some value =>
      rw [hnote] at hcell
      exact congrArg some hcell
  · rintro ⟨col, hnote⟩
    refine ⟨col, ?_, by rw [lastNotes, hnote]; rfl⟩
    -- whoever left the note is a thread of the site
    obtain ⟨p, hp, -, rfl, -⟩ := exists_of_lastNote hnote
    exact (hcalls p.1 (mem_of_mem_replacements hp)).2

/-- The heap shows a trace that the swap would leave, too. -/
def Mistakable (init : UInt32) (calls : List Swap) (s : Swap) : Prop :=
  held init calls = s.installed ∨ ∃ col, lastNote init calls s.thread col = some s.new

/-- Every trace was left by a call of the same thread that installed the same value. So a recovery
can be mistaken only if the thread has used its value before. -/
theorem Mistakable.exists_replacement (h : Mistakable init calls s)
    (hknown : s.thread < s.matrix.threads) :
    ∃ p ∈ replacements init calls, p.1.thread = s.thread ∧ p.1.new = s.new := by
  have howned : ∀ {r : Register}, r.owner = s.thread → r ≠ ⟨Register.noOwner, init⟩ := by
    rintro r howner rfl
    exact SwapCall.noOwner_not_lt _ ((show Register.noOwner = s.thread from howner) ▸ hknown)
  rcases h with hheld | ⟨col, hnote⟩
  · rcases held_cases init calls with hstart | ⟨p, hp, hinstalled⟩
    · exact absurd hstart (howned (by rw [hheld]; rfl))
    · obtain ⟨hthread, hvalue⟩ := Register.mk.inj (hinstalled.symm.trans hheld)
      exact ⟨p, hp, hthread, hvalue⟩
  · obtain ⟨p, hp, howner, -, hvalue⟩ := exists_of_lastNote hnote
    rcases replaced_cases hp with hstart | ⟨q, hq, hinstalled⟩
    · exact absurd hstart (howned howner)
    · rw [hinstalled] at howner hvalue
      exact ⟨q, hq, howner, hvalue⟩

/-- **When the recovery of a swap that never ran does what the swap does.** The calls before it
ran to their ends, at aligned cells; values may have come back. The recovery differs exactly if
the thread owns the register with this value, or some thread replaced this value of it when it
last replaced one of its values; unless the swap changes nothing in the register. So a thread
that has not installed the value before is safe. -/
theorem recover_never_ran_iff (calls : List Swap) (s : Swap) {start : Region} {init : UInt32}
    (hready : s.site.Ready start) (hal : s.site.Aligned)
    (hinit : Register.load start s.register = .ok ⟨Register.noOwner, init⟩)
    (hcalls : ∀ c ∈ calls, c.site = s.site ∧ c.thread < s.matrix.threads)
    (hknown : s.thread < s.matrix.threads) (hnew : s.new ≠ 0) :
    (s.RecoversAlike (heapAfter start calls) ↔
      ¬Mistakable init calls s ∨ held init calls = s.installed ∧ s.expected = s.new) ∧
    ((∀ p ∈ replacements init calls, p.1.thread = s.thread → p.1.new ≠ s.new) →
      s.recover (heapAfter start calls) = s.attempt (heapAfter start calls)) := by
  obtain ⟨value, hstart⟩ := hready.shows
  have hload : Register.load start s.register = .ok ⟨Register.noOwner, value⟩ :=
    hstart.load_register
  obtain rfl : value = init := congrArg Register.value (Except.ok.inj (hload.symm.trans hinit))
  have hshows := shows_heapAfter hal hstart hcalls
  have howned : s.Owned (held value calls) := held_owned hcalls
  refine ⟨?_, fun hfresh => ?_⟩
  · rw [recoversAlike_iff hshows hal hknown howned, noticed_iff hcalls hnew]
    rfl
  · have hsafe : ¬Mistakable value calls s := by
      intro htrace
      obtain ⟨p, hp, hthread, hvalue⟩ := htrace.exists_replacement hknown
      exact hfresh p hp hthread hvalue
    rw [Mistakable, ← noticed_iff hcalls hnew, not_or] at hsafe
    exact recover_of_no_trace hshows hal hknown hsafe.1 hsafe.2

/-- Thread 0 has replaced 5 by 7, and then thread 1 has replaced 7 by 9. -/
def twoCalls : List Swap := [⟨0, ⟨64, 2⟩, 7, 9, 1⟩, ⟨0, ⟨64, 2⟩, 5, 7, 0⟩]

theorem twoThreads_shows :
    SwapCall.twoThreads.Shows startHeap ⟨Register.noOwner, 5⟩ fun _ _ => 0 :=
  startHeap_shows (by decide)

/-- There is a note on the 7 of thread 0, and no recovery of a swap to 8 takes it for its own. -/
theorem recover_never_ran_fresh :
    lastNote 5 twoCalls 0 1 = some 7 ∧
    (Swap.mk 0 ⟨64, 2⟩ 9 8 0).RecoversAlike (heapAfter startHeap twoCalls) ∧
    (Swap.mk 0 ⟨64, 2⟩ 9 8 0).recover (heapAfter startHeap twoCalls)
      = (Swap.mk 0 ⟨64, 2⟩ 9 8 0).attempt (heapAfter startHeap twoCalls) := by
  have hcalls : ∀ c ∈ twoCalls, c.site = SwapCall.twoThreads ∧ c.thread < 2 :=
    List.forall_mem_cons.2 ⟨⟨rfl, by decide⟩, List.forall_mem_cons.2 ⟨⟨rfl, by decide⟩, nofun⟩⟩
  obtain ⟨-, hsame⟩ := recover_never_ran_iff twoCalls ⟨0, ⟨64, 2⟩, 9, 8, 0⟩
    SwapCall.twoThreads_ready rfl twoThreads_shows.load_register hcalls (by decide) (by decide)
  have heq := hsame (by decide)
  exact ⟨by decide, ⟨by rw [heq], by rw [heq]⟩, heq⟩

/-- Thread 0 has replaced 5 by 7, and then thread 1 has put 5 back. -/
def restoringCalls : List Swap := [⟨0, ⟨64, 2⟩, 7, 5, 1⟩, ⟨0, ⟨64, 2⟩, 5, 7, 0⟩]

/-- Thread 0 wants to replace 5 by 7 again. -/
def repeatedSwap : Swap := ⟨0, ⟨64, 2⟩, 5, 7, 0⟩

/-- **A swap of a value that has come back is lost**: its recovery says that it happened while the
register still holds 5. -/
theorem repeatedSwap_lost :
    (repeatedSwap.recover (heapAfter startHeap restoringCalls)).1 = .ok true ∧
    Register.load (repeatedSwap.recover (heapAfter startHeap restoringCalls)).2
      repeatedSwap.register = .ok ⟨1, 5⟩ ∧
    (repeatedSwap.attempt (heapAfter startHeap restoringCalls)).1 = .ok true ∧
    Register.load (repeatedSwap.attempt (heapAfter startHeap restoringCalls)).2
      repeatedSwap.register = .ok ⟨0, 7⟩ := by
  have hcalls : AllAt repeatedSwap.site restoringCalls :=
    List.forall_mem_cons.2 ⟨⟨rfl, by decide⟩, List.forall_mem_cons.2 ⟨⟨rfl, by decide⟩, nofun⟩⟩
  have hal : repeatedSwap.site.Aligned := rfl
  have hshows : repeatedSwap.site.Shows (heapAfter startHeap restoringCalls)
      (held 5 restoringCalls) (lastNotes 5 restoringCalls) :=
    shows_heapAfter hal twoThreads_shows hcalls
  rw [show held 5 restoringCalls = ⟨1, 5⟩ by decide] at hshows
  generalize heapAfter startHeap restoringCalls = heap at hshows ⊢
  have hnoticed : repeatedSwap.Noticed (lastNotes 5 restoringCalls) :=
    (noticed_iff hcalls (by decide)).2 ⟨1, by decide⟩
  rw [recover_of_trace hshows (by decide) (.inr ⟨hal, hnoticed⟩)]
  refine ⟨rfl, hshows.load_register, ?_⟩
  rcases attempt_cases hshows (by decide) (.inr (by decide)) with ⟨hvalue, -⟩
    | ⟨-, -, after, hattempt, hafter, -⟩ | ⟨-, hnote, -⟩
  · exact absurd rfl hvalue
  · rw [hattempt]
    exact ⟨rfl, hafter.load_register⟩
  · exact absurd (.inr hal) hnote

end Swap

end DurableCalls
