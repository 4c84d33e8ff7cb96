/-
`Rounds.lean` -- runs and restorations in turn, over one heap file.

A round is a run, which may be told to crash, and a restoration that returns. The next run takes
the heap as it was left. What a round does to the blocks is settled by the run alone: the
restoration fills the block of the task that was stopped, but nobody gives a block back after
the run has collected the answers (`Settled`). So a round keeps one block for each task without
an outcome, for good; rounds in which every task has an outcome keep none
(`Rounds.taken_of_complete`), and a run finds no block for a task exactly if fewer than four
were left for it.
-/
import DurableCalls.Proofs.Workload.Restored

set_option autoImplicit false

namespace DurableCalls

open Region Allocator BlockHeap

namespace Workload

variable {config : Config} {files : Files} {fresh : Bool} {crash : Option CrashPlan}
  {disk after : Disk} {start : Bench} {recovered : RestoreSummary}

/-- What a run began with, how it ended, and the files that it closed. The restoration that
completes the round begins with these files. -/
structure Round where
  start : Bench
  result : Except Stop ExecSummary
  closed : Disk

namespace Round

/-- The round of a run. -/
def of (start : Bench) (ran : Except Stop ExecSummary × Disk) : Round := ⟨start, ran.1, ran.2⟩

/-- The blocks that were taken when the run began. -/
def taken (round : Round) : Finset Nat := round.start.blocks.allocator.taken

/-- Every task has an outcome. -/
def Complete (round : Round) : Prop :=
  ∃ summary, round.result = .ok summary ∧ summary.outcomes.length = transitions.length

end Round

variable {round : Round} {rounds earlier : List Round}

/-- Rounds over one heap file, the newest first. Only the first run may make the heap, and each
run may have a plan of its own. -/
inductive Rounds [Channels] (config : Config) (files : Files) : List Round → Disk → Prop
  | first {fresh : Bool} {crash : Option CrashPlan} {disk after : Disk} {start : Bench}
      {recovered : RestoreSummary} (starts : Starts config files fresh disk start)
      (restored : restore config files (exec config files fresh crash disk).2
        = (.ok recovered, after)) :
      Rounds config files [.of start (exec config files fresh crash disk)] after
  | next {crash : Option CrashPlan} {disk after : Disk} {start : Bench} {rounds : List Round}
      {recovered : RestoreSummary} (earlier : Rounds config files rounds disk)
      (starts : Starts config files false disk start)
      (restored : restore config files (exec config files false crash disk).2
        = (.ok recovered, after)) :
      Rounds config files (.of start (exec config files false crash disk) :: rounds) after

/-- What a round does to the blocks: it keeps some of those that its run took. They are counted
here, and the count is exact for a run that has returned. -/
structure Settled (config : Config) (files : Files) (round : Round) (after : Disk)
    (s : BlockHeap) (left : Region) (kept : Finset Nat) : Prop where
  closed_eq : heapOn config files round.closed = some s
  /-- The restoration has the allocator of the run, and leaves it. -/
  restored_eq : heapOn config files after = some ⟨s.allocator, left⟩
  taken_eq : s.allocator.taken = round.taken ∪ kept
  disjoint : Disjoint round.taken kept
  kept_le : kept.card ≤ transitions.length
  /-- There is a kept block for each task without an outcome. -/
  kept_eq : ∀ summary, round.result = .ok summary →
    kept.card + summary.outcomes.length = transitions.length
  exhausted_iff : round.result = .error exhausted ↔
    config.maxBlocks + 1 < round.taken.card + transitions.length

/-! ## One round -/

/-- A run that takes the heap as it is begins with what is there. -/
theorem Starts.heapOn_eq (h : Starts config files false disk start) :
    heapOn config files disk = some start.blocks := by
  obtain ⟨heap, mid, hopen, ⟨formatted, hattach, hinit⟩, -⟩ := h.opened
  have hheap : formatted = start.blocks.heap := congrArg Prod.snd hinit
  have hopen' : disk.openFile files.heap config.heapSize = (.ok heap, mid) := hopen
  rw [heapOn, hopen']
  simp only [hattach]
  rw [hheap]

theorem settled_of_run [Channels] (hstarts : Starts config files fresh disk start)
    (hrestored : restore config files (exec config files fresh crash disk).2
      = (.ok recovered, after)) :
    ∃ s left kept, Settled config files (.of start (exec config files fresh crash disk)) after s
      left kept := by
  obtain ⟨result, kept, stack, bytes, closed, hexec, hafter⟩ := exec_aftermath hstarts crash
  obtain ⟨left, hleft⟩ := hafter.heapOn_restore hstarts
  rw [hexec] at hrestored ⊢
  rw [hrestored] at hleft
  exact ⟨closed.blocks, left, kept, hafter.heapOn_eq hstarts, hleft, hafter.taken_eq,
    hafter.disjoint, hafter.kept_le, hafter.kept_eq, hafter.exhausted_iff⟩

/-- A run that returns a summary keeps no block exactly if it has all outcomes. -/
theorem Settled.taken_eq_iff {s : BlockHeap} {left : Region} {kept : Finset Nat}
    {summary : ExecSummary} (h : Settled config files round after s left kept)
    (hresult : round.result = .ok summary) :
    s.allocator.taken = round.taken ↔ summary.outcomes.length = transitions.length := by
  have hcard := h.kept_eq summary hresult
  have hkept : s.allocator.taken = round.taken ↔ kept = ∅ := by
    rw [h.taken_eq, Finset.union_eq_left]
    constructor
    · intro hsub
      exact Finset.disjoint_self_iff_empty kept |>.1 (h.disjoint.mono_left hsub)
    · rintro rfl
      exact Finset.empty_subset _
  rw [hkept, ← Finset.card_eq_zero]
  omega

theorem Settled.taken_of_complete {s : BlockHeap} {left : Region} {kept : Finset Nat}
    (h : Settled config files round after s left kept) (hcomplete : round.Complete) :
    s.allocator.taken = round.taken := by
  obtain ⟨summary, hresult, hlength⟩ := hcomplete
  exact (h.taken_eq_iff hresult).2 hlength

/-! ## Round after round -/

namespace Rounds

variable [Channels]

theorem ne_nil (h : Rounds config files rounds after) : rounds ≠ [] := by
  cases h with
  | first => exact List.cons_ne_nil _ _
  | next => exact List.cons_ne_nil _ _

/-- Every round is settled. -/
theorem exhausted_iff (h : Rounds config files rounds after) :
    ∀ round ∈ rounds, round.result = .error exhausted ↔
      config.maxBlocks + 1 < round.taken.card + transitions.length := by
  induction h with
  | first starts restored =>
    obtain ⟨s, left, kept, hsettled⟩ := settled_of_run starts restored
    intro round hround
    rw [List.mem_singleton.1 hround]
    exact hsettled.exhausted_iff
  | next earlier starts restored ih =>
    obtain ⟨s, left, kept, hsettled⟩ := settled_of_run starts restored
    intro round hround
    rcases List.mem_cons.1 hround with rfl | hround
    · exact hsettled.exhausted_iff
    · exact ih round hround

/-- **Complete rounds keep nothing.** If every run has all of its outcomes, then the blocks that are
taken at the end are those that were taken when the first one began, by induction on the rounds. -/
theorem taken_of_complete (h : Rounds config files rounds after)
    (hcomplete : ∀ round ∈ rounds, round.Complete) :
    ∃ s, heapOn config files after = some s ∧
      s.allocator.taken = (rounds.getLast h.ne_nil).taken := by
  induction h with
  | first starts restored =>
    obtain ⟨s, left, kept, hsettled⟩ := settled_of_run starts restored
    exact ⟨_, hsettled.restored_eq,
      hsettled.taken_of_complete (hcomplete _ List.mem_cons_self)⟩
  | next earlier starts restored ih =>
    obtain ⟨s, left, kept, hsettled⟩ := settled_of_run starts restored
    obtain ⟨t, hheap, htaken⟩ := ih fun round hround =>
      hcomplete round (List.mem_cons_of_mem _ hround)
    rw [starts.heapOn_eq] at hheap
    refine ⟨_, hsettled.restored_eq,
      (hsettled.taken_of_complete (hcomplete _ List.mem_cons_self)).trans ?_⟩
    rw [List.getLast_cons earlier.ne_nil, ← htaken, ← Option.some.inj hheap]
    rfl

end Rounds

/-- **What rounds keep of the blocks.** Behind the last round the allocated blocks are those from
before its run and some that the run took for answers, four at most: exactly one for each task
without an outcome, if the run returned. So they are the same as before exactly if it has four
outcomes. The restoration has the allocator of the run, and leaves it. The run finds no block for a
task exactly if fewer than four were not allocated when it began.

If each of the earlier rounds has four outcomes, then the allocated blocks are those with which the
first round began, and no block is missing unless one was missing then. -/
theorem rounds_keep_unanswered [Channels] (h : Rounds config files (round :: earlier) after) :
    (∃ s left kept, Settled config files round after s left kept ∧
        ∀ summary, round.result = .ok summary →
          (s.allocator.taken = round.taken ↔ summary.outcomes.length = transitions.length)) ∧
      ((∀ r ∈ earlier, r.Complete) →
        let first := (round :: earlier).getLast (List.cons_ne_nil _ _)
        round.taken = first.taken ∧
          (first.result ≠ .error exhausted → round.result ≠ .error exhausted)) := by
  have hiff := h.exhausted_iff
  obtain ⟨s, left, kept, hsettled⟩ : ∃ s left kept,
      Settled config files round after s left kept := by
    cases h with
    | first starts restored => exact settled_of_run starts restored
    | next rest starts restored => exact settled_of_run starts restored
  refine ⟨⟨s, left, kept, hsettled, fun summary hresult => hsettled.taken_eq_iff hresult⟩,
    fun hcomplete => ?_⟩
  have htaken : round.taken = ((round :: earlier).getLast (List.cons_ne_nil _ _)).taken := by
    cases h with
    | first starts restored => rfl
    | next rest starts restored =>
      obtain ⟨s, hheap, htaken⟩ := rest.taken_of_complete hcomplete
      rw [starts.heapOn_eq] at hheap
      rw [List.getLast_cons rest.ne_nil, ← htaken, ← Option.some.inj hheap]
      rfl
  refine ⟨htaken, fun hfirst hround => hfirst ?_⟩
  rw [hiff _ (List.getLast_mem _), ← htaken]
  exact (hiff _ List.mem_cons_self).1 hround

/-! ## Two rounds -/

theorem eq_of_isOk {ε α β : Type} {x : Except ε α × β} (h : x.1.isOk = true) :
    ∃ a, x = (.ok a, x.2) := by
  rcases x with ⟨_ | a, b⟩
  · cases h
  · exact ⟨a, rfl⟩

/-- A run that stops in its first swap. -/
def stoppedRun : Except Stop ExecSummary × Disk :=
  @exec Pool.roomyChannels smallConfig smallFiles true (some ⟨.afterFramePush, swapFunction⟩) {}

def stoppedDisk : Disk := (restore smallConfig smallFiles stoppedRun.2).2

theorem stoppedRun_rounds :
    @Rounds Pool.roomyChannels smallConfig smallFiles [.of smallStart stoppedRun] stoppedDisk := by
  let _ : Channels := Pool.roomyChannels
  obtain ⟨recovered, hrestored⟩ := eq_of_isOk (x := restore smallConfig smallFiles stoppedRun.2)
    (by decide +kernel)
  exact .first smallStart_starts hrestored

theorem fullStart_isSome : (setUp smallConfig smallFiles false stoppedDisk).isSome = true := by
  decide +kernel

def fullStart : Bench := (setUp smallConfig smallFiles false stoppedDisk).get fullStart_isSome

/-- The run behind it, which is not told to crash. -/
def fullRun : Except Stop ExecSummary × Disk :=
  @exec Pool.roomyChannels smallConfig smallFiles false none stoppedDisk

theorem fullRun_rounds : ∃ after,
    @Rounds Pool.roomyChannels smallConfig smallFiles
      [.of fullStart fullRun, .of smallStart stoppedRun] after := by
  let _ : Channels := Pool.roomyChannels
  have hstarts : Starts smallConfig smallFiles false stoppedDisk fullStart :=
    ⟨rfl, rfl, (Option.some_get _).symm⟩
  obtain ⟨recovered, hrestored⟩ := eq_of_isOk (x := restore smallConfig smallFiles fullRun.2)
    (by decide +kernel)
  exact ⟨_, .next stoppedRun_rounds hstarts hrestored⟩

/-- The second of these rounds begins where the first one, which was stopped and recovered, has left
the heap. It settles as every round does. -/
theorem fullRun_settled : ∃ after,
    @Rounds Pool.roomyChannels smallConfig smallFiles
      [.of fullStart fullRun, .of smallStart stoppedRun] after ∧
      (∃ s left kept,
        Settled smallConfig smallFiles (.of fullStart fullRun) after s left kept ∧
          ∀ summary, (Round.of fullStart fullRun).result = .ok summary →
            (s.allocator.taken = (Round.of fullStart fullRun).taken ↔
              summary.outcomes.length = transitions.length)) ∧
      ((∀ r ∈ [Round.of smallStart stoppedRun], r.Complete) →
        (Round.of fullStart fullRun).taken = (Round.of smallStart stoppedRun).taken ∧
          ((Round.of smallStart stoppedRun).result ≠ .error exhausted →
            (Round.of fullStart fullRun).result ≠ .error exhausted)) := by
  let _ : Channels := Pool.roomyChannels
  obtain ⟨after, hrounds⟩ := fullRun_rounds
  have hkeep := rounds_keep_unanswered hrounds
  simp only [List.getLast_cons_cons, List.getLast_singleton] at hkeep
  exact ⟨after, hrounds, hkeep⟩

/-- A swap that was stopped keeps its block and those of the tasks behind it, though it has been
restored. The next run, which is not told to crash, finds no block. -/
theorem stoppedRun_leaks :
    (∃ after,
      @Rounds Pool.roomyChannels smallConfig smallFiles
        [.of fullStart fullRun, .of smallStart stoppedRun] after) ∧
      (Round.of fullStart fullRun).taken ≠ (Round.of smallStart stoppedRun).taken ∧
      stoppedRun.1 ≠ .error exhausted ∧ fullRun.1 = .error exhausted :=
  ⟨fullRun_rounds, by decide +kernel⟩

end Workload

end DurableCalls
