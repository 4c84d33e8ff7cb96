/-
`Progress.lean` -- how many rounds a replay makes.

A round of a replay runs the recovery of the top frame and pops whatever frame is on top by
then. It leaves fewer frames than it began with exactly where its run has handled no failure
that had left frames on the stack (`Invocation.shrinks_iff`). Otherwise the pop takes a frame
that a failed call has left, and the next round is for the same frame again.

If every round shrinks the stack then the rounds go through the frames, newest first: round
`k` is for frame `k`, so there are no more of them than frames above the root. The induction is
on the rounds of the loop. The region may hold anything that a scan accepts, because the frames
that the thread sees are all that counts.
-/
import DurableCalls.Proofs.Call.Balance
import DurableCalls.Proofs.Call.Resume
import Mathlib.Data.List.Basic

set_option autoImplicit false

namespace DurableCalls

open CallStack DurableStack

namespace Context

/-! ## One round -/

/-- The run passes this place. -/
def Invocation.Visits (i : Invocation) (place : Place) : Prop :=
  i.entry.Visits (callWithin i.ctx.depthBound) (VisitsWithin i.ctx.depthBound) i.args i.ctx place

/-- The run is the recovery of this frame, which is the top one and has others below it. The log of
a replay is compared with the frames that were suspended by this. -/
structure Invocation.IsFor (i : Invocation) (p : Placed) : Prop where
  on_top : ∃ below, below ≠ [] ∧ i.ctx.stack.calls.frames = p :: below
  entry_eq : Registry.entry i.ctx.host.registry p.frame.name true = .ok i.entry
  args_eq : i.args = p.frame.args

variable {ctx done popped after : Context} {i : Invocation} {p : Placed} {below : List Placed}
  {rounds n m : Nat}

theorem Invocation.run_balanced (i : Invocation) :
    EndsBalanced i.ctx.stack.calls.frames (LeavesIn i.Visits) i.run :=
  entry_balanced (callWithin_balancedEverywhere i.ctx.depthBound) i.entry

theorem popFrame_ok_frames (h : popFrame ctx = (.ok (), popped)) :
    ∃ top, ctx.stack.calls.frames = top :: popped.stack.calls.frames := by
  rcases popFrame_frames ctx with ⟨-, halt, hrun⟩ | ⟨top, next, rest, hframes, hpopped⟩
  · rw [h] at hrun
    cases hrun
  · rw [h] at hpopped
    exact ⟨top, hframes.trans (congrArg (top :: ·) hpopped.symm)⟩

/-- **A round leaves fewer frames than it found exactly where its run has handled no failure that
had left frames.** -/
theorem Invocation.shrinks_iff (hrun : i.run = (.ok (), done))
    (hpop : popFrame done = (.ok (), popped)) :
    popped.stack.calls.frames.length < i.ctx.stack.calls.frames.length ↔ ¬LeavesIn i.Visits := by
  obtain ⟨top, hdone⟩ := popFrame_ok_frames hpop
  have hbalanced := i.run_balanced
  rw [hrun] at hbalanced
  constructor
  · intro hshrinks
    refine hbalanced.settled (List.IsSuffix.eq_of_length_le hbalanced.grows ?_).symm
    show done.stack.calls.frames.length ≤ _
    rw [hdone, List.length_cons]
    exact hshrinks
  · intro hno
    have hlevel : done.stack.calls.frames = _ := hbalanced.level () rfl hno
    rw [← hlevel, hdone, List.length_cons]
    exact Nat.lt_succ_self _

/-- Then it has taken the top one. -/
theorem Invocation.frames_of_shrinks (hno : ¬LeavesIn i.Visits) (hrun : i.run = (.ok (), done))
    (hpop : popFrame done = (.ok (), popped)) :
    ∃ top, i.ctx.stack.calls.frames = top :: popped.stack.calls.frames := by
  obtain ⟨top, hdone⟩ := popFrame_ok_frames hpop
  have hbalanced := i.run_balanced
  rw [hrun] at hbalanced
  exact ⟨top, (hbalanced.level () rfl hno).symm.trans hdone⟩

/-! ## The rounds of a replay -/

/-- What the loop does: it ends without a round, or with this one, or it goes on behind it. A round
is for the frame on top, and the next one begins where the pop behind it has led. -/
theorem recoverFramesLogged_cases (rounds n : Nat) (ctx : Context) :
    ((recoverFramesLogged (rounds + 1) n ctx).1 = [] ∧
      ∀ m after, (recoverFramesLogged (rounds + 1) n ctx).2 = (.ok m, after) →
        m = n ∧ ctx.stack.calls.frames.length ≤ 1) ∨
    ∃ i p, i.ctx = ctx ∧ i.IsFor p ∧
      (((recoverFramesLogged (rounds + 1) n ctx).1 = [i] ∧
        ∀ m after, (recoverFramesLogged (rounds + 1) n ctx).2 ≠ (.ok m, after)) ∨
      ∃ done popped, i.run = (.ok (), done) ∧ popFrame done = (.ok (), popped) ∧
        recoverFramesLogged (rounds + 1) n ctx
          = (i :: (recoverFramesLogged rounds (n + 1) popped).1,
            (recoverFramesLogged rounds (n + 1) popped).2)) := by
  rcases hframes : ctx.stack.calls.frames with _ | ⟨top, below⟩
  · refine .inl ?_
    rw [recoverFramesLogged, hframes]
    refine ⟨rfl, fun m after h => ?_⟩
    cases h
    exact ⟨rfl, Nat.zero_le 1⟩
  · rcases eq_or_ne below [] with rfl | hne
    · rw [recoverFramesLogged_of_root hframes]
      refine .inl ⟨rfl, fun m after h => ?_⟩
      cases h
      exact ⟨rfl, Nat.le_refl 1⟩
    · cases hfind : ctx.host.registry.find? top.frame.name with
      | none =>
        rw [recoverFramesLogged_of_unknown hframes hne hfind]
        refine .inl ⟨rfl, fun m after h => ?_⟩
        cases h
      | some function =>
        have hentry : Registry.entry ctx.host.registry top.frame.name true
            = .ok function.recover := by
          rw [Registry.entry, hfind]
          rfl
        refine .inr ⟨⟨function.recover, top.frame.args, ctx⟩, top, rfl,
          ⟨⟨below, hne, hframes⟩, hentry, rfl⟩, ?_⟩
        rcases hrun : (Invocation.mk function.recover top.frame.args ctx).run with
          ⟨halt | ⟨⟨⟩⟩, done⟩
        · rw [recoverFramesLogged_of_halt hframes hne hentry hrun]
          refine .inl ⟨rfl, fun m after h => ?_⟩
          cases h
        · rw [recoverFramesLogged_of_ok hframes hne hentry hrun]
          -- the run has returned, and the pop or the count may still halt
          rcases hround : (popFrame >>= fun _ => addWord n 1 : Exec Nat) done with
            ⟨halt | count, popped⟩
          · refine .inl ⟨rfl, fun m after h => ?_⟩
            cases h
          · obtain ⟨⟨⟩, mid, hpop, hadd⟩ := Run.exists_of_bind_ok hround
            rw [Run.liftHalt_apply] at hadd
            obtain ⟨hcount, rfl⟩ := Prod.mk.inj hadd
            obtain ⟨-, rfl⟩ := addWord_eq_ok.1 hcount
            exact .inr ⟨done, mid, rfl, hpop, rfl⟩

/-- Every run of the loop is for the top frame of its time. -/
theorem isFor_of_mem_recoverFramesLogged (h : i ∈ (recoverFramesLogged rounds n ctx).1) :
    ∃ p, i.IsFor p := by
  induction rounds generalizing n ctx with
  | zero => cases h
  | succ rounds ih =>
    rcases recoverFramesLogged_cases rounds n ctx with
      ⟨hlog, -⟩ | ⟨j, p, -, hfor, ⟨hlog, -⟩ | ⟨done, popped, -, -, hlog⟩⟩
    · rw [hlog] at h
      cases h
    · rw [hlog, List.mem_singleton] at h
      exact ⟨p, h ▸ hfor⟩
    · rw [hlog, List.mem_cons] at h
      rcases h with rfl | h
      · exact ⟨p, hfor⟩
      · exact ih h

/-- The rounds take the frames in turn: each begins with the frames that those before it have
not taken. -/
structure TakesInTurn (frames : List Placed) (log : List Invocation) : Prop where
  frames_drop : ∀ k i, log[k]? = some i → i.ctx.stack.calls.frames = frames.drop k
  length_le : log.length ≤ frames.length - 1

theorem TakesInTurn.nil (frames : List Placed) : TakesInTurn frames [] :=
  ⟨fun _ _ h => (List.not_mem_nil (List.mem_of_getElem? h)).elim, Nat.zero_le _⟩

theorem TakesInTurn.cons {frames : List Placed} {log : List Invocation} (hfor : i.IsFor p)
    (hframes : i.ctx.stack.calls.frames = p :: frames) (h : TakesInTurn frames log) :
    TakesInTurn (p :: frames) (i :: log) := by
  refine ⟨fun k j hj => ?_, ?_⟩
  · cases k with
    | zero =>
      cases hj
      exact hframes
    | succ k => exact h.frames_drop k j hj
  · obtain ⟨below, hne, hbelow⟩ := hfor.on_top
    obtain ⟨-, rfl⟩ := List.cons.inj (hframes.symm.trans hbelow)
    have hpos := List.length_pos_iff.2 hne
    have hlength := h.length_le
    simp only [List.length_cons]
    omega

/-- **If every round shrinks the stack, the rounds take the frames in turn**, and the count is
that of the frames above the root. -/
theorem recoverFramesLogged_takesInTurn
    (hno : ∀ i ∈ (recoverFramesLogged rounds n ctx).1, ¬LeavesIn i.Visits) :
    TakesInTurn ctx.stack.calls.frames (recoverFramesLogged rounds n ctx).1 ∧
    ∀ m after, (recoverFramesLogged rounds n ctx).2 = (.ok m, after) →
      m = n + (ctx.stack.calls.frames.length - 1) := by
  induction rounds generalizing n ctx with
  | zero => exact ⟨.nil _, fun m after h => by cases h⟩
  | succ rounds ih =>
    rcases recoverFramesLogged_cases rounds n ctx with
      ⟨hlog, hend⟩ | ⟨i, p, rfl, hfor, ⟨hlog, hhalts⟩ | ⟨done, popped, hrun, hpop, hlog⟩⟩
    · rw [hlog]
      refine ⟨.nil _, fun m after h => ?_⟩
      obtain ⟨rfl, hshort⟩ := hend m after h
      omega
    · obtain ⟨below, -, hframes⟩ := hfor.on_top
      rw [hlog, hframes]
      exact ⟨.cons hfor hframes (.nil _), fun m after h => absurd h (hhalts m after)⟩
    · rw [hlog] at hno ⊢
      obtain ⟨top, hframes⟩ := Invocation.frames_of_shrinks (hno i List.mem_cons_self) hrun hpop
      obtain ⟨below, hne, hbelow⟩ := hfor.on_top
      obtain ⟨rfl, rfl⟩ := List.cons.inj (hframes.symm.trans hbelow)
      -- the frame that is gone is the one that the round was for
      obtain ⟨hturns, hcount⟩ := ih fun j hj => hno j (List.mem_cons_of_mem _ hj)
      have hpos := List.length_pos_iff.2 hne
      rw [hframes]
      refine ⟨.cons hfor hframes hturns, fun m after h => ?_⟩
      rw [hcount m after h, List.length_cons]
      omega

theorem recoverFramesLogged_of_mem_restoreLogged (h : i ∈ (restoreLogged ctx).1) :
    ∃ loaded, i ∈ (recoverFramesLogged wordLimit 0 loaded).1 := by
  rw [restoreLogged] at h
  split at h
  · cases h
  · split at h
    · cases h
    · exact ⟨_, h⟩

/-- A replay outside recovery mode makes no round. -/
theorem restoreLogged_of_mode (hmode : ctx.host.mode ≠ .recovery) :
    restoreLogged ctx = ([], .error (.failed .illegalRecoveryCall), ctx) := by
  rw [restoreLogged, if_pos hmode]

/-- **A round of a replay makes progress exactly where its run has handled no failure that had
left frames on the stack.** This holds of any region, registry, heap and fault hook.

If it is so in every round then the rounds go through the frames that the region holds, newest
first: the `k`th round is for the `k`th frame and begins with it on top, there are no more rounds
than frames above the root, so that none is recovered twice, and a replay that returns has counted
just these frames. -/
theorem restore_progresses_iff (ctx : Context) :
    (restoreLogged ctx).2 = restore ctx ∧
    (∀ i ∈ (restoreLogged ctx).1, (∃ p, i.IsFor p) ∧
      ∀ done popped, i.run = (.ok (), done) → popFrame done = (.ok (), popped) →
        (popped.stack.calls.frames.length < i.ctx.stack.calls.frames.length ↔
          ∀ place, i.Visits place → ¬place.LeavesFrames)) ∧
    ((∀ i ∈ (restoreLogged ctx).1, ∀ place, i.Visits place → ¬place.LeavesFrames) →
      ∀ calls, scan ctx.stack.region = .ok calls →
        (restoreLogged ctx).1.length ≤ calls.frames.length - 1 ∧
        (∀ k i, (restoreLogged ctx).1[k]? = some i →
          i.ctx.stack.calls.frames = calls.frames.drop k) ∧
        ∀ count after, restore ctx = (.ok count, after) → count = calls.frames.length - 1) := by
  refine ⟨restoreLogged_snd ctx, fun i hi => ⟨?_, fun done popped hrun hpop => ?_⟩,
    fun hno calls hread => ?_⟩
  · obtain ⟨loaded, hi⟩ := recoverFramesLogged_of_mem_restoreLogged hi
    exact isFor_of_mem_recoverFramesLogged hi
  · rw [Invocation.shrinks_iff hrun hpop, LeavesIn]
    push Not
    rfl
  · have hreplay := restoreLogged_snd ctx
    by_cases hmode : ctx.host.mode = .recovery
    · have hlog := restoreLogged_of_scan hmode hread
      rw [hlog] at hno hreplay ⊢
      obtain ⟨hturns, hcount⟩ := recoverFramesLogged_takesInTurn fun i hi hleaves => by
        obtain ⟨place, hvisits, hplace⟩ := hleaves
        exact hno i hi place hvisits hplace
      rw [← hreplay]
      refine ⟨hturns.length_le, hturns.frames_drop, fun count after h => ?_⟩
      rw [hcount count after h, Nat.zero_add]
    · rw [restoreLogged_of_mode hmode] at hreplay ⊢
      have hturns := TakesInTurn.nil calls.frames
      refine ⟨hturns.length_le, hturns.frames_drop, fun count after h => ?_⟩
      rw [← hreplay] at h
      cases h

/-- The recovery of `f` handles a failure, and calls `g` then. -/
def handlingRecoveries : Registry :=
  (Table.empty.insert "f" ⟨.program .done, .program (.attempt (.act (.fail "no") .done)
    (.act (.call "g" (some [9]) {}) .done))⟩).insert "g"
    ⟨.program (.act (.answer [7]) .done), .program (.act (.answer [8]) .done)⟩

/-- A process that has found calls of both. -/
def settling : Context where
  host := ⟨handlingRecoveries, .recovery, 1⟩
  thread := 0
  stack := ⟨.empty, suspendedLines.region⟩

/-- The failure that the recovery of `f` handles has left no frames. So both rounds shrink the
stack, and two frames are counted that are two frames. -/
theorem settling_progresses :
    (∀ i ∈ (restoreLogged settling).1, ∀ place, i.Visits place → ¬place.LeavesFrames) ∧
    (restoreLogged settling).1.length ≤ 2 ∧
    (restoreLogged settling).1.map (fun i => i.ctx.stack.calls.names)
      = [[rootFunction, "f", "g"], [rootFunction, "f"]] ∧
    ∃ after, restore settling = (.ok 2, after) := by
  obtain ⟨-, hrounds, hturns⟩ := restore_progresses_iff settling
  have hread : scan settling.stack.region
      = .ok ⟨[⟨⟨"g", [1, 2]⟩, 128⟩, ⟨⟨"f", [1]⟩, 64⟩, ⟨⟨rootFunction, []⟩, 0⟩]⟩ := by
    decide +kernel
  -- every round returns, and shrinks the stack
  have hshrinks : ∀ i ∈ (restoreLogged settling).1, i.run.1 = .ok () ∧
      (popFrame i.run.2).1 = .ok () ∧
      (popFrame i.run.2).2.stack.calls.frames.length < i.ctx.stack.calls.frames.length := by
    decide +kernel
  have hno : ∀ i ∈ (restoreLogged settling).1, ∀ place, i.Visits place → ¬place.LeavesFrames := by
    intro i hi
    obtain ⟨hrun, hpop, hless⟩ := hshrinks i hi
    exact ((hrounds i hi).2 _ _ (Prod.ext hrun rfl) (Prod.ext hpop rfl)).1 hless
  have hreturns : (restore settling).1 = .ok 2 := by decide +kernel
  exact ⟨hno, (hturns hno _ hread).1, by decide +kernel, _, Prod.ext hreturns rfl⟩

/-- The recovery of `f` answers, and calls `g`, which fails. If the answer is there already it
does nothing. -/
def forgettingRecoveries : Registry :=
  (Table.empty.insert "f" ⟨.program .done, .program (.ifAnswered .done
    (.act (.answer [1]) (.attempt (.act (.call "g" (some []) {}) .done) .done)) .done)⟩).insert "g"
    ⟨failing, failing⟩

/-- A root, and a call of `f`. -/
def suspendedCall : DurableStack :=
  (push ⟨"f", []⟩ none (push ⟨rootFunction, []⟩ none threeLines).2).2

/-- A process that has found them. -/
def forgetting : Context where
  host := ⟨forgettingRecoveries, .recovery, 1⟩
  thread := 0
  stack := ⟨.empty, suspendedCall.region⟩

/-- A round that returns and leaves as many frames as it found. The call of `f` is recovered
twice, and two recoveries are counted for one suspended call. -/
theorem frameOfFailure_recoveredTwice :
    forgetting.host.mode = .recovery ∧
    scan forgetting.stack.region = .ok ⟨[⟨⟨"f", []⟩, 64⟩, ⟨⟨rootFunction, []⟩, 0⟩]⟩ ∧
    (restore forgetting).1 = .ok 2 ∧
    ∃ first second, (restoreLogged forgetting).1 = [first, second] ∧
      first.run.1 = .ok () ∧ (popFrame first.run.2).1 = .ok () ∧
      (popFrame first.run.2).2.stack.calls.frames = first.ctx.stack.calls.frames ∧
      first.ctx.stack.calls.frames = [⟨⟨"f", []⟩, 64⟩, ⟨⟨rootFunction, []⟩, 0⟩] ∧
      second.ctx.stack.calls.frames = first.ctx.stack.calls.frames := by
  have hread : scan forgetting.stack.region
      = .ok ⟨[⟨⟨"f", []⟩, 64⟩, ⟨⟨rootFunction, []⟩, 0⟩]⟩ := by decide +kernel
  have hlength : (restoreLogged forgetting).1.length = 2 := by decide +kernel
  obtain ⟨first, second, hlog⟩ := List.length_eq_two.1 hlength
  have hfirst : ∀ i ∈ (restoreLogged forgetting).1.head?, i.run.1 = .ok () ∧
      (popFrame i.run.2).1 = .ok () ∧
      (popFrame i.run.2).2.stack.calls.frames = i.ctx.stack.calls.frames := by
    decide +kernel
  have hframes : ∀ i ∈ (restoreLogged forgetting).1,
      i.ctx.stack.calls.frames = [⟨⟨"f", []⟩, 64⟩, ⟨⟨rootFunction, []⟩, 0⟩] := by
    decide +kernel
  rw [hlog] at hfirst hframes
  obtain ⟨hrun, hpop, hsame⟩ := hfirst first rfl
  have hbefore := hframes first List.mem_cons_self
  have hagain := hframes second (List.mem_cons_of_mem _ List.mem_cons_self)
  exact ⟨rfl, hread, by decide +kernel, first, second, hlog, hrun, hpop, hsame, hbefore,
    hagain.trans hbefore.symm⟩

end Context

end DurableCalls
