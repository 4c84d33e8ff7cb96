/-
`Balance.lean` -- the frames that a call has left behind when it returns.

A call pushes its own frame, and at its end it pops the frame that is on top by then. That
is another one if a nested call has failed inside: its frame stays on the stack, and a
program that handles the failure goes on above it. So a call that returns has its caller's
frames below whatever else, and it is balanced exactly where no failure was handled that
had left frames (`call_balanced_iff`). Nothing ever takes such a frame away again while the
call runs, because every pop is paid for by a push.

Both directions are told of any run (`StaysBalanced`), and go through steps in a row. The
region plays no part in them: they are about the frames that the thread sees, and hold over
any bytes.
-/
import DurableCalls.Proofs.Call.Cramped
import DurableCalls.Proofs.Call.Visits
import DurableCalls.Proofs.Context.Frames

set_option autoImplicit false

namespace DurableCalls

open CallStack Context DurableStack

/-- Here a program handles a failure that has left frames on the stack. -/
def Place.LeavesFrames (place : Place) : Prop :=
  ∃ body rest failure after, place.left = .program (.attempt body rest) ∧
    body.run place.caller place.args place.ctx = (.error (.failed failure), after) ∧
    after.stack.calls.frames ≠ place.ctx.stack.calls.frames

/-- Such a place is among the visited ones. -/
def LeavesIn (visits : Place → Prop) : Prop := ∃ place, visits place ∧ place.LeavesFrames

namespace Context

variable {α β : Type} {m : Exec α} {f : α → Exec β} {ctx mid after : Context}
  {leaves leaves' : Prop} {frames : List Placed} {halt : Halt}

/-! ## Balanced runs -/

/-- An end of a run over these frames. They stay at the bottom. If they are all there is
then no frames were left, and a run that returns without having left any ends with them
alone. -/
structure EndsBalanced (frames : List Placed) (leaves : Prop) (out : Except Halt α × Context) :
    Prop where
  grows : frames <:+ out.2.stack.calls.frames
  settled : out.2.stack.calls.frames = frames → ¬leaves
  level : ∀ a, out.1 = .ok a → ¬leaves → out.2.stack.calls.frames = frames

theorem EndsBalanced.of_error (hgrows : frames <:+ after.stack.calls.frames)
    (hsettled : after.stack.calls.frames = frames → ¬leaves) :
    EndsBalanced frames leaves ((.error halt, after) : Except Halt α × Context) := by
  refine ⟨hgrows, hsettled, fun a h => ?_⟩
  cases h

/-- A halt with a frame that is not popped any more. -/
theorem EndsBalanced.of_unpopped {p : Placed} (hmore : p :: frames <:+ after.stack.calls.frames) :
    EndsBalanced frames leaves ((.error halt, after) : Except Halt α × Context) := by
  refine .of_error ((List.suffix_cons p frames).trans hmore) fun hsame => ?_
  have hlength := hmore.length_le
  rw [hsame, List.length_cons] at hlength
  omega

theorem EndsBalanced.iff {out : Except Halt α × Context} (h : EndsBalanced frames leaves out)
    (heq : leaves' ↔ leaves) : EndsBalanced frames leaves' out := by
  rw [propext heq]
  exact h

/-- The run ends balanced over the frames that it begins with. -/
def StaysBalanced (leaves : Prop) (m : Exec α) (ctx : Context) : Prop :=
  EndsBalanced ctx.stack.calls.frames leaves (m ctx)

theorem StaysBalanced.of_same (h : (m ctx).2.stack.calls.frames = ctx.stack.calls.frames)
    (hno : ¬leaves) : StaysBalanced leaves m ctx := by
  exact ⟨h ▸ List.suffix_refl _, fun _ => hno, fun _ _ _ => h⟩

theorem StaysBalanced.iff (h : StaysBalanced leaves m ctx) (heq : leaves' ↔ leaves) :
    StaysBalanced leaves' m ctx := EndsBalanced.iff h heq

theorem Quiet.balanced (h : Quiet m) (hno : ¬leaves) : StaysBalanced leaves m ctx :=
  .of_same (h.still ctx) hno

/-- Going on from a balanced end leaves frames where one of both does. -/
theorem EndsBalanced.trans {leavesThen : Prop} {a : α} {out : Except Halt β × Context}
    (h : EndsBalanced frames leaves ((.ok a, mid) : Except Halt α × Context))
    (hthen : EndsBalanced mid.stack.calls.frames leavesThen out) :
    EndsBalanced frames (leaves ∨ leavesThen) out := by
  refine ⟨h.grows.trans hthen.grows, fun hsame => ?_, fun b hb hno => ?_⟩
  · -- the frames in the middle lie between those of the start and of the end
    have hgrows := hthen.grows
    rw [hsame] at hgrows
    have hmid : mid.stack.calls.frames = frames := hgrows.eq_of_length_le h.grows.length_le
    rintro (hleaves | hleaves)
    · exact h.settled hmid hleaves
    · exact hthen.settled (hsame.trans hmid.symm) hleaves
  · have hmid := h.level a rfl fun hleaves => hno (.inl hleaves)
    exact (hthen.level b hb fun hleaves => hno (.inr hleaves)).trans hmid

/-- **Steps in a row.** The whole leaves frames exactly if the first part does, or the second one
where the first has come to. Which places these are is left to the caller of the lemma (`heq`),
since each node of a program has its own. -/
theorem StaysBalanced.bind {leavesFirst : Prop} {leavesThen : α → Context → Prop}
    (hm : StaysBalanced leavesFirst m ctx)
    (hf : ∀ a mid, m ctx = (.ok a, mid) → StaysBalanced (leavesThen a mid) (f a) mid)
    (heq : leaves ↔ leavesFirst ∨ ∃ a mid, m ctx = (.ok a, mid) ∧ leavesThen a mid) :
    StaysBalanced leaves (m >>= f) ctx := by
  rw [StaysBalanced] at hm ⊢
  rcases hrun : m ctx with ⟨halt | a, mid⟩
  · have hnext : ¬∃ a mid, m ctx = (.ok a, mid) ∧ leavesThen a mid := by
      rintro ⟨a, mid', hok, -⟩
      rw [hrun] at hok
      cases hok
    rw [hrun] at hm
    rw [Run.bind_of_error hrun]
    exact (EndsBalanced.of_error hm.grows hm.settled).iff (heq.trans (or_iff_left hnext))
  · have hnext : (∃ a mid, m ctx = (.ok a, mid) ∧ leavesThen a mid) ↔ leavesThen a mid := by
      refine ⟨?_, fun h => ⟨a, mid, hrun, h⟩⟩
      rintro ⟨a', mid', hok, h⟩
      rw [hrun] at hok
      cases hok
      exact h
    rw [hrun] at hm
    rw [Run.bind_of_ok hrun]
    exact (hm.trans (hf a mid hrun)).iff (heq.trans (or_congr_right hnext))

theorem StaysBalanced.bind_quiet (hm : StaysBalanced leaves m ctx) (hf : ∀ a, Quiet (f a)) :
    StaysBalanced leaves (m >>= f) ctx := by
  refine hm.bind (fun a _ _ => (hf a).balanced not_false) ⟨.inl, ?_⟩
  rintro (hleaves | ⟨_, _, -, hno⟩)
  · exact hleaves
  · exact hno.elim

theorem Quiet.bind_balanced {leavesThen : α → Context → Prop} (hm : Quiet m)
    (hf : ∀ a mid, m ctx = (.ok a, mid) → StaysBalanced (leavesThen a mid) (f a) mid)
    (heq : leaves ↔ ∃ a mid, m ctx = (.ok a, mid) ∧ leavesThen a mid) :
    StaysBalanced leaves (m >>= f) ctx := by
  refine (hm.balanced not_false).bind hf ?_
  rw [false_or]
  exact heq

/-- Handling a failure leaves the frames that its body has left. That is the one way for a run to
return with more frames than it began with. -/
theorem handled_balanced {body : Exec Unit} (h : StaysBalanced leaves body ctx) :
    StaysBalanced (leaves ∨ ∃ failure after, body ctx = (.error (.failed failure), after) ∧
      after.stack.calls.frames ≠ ctx.stack.calls.frames) (Program.handled body) ctx := by
  rw [StaysBalanced] at h ⊢
  -- an abort is not handled, and a body that returns has nothing to handle
  rcases hrun : body ctx with ⟨(⟨failure⟩ | ⟨reason⟩) | ⟨⟩, after⟩
  · rw [hrun] at h
    rw [Program.handled_of_failed hrun]
    refine ⟨h.grows, ?_, fun _ _ hno => ?_⟩
    · rintro hsame (hleaves | ⟨_, _, heq, hne⟩)
      · exact h.settled hsame hleaves
      · cases heq
        exact hne hsame
    · by_contra hne
      exact hno (.inr ⟨failure, after, rfl, hne⟩)
  · rw [hrun] at h
    rw [Program.handled_of_aborted hrun]
    refine .of_error h.grows ?_
    rintro hsame (hleaves | ⟨_, _, heq, -⟩)
    · exact h.settled hsame hleaves
    · cases heq
  · rw [hrun] at h
    rw [Program.handled_of_ok hrun]
    refine ⟨h.grows, ?_, fun _ _ hno => h.level () rfl fun hleaves => hno (.inl hleaves)⟩
    rintro hsame (hleaves | ⟨_, _, heq, -⟩)
    · exact h.settled hsame hleaves
    · cases heq

end Context

/-! ## Bodies -/

section Body

variable {caller : Caller} {nested : VisitsAs} {args : List UInt8} {ctx : Context}

/-- The nested calls of a body are balanced wherever it makes them. -/
def BalancedEverywhere (caller : Caller) (nested : VisitsAs) : Prop :=
  ∀ request ctx, StaysBalanced (LeavesIn (nested request ctx)) (caller request) ctx

/-- They are balanced on faithful stacks. -/
def CallsBalanced (caller : Caller) (nested : VisitsAs) : Prop :=
  ∀ request ctx, ctx.stack.Faithful →
    StaysBalanced (LeavesIn (nested request ctx)) (caller request) ctx

/-- Only a program that is about to handle failures can leave frames by that. -/
theorem Place.not_leavesFrames {place : Place}
    (h : ∀ body rest, place.left ≠ .program (.attempt body rest)) : ¬place.LeavesFrames := by
  rintro ⟨body, rest, failure, after, hleft, -⟩
  exact h body rest hleft

theorem runAction_balanced (hcaller : BalancedEverywhere caller nested) (action : Action) :
    StaysBalanced (∃ request, action.request? args = some request ∧ LeavesIn (nested request ctx))
      (Program.runAction caller args action) ctx := by
  cases hmade : action.request? args with
  | none =>
    refine .of_same (Action.run_still hmade ctx) ?_
    rintro ⟨request, hsome, -⟩
    cases hsome
  | some request =>
    rw [Action.run_of_request hmade]
    refine (hcaller request ctx).iff ⟨?_, fun h => ⟨request, rfl, h⟩⟩
    rintro ⟨request', hsome, h⟩
    cases hsome
    exact h

theorem leavesIn_done : ¬LeavesIn (Program.done.Visits caller nested args ctx) := by
  rintro ⟨place, hvisits, hleaves⟩
  cases hvisits with
  | start => exact Place.not_leavesFrames (fun _ _ h => by cases h) hleaves

theorem leavesIn_act {action : Action} {rest : Program} :
    LeavesIn ((Program.act action rest).Visits caller nested args ctx) ↔
      (∃ request, action.request? args = some request ∧ LeavesIn (nested request ctx)) ∨
      ∃ a mid, Program.runAction caller args action ctx = (.ok a, mid) ∧
        LeavesIn (rest.Visits caller nested args mid) := by
  constructor
  · rintro ⟨place, hvisits, hleaves⟩
    cases hvisits with
    | start => exact absurd hleaves (Place.not_leavesFrames fun _ _ h => by cases h)
    | inCall made visits => exact .inl ⟨_, made, place, visits, hleaves⟩
    | behindAction run visits => exact .inr ⟨(), _, run, place, visits, hleaves⟩
  · rintro (⟨request, made, place, visits, hleaves⟩ | ⟨_, mid, run, place, visits, hleaves⟩)
    · exact ⟨place, .inCall made visits, hleaves⟩
    · exact ⟨place, .behindAction run visits, hleaves⟩

theorem leavesIn_attempt {body rest : Program} :
    LeavesIn ((Program.attempt body rest).Visits caller nested args ctx) ↔
      (LeavesIn (body.Visits caller nested args ctx) ∨
        ∃ failure after, body.run caller args ctx = (.error (.failed failure), after) ∧
          after.stack.calls.frames ≠ ctx.stack.calls.frames) ∨
      ∃ a mid, (do note (.caught (← Program.handled (body.run caller args))) : Exec Unit) ctx
        = (.ok a, mid) ∧ LeavesIn (rest.Visits caller nested args mid) := by
  constructor
  · rintro ⟨place, hvisits, hleaves⟩
    cases hvisits with
    | start =>
      obtain ⟨body, rest, failure, after, hleft, hrun, hne⟩ := hleaves
      cases hleft
      exact .inl (.inr ⟨failure, after, hrun, hne⟩)
    | inAttempt visits => exact .inl (.inl ⟨place, visits, hleaves⟩)
    | behindAttempt run visits => exact .inr ⟨(), _, run, place, visits, hleaves⟩
  · rintro ((⟨place, visits, hleaves⟩ | ⟨failure, after, hrun, hne⟩) |
      ⟨_, mid, run, place, visits, hleaves⟩)
    · exact ⟨place, .inAttempt visits, hleaves⟩
    · exact ⟨_, .start, body, rest, failure, after, rfl, hrun, hne⟩
    · exact ⟨place, .behindAttempt run visits, hleaves⟩

theorem leavesIn_ifArgs {yes no rest : Program} :
    LeavesIn ((Program.ifArgs yes no rest).Visits caller nested args ctx) ↔
      LeavesIn ((if args.isEmpty then no else yes).Visits caller nested args ctx) ∨
      ∃ a mid, (if args.isEmpty then no else yes).run caller args ctx = (.ok a, mid) ∧
        LeavesIn (rest.Visits caller nested args mid) := by
  constructor
  · rintro ⟨place, hvisits, hleaves⟩
    cases hvisits with
    | start => exact absurd hleaves (Place.not_leavesFrames fun _ _ h => by cases h)
    | inBranch visits => exact .inl ⟨place, visits, hleaves⟩
    | behindBranch run visits => exact .inr ⟨(), _, run, place, visits, hleaves⟩
  · rintro (⟨place, visits, hleaves⟩ | ⟨_, mid, run, place, visits, hleaves⟩)
    · exact ⟨place, .inBranch visits, hleaves⟩
    · exact ⟨place, .behindBranch run visits, hleaves⟩

theorem leavesIn_ifAnswered {yes no rest : Program} :
    LeavesIn ((Program.ifAnswered yes no rest).Visits caller nested args ctx) ↔
      ∃ bytes mid, readCurrentAnswer 1 ctx = (.ok bytes, mid) ∧
        (LeavesIn ((if Builtin.answerByte bytes ≠ unanswered then yes else no).Visits caller nested
          args mid) ∨
        ∃ a next, (if Builtin.answerByte bytes ≠ unanswered then yes else no).run caller args mid
          = (.ok a, next) ∧ LeavesIn (rest.Visits caller nested args next)) := by
  constructor
  · rintro ⟨place, hvisits, hleaves⟩
    cases hvisits with
    | start => exact absurd hleaves (Place.not_leavesFrames fun _ _ h => by cases h)
    | inAnswered reading visits => exact ⟨_, _, reading, .inl ⟨place, visits, hleaves⟩⟩
    | behindAnswered reading run visits =>
      exact ⟨_, _, reading, .inr ⟨(), _, run, place, visits, hleaves⟩⟩
  · rintro ⟨bytes, mid, reading, ⟨place, visits, hleaves⟩ | ⟨_, next, run, place, visits, hleaves⟩⟩
    · exact ⟨place, .inAnswered reading visits, hleaves⟩
    · exact ⟨place, .behindAnswered reading run visits, hleaves⟩

/-- **A program is balanced where its calls are**, by induction on the tree. The node that handles a
failure is a place of its own: if its body has failed and left frames, they stay. Every other node
leaves frames exactly where one of its parts does. -/
theorem program_balanced (hcaller : BalancedEverywhere caller nested) (body : Program) :
    StaysBalanced (LeavesIn (body.Visits caller nested args ctx)) (body.run caller args) ctx := by
  induction body generalizing ctx with
  | done => exact (Quiet.pure ()).balanced leavesIn_done
  | act action rest ih =>
    exact (runAction_balanced hcaller action).bind (fun _ _ _ => ih) leavesIn_act
  | attempt body rest ihBody ihRest =>
    have hnote := fun failure : Option Failure => Quiet.note (.caught failure)
    -- the body and its handler are one part, and the rest of the tree is the other
    rw [Program.run, ← bind_assoc]
    exact ((handled_balanced ihBody).bind_quiet hnote).bind (fun _ _ _ => ihRest) leavesIn_attempt
  | ifArgs yes no rest ihYes ihNo ihRest =>
    have ihBranch : StaysBalanced (LeavesIn ((if args.isEmpty then no else yes).Visits caller nested
        args ctx)) ((if args.isEmpty then no else yes).run caller args) ctx := by
      by_cases hempty : args.isEmpty = true
      · rw [if_pos hempty]
        exact ihNo
      · rw [if_neg hempty]
        exact ihYes
    rw [Program.run_ifArgs]
    exact ihBranch.bind (fun _ _ _ => ihRest) leavesIn_ifArgs
  | ifAnswered yes no rest ihYes ihNo ihRest =>
    rw [Program.run_ifAnswered]
    refine (Quiet.readCurrentAnswer 1).bind_balanced (fun bytes mid _ => ?_) leavesIn_ifAnswered
    have ihBranch : StaysBalanced (LeavesIn ((if Builtin.answerByte bytes ≠ unanswered then yes
        else no).Visits caller nested args mid))
        ((if Builtin.answerByte bytes ≠ unanswered then yes else no).run caller args) mid := by
      by_cases hanswered : Builtin.answerByte bytes ≠ unanswered
      · rw [if_pos hanswered]
        exact ihYes
      · rw [if_neg hanswered]
        exact ihNo
    exact ihBranch.bind (fun _ _ _ => ihRest) Iff.rfl

/-- A built-in function handles no failure itself. -/
theorem leavesIn_builtin {entry : Builtin} :
    LeavesIn (entry.Visits caller nested args ctx) ↔
      ∃ request, entry.request? args ctx = some request ∧ LeavesIn (nested request ctx) := by
  constructor
  · rintro ⟨place, hvisits, hleaves⟩
    cases hvisits with
    | start => exact absurd hleaves (Place.not_leavesFrames fun _ _ h => by cases h)
    | inCall made visits => exact ⟨_, made, place, visits, hleaves⟩
  · rintro ⟨request, made, place, visits, hleaves⟩
    exact ⟨place, .inCall made visits, hleaves⟩

theorem builtin_balanced (hcaller : BalancedEverywhere caller nested) (entry : Builtin) :
    StaysBalanced (LeavesIn (entry.Visits caller nested args ctx)) (entry.run caller args) ctx := by
  have hswap : ∀ {entry : Builtin}, entry.request? args ctx = none →
      framesOf (entry.run caller args ctx).2 = framesOf ctx →
      StaysBalanced (LeavesIn (entry.Visits caller nested args ctx)) (entry.run caller args)
        ctx := by
    intro entry hnone hframes
    refine .of_same hframes fun hleaves => ?_
    obtain ⟨request, hmade, -⟩ := leavesIn_builtin.1 hleaves
    rw [hnone] at hmade
    cases hmade
  have htask : ∀ {entry : Builtin}, entry.CallsOnce caller args ctx →
      StaysBalanced (LeavesIn (entry.Visits caller nested args ctx)) (entry.run caller args)
        ctx := by
    rintro entry (⟨hnone, m, hquiet, heq⟩ | ⟨request, t, hmade, heq⟩)
    · refine hswap hnone ?_
      rw [heq]
      exact hquiet.still ctx
    · have hcall := (hcaller request ctx).bind_quiet fun _ => Builtin.publishAnswer_quiet t
      rw [StaysBalanced, heq]
      refine hcall.iff (leavesIn_builtin.trans ⟨?_, fun h => ⟨request, hmade, h⟩⟩)
      rintro ⟨request', hmade', h⟩
      cases hmade.symm.trans hmade'
      exact h
  cases entry with
  | swap => exact hswap rfl (Builtin.runSwap_still args ctx)
  | recoverSwap => exact hswap rfl (Builtin.runRecoverSwap_still args ctx)
  | task => exact htask (Builtin.task_callsOnce caller args ctx)
  | recoverTask => exact htask (Builtin.recoverTask_callsOnce caller args ctx)

theorem entry_balanced (hcaller : BalancedEverywhere caller nested) (entry : EntryPoint) :
    StaysBalanced (LeavesIn (entry.Visits caller nested args ctx)) (entry.run caller args) ctx := by
  cases entry with
  | builtin entry => exact builtin_balanced hcaller entry
  | program body => exact program_balanced hcaller body

end Body

/-! ## Calls -/

variable {ctx : Context} {depth : Nat} {caller : Caller} {nested : VisitsAs}

theorem leavesIn_call {request : CallRequest} {entry : EntryPoint} {mid : Context}
    (hentering : enter request ctx = (.ok entry, mid)) :
    LeavesIn (CallVisits caller nested request ctx) ↔
      ∃ a running, consult .afterFramePush mid = (.ok a, running) ∧
        LeavesIn (fun place => entry.Visits caller nested request.args running place) := by
  constructor
  · rintro ⟨place, ⟨entering, passing, visits⟩, hleaves⟩
    cases hentering.symm.trans entering
    exact ⟨(), _, passing, place, visits, hleaves⟩
  · rintro ⟨_, running, passing, place, visits, hleaves⟩
    exact ⟨place, .inBody hentering passing visits, hleaves⟩

namespace Context

variable {leaves : Prop} {p : Placed} {frames : List Placed} {start after : Context}

/-- **The last pop.** Where the body of a call has left nothing, the frame of the call is on
top again, and its caller's frames are what remains. -/
theorem EndsBalanced.leave {done : Context}
    (h : EndsBalanced (p :: frames) leaves ((.ok (), done) : Except Halt Unit × Context)) :
    EndsBalanced frames leaves ((do consult .beforeFrameRemove; popFrame : Exec Unit) done) := by
  have hconsult := (Quiet.consult .beforeFrameRemove).still done
  rcases hrun : consult .beforeFrameRemove done with ⟨halt | ⟨⟩, mid⟩
  · rw [hrun] at hconsult
    rw [Run.bind_of_error hrun]
    refine .of_unpopped (p := p) ?_
    rw [show mid.stack.calls.frames = done.stack.calls.frames from hconsult]
    exact h.grows
  · rw [hrun] at hconsult
    rw [Run.bind_of_ok hrun]
    rcases popFrame_frames mid with ⟨-, halt, hpop⟩ | ⟨top, below, rest, hframes, hpop⟩
    · rw [hpop]
      refine .of_unpopped (p := p) ?_
      rw [show mid.stack.calls.frames = done.stack.calls.frames from hconsult]
      exact h.grows
    · have hdone : done.stack.calls.frames = top :: below :: rest := hconsult.symm.trans hframes
      obtain ⟨hgrows, hsettled, hlevel⟩ := h
      rw [hdone] at hgrows hsettled hlevel
      have hpopped : (popFrame mid).2.stack.calls.frames = below :: rest := hpop
      refine ⟨?_, fun hsame => ?_, fun _ _ hno => ?_⟩
      · rw [hpopped]
        exact suffix_of_cons_suffix_cons hgrows
      · -- the popped frame was the call's own
        have htail : below :: rest = frames := hpopped.symm.trans hsame
        rw [htail] at hgrows hsettled
        exact hsettled (hgrows.eq_of_length_le (Nat.le_refl _)).symm
      · exact hpopped.trans (List.cons.inj (hlevel () rfl hno)).2

/-- The end of a call whose function was found, from the push of its frame on. If it returns, and
nothing in it has left frames behind a failure that was handled, exactly its own frame is gone. -/
theorem inside_balanced {request : CallRequest} {entry : EntryPoint}
    (hcaller : BalancedEverywhere (callWithin depth) nested)
    (hentering : enter request ctx = (.ok entry, start))
    (hframes : start.stack.calls.frames = p :: frames) :
    EndsBalanced frames (LeavesIn (CallVisits (callWithin depth) nested request ctx))
      ((do
        (do consult .afterFramePush; entry.run (callWithin depth) request.args)
        (do consult .beforeFrameRemove; popFrame) : Exec Unit) start) := by
  have hbody : StaysBalanced (LeavesIn (CallVisits (callWithin depth) nested request ctx))
      (do consult .afterFramePush; entry.run (callWithin depth) request.args) start :=
    (Quiet.consult .afterFramePush).bind_balanced (fun _ _ _ => entry_balanced hcaller entry)
      (leavesIn_call hentering)
  rw [StaysBalanced, hframes] at hbody
  rcases hrun : (do consult .afterFramePush; entry.run (callWithin depth) request.args :
    Exec Unit) start with ⟨halt | ⟨⟩, done⟩
  · rw [hrun] at hbody
    rw [Run.bind_of_error hrun]
    exact .of_unpopped hbody.grows
  · rw [hrun] at hbody
    rw [Run.bind_of_ok hrun]
    exact hbody.leave

/-- **A call is balanced**, by induction on how deep it may nest. It pushes its own frame, and at
its end it pops the one on top. That is its own frame exactly if its body has left none above it; a
call whose body fails ends with the frame still on the stack. -/
theorem callWithin_balancedEverywhere (depth : Nat) :
    BalancedEverywhere (callWithin depth) (VisitsWithin depth) := by
  induction depth with
  | zero =>
    refine fun request ctx => .of_same rfl ?_
    rintro ⟨place, hvisits, -⟩
    exact hvisits
  | succ depth ih =>
    intro request ctx
    obtain ⟨hgrows, hpushed⟩ := enter_pushes request ctx
    rw [StaysBalanced, callWithin_succ]
    rcases hrun : enter request ctx with ⟨halt | entry, mid⟩
    · -- nothing was visited, and a frame may be there whose push has failed halfway
      rw [hrun] at hgrows
      rw [Run.bind_of_error hrun]
      refine .of_error hgrows fun _ => ?_
      rintro ⟨place, ⟨entering, -, -⟩, -⟩
      rw [hrun] at entering
      cases entering
    · rw [hrun] at hpushed
      obtain ⟨p, hframes⟩ := hpushed entry rfl
      rw [Run.bind_of_ok hrun]
      exact inside_balanced ih hrun hframes

theorem callWithin_balanced (depth : Nat) :
    CallsBalanced (callWithin depth) (VisitsWithin depth) :=
  fun request ctx _ => callWithin_balancedEverywhere depth request ctx

/-- **A call that returns is balanced exactly where no failure was handled that had left
frames.** Whatever a context over a blank region went through before: its frames are still
there, below whatever was left, and the region reads back as what the thread sees. -/
theorem call_balanced_iff {host : Host} {thread : UInt32} {region : Region}
    {request : CallRequest} (hblank : region.Blank) (hmake : make host thread region = .ok start)
    (hreached : Reachable start ctx) (hcall : call request ctx = (.ok (), after)) :
    ctx.stack.calls.frames <:+ after.stack.calls.frames ∧
    scan after.stack.region = .ok after.stack.calls ∧
    ((after.stack.calls = ctx.stack.calls ∧ scan after.stack.region = .ok ctx.stack.calls) ↔
      ∀ place, VisitsWithin ctx.depthBound request ctx place → ¬place.LeavesFrames) := by
  have hroom := hreached.room_of_call hmake hcall
  have hfaithful := hreached.faithful_of_blank hblank hroom hmake
  have hrun := (call_apply request ctx).symm.trans hcall
  have hscan := ((callWithin_keeps _ request).follows hfaithful hrun).stack.faithful.scan_eq
  have hbalanced := callWithin_balanced ctx.depthBound request ctx hfaithful
  rw [StaysBalanced, hrun] at hbalanced
  refine ⟨hbalanced.grows, hscan, ?_, fun hno => ?_⟩
  · rintro ⟨hsame, -⟩ place hvisits hleaves
    exact hbalanced.settled (congrArg CallStack.frames hsame) ⟨place, hvisits, hleaves⟩
  · have hframes := hbalanced.level () rfl fun ⟨place, hvisits, hleaves⟩ =>
      hno place hvisits hleaves
    have hsame : after.stack.calls = ctx.stack.calls := congrArg CallStack.mk hframes
    refine ⟨hsame, ?_⟩
    rw [← hsame]
    exact hscan

/-- Calls `g`, and goes on if that fails. -/
def handling : EntryPoint :=
  .program (.attempt (.act (.call "g" (some []) {}) .done) .done)

/-- Fails for a reason of its own. -/
def failing : EntryPoint := .program (.act (.fail "no") .done)

def handlingFunctions : Registry :=
  (Table.empty.insert "f" ⟨handling, handling⟩).insert "g" ⟨failing, failing⟩

def onHandlingLines : Context where
  host := ⟨handlingFunctions, .execution, 1⟩
  thread := 0
  stack := threeLines

theorem make_onHandlingLines :
    make ⟨handlingFunctions, .execution, 1⟩ 0 threeLines.region = .ok onHandlingLines := rfl

/-- The same with a root frame. -/
def rootedHandling : Context := (Operation.run (.pushRoot rootFunction) onHandlingLines).2

theorem rootedHandling_reachable : Reachable onHandlingLines rootedHandling :=
  Reachable.start.step (.pushRoot rootFunction)

/-- What a call of `f` leaves. -/
def leftBehind : Context := (call ⟨"f", [], {}⟩ rootedHandling).2

theorem rootedHandling_returns : call ⟨"f", [], {}⟩ rootedHandling = (.ok (), leftBehind) :=
  Prod.ext (by decide +kernel) (by rw [leftBehind])

/-- The frame of `g` was popped in its place. -/
theorem leftBehind_names :
    rootedHandling.stack.calls.names = [rootFunction] ∧
    leftBehind.stack.calls.names = [rootFunction, "f"] := by
  decide +kernel

/-- A call that returns with its own frame still on the stack. `f` calls `g`, which fails with its
frame pushed, and handles that failure; the last pop then takes the frame of `g` for its own. -/
theorem handledFailure_unbalanced :
    threeLines.region.Blank ∧
    make ⟨handlingFunctions, .execution, 1⟩ 0 threeLines.region = .ok onHandlingLines ∧
    Reachable onHandlingLines rootedHandling ∧ rootedHandling.stack.calls.frames ≠ [] ∧
    call ⟨"f", [], {}⟩ rootedHandling = (.ok (), leftBehind) ∧
    rootedHandling.stack.calls.names = [rootFunction] ∧
    leftBehind.stack.calls.names = [rootFunction, "f"] ∧
    leftBehind.stack.calls ≠ rootedHandling.stack.calls ∧
    scan leftBehind.stack.region ≠ .ok rootedHandling.stack.calls := by
  obtain ⟨hbefore, hafter⟩ := leftBehind_names
  have hcalls : leftBehind.stack.calls ≠ rootedHandling.stack.calls := by
    intro hsame
    rw [hsame, hbefore] at hafter
    cases hafter
  have hnonempty : rootedHandling.stack.calls.frames ≠ [] := by decide +kernel
  have hreached : Reachable onHandlingLines leftBehind :=
    rootedHandling_reachable.step (.call ⟨"f", [], {}⟩)
  have hscan := (hreached.faithful threeLines_fresh.faithful).scan_eq
  refine ⟨threeLines_fresh.blank, make_onHandlingLines, rootedHandling_reachable, hnonempty,
    rootedHandling_returns, hbefore, hafter, hcalls, fun hsame => ?_⟩
  exact hcalls (Except.ok.inj (hscan.symm.trans hsame))

theorem rootedHandling_balanced_iff :
    threeLines.region.Blank ∧
    make ⟨handlingFunctions, .execution, 1⟩ 0 threeLines.region = .ok onHandlingLines ∧
    Reachable onHandlingLines rootedHandling ∧
    call ⟨"f", [], {}⟩ rootedHandling = (.ok (), leftBehind) ∧
    rootedHandling.stack.calls.frames <:+ leftBehind.stack.calls.frames ∧
    scan leftBehind.stack.region = .ok leftBehind.stack.calls ∧
    ((leftBehind.stack.calls = rootedHandling.stack.calls ∧
        scan leftBehind.stack.region = .ok rootedHandling.stack.calls) ↔
      ∀ place, VisitsWithin rootedHandling.depthBound ⟨"f", [], {}⟩ rootedHandling place →
        ¬place.LeavesFrames) :=
  ⟨threeLines_fresh.blank, make_onHandlingLines, rootedHandling_reachable, rootedHandling_returns,
    call_balanced_iff threeLines_fresh.blank make_onHandlingLines rootedHandling_reachable
      rootedHandling_returns⟩

end Context

end DurableCalls
