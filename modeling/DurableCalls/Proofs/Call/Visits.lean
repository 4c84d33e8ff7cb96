/-
`Visits.lean` -- the places that a run passes, and what the thread sees there.

An operation runs entry points, and these run programs, which run further entry points. The
relations of this file follow a run to each of them: to the start of every entry point, and
in a program to what is left of it behind every action, every nested call and every failure
that was handled. A replay visits the places of all its rounds.

At each of these places, and when the operation has ended, the stack region reads back as
the calls that the thread sees (`calls_never_drift`). The faithful stack is carried along
the relations, one constructor at a time.
-/
import DurableCalls.Proofs.Call.Freeze

set_option autoImplicit false

namespace DurableCalls

open Context DurableStack

/-- A place on a run: what runs next, how the calls made there are run, and in which
context. -/
structure Place where
  caller : Caller
  args : List UInt8
  left : EntryPoint
  ctx : Context

/-- The places that a call visits. -/
abbrev VisitsAs := CallRequest → Context → Place → Prop

section Body

variable (caller : Caller) (nested : VisitsAs) (args : List UInt8)

/-- The places of a built-in function: its start, and those of its nested call. There is no place
between the two, as it handles no failure and has no branches that can be seen. -/
inductive Builtin.Visits (entry : Builtin) (ctx : Context) : Place → Prop
  | start : Visits entry ctx ⟨caller, args, .builtin entry, ctx⟩
  | inCall {request : CallRequest} {place : Place} (made : entry.request? args ctx = some request)
      (visits : nested request ctx place) : Visits entry ctx place

/-- The places of a program. Behind an action, a branch or a handled failure it goes on with
the rest. -/
inductive Program.Visits : Program → Context → Place → Prop
  | start {body : Program} {ctx : Context} : Visits body ctx ⟨caller, args, .program body, ctx⟩
  | inCall {action : Action} {rest : Program} {ctx : Context} {request : CallRequest}
      {place : Place} (made : action.request? args = some request)
      (visits : nested request ctx place) : Visits (.act action rest) ctx place
  | behindAction {action : Action} {rest : Program} {ctx mid : Context} {place : Place}
      (run : Program.runAction caller args action ctx = (.ok (), mid))
      (visits : Visits rest mid place) : Visits (.act action rest) ctx place
  | inAttempt {body rest : Program} {ctx : Context} {place : Place}
      (visits : Visits body ctx place) : Visits (.attempt body rest) ctx place
  | behindAttempt {body rest : Program} {ctx mid : Context} {place : Place}
      (run : (do note (.caught (← Program.handled (body.run caller args))) : Exec Unit) ctx
        = (.ok (), mid))
      (visits : Visits rest mid place) : Visits (.attempt body rest) ctx place
  | inBranch {yes no rest : Program} {ctx : Context} {place : Place}
      (visits : Visits (if args.isEmpty then no else yes) ctx place) :
      Visits (.ifArgs yes no rest) ctx place
  | behindBranch {yes no rest : Program} {ctx mid : Context} {place : Place}
      (run : (if args.isEmpty then no else yes).run caller args ctx = (.ok (), mid))
      (visits : Visits rest mid place) : Visits (.ifArgs yes no rest) ctx place
  | inAnswered {yes no rest : Program} {ctx mid : Context} {bytes : List UInt8} {place : Place}
      (reading : readCurrentAnswer 1 ctx = (.ok bytes, mid))
      (visits : Visits (if Builtin.answerByte bytes ≠ unanswered then yes else no) mid place) :
      Visits (.ifAnswered yes no rest) ctx place
  | behindAnswered {yes no rest : Program} {ctx mid next : Context} {bytes : List UInt8}
      {place : Place} (reading : readCurrentAnswer 1 ctx = (.ok bytes, mid))
      (run : (if Builtin.answerByte bytes ≠ unanswered then yes else no).run caller args mid
        = (.ok (), next))
      (visits : Visits rest next place) : Visits (.ifAnswered yes no rest) ctx place

def EntryPoint.Visits (ctx : Context) (place : Place) : EntryPoint → Prop
  | .builtin entry => entry.Visits caller nested args ctx place
  | .program body => body.Visits caller nested args ctx place

end Body

/-- The places of a call are those of its entry point, which starts where its frame is on the
stack and no hook has stopped it. -/
inductive CallVisits (caller : Caller) (nested : VisitsAs) (request : CallRequest) (ctx : Context)
    (place : Place) : Prop
  | inBody {entry : EntryPoint} {mid running : Context}
      (entering : enter request ctx = (.ok entry, mid))
      (passing : consult .afterFramePush mid = (.ok (), running))
      (visits : entry.Visits caller nested request.args running place)

/-- The places of a call that may nest so deep. -/
def VisitsWithin : (depth : Nat) → VisitsAs
  | 0 => fun _ _ _ => False
  | depth + 1 => CallVisits (callWithin depth) (VisitsWithin depth)

/-- The places of a replay: those of the recovery of the top frame, and those of the rounds
behind it. -/
inductive RecoverVisits : Context → Place → Prop
  | inTop {ctx : Context} {place : Place} {top below : Placed} {rest : List Placed}
      {entry : EntryPoint} (frames : ctx.stack.calls.frames = top :: below :: rest)
      (found : Registry.entry ctx.host.registry top.frame.name true = .ok entry)
      (visits : entry.Visits (callWithin ctx.depthBound) (VisitsWithin ctx.depthBound)
        top.frame.args ctx place) : RecoverVisits ctx place
  | behind {ctx mid : Context} {place : Place} {top below : Placed} {rest : List Placed}
      (frames : ctx.stack.calls.frames = top :: below :: rest)
      (run : recoverTop top ctx = (.ok (), mid)) (visits : RecoverVisits mid place) :
      RecoverVisits ctx place

namespace Context.Operation

/-- Calls and replays are what runs entry points. -/
def Visits (ctx : Context) (place : Place) : Operation → Prop
  | .call request => VisitsWithin ctx.depthBound request ctx place
  | .restore => ctx.host.mode = .recovery ∧
      ∃ mid, Context.reload ctx = (.ok (), mid) ∧ RecoverVisits mid place
  | _ => False

end Context.Operation

/-! ## The stack is faithful at every place -/

section Body

variable {caller : Caller} {nested : VisitsAs} {args : List UInt8} {ctx : Context} {place : Place}

/-- Calls lead from a faithful stack to places with one. -/
def VisitsFaithful (nested : VisitsAs) : Prop :=
  ∀ request ctx place, ctx.stack.Faithful → nested request ctx place → Follows ctx place.ctx

theorem Builtin.Visits.follows (hnested : VisitsFaithful nested) {entry : Builtin}
    (hctx : ctx.stack.Faithful) (h : entry.Visits caller nested args ctx place) :
    Follows ctx place.ctx := by
  cases h with
  | start => exact .refl hctx
  | inCall made visits => exact hnested _ _ _ hctx visits

theorem Program.Visits.follows (hkeeps : ∀ request, Keeps (caller request))
    (hnested : VisitsFaithful nested) {body : Program} (hctx : ctx.stack.Faithful)
    (h : body.Visits caller nested args ctx place) : Follows ctx place.ctx := by
  induction h with
  | start => exact .refl hctx
  | inCall made visits => exact hnested _ _ _ hctx visits
  | behindAction run visits ih =>
    have hmid := (Program.runAction_keeps hkeeps args _).follows hctx run
    exact hmid.trans (ih hmid.stack.faithful)
  | inAttempt visits ih => exact ih hctx
  | behindAttempt run visits ih =>
    have hmid := ((Program.handled_keeps (Program.run_keeps hkeeps args _)).bind fun _ =>
      (Quiet.note _).keeps).follows hctx run
    exact hmid.trans (ih hmid.stack.faithful)
  | inBranch visits ih => exact ih hctx
  | behindBranch run visits ih =>
    have hmid := (Program.run_keeps hkeeps args _).follows hctx run
    exact hmid.trans (ih hmid.stack.faithful)
  | inAnswered reading visits ih =>
    have hmid := (Quiet.readCurrentAnswer 1).keeps.follows hctx reading
    exact hmid.trans (ih hmid.stack.faithful)
  | behindAnswered reading run visits ih =>
    have hmid := (Quiet.readCurrentAnswer 1).keeps.follows hctx reading
    have hnext := (Program.run_keeps hkeeps args _).follows hmid.stack.faithful run
    exact (hmid.trans hnext).trans (ih hnext.stack.faithful)

theorem EntryPoint.Visits.follows (hkeeps : ∀ request, Keeps (caller request))
    (hnested : VisitsFaithful nested) {entry : EntryPoint} (hctx : ctx.stack.Faithful)
    (h : entry.Visits caller nested args ctx place) : Follows ctx place.ctx := by
  cases entry with
  | builtin entry => exact Builtin.Visits.follows hnested hctx h
  | program body => exact Program.Visits.follows hkeeps hnested hctx h

end Body

variable {ctx : Context} {place : Place}

theorem visitsWithin_follows (depth : Nat) : VisitsFaithful (VisitsWithin depth) := by
  induction depth with
  | zero => exact fun _ _ _ _ h => h.elim
  | succ depth ih =>
    rintro request ctx place hctx ⟨entering, passing, visits⟩
    have hmid := (enter_keeps request).follows hctx entering
    have hrunning := (Quiet.consult _).keeps.follows hmid.stack.faithful passing
    exact (hmid.trans hrunning).trans
      (visits.follows (callWithin_keeps depth) ih hrunning.stack.faithful)

theorem RecoverVisits.follows (hctx : ctx.stack.Faithful) (h : RecoverVisits ctx place) :
    Follows ctx place.ctx := by
  induction h with
  | inTop frames found visits =>
    exact visits.follows (callWithin_keeps _) (visitsWithin_follows _) hctx
  | behind frames run visits ih =>
    have hmid := (recoverTop_keeps _).follows hctx run
    exact hmid.trans (ih hmid.stack.faithful)

namespace Context

theorem Operation.Visits.follows {op : Operation} (hctx : ctx.stack.Faithful)
    (h : op.Visits ctx place) : Follows ctx place.ctx := by
  cases op with
  | call request => exact visitsWithin_follows _ _ _ _ hctx h
  | restore =>
    obtain ⟨-, mid, hreload, hvisits⟩ := h
    rw [reload_apply hctx] at hreload
    cases hreload
    exact hvisits.follows hctx
  | _ => exact h.elim

/-- **The calls that a thread sees never drift from its region.** Whatever a context over a
blank region went through before, and whatever is done with it now: the region reads back as
these calls before, at every place that is visited, and afterwards, however the operation
ends. And no frame is ever appended out of its place. -/
theorem calls_never_drift {host : Host} {thread : UInt32} {region : Region} {start : Context}
    (hblank : region.Blank) (hroom : 13 ≤ region.size)
    (hmake : make host thread region = .ok start) (hreached : Reachable start ctx)
    (op : Operation) :
    scan ctx.stack.region = .ok ctx.stack.calls ∧
    (∀ place, op.Visits ctx place →
      scan place.ctx.stack.region = .ok place.ctx.stack.calls) ∧
    scan (op.run ctx).2.stack.region = .ok (op.run ctx).2.stack.calls ∧
    ((∀ heap, op ≠ .access heap) → (op.run ctx).1 ≠ .error (.aborted .frameOrder)) := by
  have hfaithful := hreached.faithful_of_blank hblank hroom hmake
  obtain ⟨hafter, hhalts⟩ := op.run_guards ctx ctx (.refl hfaithful)
  refine ⟨hfaithful.scan_eq, fun place hvisits => ?_, hafter.stack.faithful.scan_eq,
    fun hother hhalt => ?_⟩
  · exact (hvisits.follows hfaithful).stack.faithful.scan_eq
  · exact hhalts _ hhalt hother

/-- Where the frame of `f` has been pushed. -/
def entered : Context := (enter ⟨"f", [], {}⟩ rooted).2

/-- Where `f` starts. -/
def begun : Context := (consult .afterFramePush entered).2

theorem rooted_enters : enter ⟨"f", [], {}⟩ rooted = (.ok calling, entered) :=
  Prod.ext (by decide +kernel) (by rw [entered])

theorem entered_passes : consult .afterFramePush entered = (.ok (), begun) :=
  Prod.ext (by decide +kernel) (by rw [begun])

theorem rooted_visits : VisitsWithin 5 ⟨"f", [], {}⟩ rooted ⟨callWithin 4, [], calling, begun⟩ :=
  .inBody rooted_enters entered_passes .start

theorem rooted_never_drifts :
    threeLines.region.Blank ∧ 13 ≤ threeLines.region.size ∧
    make ⟨threeFunctions, .execution, 1⟩ 0 threeLines.region = .ok onThreeLines ∧
    Reachable onThreeLines rooted ∧
    scan rooted.stack.region = .ok rooted.stack.calls ∧
    scan begun.stack.region = .ok begun.stack.calls ∧
    scan frozen.stack.region = .ok frozen.stack.calls ∧
    (call ⟨"f", [], {}⟩ rooted).1 ≠ .error (.aborted .frameOrder) := by
  obtain ⟨hbefore, hplaces, hafter, hordered⟩ := calls_never_drift threeLines_fresh.blank
    threeLines_fresh.room make_onThreeLines rooted_reachable (.call ⟨"f", [], {}⟩)
  rw [Operation.run] at hafter hordered
  rw [← frozen] at hafter
  have hdepth : rooted.depthBound = 5 := by decide +kernel
  have hbegun := hplaces ⟨callWithin 4, [], calling, begun⟩
  rw [Operation.Visits, hdepth] at hbegun
  have hscan := hbegun rooted_visits
  simp only at hscan
  have hcall : ∀ heap, Operation.call ⟨"f", [], {}⟩ ≠ .access heap := by
    rintro heap ⟨⟩
  exact ⟨threeLines_fresh.blank, threeLines_fresh.room, make_onThreeLines, rooted_reachable,
    hbefore, hscan, hafter, hordered hcall⟩

end Context

end DurableCalls
