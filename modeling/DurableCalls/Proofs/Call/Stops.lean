/-
`Stops.lean` -- where a call stops, and which calls are under way there.

A call that halts does so somewhere in its tree of nested calls. The relations of this
file follow its run to that place, through everything that went well before it, and
collect the frame of each call on the way down. So they tell the active calls from the
program alone: no stack and no region is looked at. A call that has returned, or that was
refused, adds nothing. The run does halt where the relations lead, and they lead to one
place only, so the active calls are determined (`stopsWithin_unique`).

Only a program that handles failures could go on behind a call that has halted. The
relations are for programs that do not (`Propagates`).
-/
import DurableCalls.Proofs.Call.Reached

set_option autoImplicit false

namespace DurableCalls

open Context

/-! ## Programs that propagate every failure -/

/-- No failure is handled anywhere in the tree. -/
def Program.Propagates : Program → Prop
  | done => True
  | act _ rest => rest.Propagates
  | attempt _ _ => False
  | ifArgs yes no rest => yes.Propagates ∧ no.Propagates ∧ rest.Propagates
  | ifAnswered yes no rest => yes.Propagates ∧ no.Propagates ∧ rest.Propagates

/-- The built-in functions handle no failures. -/
def EntryPoint.Propagates : EntryPoint → Prop
  | .builtin _ => True
  | .program body => body.Propagates

def Registry.Propagates (r : Registry) : Prop :=
  ∀ name f, r.find? name = some f → f.execute.Propagates ∧ f.recover.Propagates

theorem Registry.Propagates.entry {r : Registry} (h : r.Propagates) {name : String}
    {recover : Bool} {entry : EntryPoint} (hentry : r.entry name recover = .ok entry) :
    entry.Propagates := by
  rw [Registry.entry] at hentry
  cases hfind : r.find? name with
  | none =>
    rw [hfind] at hentry
    cases hentry
  | some f =>
    rw [hfind] at hentry
    obtain ⟨hexecute, hrecover⟩ := h name f hfind
    cases recover with
    | false =>
      cases hentry
      exact hexecute
    | true =>
      cases hentry
      exact hrecover

theorem Registry.Propagates.insert {r : Registry} (h : r.Propagates) (name : String) {f : Function}
    (hexecute : f.execute.Propagates) (hrecover : f.recover.Propagates) :
    Registry.Propagates (r.insert name f) := by
  intro name' f' hfind
  rw [Table.find?_insert] at hfind
  by_cases hname : name = name'
  · rw [if_pos hname] at hfind
    cases hfind
    exact ⟨hexecute, hrecover⟩
  · rw [if_neg hname] at hfind
    exact h name' f' hfind

/-! ## Where a body stops -/

/-- The call that an action makes. -/
def Action.request? (args : List UInt8) : Action → Option CallRequest
  | .call name own options => some { name, args := own.getD (args.drop 1), options }
  | _ => none

/-- The call that a built-in function makes in a context. Up to there it only reads, so the context
of the call is the one that the function was entered with. -/
def Builtin.request? (args : List UInt8) (ctx : Context) : Builtin → Option CallRequest
  | .swap | .recoverSwap => none
  | .task =>
    match SwapTask.decode args with
    | .error _ => none
    | .ok t => some ⟨swapFunction, t.swap.encode, { callerSeed := some [unanswered] }⟩
  | .recoverTask =>
    match SwapTask.decode args, (readAnswer 1 ctx).1 with
    | .ok t, .ok bytes =>
      -- an answer from before the crash is published without a call
      if Builtin.answerByte bytes ≤ 1 then none
      else some ⟨swapFunction, t.swap.encode,
        { callerSeed := some [unanswered], recover := true }⟩
    | _, _ => none

/-- The frames of the calls that a stopped call has left under way, outermost first. -/
abbrev StopsAs := CallRequest → Context → List Frame → Prop

section Body

variable (caller : Caller) (nested : StopsAs) (args : List UInt8)

/-- Where a built-in function stops: in its nested call, or beside it. A nested call that has
returned is no longer active, so beside it there are no more frames than its own. -/
inductive Builtin.Stops (entry : Builtin) (ctx : Context) : List Frame → Prop
  | inCall {request : CallRequest} {active : List Frame}
      (made : entry.request? args ctx = some request) (stops : nested request ctx active) :
      Stops entry ctx active
  | beside {halt : Halt} {after : Context} (run : entry.run caller args ctx = (.error halt, after))
      (returned : ∀ request, entry.request? args ctx = some request →
        ∃ mid, caller request ctx = (.ok (), mid)) :
      Stops entry ctx []

/-- Where a program stops: in the call of an action, in another action, or in the reading
that a branch asks for. -/
inductive Program.Stops : Program → Context → List Frame → Prop
  | inCall {action : Action} {rest : Program} {ctx : Context} {request : CallRequest}
      {active : List Frame} (made : action.request? args = some request)
      (stops : nested request ctx active) : Stops (.act action rest) ctx active
  | inAction {action : Action} {rest : Program} {ctx after : Context} {halt : Halt}
      (plain : action.request? args = none)
      (run : Program.runAction caller args action ctx = (.error halt, after)) :
      Stops (.act action rest) ctx []
  | behindAction {action : Action} {rest : Program} {ctx mid : Context} {active : List Frame}
      (run : Program.runAction caller args action ctx = (.ok (), mid))
      (stops : Stops rest mid active) : Stops (.act action rest) ctx active
  | inBranch {yes no rest : Program} {ctx : Context} {active : List Frame}
      (stops : Stops (if args.isEmpty then no else yes) ctx active) :
      Stops (.ifArgs yes no rest) ctx active
  | behindBranch {yes no rest : Program} {ctx mid : Context} {active : List Frame}
      (run : (if args.isEmpty then no else yes).run caller args ctx = (.ok (), mid))
      (stops : Stops rest mid active) : Stops (.ifArgs yes no rest) ctx active
  | inReading {yes no rest : Program} {ctx after : Context} {halt : Halt}
      (run : readCurrentAnswer 1 ctx = (.error halt, after)) :
      Stops (.ifAnswered yes no rest) ctx []
  | inAnswered {yes no rest : Program} {ctx mid : Context} {bytes : List UInt8}
      {active : List Frame} (reading : readCurrentAnswer 1 ctx = (.ok bytes, mid))
      (stops : Stops (if Builtin.answerByte bytes ≠ unanswered then yes else no) mid active) :
      Stops (.ifAnswered yes no rest) ctx active
  | behindAnswered {yes no rest : Program} {ctx mid next : Context} {bytes : List UInt8}
      {active : List Frame} (reading : readCurrentAnswer 1 ctx = (.ok bytes, mid))
      (run : (if Builtin.answerByte bytes ≠ unanswered then yes else no).run caller args mid
        = (.ok (), next))
      (stops : Stops rest next active) : Stops (.ifAnswered yes no rest) ctx active

def EntryPoint.Stops (ctx : Context) (active : List Frame) : EntryPoint → Prop
  | .builtin entry => entry.Stops caller nested args ctx active
  | .program body => body.Stops caller nested args ctx active

end Body

/-! ## Where a call stops -/

/-- Where a call stops whose nested calls stop as `nested` says. From the push of its frame
on until its removal, it is the outermost of the active calls. -/
inductive CallStops (caller : Caller) (nested : StopsAs) (request : CallRequest) (ctx : Context) :
    List Frame → Prop
  /-- Before its frame is pushed. -/
  | refused {halt : Halt} {after : Context} (run : enter request ctx = (.error halt, after)) :
      CallStops caller nested request ctx []
  | entered {entry : EntryPoint} {mid after : Context} {halt : Halt}
      (entering : enter request ctx = (.ok entry, mid))
      (run : consult .afterFramePush mid = (.error halt, after)) :
      CallStops caller nested request ctx [⟨request.name, request.args⟩]
  | inBody {entry : EntryPoint} {mid running : Context} {active : List Frame}
      (entering : enter request ctx = (.ok entry, mid))
      (passing : consult .afterFramePush mid = (.ok (), running))
      (stops : entry.Stops caller nested request.args running active) :
      CallStops caller nested request ctx (⟨request.name, request.args⟩ :: active)
  /-- Behind its body, with its frame still there. -/
  | leaving {entry : EntryPoint} {mid running done after : Context} {halt : Halt}
      (entering : enter request ctx = (.ok entry, mid))
      (passing : consult .afterFramePush mid = (.ok (), running))
      (body : entry.run caller request.args running = (.ok (), done))
      (run : (do consult .beforeFrameRemove; popFrame : Exec Unit) done = (.error halt, after)) :
      CallStops caller nested request ctx [⟨request.name, request.args⟩]

/-- Where a call stops that may nest so deep. It never stops because it nests too deep. -/
def StopsWithin : (depth : Nat) → StopsAs
  | 0 => fun _ _ _ => False
  | depth + 1 => CallStops (callWithin depth) (StopsWithin depth)

/-! ## The place is the one where the run halts, and there is one -/

theorem Action.run_of_request {caller : Caller} {args : List UInt8} {action : Action}
    {request : CallRequest} (h : action.request? args = some request) :
    Program.runAction caller args action = caller request := by
  cases action with
  | call name own options =>
    cases h
    rfl
  | _ => cases h

/-- A task only reads in front of its nested call, and without one it leaves the stack
alone. -/
def Builtin.CallsOnce (caller : Caller) (args : List UInt8) (ctx : Context) (entry : Builtin) :
    Prop :=
  (entry.request? args ctx = none ∧
    ∃ m : Exec Unit, Quiet m ∧ entry.run caller args ctx = m ctx) ∨
  ∃ request t, entry.request? args ctx = some request ∧
    entry.run caller args ctx = (do
      caller request
      Builtin.publish t (Builtin.answerByte (← readAnswer 1)) : Exec Unit) ctx

theorem Builtin.task_callsOnce (caller : Caller) (args : List UInt8) (ctx : Context) :
    CallsOnce caller args ctx .task := by
  simp only [CallsOnce, Builtin.request?, Builtin.run, Builtin.runTask]
  cases SwapTask.decode args with
  | error failure => exact .inl ⟨rfl, _, Quiet.fail failure, rfl⟩
  | ok t => exact .inr ⟨_, t, rfl, rfl⟩

theorem Builtin.recoverTask_callsOnce (caller : Caller) (args : List UInt8) (ctx : Context) :
    CallsOnce caller args ctx .recoverTask := by
  simp only [CallsOnce, Builtin.request?, Builtin.run, Builtin.runTask]
  cases SwapTask.decode args with
  | error failure => exact .inl ⟨rfl, _, Quiet.fail failure, rfl⟩
  | ok t =>
    -- to look for an answer changes nothing, so a call is made from the same context
    have hsame := readAnswer_context 1 ctx
    have hdecoded : (liftM (Except.ok t : Except Failure SwapTask) : Exec SwapTask) ctx
        = (.ok t, ctx) := Run.lift_apply _ ctx
    rcases hread : readAnswer 1 ctx with ⟨halt | bytes, mid⟩
    · rw [hread] at hsame
      cases hsame
      refine .inl ⟨rfl, fun ctx => (.error halt, ctx), fun _ => ⟨rfl, rfl⟩, ?_⟩
      exact (Run.bind_of_ok hdecoded).trans (Run.bind_of_error hread)
    · rw [hread] at hsame
      cases hsame
      by_cases hanswered : Builtin.answerByte bytes ≤ 1
      · refine .inl ⟨if_pos hanswered, _,
          (Builtin.publish_quiet t (Builtin.answerByte bytes)).bind fun _ => Quiet.pure (), ?_⟩
        refine (Run.bind_of_ok hdecoded).trans ((Run.bind_of_ok hread).trans ?_)
        simp only [if_pos hanswered]
      · refine .inr ⟨_, t, if_neg hanswered, ?_⟩
        refine (Run.bind_of_ok hdecoded).trans ((Run.bind_of_ok hread).trans ?_)
        simp only [if_neg hanswered]

theorem Builtin.run_of_request (caller : Caller) {args : List UInt8} {ctx : Context}
    {entry : Builtin} {request : CallRequest} (h : entry.request? args ctx = some request) :
    ∃ t, entry.run caller args ctx = (do
      caller request
      Builtin.publish t (Builtin.answerByte (← readAnswer 1)) : Exec Unit) ctx := by
  have hcalls : entry.CallsOnce caller args ctx := by
    cases entry with
    | swap => cases h
    | recoverSwap => cases h
    | task => exact task_callsOnce caller args ctx
    | recoverTask => exact recoverTask_callsOnce caller args ctx
  rcases hcalls with ⟨hnone, -⟩ | ⟨request', t, hmade, heq⟩
  · cases hnone.symm.trans h
  · cases hmade.symm.trans h
    exact ⟨t, heq⟩

section Body

variable {caller : Caller} {nested : StopsAs} {args : List UInt8} {ctx : Context}
  {active active' : List Frame}

/-- A call that stops as `nested` says does halt. -/
def Halts (caller : Caller) (nested : StopsAs) : Prop :=
  ∀ request ctx active, nested request ctx active →
    ∃ halt after, caller request ctx = (.error halt, after)

def Unique (nested : StopsAs) : Prop :=
  ∀ request ctx active active', nested request ctx active → nested request ctx active' →
    active = active'

theorem Builtin.Stops.halts (hhalts : Halts caller nested) {entry : Builtin}
    (h : entry.Stops caller nested args ctx active) :
    ∃ halt after, entry.run caller args ctx = (.error halt, after) := by
  rcases h with ⟨made, stops⟩ | ⟨run, -⟩
  · obtain ⟨halt, after, hcall⟩ := hhalts _ _ _ stops
    obtain ⟨t, heq⟩ := Builtin.run_of_request caller made
    exact ⟨halt, after, heq.trans (Run.bind_of_error hcall)⟩
  · exact ⟨_, _, run⟩

theorem Builtin.Stops.unique (hhalts : Halts caller nested) (hunique : Unique nested)
    {entry : Builtin} (h : entry.Stops caller nested args ctx active)
    (h' : entry.Stops caller nested args ctx active') : active = active' := by
  rcases h with ⟨made, stops⟩ | ⟨run, returned⟩
  · rcases h' with ⟨made', stops'⟩ | ⟨run', returned'⟩
    · cases made.symm.trans made'
      exact hunique _ _ _ _ stops stops'
    · obtain ⟨halt, after, hcall⟩ := hhalts _ _ _ stops
      obtain ⟨mid, hreturned⟩ := returned' _ made
      cases hcall.symm.trans hreturned
  · rcases h' with ⟨made', stops'⟩ | ⟨run', returned'⟩
    · obtain ⟨halt, after, hcall⟩ := hhalts _ _ _ stops'
      obtain ⟨mid, hreturned⟩ := returned _ made'
      cases hcall.symm.trans hreturned
    · rfl

theorem Program.Stops.halts (hhalts : Halts caller nested) {body : Program}
    (h : body.Stops caller nested args ctx active) :
    ∃ halt after, body.run caller args ctx = (.error halt, after) := by
  induction h with
  | inCall made stops =>
    obtain ⟨halt, after, hcall⟩ := hhalts _ _ _ stops
    refine ⟨halt, after, Run.bind_of_error ?_⟩
    rw [Action.run_of_request made]
    exact hcall
  | inAction plain run => exact ⟨_, _, Run.bind_of_error run⟩
  | behindAction run stops ih =>
    obtain ⟨halt, after, hrest⟩ := ih
    exact ⟨halt, after, (Run.bind_of_ok run).trans hrest⟩
  | inBranch stops ih =>
    obtain ⟨halt, after, hbranch⟩ := ih
    rw [Program.run_ifArgs]
    exact ⟨halt, after, Run.bind_of_error hbranch⟩
  | behindBranch run stops ih =>
    obtain ⟨halt, after, hrest⟩ := ih
    rw [Program.run_ifArgs]
    exact ⟨halt, after, (Run.bind_of_ok run).trans hrest⟩
  | inReading run =>
    rw [Program.run_ifAnswered]
    exact ⟨_, _, Run.bind_of_error run⟩
  | inAnswered reading stops ih =>
    obtain ⟨halt, after, hbranch⟩ := ih
    rw [Program.run_ifAnswered]
    exact ⟨halt, after, (Run.bind_of_ok reading).trans (Run.bind_of_error hbranch)⟩
  | behindAnswered reading run stops ih =>
    obtain ⟨halt, after, hrest⟩ := ih
    rw [Program.run_ifAnswered]
    exact ⟨halt, after, (Run.bind_of_ok reading).trans ((Run.bind_of_ok run).trans hrest)⟩

/-- **A body stops at one place.** Two ways to say where it has stopped name the same calls. Of each
point there is one way on, so where one account is further than the other, a call that halts would
have returned. -/
theorem Program.Stops.unique (hhalts : Halts caller nested) (hunique : Unique nested)
    {body : Program} (h : body.Stops caller nested args ctx active)
    (h' : body.Stops caller nested args ctx active') : active = active' := by
  induction h with
  | inCall made stops =>
    obtain ⟨halt, after, hcall⟩ := hhalts _ _ _ stops
    cases h' with
    | inCall made' stops' =>
      cases made.symm.trans made'
      exact hunique _ _ _ _ stops stops'
    | inAction plain' run' => cases made.symm.trans plain'
    | behindAction run' stops' =>
      -- the call that halts in one account has returned in the other
      rw [Action.run_of_request made, hcall] at run'
      cases run'
  | inAction plain run =>
    cases h' with
    | inCall made' stops' => cases plain.symm.trans made'
    | inAction plain' run' => rfl
    | behindAction run' stops' => cases run.symm.trans run'
  | behindAction run stops ih =>
    cases h' with
    | inCall made' stops' =>
      obtain ⟨halt, after, hcall⟩ := hhalts _ _ _ stops'
      rw [Action.run_of_request made', hcall] at run
      cases run
    | inAction plain' run' => cases run.symm.trans run'
    | behindAction run' stops' =>
      cases run.symm.trans run'
      exact ih stops'
  | inBranch stops ih =>
    cases h' with
    | inBranch stops' => exact ih stops'
    | behindBranch run' stops' =>
      -- a branch that has stopped does not come to its end
      obtain ⟨halt, after, hbranch⟩ := stops.halts hhalts
      cases hbranch.symm.trans run'
  | behindBranch run stops ih =>
    cases h' with
    | inBranch stops' =>
      obtain ⟨halt, after, hbranch⟩ := stops'.halts hhalts
      cases hbranch.symm.trans run
    | behindBranch run' stops' =>
      cases run.symm.trans run'
      exact ih stops'
  | inReading run =>
    cases h' with
    | inReading run' => rfl
    | inAnswered reading' stops' => cases run.symm.trans reading'
    | behindAnswered reading' run' stops' => cases run.symm.trans reading'
  | inAnswered reading stops ih =>
    cases h' with
    | inReading run' => cases reading.symm.trans run'
    | inAnswered reading' stops' =>
      cases reading.symm.trans reading'
      exact ih stops'
    | behindAnswered reading' run' stops' =>
      cases reading.symm.trans reading'
      obtain ⟨halt, after, hbranch⟩ := stops.halts hhalts
      cases hbranch.symm.trans run'
  | behindAnswered reading run stops ih =>
    cases h' with
    | inReading run' => cases reading.symm.trans run'
    | inAnswered reading' stops' =>
      cases reading.symm.trans reading'
      obtain ⟨halt, after, hbranch⟩ := stops'.halts hhalts
      cases hbranch.symm.trans run
    | behindAnswered reading' run' stops' =>
      cases reading.symm.trans reading'
      cases run.symm.trans run'
      exact ih stops'

theorem EntryPoint.Stops.halts (hhalts : Halts caller nested) {entry : EntryPoint}
    (h : entry.Stops caller nested args ctx active) :
    ∃ halt after, entry.run caller args ctx = (.error halt, after) := by
  cases entry with
  | builtin entry => exact Builtin.Stops.halts hhalts h
  | program body => exact Program.Stops.halts hhalts h

theorem EntryPoint.Stops.unique (hhalts : Halts caller nested) (hunique : Unique nested)
    {entry : EntryPoint} (h : entry.Stops caller nested args ctx active)
    (h' : entry.Stops caller nested args ctx active') : active = active' := by
  cases entry with
  | builtin entry => exact Builtin.Stops.unique hhalts hunique h h'
  | program body => exact Program.Stops.unique hhalts hunique h h'

end Body

variable {depth : Nat} {nested : StopsAs} {request : CallRequest} {ctx : Context}
  {active active' : List Frame}

theorem CallStops.halts (hhalts : Halts (callWithin depth) nested)
    (h : CallStops (callWithin depth) nested request ctx active) :
    ∃ halt after, callWithin (depth + 1) request ctx = (.error halt, after) := by
  cases h with
  | refused run => exact ⟨_, _, Run.bind_of_error run⟩
  | entered entering run =>
    exact ⟨_, _, (Run.bind_of_ok entering).trans (Run.bind_of_error run)⟩
  | inBody entering passing stops =>
    obtain ⟨halt, after, hbody⟩ := stops.halts hhalts
    exact ⟨halt, after, (Run.bind_of_ok entering).trans
      ((Run.bind_of_ok passing).trans (Run.bind_of_error hbody))⟩
  | leaving entering passing body run =>
    exact ⟨_, _, (Run.bind_of_ok entering).trans
      ((Run.bind_of_ok passing).trans ((Run.bind_of_ok body).trans run))⟩

/-- **A call stops at one place**: refused, when it is entered, in its body, or when it leaves. The
accounts differ in how far the call has come, and each of its parts has one result. -/
theorem CallStops.unique (hhalts : Halts (callWithin depth) nested) (hunique : Unique nested)
    (h : CallStops (callWithin depth) nested request ctx active)
    (h' : CallStops (callWithin depth) nested request ctx active') : active = active' := by
  cases h with
  | refused run =>
    cases h' with
    | refused run' => rfl
    | entered entering' run' => cases run.symm.trans entering'
    | inBody entering' passing' stops' => cases run.symm.trans entering'
    | leaving entering' passing' body' run' => cases run.symm.trans entering'
  | entered entering run =>
    cases h' with
    | refused run' => cases entering.symm.trans run'
    | entered entering' run' => rfl
    | inBody entering' passing' stops' =>
      cases entering.symm.trans entering'
      cases run.symm.trans passing'
    | leaving entering' passing' body' run' => rfl
  | inBody entering passing stops =>
    cases h' with
    | refused run' => cases entering.symm.trans run'
    | entered entering' run' =>
      cases entering.symm.trans entering'
      cases passing.symm.trans run'
    | inBody entering' passing' stops' =>
      cases entering.symm.trans entering'
      cases passing.symm.trans passing'
      rw [stops.unique hhalts hunique stops']
    | leaving entering' passing' body' run' =>
      cases entering.symm.trans entering'
      cases passing.symm.trans passing'
      obtain ⟨halt, after, hbody⟩ := stops.halts hhalts
      cases hbody.symm.trans body'
  | leaving entering passing body run =>
    cases h' with
    | refused run' => cases entering.symm.trans run'
    | entered entering' run' => rfl
    | inBody entering' passing' stops' =>
      cases entering.symm.trans entering'
      cases passing.symm.trans passing'
      obtain ⟨halt, after, hbody⟩ := stops'.halts hhalts
      cases hbody.symm.trans body
    | leaving entering' passing' body' run' => rfl

theorem stopsWithin_halts (depth : Nat) : Halts (callWithin depth) (StopsWithin depth) := by
  induction depth with
  | zero => exact fun _ _ _ h => h.elim
  | succ depth ih => exact fun _ _ _ h => CallStops.halts ih h

/-- **There is one list of active calls** where a call stops. The relation follows the run, and a
run is determined by its context; so a statement about some list of active calls is about the only
one. -/
theorem stopsWithin_unique (depth : Nat) : Unique (StopsWithin depth) := by
  induction depth with
  | zero => exact fun _ _ _ _ h => h.elim
  | succ depth ih => exact fun _ _ _ _ h h' => CallStops.unique (stopsWithin_halts depth) ih h h'

end DurableCalls
