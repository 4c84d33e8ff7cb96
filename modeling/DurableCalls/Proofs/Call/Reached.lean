/-
`Reached.lean` -- the contexts that its operations lead to.

A program is made of actions, and each of them keeps the stack faithful; so does a call,
however deep it nests and however it ends, and so does a replay. The inductions are on the
program, on the depth of the calls and on the rounds of the replay. So over a region of
zeros every context is faithful, whatever was called, stopped, unwound and resumed before
(`Reachable.faithful`). None of the operations ends because a frame is out of its place, or
because calls nest too deep (`Operation.run_guards`).
-/
import DurableCalls.Restoration
import DurableCalls.Proofs.Call.Guards

set_option autoImplicit false

namespace DurableCalls

open DurableStack Context

variable {caller : Caller}

/-! ## Bodies -/

theorem Program.runAction_keeps (hcaller : ∀ request, Keeps (caller request)) (args : List UInt8)
    (action : Action) : Keeps (runAction caller args action) :=
  .of_guards fun start => runAction_guards (follows_contract start fun _ _ => trivial)
    (fun request => (hcaller request).guards start) args action

theorem Program.handled_keeps {body : Exec Unit} (hbody : Keeps body) : Keeps (handled body) :=
  .of_guards fun start => handled_guards (hbody.guards start)

theorem Program.run_keeps (hcaller : ∀ request, Keeps (caller request)) (args : List UInt8)
    (body : Program) : Keeps (body.run caller args) :=
  .of_guards fun start => body.run_guards (follows_contract start fun _ _ => trivial)
    (fun request => (hcaller request).guards start) args

theorem EntryPoint.run_keeps (hcaller : ∀ request, Keeps (caller request)) (args : List UInt8)
    (entry : EntryPoint) : Keeps (entry.run caller args) :=
  .of_guards fun start => entry.run_guards (follows_contract start fun _ _ => trivial)
    (fun request => (hcaller request).guards start) args

namespace Context

variable {start ctx : Context}

/-! ## Calls and replays -/

/-- Where nothing is out of place, every halt is a regular one. -/
abbrev Safe (start : Context) {α : Type} (m : Exec α) : Prop :=
  Guards (Follows start) Halt.Regular m

theorem safe_contract (start : Context) : Contract (Follows start) Halt.Regular :=
  follows_contract start fun _ h => h

theorem Follows.depthBound_eq (h : Follows start ctx) : ctx.depthBound = start.depthBound := by
  rw [depthBound, depthBound, h.stack.size_eq]

/-- No call nests deeper than a region lets it. -/
theorem callWithin_safe (start : Context) (request : CallRequest) :
    Safe start (callWithin start.depthBound request) := fun ctx hctx =>
  (callWithin_above start [] start.depthBound request ctx ⟨hctx, List.nil_suffix⟩).mono
    (·.follows) fun hhalts => hhalts (Nat.le_add_left _ _)

theorem call_safe (start : Context) (request : CallRequest) : Safe start (call request) := by
  intro ctx hctx
  rw [EndsIn, call, Run.bind_of_ok (Run.get_apply ctx), hctx.depthBound_eq]
  exact callWithin_safe start request ctx hctx

theorem enter_safe (start : Context) (request : CallRequest) : Safe start (enter request) := by
  intro ctx hctx
  have hfaithful := hctx.stack.faithful
  have hafter := hctx.trans (enter_keeps request ctx hfaithful)
  rcases enter_cases hfaithful.mirrored request with ⟨failure, mid, hrun, -⟩ |
    ⟨entry, frame, answer, mid, -, -, -, -, hrun⟩
  · rw [hrun] at hafter
    exact .of_error hrun hafter trivial
  · rw [hrun] at hafter
    exact .of_ok hrun hafter

theorem pushRoot_safe (start : Context) (name : String) : Safe start (pushRoot name) := by
  intro ctx hctx
  have hfaithful := hctx.stack.faithful
  have hafter := hctx.trans (pushRoot_keeps name ctx hfaithful)
  rcases pushRoot_cases hfaithful.mirrored name with ⟨failure, hrun⟩ | ⟨frame, answer, -, -, hrun⟩
  · rw [hrun] at hafter
    exact .of_error hrun hafter trivial
  · rw [hrun] at hafter
    exact .of_ok hrun hafter

theorem popFrame_safe (start : Context) : Safe start popFrame := fun ctx hctx =>
  ⟨hctx.trans (popFrame_keeps ctx hctx.stack.faithful), popFrame_regular hctx.stack.faithful⟩

theorem popFrames_safe (start : Context) (count removed : Nat) :
    Safe start (popFrames count removed) := by
  induction count generalizing removed with
  | zero => exact .pure _
  | succ count ih => exact (popFrame_safe start).bind fun _ => ih _

/-- A reload finds the calls that are there. -/
theorem reload_apply (h : ctx.stack.Faithful) : reload ctx = (.ok (), ctx) := by
  rw [reload, onStack_apply, h.reload_eq]

theorem reload_safe (start : Context) : Safe start reload := fun _ hctx =>
  .of_ok (reload_apply hctx.stack.faithful) hctx

theorem recoverTop_safe (start : Context) (top : Placed) : Safe start (recoverTop top) := by
  intro ctx hctx
  have hcontract := safe_contract start
  have hrecovers := (hcontract.lift (Registry.entry ctx.host.registry top.frame.name true)).bind
    fun entry => (entry.run_guards hcontract (callWithin_safe start) top.frame.args).bind
      fun _ => popFrame_safe start
  rw [EndsIn, recoverTop, Run.bind_of_ok (Run.get_apply ctx), hctx.depthBound_eq]
  exact hrecovers ctx hctx

theorem recoverTop_keeps (top : Placed) : Keeps (recoverTop top) :=
  .of_guards fun start => recoverTop_safe start top

theorem recoverFrames_safe (start : Context) (rounds recovered : Nat) :
    Safe start (recoverFrames rounds recovered) := by
  induction rounds generalizing recovered with
  | zero => exact .abort trivial
  | succ rounds ih =>
    have hcontract := safe_contract start
    refine hcontract.get.bind fun ctx => ?_
    rcases ctx.stack.calls.frames with _ | ⟨top, _ | ⟨below, rest⟩⟩
    · exact .pure _
    · exact .pure _
    · have hcount := hcontract.quiet (Quiet.liftHalt _)
        (.liftHalt (addWord_regular recovered 1))
      exact (recoverTop_safe start top).bind fun _ => hcount.bind fun _ => ih _

theorem restore_safe (start : Context) : Safe start restore := by
  have hcontract := safe_contract start
  have hreplay := (reload_safe start).bind fun _ => recoverFrames_safe start wordLimit 0
  refine hcontract.get.bind fun ctx => ?_
  by_cases hmode : ctx.host.mode ≠ .recovery
  · simp only [if_pos hmode]
    exact (hcontract.quiet (Quiet.fail _) (.fail _)).bind fun _ => hreplay
  · simp only [if_neg hmode]
    exact hreplay

/-! ## Operations -/

/-- What is done with a context from outside, and what the bodies of calls do to it. The two halves
of a call are operations of their own, so that what is reached inside of a body counts as reached
too. -/
inductive Operation
  | pushRoot (name : String)
  | call (request : CallRequest)
  /-- Begins a call, so that what follows happens inside of it. -/
  | enter (request : CallRequest)
  /-- Ends the innermost call. -/
  | popFrame
  | writeAnswer (bytes : List UInt8)
  | readAnswer (len : Nat)
  | readCurrentAnswer (len : Nat)
  | access (heap : Run Region Unit)
  | unwind
  | reload
  | restore

namespace Operation

def run : Operation → Exec Unit
  | pushRoot name => Context.pushRoot name
  | call request => Context.call request
  | enter request => discard (Context.enter request)
  | popFrame => Context.popFrame
  | writeAnswer bytes => Context.writeAnswer bytes
  | readAnswer len => discard (Context.readAnswer len)
  | readCurrentAnswer len => discard (Context.readCurrentAnswer len)
  | access heap => onHeap heap
  | unwind => discard Context.unwind
  | reload => Context.reload
  | restore => discard Context.restore

/-- A run on the heap halts as it likes. No other operation ends with an abort of the call
engine. -/
def MayHalt (op : Operation) (halt : Halt) : Prop := (∀ heap, op ≠ .access heap) → halt.Regular

/-- **Every operation keeps the stack faithful**, and no frame is out of its place. For calls that
is the contract of their bodies, and for the replay the one of its rounds; a run on the heap does
not touch the stack, but it may halt as it likes. -/
theorem run_guards (start : Context) (op : Operation) :
    Guards (Follows start) op.MayHalt op.run := by
  have hcontract := safe_contract start
  have hsafe : ∀ {m : Exec Unit}, Safe start m → Guards (Follows start) op.MayHalt m :=
    fun hm ctx hctx => (hm ctx hctx).mono id fun hregular _ => hregular
  cases op with
  | pushRoot name => exact hsafe (pushRoot_safe start name)
  | call request => exact hsafe (call_safe start request)
  | enter request => exact hsafe (enter_safe start request).discard
  | popFrame => exact hsafe (popFrame_safe start)
  | writeAnswer bytes => exact hsafe (hcontract.writeAnswer bytes)
  | readAnswer len => exact hsafe (hcontract.readAnswer len).discard
  | readCurrentAnswer len => exact hsafe (hcontract.readCurrentAnswer len).discard
  | access heap =>
    exact fun ctx hctx => ⟨hctx.trans ((Quiet.onHeap heap).keeps ctx hctx.stack.faithful),
      fun _ _ hother => absurd rfl (hother heap)⟩
  | unwind => exact hsafe (hcontract.get.bind fun _ => popFrames_safe start _ _).discard
  | reload => exact hsafe (reload_safe start)
  | restore => exact hsafe (restore_safe start).discard

theorem run_keeps (op : Operation) : Keeps op.run := .of_guards fun start => op.run_guards start

end Operation

/-- The contexts that operations lead to, however they end. Between them the hook and the
heap may be replaced, and a process may take the stack region over from another one. -/
inductive Reachable (start : Context) : Context → Prop
  | start : Reachable start start
  | step {ctx : Context} (reached : Reachable start ctx) (op : Operation) :
      Reachable start (op.run ctx).2
  | hooked {ctx : Context} (reached : Reachable start ctx) (hook : Option FaultHook) :
      Reachable start { ctx with hook }
  | attached {ctx : Context} (reached : Reachable start ctx) (heap : Option Region) :
      Reachable start { ctx with heap }
  | resumed {ctx next : Context} {host : Host} {thread : UInt32} (reached : Reachable start ctx)
      (run : resume host thread ctx.stack.region = .ok next) : Reachable start next

theorem stack_of_make {host : Host} {thread : UInt32} {region : Region} {ctx : Context}
    (h : make host thread region = .ok ctx) : ctx.stack = ⟨.empty, region⟩ := by
  cases hthread : checkThread thread host.threads with
  | error failure =>
    rw [make, hthread] at h
    cases h
  | ok =>
    rw [make, hthread] at h
    cases h
    rfl

/-- A resumed context has the calls that its region reads back as. Nothing of what the stopped
process had in memory is needed for that. -/
theorem stack_of_resume {host : Host} {thread : UInt32} {stack : DurableStack} {next : Context}
    (hscan : ∀ {calls}, scan stack.region = .ok calls → calls = stack.calls)
    (h : resume host thread stack.region = .ok next) : next.stack = stack := by
  cases hmake : make host thread stack.region with
  | error failure =>
    rw [resume, hmake] at h
    cases h
  | ok made =>
    cases hcalls : scan stack.region with
    | error halt =>
      rw [resume, hmake, hcalls] at h
      cases h
    | ok calls =>
      rw [resume, hmake, hcalls] at h
      cases h
      rw [stack_of_make hmake, hscan hcalls]

/-- **Every context is faithful** that the operations lead to, in any order and whether they succeed
or fail. A process that takes the region over reads the same calls from it. -/
theorem Reachable.faithful {start ctx : Context} (hstart : start.stack.Faithful)
    (h : Reachable start ctx) : ctx.stack.Faithful := by
  induction h with
  | start => exact hstart
  | step reached op ih => exact (op.run_keeps _ ih).stack.faithful
  | hooked reached hook ih => exact ih
  | attached reached heap ih => exact ih
  | resumed reached run ih =>
    have hscan : ∀ {calls}, scan _ = .ok calls → calls = _ := fun h =>
      (Except.ok.inj (ih.scan_eq.symm.trans h)).symm
    rw [stack_of_resume hscan run]
    exact ih

/-- So they are over a region of zeros, with which a context begins. -/
theorem Reachable.faithful_of_blank {host : Host} {thread : UInt32} {region : Region}
    {start ctx : Context} (hblank : region.Blank) (hroom : 13 ≤ region.size)
    (hmake : make host thread region = .ok start) (h : Reachable start ctx) :
    ctx.stack.Faithful := by
  refine h.faithful ?_
  rw [stack_of_make hmake]
  exact DurableStack.Fresh.faithful ⟨hblank, hroom, rfl⟩

end Context

end DurableCalls
