/-
`Bodies.lean` -- what the body of a call does to the frames, up to where it stops.

A body that returns has the frames that it began with. A body that halts has more of them,
and these are the frames of the calls under way where it stops. Both are said of any run
(`Tracked`), and they go through steps in a row (`Ready.bind`), so a program is followed
action by action. Nested calls are tracked by assumption here.
-/
import DurableCalls.Proofs.Call.Reached
import DurableCalls.Proofs.Call.Stops
import DurableCalls.Proofs.Stack.Spares

set_option autoImplicit false

namespace DurableCalls

open CallStack Region DurableStack

namespace Context

variable {α β : Type} {m : Exec α} {f : α → Exec β} {ctx mid after : Context}
  {under above above' : List Placed} {stops stops' : List Frame → Prop} {p : Placed}

/-! ## Runs above a caller -/

/-- The frames are those of before with others above them, and the caller is spared: no byte of the
frames below it has changed, and of its own frame only the slot and the marker. -/
structure Grows (under above : List Placed) (ctx after : Context) : Prop where
  frames_eq : after.stack.calls.frames = above ++ ctx.stack.calls.frames
  spares : Spares under ctx.stack.region after.stack.region

theorem Grows.trans (h₁ : Grows under above ctx mid) (h₂ : Grows under above' mid after) :
    Grows under (above' ++ above) ctx after :=
  ⟨by rw [h₂.frames_eq, h₁.frames_eq, List.append_assoc], h₁.spares.trans h₂.spares⟩

theorem Grows.of_stack_eq (h : after.stack = ctx.stack) : Grows under [] ctx after := by
  refine ⟨?_, ?_⟩
  · rw [h, List.nil_append]
  · rw [h]
    exact .refl

/-- A run that returns has the frames that it began with. One that halts has more of them
above, which are those of active calls. -/
structure Tracked (under : List Placed) (stops : List Frame → Prop) (m : Exec α)
    (ctx : Context) : Prop where
  returns : ∀ {a after}, m ctx = (.ok a, after) → Grows under [] ctx after
  halts : ∀ {halt after}, m ctx = (.error halt, after) →
    ∃ above, Grows under above ctx after ∧ stops (above.reverse.map (·.frame))

theorem Tracked.mono (h : Tracked under stops m ctx)
    (hstops : ∀ {halt after} active, m ctx = (.error halt, after) → stops active → stops' active) :
    Tracked under stops' m ctx := by
  refine ⟨h.returns, fun hrun => ?_⟩
  obtain ⟨above, hgrows, hactive⟩ := h.halts hrun
  exact ⟨above, hgrows, hstops _ hrun hactive⟩

theorem Tracked.congr {m' : Exec α} (h : m ctx = m' ctx) (hm : Tracked under stops m' ctx) :
    Tracked under stops m ctx :=
  ⟨fun hrun => hm.returns (h.symm.trans hrun), fun hrun => hm.halts (h.symm.trans hrun)⟩

theorem Tracked.of_halt {halt : Halt} (hrun : m ctx = (.error halt, after))
    (hgrows : Grows under above ctx after) (hstops : stops (above.reverse.map (·.frame))) :
    Tracked under stops m ctx := by
  refine ⟨fun hrun' => ?_, fun hrun' => ?_⟩
  · rw [hrun] at hrun'
    cases hrun'
  · rw [hrun] at hrun'
    cases hrun'
    exact ⟨above, hgrows, hstops⟩

theorem Tracked.of_return {a : α} (hrun : m ctx = (.ok a, after))
    (hgrows : Grows under [] ctx after) : Tracked under stops m ctx := by
  refine ⟨fun hrun' => ?_, fun hrun' => ?_⟩
  · rw [hrun] at hrun'
    cases hrun'
    exact hgrows
  · rw [hrun] at hrun'
    cases hrun'

/-- A run that leaves the frames alone, wherever it stops. -/
theorem Tracked.of_grows (h : Grows under [] ctx (m ctx).2) : Tracked under (· = []) m ctx := by
  refine ⟨fun hrun => ?_, fun hrun => ⟨[], ?_, rfl⟩⟩
  · rw [hrun] at h
    exact h
  · rw [hrun] at h
    exact h

theorem Quiet.tracked (h : Quiet m) (ctx : Context) : Tracked under (· = []) m ctx :=
  .of_grows (.of_stack_eq (h ctx).2)

/-! ## Bodies -/

/-- A context with these frames, in which calls may nest so deep. Every frame that is on the
stack has been counted. -/
structure Ready (depth : Nat) (frames : List Placed) (ctx : Context) : Prop where
  faithful : ctx.stack.Faithful
  propagates : ctx.host.registry.Propagates
  frames_eq : ctx.stack.calls.frames = frames
  deep : ctx.depthBound ≤ frames.length + depth

variable {depth : Nat} {frames : List Placed} {caller : Caller} {nested : StopsAs}
  {args : List UInt8}

theorem Ready.written (h : Ready depth frames ctx) : ctx.stack.region.Written stackEnd frames := by
  rw [← h.frames_eq]
  exact h.faithful.mirrored

theorem Ready.returns {a : α} (h : Ready depth frames ctx) (hkeeps : Keeps m)
    (hrun : m ctx = (.ok a, mid)) (hgrows : Grows under [] ctx mid) : Ready depth frames mid := by
  have hfollows := hkeeps.follows h.faithful hrun
  refine ⟨hfollows.stack.faithful, ?_, hgrows.frames_eq.trans h.frames_eq, ?_⟩
  · rw [hfollows.host_eq]
    exact h.propagates
  · rw [depthBound, hfollows.stack.size_eq]
    exact h.deep

/-- **Steps in a row.** What comes second begins with the frames of before, because the first part
has returned; so the frames at a stop are told over the same ones in both parts. -/
theorem Ready.bind (h : Ready depth frames ctx) (hkeeps : Keeps m) (hm : Tracked under stops m ctx)
    (hf : ∀ {a mid}, m ctx = (.ok a, mid) → Ready depth frames mid →
      Tracked under stops (f a) mid) : Tracked under stops (m >>= f) ctx := by
  rcases hmid : m ctx with ⟨halt | a, mid⟩
  · obtain ⟨above, hgrows, hactive⟩ := hm.halts hmid
    exact .of_halt (Run.bind_of_error hmid) hgrows hactive
  · have hbind : (m >>= f) ctx = f a mid := Run.bind_of_ok hmid
    have hfirst := hm.returns hmid
    have hrest := hf hmid (h.returns hkeeps hmid hfirst)
    rcases hlast : f a mid with ⟨halt | b, last⟩
    · obtain ⟨above, hgrows, hactive⟩ := hrest.halts hlast
      have htotal := hfirst.trans hgrows
      rw [List.append_nil] at htotal
      exact .of_halt (hbind.trans hlast) htotal hactive
    · exact .of_return (hbind.trans hlast) (hfirst.trans (hrest.returns hlast))

theorem Ready.quiet (h : Ready depth frames ctx) (hm : Quiet m)
    (hf : ∀ {a mid}, Ready depth frames mid → Tracked under (· = []) (f a) mid) :
    Tracked under (· = []) (m >>= f) ctx :=
  h.bind hm.keeps (hm.tracked ctx) fun _ hmid => hf hmid

/-- What a callee tracks, its caller does. -/
theorem Ready.below (h : Ready depth (p :: under) ctx) (hm : Tracked (p :: under) stops m ctx) :
    Tracked under stops m ctx := by
  refine ⟨fun hrun => ?_, fun hrun => ?_⟩
  · obtain ⟨hsame, hspares⟩ := hm.returns hrun
    exact ⟨hsame, hspares.below h.written⟩
  · obtain ⟨above, ⟨hsame, hspares⟩, hactive⟩ := hm.halts hrun
    exact ⟨above, ⟨hsame, hspares.below h.written⟩, hactive⟩

/-- An answer goes to the slot of the caller. -/
theorem Ready.writeAnswer (h : Ready depth (p :: under) ctx) (bytes : List UInt8) :
    Tracked under (· = []) (writeAnswer bytes) ctx := by
  refine .of_grows ?_
  rcases writeAnswer_cases h.faithful.mirrored bytes with ⟨halt, hrun⟩ |
    ⟨top, below, rest, hframes, hlen, hrun⟩
  · rw [hrun]
    exact .of_stack_eq rfl
  · have hslot := h.faithful.mirrored.slot_in (caller_mem hframes)
    have hunder : under = below :: rest := (List.cons.inj (h.frames_eq.symm.trans hframes)).2
    have hstack := (Quiet.consult .afterAnswerWrite (ctx.withSlot below bytes)).2
    rw [hrun, hunder]
    refine ⟨by rw [hstack]; rfl, ?_⟩
    rw [hstack]
    exact Spares.put (show below.position + bytes.length ≤ _ by omega) (.inl ⟨rfl, hlen⟩)

/-- The nested calls of a body are tracked wherever it makes them. -/
def TracksCalls (depth : Nat) (caller : Caller) (nested : StopsAs) : Prop :=
  ∀ {frames ctx} request, Ready depth frames ctx →
    Tracked frames (nested request ctx) (caller request) ctx

theorem runAction_tracked (hcaller : TracksCalls depth caller nested)
    (h : Ready depth (p :: under) ctx) (action : Action) :
    Tracked under (fun active =>
      (∃ request, action.request? args = some request ∧ nested request ctx active) ∨
      (action.request? args = none ∧ active = [])) (Program.runAction caller args action) ctx := by
  -- only a call leaves frames
  have hplain : ∀ {m : Exec Unit}, action.request? args = none → Tracked under (· = []) m ctx →
      Tracked under (fun active =>
        (∃ request, action.request? args = some request ∧ nested request ctx active) ∨
        (action.request? args = none ∧ active = [])) m ctx :=
    fun hnone hm => hm.mono fun _ _ hnil => .inr ⟨hnone, hnil⟩
  cases action with
  | note text => exact hplain rfl ((Quiet.note _).tracked ctx)
  | noteArgs => exact hplain rfl ((Quiet.note _).tracked ctx)
  | noteNames => exact hplain rfl ((Quiet.get.bind fun _ => Quiet.note _).tracked ctx)
  | answer bytes => exact hplain rfl (h.writeAnswer bytes)
  | answerArgs => exact hplain rfl (h.writeAnswer args)
  | noteAnswer len =>
    exact hplain rfl (((Quiet.readAnswer len).bind fun _ => Quiet.note _).tracked ctx)
  | noteCurrent len =>
    exact hplain rfl (((Quiet.readCurrentAnswer len).bind fun _ => Quiet.note _).tracked ctx)
  | passAnswer len =>
    exact hplain rfl (h.quiet (Quiet.readAnswer len) fun hmid => hmid.writeAnswer _)
  | call name own options =>
    exact (h.below (hcaller _ h)).mono fun active _ hactive => .inl ⟨_, rfl, hactive⟩
  | fail message => exact hplain rfl ((Quiet.fail _).tracked ctx)
  | raise message => exact hplain rfl ((Quiet.abort _).tracked ctx)
  | noteHeap offset len =>
    exact hplain rfl (((Quiet.onHeap _).bind fun _ => Quiet.note _).tracked ctx)
  | writeHeap offset bytes => exact hplain rfl ((Quiet.onHeap _).tracked ctx)

/-- A program that handles no failure stops at its first one. So the frames that are left when it
halts are those of the calls that were going on in it. -/
theorem program_tracked (hkeeps : ∀ request, Keeps (caller request))
    (hcaller : TracksCalls depth caller nested) (body : Program) (hbody : body.Propagates)
    (h : Ready depth (p :: under) ctx) :
    Tracked under (body.Stops caller nested args ctx) (body.run caller args) ctx := by
  induction body generalizing ctx with
  | done => exact ((Quiet.pure ()).tracked ctx).mono fun _ hrun _ => by cases hrun
  | act action rest ih =>
    refine h.bind (Program.runAction_keeps hkeeps args action)
      ((runAction_tracked hcaller h action).mono ?_) fun hrun hmid => ?_
    · rintro halt after active hrun (⟨request, hmade, hactive⟩ | ⟨hplain, rfl⟩)
      · exact .inCall hmade hactive
      · exact .inAction hplain hrun
    · exact (ih hbody hmid).mono fun _ _ hactive => .behindAction hrun hactive
  | attempt body rest ihBody ihRest => exact hbody.elim
  | ifArgs yes no rest ihYes ihNo ihRest =>
    obtain ⟨hyes, hno, hrest⟩ := hbody
    -- of the two branches the one that is taken counts
    have ihBranch : Tracked under ((if args.isEmpty then no else yes).Stops caller nested args ctx)
        ((if args.isEmpty then no else yes).run caller args) ctx := by
      by_cases hempty : args.isEmpty = true
      · rw [if_pos hempty]
        exact ihNo hno h
      · rw [if_neg hempty]
        exact ihYes hyes h
    rw [Program.run_ifArgs]
    refine h.bind (Program.run_keeps hkeeps args _)
      (ihBranch.mono fun _ _ hactive => .inBranch hactive) fun hrun hmid => ?_
    exact (ihRest hrest hmid).mono fun _ _ hactive => .behindBranch hrun hactive
  | ifAnswered yes no rest ihYes ihNo ihRest =>
    obtain ⟨hyes, hno, hrest⟩ := hbody
    have hreading := Quiet.readCurrentAnswer 1
    rw [Program.run_ifAnswered]
    refine h.bind hreading.keeps ((hreading.tracked ctx).mono ?_) fun {bytes mid} hread hmid => ?_
    · rintro halt after active hrun rfl
      exact .inReading hrun
    · have ihBranch : Tracked under
          ((if Builtin.answerByte bytes ≠ unanswered then yes else no).Stops caller nested args mid)
          ((if Builtin.answerByte bytes ≠ unanswered then yes else no).run caller args) mid := by
        by_cases hanswered : Builtin.answerByte bytes ≠ unanswered
        · rw [if_pos hanswered]
          exact ihYes hyes hmid
        · rw [if_neg hanswered]
          exact ihNo hno hmid
      refine hmid.bind (Program.run_keeps hkeeps args _)
        (ihBranch.mono fun _ _ hactive => .inAnswered hread hactive) fun hrun hnext => ?_
      exact (ihRest hrest hnext).mono fun _ _ hactive => .behindAnswered hread hrun hactive

/-- A built-in function that makes no call. -/
theorem builtin_tracked_of_none {entry : Builtin} (hnone : entry.request? args ctx = none)
    (hm : Tracked under (· = []) (entry.run caller args) ctx) :
    Tracked under (entry.Stops caller nested args ctx) (entry.run caller args) ctx := by
  refine hm.mono ?_
  rintro halt after active hrun rfl
  refine .beside hrun fun request hmade => ?_
  rw [hnone] at hmade
  cases hmade

/-- A task that makes its nested call. -/
theorem builtin_tracked_of_some {entry : Builtin} {request : CallRequest} {t : SwapTask}
    (hkeeps : ∀ request, Keeps (caller request)) (hcaller : TracksCalls depth caller nested)
    (h : Ready depth (p :: under) ctx) (hmade : entry.request? args ctx = some request)
    (heq : entry.run caller args ctx = (do
      caller request
      Builtin.publish t (Builtin.answerByte (← readAnswer 1)) : Exec Unit) ctx) :
    Tracked under (entry.Stops caller nested args ctx) (entry.run caller args) ctx := by
  refine Tracked.congr heq (h.bind (hkeeps request)
    ((h.below (hcaller request h)).mono fun _ _ hactive => .inCall hmade hactive)
    fun {_ mid} hreturned _ => ((Builtin.publishAnswer_quiet t).tracked mid).mono ?_)
  rintro halt after active hrun rfl
  -- the call has returned, so the task stops beside it
  have hwhole : entry.run caller args ctx = (.error halt, after) := by
    rw [heq, Run.bind_of_ok hreturned, hrun]
  refine .beside hwhole fun request' hmade' => ?_
  rw [hmade] at hmade'
  cases hmade'
  exact ⟨mid, hreturned⟩

theorem builtin_tracked (hkeeps : ∀ request, Keeps (caller request))
    (hcaller : TracksCalls depth caller nested) (entry : Builtin)
    (h : Ready depth (p :: under) ctx) :
    Tracked under (entry.Stops caller nested args ctx) (entry.run caller args) ctx := by
  have htask : ∀ {entry : Builtin}, entry.CallsOnce caller args ctx →
      Tracked under (entry.Stops caller nested args ctx) (entry.run caller args) ctx := by
    rintro entry (⟨hnone, m, hquiet, heq⟩ | ⟨request, t, hmade, heq⟩)
    · exact builtin_tracked_of_none hnone (.congr heq (hquiet.tracked ctx))
    · exact builtin_tracked_of_some hkeeps hcaller h hmade heq
  cases entry with
  | swap =>
    refine builtin_tracked_of_none rfl (h.quiet (Quiet.lift _) fun {a _} hargs => ?_)
    exact hargs.quiet Quiet.get fun hget => hget.quiet (Quiet.onHeap _) fun hswapped =>
      hswapped.writeAnswer _
  | recoverSwap =>
    refine builtin_tracked_of_none rfl (h.quiet (Quiet.lift _) fun {a _} hargs => ?_)
    refine hargs.quiet (Quiet.readCurrentAnswer 1) fun {bytes mid} hread => ?_
    by_cases hanswered : Builtin.answerByte bytes ≤ 1
    · simp only [if_pos hanswered]
      exact (Quiet.pure _).tracked mid
    · simp only [if_neg hanswered]
      exact hread.quiet Quiet.get fun hget => hget.quiet (Quiet.onHeap _) fun hswapped =>
        hswapped.writeAnswer _
  | task => exact htask (Builtin.task_callsOnce caller args ctx)
  | recoverTask => exact htask (Builtin.recoverTask_callsOnce caller args ctx)

theorem entry_tracked (hkeeps : ∀ request, Keeps (caller request))
    (hcaller : TracksCalls depth caller nested) (entry : EntryPoint) (hentry : entry.Propagates)
    (h : Ready depth (p :: under) ctx) :
    Tracked under (fun active => entry.Stops caller nested args ctx active)
      (entry.run caller args) ctx := by
  cases entry with
  | builtin entry => exact builtin_tracked hkeeps hcaller entry h
  | program body => exact program_tracked hkeeps hcaller body hentry h

end Context

end DurableCalls
