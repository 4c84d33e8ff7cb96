/-
`Nesting.lean` -- nested calls come to an end.

Nothing in a program gets smaller from a call to the calls that it makes: functions may call
themselves and each other. What gets smaller is the room on the stack (`room`). A call that is
not refused has a frame on a line of its own, and whatever its body has called before, that frame
and those below it are still there (`Over`). So the calls that it makes have less room than
itself, and a call without room is refused.

A call is given here with the calls that it makes left open (`callThrough`). Two ways to fill
them in that follow the recursion for more levels than there is room cannot be told apart
(`Unrolls.alike`). So the recursion has a solution, which the bound on the depth never cuts off,
and no other one (`nested_calls_end`).
-/
import Mathlib.Data.List.Chain
import Mathlib.Logic.Relation
import DurableCalls.Proofs.Call.Visits
import DurableCalls.Proofs.Context.Piles

set_option autoImplicit false

namespace DurableCalls

open CallStack Context DurableStack

/-! ## Runs that do the same -/

namespace Context

variable {α β : Type} {m m' : Exec α} {f f' : α → Exec β} {ctx mid : Context}
  {inv inv' : Context → Prop} {size : Nat} {base : List Placed}

/-- Both runs do the same in a context. They end in `inv`, and not for nesting too deep. -/
def Alike (inv : Context → Prop) (m m' : Exec α) (ctx : Context) : Prop :=
  m' ctx = m ctx ∧ EndsIn inv Halt.Shallow m ctx

theorem Alike.mono (h : Alike inv' m m' ctx) (hinv : ∀ {ctx}, inv' ctx → inv ctx) :
    Alike inv m m' ctx := ⟨h.1, h.2.mono hinv id⟩

/-- Steps in a row. -/
theorem Alike.bind (hm : Alike inv' m m' ctx) (hinv : ∀ {ctx}, inv' ctx → inv ctx)
    (hf : ∀ {mid} a, inv' mid → Alike inv (f a) (f' a) mid) :
    Alike inv (m >>= f) (m' >>= f') ctx := by
  obtain ⟨hsame, hends⟩ := hm
  refine ⟨?_, hends.bind hinv id fun a hmid => (hf a hmid).2⟩
  obtain ⟨hmid, -⟩ := hends
  rcases hrun : m ctx with ⟨halt | a, mid⟩
  · rw [hrun] at hsame
    rw [Run.bind_of_error hrun, Run.bind_of_error hsame]
  · rw [hrun] at hsame hmid
    rw [Run.bind_of_ok hrun, Run.bind_of_ok hsame]
    exact (hf a hmid).1

theorem Alike.of_start {n n' : Exec α} (h : Alike inv n n' mid) (hm : m ctx = n mid)
    (hm' : m' ctx = n' mid) : Alike inv m m' ctx := by
  rw [Alike, EndsIn, hm, hm']
  exact h

/-- They do so wherever a context is over these frames, and keep it over them. -/
def AlikeOver (size : Nat) (base : List Placed) (m m' : Exec α) : Prop :=
  ∀ ctx, Over size base ctx → Alike (Over size base) m m' ctx

namespace AlikeOver

theorem bind (hm : AlikeOver size base m m') (hf : ∀ a, AlikeOver size base (f a) (f' a)) :
    AlikeOver size base (m >>= f) (m' >>= f') := fun ctx hctx =>
  (hm ctx hctx).bind id fun a hmid => hf a _ hmid

theorem of_level (hm : Level m) : AlikeOver size base m m := fun ctx hctx =>
  ⟨rfl, (hm ctx).mono hctx.beside fun hregular => hregular.shallow⟩

theorem handled {body body' : Exec Unit} (h : AlikeOver size base body body') :
    AlikeOver size base (Program.handled body) (Program.handled body') := by
  intro ctx hctx
  obtain ⟨hsame, hover, hshallow⟩ := h ctx hctx
  rcases hrun : body ctx with ⟨(⟨failure⟩ | ⟨reason⟩) | ⟨⟩, after⟩
  · rw [hrun] at hsame hover
    have hhandled := Program.handled_of_failed hrun
    exact ⟨(Program.handled_of_failed hsame).trans hhandled.symm, .of_ok hhandled hover⟩
  · rw [hrun] at hsame hover hshallow
    have hhandled := Program.handled_of_aborted hrun
    exact ⟨(Program.handled_of_aborted hsame).trans hhandled.symm,
      .of_error hhandled hover (hshallow _ rfl)⟩
  · rw [hrun] at hsame hover
    have hhandled := Program.handled_of_ok hrun
    exact ⟨(Program.handled_of_ok hsame).trans hhandled.symm, .of_ok hhandled hover⟩

/-- What a run leads to is over the frames too. -/
theorem after (hm : AlikeOver size base m m) (hctx : Over size base ctx) {a : α}
    (hrun : m ctx = (.ok a, mid)) : Over size base mid := by
  have hover := (hm ctx hctx).2.1
  rw [hrun] at hover
  exact hover

end AlikeOver

end Context

/-! ## Bodies -/

/-- An action that makes no call leaves the frames alone, and does not depend on how calls are run.
So in a comparison of two ways to run them only the actions that call are left. -/
theorem Action.level {args : List UInt8} {action : Action} (h : action.request? args = none)
    (caller caller' : Caller) : Level (Program.runAction caller args action) ∧
      Program.runAction caller' args action = Program.runAction caller args action := by
  cases action with
  | note text => exact ⟨.note _, rfl⟩
  | noteArgs => exact ⟨.note _, rfl⟩
  | noteNames => exact ⟨Level.get.bind fun _ => .note _, rfl⟩
  | answer bytes => exact ⟨.writeAnswer bytes, rfl⟩
  | answerArgs => exact ⟨.writeAnswer args, rfl⟩
  | noteAnswer len => exact ⟨(Level.readAnswer len).bind fun _ => .note _, rfl⟩
  | noteCurrent len => exact ⟨(Level.readCurrentAnswer len).bind fun _ => .note _, rfl⟩
  | passAnswer len => exact ⟨(Level.readAnswer len).bind fun _ => .writeAnswer _, rfl⟩
  | call name own options => cases h
  | fail message => exact ⟨.fail _, rfl⟩
  | raise message => exact ⟨.of_quiet (Quiet.abort _) fun _ => .error trivial, rfl⟩
  | noteHeap offset len =>
    have hcopy := Run.Regular.get.bind fun heap : Region =>
      Run.Regular.liftHalt (heap.copyOut_regular offset len)
    exact ⟨(Level.onHeap hcopy).bind fun _ => .note _, rfl⟩
  | writeHeap offset bytes =>
    exact ⟨.onHeap (Region.write_ofHeap offset bytes).regular, rfl⟩

section Body

variable {caller caller' : Caller} {size : Nat} {base : List Placed}

/-- The nested calls do the same, whatever is called. -/
def CallersAlike (size : Nat) (base : List Placed) (caller caller' : Caller) : Prop :=
  ∀ request, AlikeOver size base (caller request) (caller' request)

namespace Builtin

theorem runSwap_level (args : List UInt8) : Level (runSwap args) := by
  refine (Level.lift _).bind fun a => Level.get.bind fun ctx => ?_
  exact (Level.onHeap (swapOf ctx a).attempt_ofHeap.regular).bind fun _ => .writeAnswer _

theorem runRecoverSwap_level (args : List UInt8) : Level (runRecoverSwap args) := by
  refine (Level.lift _).bind fun a => (Level.readCurrentAnswer 1).bind fun bytes => ?_
  by_cases hanswered : answerByte bytes ≤ 1
  · simp only [if_pos hanswered]
    exact .pure _
  · simp only [if_neg hanswered]
    refine Level.get.bind fun ctx => ?_
    exact (Level.onHeap (swapOf ctx a).recover_ofHeap.regular).bind fun _ => .writeAnswer _

theorem runTask_alike (hcallers : CallersAlike size base caller caller') (recover : Bool)
    (args : List UInt8) :
    AlikeOver size base (runTask caller recover args) (runTask caller' recover args) := by
  have hread : AlikeOver size base (readAnswer 1) (readAnswer 1) := .of_level (.readAnswer 1)
  refine (AlikeOver.of_level (.lift _)).bind fun t => ?_
  have hpublish : ∀ result, AlikeOver size base (publish t result) (publish t result) :=
    fun result => .of_level (.of_quiet (publish_quiet t result) (publish_regular t result))
  have hnested := fun request => (hcallers request).bind fun _ =>
    hread.bind fun bytes => hpublish (answerByte bytes)
  cases recover with
  | false => exact hnested _
  | true =>
    refine hread.bind fun bytes => ?_
    by_cases hanswered : answerByte bytes ≤ 1
    · simp only [if_pos hanswered]
      exact (hpublish _).bind fun _ => .of_level (.pure _)
    · simp only [if_neg hanswered]
      exact hnested _

theorem run_alike (hcallers : CallersAlike size base caller caller') (args : List UInt8)
    (entry : Builtin) : AlikeOver size base (entry.run caller args) (entry.run caller' args) := by
  cases entry with
  | swap => exact .of_level (runSwap_level args)
  | recoverSwap => exact .of_level (runRecoverSwap_level args)
  | task => exact runTask_alike hcallers false args
  | recoverTask => exact runTask_alike hcallers true args

end Builtin

namespace Program

theorem runAction_alike (hcallers : CallersAlike size base caller caller') (args : List UInt8)
    (action : Action) :
    AlikeOver size base (runAction caller args action) (runAction caller' args action) := by
  cases hmade : action.request? args with
  | none =>
    obtain ⟨hlevel, hsame⟩ := Action.level hmade caller caller'
    rw [hsame]
    exact .of_level hlevel
  | some request =>
    rw [Action.run_of_request hmade, Action.run_of_request hmade]
    exact hcallers request

/-- **A program does the same where its calls do**, by induction on the tree. It is enough that the
calls agree over the same frames in a region of the same size, since nothing in a program takes
those frames away. -/
theorem run_alike (hcallers : CallersAlike size base caller caller') (args : List UInt8)
    (body : Program) : AlikeOver size base (body.run caller args) (body.run caller' args) := by
  induction body with
  | done => exact .of_level (.pure _)
  | act action rest ihRest => exact (runAction_alike hcallers args action).bind fun _ => ihRest
  | attempt body rest ihBody ihRest =>
    exact ihBody.handled.bind fun _ => (AlikeOver.of_level (.note _)).bind fun _ => ihRest
  | ifArgs yes no rest ihYes ihNo ihRest =>
    rw [run_ifArgs, run_ifArgs]
    refine AlikeOver.bind ?_ fun _ => ihRest
    by_cases hempty : args.isEmpty = true
    · simp only [if_pos hempty]
      exact ihNo
    · simp only [if_neg hempty]
      exact ihYes
  | ifAnswered yes no rest ihYes ihNo ihRest =>
    rw [run_ifAnswered, run_ifAnswered]
    refine (AlikeOver.of_level (.readCurrentAnswer 1)).bind fun bytes =>
      AlikeOver.bind ?_ fun _ => ihRest
    by_cases hanswered : Builtin.answerByte bytes ≠ unanswered
    · simp only [if_pos hanswered]
      exact ihYes
    · simp only [if_neg hanswered]
      exact ihNo

end Program

theorem EntryPoint.run_alike (hcallers : CallersAlike size base caller caller')
    (args : List UInt8) (entry : EntryPoint) :
    AlikeOver size base (entry.run caller args) (entry.run caller' args) := by
  cases entry with
  | builtin entry => exact entry.run_alike hcallers args
  | program body => exact body.run_alike hcallers args

end Body

/-! ## The recursion of calls -/

namespace Context

variable {caller caller' : Caller} {ctx : Context} {request : CallRequest} {n depth : Nat}

/-- A call, the calls that it makes being run as given. A call that runs nested ones as itself is a
fixed point of this, and there is no depth in it. -/
def callThrough (nested : Caller) : Caller := fun request => do
  let entry ← enter request
  consult .afterFramePush
  entry.run nested request.args
  consult .beforeFrameRemove
  popFrame

/-- From the push of its frame on, a call runs over that frame, and it ends over the frames
that it was made over. -/
theorem inside_alike {size : Nat} {base : List Placed} {p : Placed} {mid : Context}
    (hcallers : CallersAlike size (p :: base) caller caller')
    (hpos : p.position = nextPosition base) (hpast : p.past ≤ size)
    (hmid : Over size (p :: base) mid) (args : List UInt8) (entry : EntryPoint) :
    Alike (Over size base)
      (do consult .afterFramePush; entry.run caller args; consult .beforeFrameRemove; popFrame)
      (do consult .afterFramePush; entry.run caller' args; consult .beforeFrameRemove; popFrame)
      mid := by
  have hbelow : ∀ {ctx}, Over size (p :: base) ctx → Over size base ctx := fun h =>
    h.below hpos hpast
  have hconsult : ∀ point, AlikeOver size (p :: base) (consult point) (consult point) :=
    fun point => .of_level (.consult point)
  refine (hconsult _ _ hmid).bind hbelow fun _ hstart => ?_
  refine (entry.run_alike hcallers args _ hstart).bind hbelow fun _ hdone => ?_
  exact (hconsult _ _ hdone).bind hbelow fun _ hend => ⟨rfl, hend.popFrame hpos hpast⟩

/-- **One level of the recursion.** A call is refused whatever calls it would make, or these
calls are made over its frame. -/
theorem callThrough_alike
    (h : ∀ p, p.position = nextPosition (framesOf ctx) → p.past ≤ ctx.stack.region.size →
      CallersAlike ctx.stack.region.size (p :: framesOf ctx) caller caller') :
    Alike (Over ctx.stack.region.size (framesOf ctx)) (callThrough caller request)
      (callThrough caller' request) ctx := by
  rcases enter_ends request ctx with ⟨halt, mid, hrun, hbeside, hshallow⟩ |
    ⟨entry, p, mid, hrun, hframes, hsize, hpos, hpast⟩
  · have hrefused : ∀ nested, callThrough nested request ctx = (.error halt, mid) := fun nested =>
      Run.bind_of_error hrun
    exact ⟨(hrefused caller').trans (hrefused caller).symm,
      .of_error (hrefused caller) ((Over.self ctx).beside hbeside) hshallow⟩
  · have hmid : Over ctx.stack.region.size (p :: framesOf ctx) mid := ⟨hsize, [], hframes, trivial⟩
    have hinside := inside_alike (h p hpos hpast) hpos hpast hmid request.args entry
    exact hinside.of_start (Run.bind_of_ok hrun) (Run.bind_of_ok hrun)

/-- The caller is the recursion for so many levels, and anything below them. -/
def Unrolls : (levels : Nat) → Caller → Prop
  | 0, _ => True
  | levels + 1, caller => ∃ nested, Unrolls levels nested ∧ caller = callThrough nested

namespace Unrolls

theorem of_succ (h : Unrolls (n + 1) caller) : Unrolls n caller := by
  induction n generalizing caller with
  | zero => trivial
  | succ n ih =>
    obtain ⟨nested, hnested, rfl⟩ := h
    exact ⟨nested, ih hnested, rfl⟩

theorem of_le (hle : n ≤ depth) (h : Unrolls depth caller) : Unrolls n caller := by
  induction depth with
  | zero =>
    rw [Nat.le_zero.1 hle]
    trivial
  | succ depth ih =>
    rcases Nat.le_succ_iff.1 hle with hless | rfl
    · exact ih hless h.of_succ
    · exact h

theorem callWithin (depth : Nat) : Unrolls depth (callWithin depth) := by
  induction depth with
  | zero => trivial
  | succ depth ih => exact ⟨_, ih, rfl⟩

theorem of_fixed (h : caller = callThrough caller) (levels : Nat) : Unrolls levels caller := by
  induction levels with
  | zero => trivial
  | succ levels ih => exact ⟨caller, ih, h⟩

/-- **More levels than room are all levels.** Where the levels are more than the frames that
have room, nothing below them is ever run, and the calls end over their frames. -/
theorem alike (h : Unrolls n caller) (h' : Unrolls n caller') (request : CallRequest)
    (ctx : Context) (hroom : room ctx.stack.region.size (framesOf ctx) < n) :
    Alike (Over ctx.stack.region.size (framesOf ctx)) (caller request) (caller' request) ctx := by
  induction n generalizing caller caller' request ctx with
  | zero => exact absurd hroom (Nat.not_lt_zero _)
  | succ n ih =>
    obtain ⟨nested, hnested, rfl⟩ := h
    obtain ⟨nested', hnested', rfl⟩ := h'
    refine callThrough_alike fun p hpos hpast request' ctx' hctx' => ?_
    -- the frame has used up some of the room
    have hless : room ctx'.stack.region.size (framesOf ctx') < n := by
      have hpushed := room_push hpos hpast
      have hrest := hctx'.room_le
      rw [hctx'.1]
      omega
    refine (ih hnested hnested' request' ctx' hless).mono fun hover => hctx'.trans ?_
    rw [← hctx'.1]
    exact hover

end Unrolls

/-- The depth that a call is given is more than there is room. -/
theorem room_lt_depthBound (ctx : Context) :
    room ctx.stack.region.size (framesOf ctx) < ctx.depthBound := room_lt _ _

/-- A caller that is the recursion for more levels than there is room does what a call does. -/
theorem call_alike (h : Unrolls n caller) (request : CallRequest) (ctx : Context)
    (hroom : room ctx.stack.region.size (framesOf ctx) < n) :
    Alike (Over ctx.stack.region.size (framesOf ctx)) (caller request) (call request) ctx := by
  have hboth := (h.of_le (Nat.min_le_left n ctx.depthBound)).alike
    ((Unrolls.callWithin ctx.depthBound).of_le (Nat.min_le_right n ctx.depthBound)) request ctx
    (Nat.lt_min.2 ⟨hroom, room_lt_depthBound ctx⟩)
  exact ⟨(call_apply request ctx).trans hboth.1, hboth.2⟩

/-- **A call is a solution of the recursion of calls.** It enters, runs a body whose calls are calls
again, and leaves. The bound on the depth, with which a call is defined, is never met and is not
seen here. -/
theorem call_eq_callThrough : call = callThrough call := by
  funext request ctx
  have hdepth : ctx.depthBound = ctx.stack.region.size / 64 + 1 + 1 := rfl
  rw [call_apply, hdepth]
  refine (callThrough_alike fun p hpos hpast request' ctx' hctx' => ?_).1.symm
  have hless : room ctx'.stack.region.size (framesOf ctx') < ctx.stack.region.size / 64 + 1 := by
    have hpushed := room_push hpos hpast
    have hrest := hctx'.room_le
    have hall := room_lt ctx.stack.region.size (framesOf ctx)
    rw [hctx'.1]
    omega
  refine (call_alike (Unrolls.callWithin _) request' ctx' hless).mono fun hover => hctx'.trans ?_
  rw [← hctx'.1]
  exact hover

/-- A call goes on over the frames that it was made over, also where it is made above them. -/
theorem call_over (size : Nat) (base : List Placed) : CallersAlike size base call call := by
  intro request ctx hctx
  have hcall := call_alike (Unrolls.of_fixed call_eq_callThrough ctx.depthBound) request ctx
    (room_lt_depthBound ctx)
  refine hcall.mono fun hover => hctx.trans ?_
  rw [← hctx.1]
  exact hover

end Context

/-! ## Which calls a call makes -/

section Nested

variable {size : Nat} {base : List Placed} {args : List UInt8} {ctx : Context} {place : Place}

/-- The call that is made next at a place, if it is one that is made there. -/
def Place.request? (place : Place) : Option CallRequest :=
  match place.left with
  | .builtin entry => entry.request? place.args place.ctx
  | .program (.act action _) => action.request? place.args
  | .program _ => none

/-- A call, and the context that it is made in. -/
abbrev Calling := CallRequest × Context

/-- The places of a call itself, without those of the calls that it makes. -/
def Calling.Own (c : Calling) (place : Place) : Prop :=
  CallVisits call (fun _ _ _ => False) c.1 c.2 place

/-- The one call makes the other. -/
def Calling.Nests (outer inner : Calling) : Prop :=
  ∃ place, outer.Own place ∧ place.request? = some inner.1 ∧ place.ctx = inner.2

/-- The call fails without having pushed a frame. -/
def Calling.Refused (c : Calling) : Prop :=
  ∃ halt after, enter c.1 c.2 = (.error halt, after) ∧ call c.1 c.2 = (.error halt, after) ∧
    framesOf after = framesOf c.2

/-- The call runs where the stack ends later than before, inside the region. -/
def Calling.RunsHigher (c : Calling) : Prop :=
  ∃ entry running, enter c.1 c.2 = (.ok entry, running) ∧
    endOf (framesOf c.2) < endOf (framesOf running) ∧
    endOf (framesOf running) ≤ c.2.stack.region.size

theorem Program.Visits.over {body : Program} (hctx : Over size base ctx)
    (h : body.Visits call (fun _ _ _ => False) args ctx place) : Over size base place.ctx := by
  have hcalls := call_over size base
  have hread : AlikeOver size base (readCurrentAnswer 1) (readCurrentAnswer 1) :=
    .of_level (.readCurrentAnswer 1)
  induction h with
  | start => exact hctx
  | inCall made visits => exact visits.elim
  | behindAction run visits ih =>
    exact ih ((Program.runAction_alike hcalls args _).after hctx run)
  | inAttempt visits ih => exact ih hctx
  | behindAttempt run visits ih =>
    exact ih (((Program.run_alike hcalls args _).handled.bind fun _ =>
      .of_level (.note _)).after hctx run)
  | inBranch visits ih => exact ih hctx
  | behindBranch run visits ih => exact ih ((Program.run_alike hcalls args _).after hctx run)
  | inAnswered reading visits ih => exact ih (hread.after hctx reading)
  | behindAnswered reading run visits ih =>
    exact ih ((Program.run_alike hcalls args _).after (hread.after hctx reading) run)

theorem EntryPoint.Visits.over {entry : EntryPoint} (hctx : Over size base ctx)
    (h : entry.Visits call (fun _ _ _ => False) args ctx place) : Over size base place.ctx := by
  cases entry with
  | builtin entry =>
    cases h with
    | start => exact hctx
    | inCall made visits => exact visits.elim
  | program body => exact Program.Visits.over hctx h

namespace Calling

variable {c outer inner : Calling} {chain : List Calling}

/-- How much room there is where the call is made. -/
def room (c : Calling) : Nat := CallStack.room c.2.stack.region.size (framesOf c.2)

/-- At the places of a call its frame is on the stack, on the line behind those of before. -/
theorem Own.over (h : c.Own place) :
    ∃ p, p.position = nextPosition (framesOf c.2) ∧ p.past ≤ c.2.stack.region.size ∧
      Over c.2.stack.region.size (p :: framesOf c.2) place.ctx := by
  obtain ⟨entering, passing, visits⟩ := h
  rcases enter_ends c.1 c.2 with ⟨halt, mid, hrun, -⟩ |
    ⟨entry, p, mid, hrun, hframes, hsize, hpos, hpast⟩
  · cases entering.symm.trans hrun
  · have hmid : Over c.2.stack.region.size (p :: framesOf c.2) mid :=
      ⟨hsize, [], hframes, trivial⟩
    cases entering.symm.trans hrun
    have hstart := (AlikeOver.of_level (Level.consult .afterFramePush)).after hmid passing
    exact ⟨p, hpos, hpast, visits.over hstart⟩

theorem Nests.over (h : Nests outer inner) :
    ∃ p, p.position = nextPosition (framesOf outer.2) ∧ p.past ≤ outer.2.stack.region.size ∧
      Over outer.2.stack.region.size (p :: framesOf outer.2) inner.2 := by
  obtain ⟨place, hown, -, hctx⟩ := h
  rw [← hctx]
  exact hown.over

/-- **A nested call has less room.** It is made over the frame of the outer call, which has taken at
least a line of the region. So calls cannot nest for ever. -/
theorem Nests.room_lt (h : Nests outer inner) : inner.room < outer.room := by
  obtain ⟨p, hpos, hpast, hover⟩ := h.over
  have hpushed := room_push hpos hpast
  have hrest := hover.room_le
  rw [room, room, hover.1]
  exact Nat.lt_of_le_of_lt hrest hpushed

theorem Nests.endOf_lt (h : Nests outer inner) :
    endOf (framesOf outer.2) < endOf (framesOf inner.2) := by
  obtain ⟨p, hpos, -, hover⟩ := h.over
  exact Nat.lt_of_lt_of_le (endOf_lt_push hpos) hover.endOf_le

theorem nests_wellFounded : WellFounded fun inner outer : Calling => outer.Nests inner :=
  Subrelation.wf (fun h => Nests.room_lt h) (measure room).wf

/-- Calls nest no deeper than there is room. -/
theorem length_le_room (h : List.IsChain Nests (c :: chain)) : chain.length ≤ c.room := by
  induction chain generalizing c with
  | nil => exact Nat.zero_le _
  | cons inner chain ih =>
    obtain ⟨hnests, hrest⟩ := List.isChain_cons_cons.1 h
    exact Nat.succ_le_of_lt (Nat.lt_of_le_of_lt (ih hrest) hnests.room_lt)

/-- Whatever is called within a call is called over the frames of before. -/
theorem over_of_nested (h : Relation.ReflTransGen Nests c inner) :
    Over c.2.stack.region.size (framesOf c.2) inner.2 := by
  induction h with
  | refl => exact .self c.2
  | tail _ hnests ih =>
    obtain ⟨p, hpos, hpast, hover⟩ := hnests.over
    have hbelow := hover.below hpos hpast
    rw [ih.1] at hbelow
    exact ih.trans hbelow

theorem refused_or_runsHigher (c : Calling) : c.Refused ∨ c.RunsHigher := by
  rcases enter_ends c.1 c.2 with ⟨halt, mid, hrun, hbeside, -⟩ |
    ⟨entry, p, mid, hrun, hframes, hsize, hpos, hpast⟩
  · refine .inl ⟨halt, mid, hrun, ?_, hbeside.1⟩
    rw [call_eq_callThrough]
    exact Run.bind_of_error hrun
  · refine .inr ⟨entry, mid, hrun, ?_, ?_⟩
    · rw [hframes]
      exact endOf_lt_push hpos
    · rw [hframes]
      exact hpast

end Calling

end Nested

namespace Context

open Calling

/-- **Nested calls always end.** Whatever the registry, the hook and the stack are:
a call does what the recursion of calls says, and nothing else does (so the recursion is total),
and the bound on the depth is never met; calls cannot nest for ever, and a chain of nested calls
has pushed no more frames than the region has lines; a nested call is made where the stack ends
later than where the outer one was made, and it fails before it has a frame or runs where the
stack ends later still; at all places of all these calls the frames above those of before are on
lines of their own, at most one for every line of the region, and if the stack was not empty,
then at most one for every whole line; and when the call has ended, the stack ends no earlier
than before. -/
theorem nested_calls_end (request : CallRequest) (ctx : Context) :
    (call request ctx = callThrough call request ctx ∧
      ∀ caller, caller = callThrough caller → caller request ctx = call request ctx) ∧
    (call request ctx).1 ≠ .error (.aborted .callDepth) ∧
    (WellFounded fun inner outer : Calling => outer.Nests inner) ∧
    (∀ chain, List.IsChain Nests ((request, ctx) :: chain) →
      64 * chain.length < ctx.stack.region.size + 64) ∧
    (∀ outer inner, Nests outer inner → endOf (framesOf outer.2) < endOf (framesOf inner.2)) ∧
    (∀ c : Calling, c.Refused ∨ c.RunsHigher) ∧
    (∀ inner, Relation.ReflTransGen Nests (request, ctx) inner → ∀ place, inner.Own place →
      ∃ above, framesOf place.ctx = above ++ framesOf ctx ∧
        Piled ctx.stack.region.size (framesOf ctx) above ∧
        64 * above.length < ctx.stack.region.size + 64 ∧
        (framesOf ctx ≠ [] → 64 * above.length ≤ ctx.stack.region.size)) ∧
    endOf (framesOf ctx) ≤ endOf (framesOf (call request ctx).2) := by
  obtain ⟨-, hover, hshallow⟩ := call_over _ _ request ctx (.self ctx)
  refine ⟨⟨congrFun (congrFun call_eq_callThrough request) ctx, fun caller hcaller => ?_⟩,
    fun hdeep => hshallow _ hdeep rfl, nests_wellFounded, fun chain hchain => ?_,
    fun _ _ hnests => hnests.endOf_lt, refused_or_runsHigher, fun inner hinner place hown => ?_,
    hover.endOf_le⟩
  · exact (call_alike (Unrolls.of_fixed hcaller ctx.depthBound) request ctx
      (room_lt_depthBound ctx)).1.symm
  · have hlength := length_le_room hchain
    have hroom : Calling.room (request, ctx) ≤ (ctx.stack.region.size + 63) / 64 :=
      Nat.div_le_div_right (Nat.sub_le _ _)
    omega
  · obtain ⟨p, hpos, hpast, hplace⟩ := hown.over
    have hinnerOver := over_of_nested hinner
    have hbelow := hplace.below hpos hpast
    rw [hinnerOver.1] at hbelow
    obtain ⟨-, above, hframes, hpiled⟩ := hinnerOver.trans hbelow
    exact ⟨above, hframes, hpiled, hpiled.length_lt, hpiled.length_le⟩

end Context

end DurableCalls
