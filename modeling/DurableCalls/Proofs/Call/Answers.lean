/-
`Answers.lean` -- what a function answers by itself, and the points of its body.

The relations of this file follow the body of a call in its own frame only. A nested call is one
step of it, whatever that call runs and answers in turn. So the byte strings that a body has
answered up to a point are read off the program: one for each answer that it has given, in the
order of the program, and none for anything else that it did.

The steps are those of the run. A body returns exactly if its steps lead to its end
(`Program.run_eq_ok_iff`), and since each step is determined, every point of it lies on the way
to that end (`Program.Passes.prefix_of_done`).

As with the places where a body stops, the relations are for programs that handle no failure.
-/
import DurableCalls.Proofs.Call.Freeze

set_option autoImplicit false

namespace DurableCalls

open Context

/-! ## Programs in a row -/

/-- A program, and another one behind it. -/
def Program.followedBy : Program → Program → Program
  | done, next => next
  | act action rest, next => act action (rest.followedBy next)
  | attempt body rest, next => attempt body (rest.followedBy next)
  | ifArgs yes no rest, next => ifArgs yes no (rest.followedBy next)
  | ifAnswered yes no rest, next => ifAnswered yes no (rest.followedBy next)

namespace Program

variable {caller : Caller} {args : List UInt8} {body next last rest : Program}

theorem followedBy_assoc (body next last : Program) :
    (body.followedBy next).followedBy last = body.followedBy (next.followedBy last) := by
  induction body with
  | done => rfl
  | act action rest ih => exact congrArg (act action) ih
  | attempt body rest _ ih => exact congrArg (attempt body) ih
  | ifArgs yes no rest _ _ ih => exact congrArg (ifArgs yes no) ih
  | ifAnswered yes no rest _ _ ih => exact congrArg (ifAnswered yes no) ih

theorem run_followedBy (caller : Caller) (args : List UInt8) (body next : Program) :
    (body.followedBy next).run caller args = (do
      body.run caller args
      next.run caller args) := by
  induction body with
  | done => rfl
  | act action rest ih => simp only [followedBy, run, ih, bind_assoc]
  | attempt body rest _ ih => simp only [followedBy, run, ih, bind_assoc]
  | ifArgs yes no rest _ _ ih => simp only [followedBy, run_ifArgs, ih, bind_assoc]
  | ifAnswered yes no rest _ _ ih => simp only [followedBy, run_ifAnswered, ih, bind_assoc]

end Program

/-! ## Points of a program -/

/-- The byte strings that an action answers if it succeeds. -/
def Action.given (args : List UInt8) (ctx : Context) : Action → List (List UInt8)
  | .answer bytes => [bytes]
  | .answerArgs => [args]
  | .passAnswer len => (readAnswer len ctx).1.toOption.toList
  | _ => []

section Body

variable (caller : Caller) (args : List UInt8)

/-- A step of a program in its own frame, and what it answers. A branch goes on with one of its
bodies, and then with the rest. -/
inductive Program.Step :
    Program → Context → (given : List (List UInt8)) → Program → Context → Prop
  | action {action : Action} {rest : Program} {ctx mid : Context}
      (run : Program.runAction caller args action ctx = (.ok (), mid)) :
      Step (.act action rest) ctx (action.given args ctx) rest mid
  | branch {yes no rest : Program} {ctx : Context} :
      Step (.ifArgs yes no rest) ctx [] ((if args.isEmpty then no else yes).followedBy rest) ctx
  | answered {yes no rest : Program} {ctx mid : Context} {bytes : List UInt8}
      (reading : readCurrentAnswer 1 ctx = (.ok bytes, mid)) :
      Step (.ifAnswered yes no rest) ctx []
        ((if Builtin.answerByte bytes ≠ unanswered then yes else no).followedBy rest) mid

/-- The points that a program comes to, with what is left of it there and with what it has
answered by then. -/
inductive Program.Passes :
    Program → Context → (given : List (List UInt8)) → Program → Context → Prop
  | here {body : Program} {ctx : Context} : Passes body ctx [] body ctx
  | step {body next left : Program} {ctx mid point : Context} {given more : List (List UInt8)}
      (first : Program.Step caller args body ctx given next mid)
      (behind : Passes next mid more left point) : Passes body ctx (given ++ more) left point

end Body

namespace Program

variable {caller : Caller} {args : List UInt8} {body next left left' : Program}
  {ctx mid mid' point point' after : Context} {given given' more : List (List UInt8)}

/-- Of each point there is one next step. So all ways through a body that is run in one context give
the same answers in the same order. -/
theorem Step.unique {next' : Program} (h : Step caller args body ctx given next mid)
    (h' : Step caller args body ctx given' next' mid') :
    given' = given ∧ next' = next ∧ mid' = mid := by
  cases h with
  | action run =>
    cases h' with
    | action run' =>
      cases run.symm.trans run'
      exact ⟨rfl, rfl, rfl⟩
  | branch =>
    cases h' with
    | branch => exact ⟨rfl, rfl, rfl⟩
  | answered reading =>
    cases h' with
    | answered reading' =>
      cases reading.symm.trans reading'
      exact ⟨rfl, rfl, rfl⟩

/-- What was a step is one with more behind it. -/
theorem Step.followedBy (h : Step caller args body ctx given next mid) (last : Program) :
    Step caller args (body.followedBy last) ctx given (next.followedBy last) mid := by
  cases h with
  | action run => exact .action run
  | branch =>
    rw [followedBy_assoc]
    exact .branch
  | answered reading =>
    rw [followedBy_assoc]
    exact .answered reading

namespace Passes

theorem trans (h : Passes caller args body ctx given next mid)
    (hnext : Passes caller args next mid more left point) :
    Passes caller args body ctx (given ++ more) left point := by
  induction h with
  | here => exact hnext
  | step first _ ih =>
    rw [List.append_assoc]
    exact .step first (ih hnext)

theorem followedBy (h : Passes caller args body ctx given left point) (last : Program) :
    Passes caller args (body.followedBy last) ctx given (left.followedBy last) point := by
  induction h with
  | here => exact .here
  | step first _ ih => exact .step (first.followedBy last) ih

/-- A program that has come to its end goes on with what is behind it. -/
theorem append (h : Passes caller args body ctx given .done mid)
    (hnext : Passes caller args next mid more left point) :
    Passes caller args (body.followedBy next) ctx (given ++ more) left point :=
  (h.followedBy next).trans hnext

/-- **Every point lies on the way to the end**, which has answered what the point has and maybe
more. -/
theorem prefix_of_done (h : Passes caller args body ctx given left point)
    (hdone : Passes caller args body ctx given' .done after) : given <+: given' := by
  induction h generalizing given' with
  | here => exact List.nil_prefix
  | step first _ ih =>
    cases hdone with
    -- there is no step from the end of a program
    | here => cases first
    | step first' behind' =>
      obtain ⟨rfl, rfl, rfl⟩ := first.unique first'
      exact (List.prefix_append_right_inj _).2 (ih behind')

/-- The end is where the run returns: to pass through the whole body and to run it are the same. -/
theorem run_eq (h : Passes caller args body ctx given .done after) :
    body.run caller args ctx = (.ok (), after) := by
  -- the end is an index of `h`, so the induction is on points of any kind
  generalize hleft : Program.done = left at h
  induction h with
  | here =>
    subst hleft
    rfl
  | step first _ ih =>
    have hbehind := ih hleft
    cases first with
    | action run => exact (Run.bind_of_ok run).trans hbehind
    | branch => rw [run_ifArgs, ← run_followedBy, hbehind]
    | answered reading =>
      rw [run_ifAnswered, Run.bind_of_ok reading, ← run_followedBy, hbehind]

end Passes

/-- Of the two bodies of a branch, the one that is run comes to its end. -/
theorem exists_passes_of_ite {b : Prop} [Decidable b] {yes no : Program}
    (hyes : yes.run caller args ctx = (.ok (), after) →
      ∃ given, Passes caller args yes ctx given .done after)
    (hno : no.run caller args ctx = (.ok (), after) →
      ∃ given, Passes caller args no ctx given .done after)
    (hrun : (if b then yes else no).run caller args ctx = (.ok (), after)) :
    ∃ given, Passes caller args (if b then yes else no) ctx given .done after := by
  by_cases hb : b
  · rw [if_pos hb] at hrun ⊢
    exact hyes hrun
  · rw [if_neg hb] at hrun ⊢
    exact hno hrun

/-- A body that handles no failure and returns has passed through all of its steps. The induction is
on the tree, with the branches that the run takes. -/
theorem exists_passes_of_run (hbody : body.Propagates)
    (hrun : body.run caller args ctx = (.ok (), after)) :
    ∃ given, Passes caller args body ctx given .done after := by
  induction body generalizing ctx after with
  | done =>
    cases hrun
    exact ⟨[], .here⟩
  | act action rest ih =>
    obtain ⟨⟨⟩, mid, hfirst, hrest⟩ := Run.exists_of_bind_ok hrun
    obtain ⟨more, hpasses⟩ := ih hbody hrest
    exact ⟨_, .step (.action hfirst) hpasses⟩
  | attempt body rest _ _ => exact hbody.elim
  | ifArgs yes no rest ihYes ihNo ihRest =>
    obtain ⟨hyes, hno, hlast⟩ := hbody
    rw [run_ifArgs] at hrun
    obtain ⟨⟨⟩, mid, hbranch, hrest⟩ := Run.exists_of_bind_ok hrun
    -- the body that is run comes to its end in front of the rest
    obtain ⟨given, hgiven⟩ := exists_passes_of_ite (ihNo hno) (ihYes hyes) hbranch
    obtain ⟨more, hmore⟩ := ihRest hlast hrest
    exact ⟨_, .step .branch (hgiven.append hmore)⟩
  | ifAnswered yes no rest ihYes ihNo ihRest =>
    obtain ⟨hyes, hno, hlast⟩ := hbody
    rw [run_ifAnswered] at hrun
    obtain ⟨bytes, mid, hreading, hrun⟩ := Run.exists_of_bind_ok hrun
    obtain ⟨⟨⟩, next, hbranch, hrest⟩ := Run.exists_of_bind_ok hrun
    obtain ⟨given, hgiven⟩ := exists_passes_of_ite (ihYes hyes) (ihNo hno) hbranch
    obtain ⟨more, hmore⟩ := ihRest hlast hrest
    exact ⟨_, .step (.answered hreading) (hgiven.append hmore)⟩

/-- **The steps are those of the run.** A program that handles no failure returns exactly if its
steps lead from its beginning to its end, with some answers on the way. So what is shown of every
point of it is shown of every run that returns. -/
theorem run_eq_ok_iff (hbody : body.Propagates) :
    body.run caller args ctx = (.ok (), after) ↔
      ∃ given, Passes caller args body ctx given .done after :=
  ⟨exists_passes_of_run hbody, fun ⟨_, h⟩ => h.run_eq⟩

end Program

/-! ## Points of an entry point -/

namespace Builtin

/-- What a built-in function does up to its answer, and the answer that it then gives. The
tasks give none, and a swap that was answered before the crash gives no other. -/
def upToAnswer (caller : Caller) (args : List UInt8) : Builtin → Exec (Option (List UInt8))
  | .swap => do
    let a ← SwapArgs.decode args
    let yes ← onHeap (swapOf (← get) a).attempt
    return some (verdict yes)
  | .recoverSwap => do
    let a ← SwapArgs.decode args
    if answerByte (← readCurrentAnswer 1) ≤ 1 then return none
    let yes ← onHeap (swapOf (← get) a).recover
    return some (verdict yes)
  | .task => do
    runTask caller false args
    return none
  | .recoverTask => do
    runTask caller true args
    return none

/-- What is left of a built-in function that has found its answer. -/
def answering : Option (List UInt8) → Program
  | none => .done
  | some bytes => .act (.answer bytes) .done

variable {caller : Caller} {args : List UInt8}

theorem answering_propagates (answer : Option (List UInt8)) : (answering answer).Propagates := by
  cases answer with
  | none => trivial
  | some bytes => trivial

theorem run_answering_some (bytes : List UInt8) :
    (answering (some bytes)).run caller args = writeAnswer bytes := bind_pure _

theorem run_answering_none : (answering none).run caller args = pure () := rfl

theorem run_eq_upToAnswer (caller : Caller) (args : List UInt8) (entry : Builtin) :
    entry.run caller args = (do
      let answer ← entry.upToAnswer caller args
      (answering answer).run caller args) := by
  cases entry with
  | swap =>
    simp only [run, runSwap, upToAnswer, bind_assoc, pure_bind, run_answering_some]
  | recoverSwap =>
    -- both sides ask for the answer first, and go on in two ways
    simp only [run, runRecoverSwap, upToAnswer, bind_assoc]
    refine bind_congr fun a => bind_congr fun bytes => ?_
    by_cases hanswered : answerByte bytes ≤ 1
    · simp only [if_pos hanswered, pure_bind, run_answering_none]
    · simp only [if_neg hanswered, bind_assoc, pure_bind, run_answering_some]
  | task => simp only [run, upToAnswer, bind_assoc, pure_bind, run_answering_none, bind_pure_unit]
  | recoverTask =>
    simp only [run, upToAnswer, bind_assoc, pure_bind, run_answering_none, bind_pure_unit]

end Builtin

/-- The points of an entry point in its own frame. A built-in function has one at its start, and
those behind all but its answer. -/
inductive EntryPoint.Passes (caller : Caller) (args : List UInt8) :
    EntryPoint → Context → (given : List (List UInt8)) → EntryPoint → Context → Prop
  | inProgram {body left : Program} {ctx point : Context} {given : List (List UInt8)}
      (passes : body.Passes caller args ctx given left point) :
      Passes caller args (.program body) ctx given (.program left) point
  | atStart {entry : Builtin} {ctx : Context} :
      Passes caller args (.builtin entry) ctx [] (.builtin entry) ctx
  | behind {entry : Builtin} {answer : Option (List UInt8)} {left : Program}
      {ctx mid point : Context} {given : List (List UInt8)}
      (run : entry.upToAnswer caller args ctx = (.ok answer, mid))
      (passes : (Builtin.answering answer).Passes caller args mid given left point) :
      Passes caller args (.builtin entry) ctx given (.program left) point

/-- Nothing is left to do. -/
def EntryPoint.ended : EntryPoint := .program .done

namespace EntryPoint

variable {caller : Caller} {args : List UInt8} {entry left : EntryPoint}
  {ctx point after : Context} {given given' : List (List UInt8)}

theorem Passes.prefix_of_ended (h : entry.Passes caller args ctx given left point)
    (hended : entry.Passes caller args ctx given' ended after) : given <+: given' := by
  cases h with
  | inProgram passes =>
    cases hended with
    | inProgram passes' => exact passes.prefix_of_done passes'
  | atStart => exact List.nil_prefix
  | behind run passes =>
    cases hended with
    | behind run' passes' =>
      cases run.symm.trans run'
      exact passes.prefix_of_done passes'

/-- **An entry point returns where its points end.** For a program these are its own points. A
built-in function first does all but its answer, and what is left then is a program. -/
theorem run_eq_ok_iff (hentry : entry.Propagates) :
    entry.run caller args ctx = (.ok (), after) ↔
      ∃ given, entry.Passes caller args ctx given ended after := by
  cases entry with
  | program body =>
    rw [EntryPoint.run, Program.run_eq_ok_iff hentry]
    constructor
    · rintro ⟨given, h⟩
      exact ⟨given, .inProgram h⟩
    · rintro ⟨given, ⟨h⟩⟩
      exact ⟨given, h⟩
  | builtin entry =>
    rw [EntryPoint.run, Builtin.run_eq_upToAnswer]
    constructor
    · intro hrun
      obtain ⟨answer, mid, hfirst, hrest⟩ := Run.exists_of_bind_ok hrun
      obtain ⟨given, h⟩ := (Program.run_eq_ok_iff (Builtin.answering_propagates answer)).1 hrest
      exact ⟨given, .behind hfirst h⟩
    · rintro ⟨given, h⟩
      cases h with
      | behind run passes => exact (Run.bind_of_ok run).trans passes.run_eq

end EntryPoint

/-! ## Points of a call -/

/-- The context in which the callee of a call starts: its frame is on the stack, and no hook has
stopped it there. -/
def Begins (request : CallRequest) (ctx : Context) (entry : EntryPoint) (running : Context) :
    Prop :=
  ∃ mid, enter request ctx = (.ok entry, mid) ∧ consult .afterFramePush mid = (.ok (), running)

/-- The points of a call in the frame of its callee. The bodies of nested calls run in frames of
their own, and what they do is one step here. -/
inductive CallPasses (caller : Caller) (request : CallRequest) (ctx : Context)
    (given : List (List UInt8)) (left : EntryPoint) (point : Context) : Prop
  | inBody {entry : EntryPoint} {running : Context} (begins : Begins request ctx entry running)
      (passes : entry.Passes caller request.args running given left point)

/-- The points of a call that may nest so deep. -/
def PassesWithin : (depth : Nat) → CallRequest → Context → (given : List (List UInt8)) →
    EntryPoint → Context → Prop
  | 0 => fun _ _ _ _ _ => False
  | depth + 1 => CallPasses (callWithin depth)

/-- What the callee of a call has answered by itself when it ends. -/
def Answers (depth : Nat) (request : CallRequest) (ctx : Context) (given : List (List UInt8)) :
    Prop := ∃ point, PassesWithin depth request ctx given .ended point

section Call

variable {depth : Nat} {request : CallRequest} {ctx point : Context} {left : EntryPoint}
  {given given' : List (List UInt8)}

/-- A callee starts in one context. -/
theorem Begins.unique {entry entry' : EntryPoint} {running running' : Context}
    (h : Begins request ctx entry running) (h' : Begins request ctx entry' running') :
    entry' = entry ∧ running' = running := by
  obtain ⟨mid, entering, passing⟩ := h
  obtain ⟨mid', entering', passing'⟩ := h'
  cases entering.symm.trans entering'
  cases passing.symm.trans passing'
  exact ⟨rfl, rfl⟩

/-- What a callee answers that makes no call. -/
theorem Begins.answers {entry : EntryPoint} {running : Context}
    (h : Begins request ctx entry running) (point : Context)
    (hpasses : ∀ caller, entry.Passes caller request.args running given .ended point) :
    Answers ctx.depthBound request ctx given := by
  obtain ⟨depth, hdepth⟩ : ∃ depth, ctx.depthBound = depth + 1 := ⟨_, rfl⟩
  rw [hdepth]
  exact ⟨point, h, hpasses _⟩

theorem PassesWithin.prefix_of_answers (h : PassesWithin depth request ctx given left point)
    (hanswers : Answers depth request ctx given') : given <+: given' := by
  obtain ⟨last, hlast⟩ := hanswers
  cases depth with
  | zero => exact h.elim
  | succ depth =>
    obtain ⟨begins, passes⟩ := h
    obtain ⟨begins', passes'⟩ := hlast
    obtain ⟨rfl, rfl⟩ := begins.unique begins'
    exact passes.prefix_of_ended passes'

/-- A callee has answered one list of byte strings. -/
theorem Answers.unique (h : Answers depth request ctx given)
    (h' : Answers depth request ctx given') : given' = given := by
  obtain ⟨point, hpoint⟩ := h
  obtain ⟨point', hpoint'⟩ := h'
  have hle := (hpoint.prefix_of_answers ⟨point', hpoint'⟩).length_le
  exact (hpoint'.prefix_of_answers ⟨point, hpoint⟩).eq_of_length_le hle

end Call

end DurableCalls
