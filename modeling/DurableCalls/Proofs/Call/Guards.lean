/-
`Guards.lean` -- what a body keeps, whatever it calls and however it ends.

A body reads, notes, works on the heap, answers its caller and makes calls. All of that but
the calls leaves the frames alone. So a property of contexts that asks for a faithful stack
and else only looks at the frames is kept by a body if its calls keep it (`Contract`), and
the halts of the body are harmless ones or those of its calls. This is told once, along the
tree of a program, and used for every such property.

For calls the property is that the frames of before are still there (`Above`). A call pushes
its frame on top of them and pops one frame at its end, so it never reaches below. Then
calls never nest too deep either: every call under way has a frame on a cache line of its
own, those of calls that have failed included.
-/
import DurableCalls.Proofs.Context.Aborts
import DurableCalls.Proofs.Context.Keeps

set_option autoImplicit false

namespace DurableCalls

open CallStack DurableStack

namespace Context

variable {α β : Type} {m : Exec α} {f : α → Exec β} {ctx after : Context}
  {inv inv' : Context → Prop} {allowed allowed' : Halt → Prop} {halt : Halt}

/-! ## Guarded runs -/

/-- The run leads to a context in `inv`, and if it halts then as allowed. -/
def EndsIn (inv : Context → Prop) (allowed : Halt → Prop) (m : Exec α) (ctx : Context) : Prop :=
  inv (m ctx).2 ∧ ∀ halt, (m ctx).1 = .error halt → allowed halt

theorem EndsIn.of_ok {a : α} (hrun : m ctx = (.ok a, after)) (hafter : inv after) :
    EndsIn inv allowed m ctx := by
  rw [EndsIn, hrun]
  refine ⟨hafter, fun halt h => ?_⟩
  cases h

theorem EndsIn.of_error (hrun : m ctx = (.error halt, after)) (hafter : inv after)
    (hallowed : allowed halt) : EndsIn inv allowed m ctx := by
  rw [EndsIn, hrun]
  refine ⟨hafter, fun halt' h => ?_⟩
  cases h
  exact hallowed

theorem EndsIn.mono (h : EndsIn inv' allowed' m ctx) (hinv : ∀ {ctx}, inv' ctx → inv ctx)
    (hallowed : ∀ {halt}, allowed' halt → allowed halt) : EndsIn inv allowed m ctx :=
  ⟨hinv h.1, fun halt hhalt => hallowed (h.2 halt hhalt)⟩

/-- **Steps in a row.** The second may ask for less than the first leaves, and it may be allowed to
halt for more reasons. -/
theorem EndsIn.bind (hm : EndsIn inv' allowed' m ctx) (hinv : ∀ {ctx}, inv' ctx → inv ctx)
    (hallowed : ∀ {halt}, allowed' halt → allowed halt)
    (hf : ∀ {mid} a, inv' mid → EndsIn inv allowed (f a) mid) :
    EndsIn inv allowed (m >>= f) ctx := by
  obtain ⟨hmid, hhalts⟩ := hm
  rcases hrun : m ctx with ⟨halt | a, mid⟩
  · rw [hrun] at hmid hhalts
    exact .of_error (Run.bind_of_error hrun) (hinv hmid) (hallowed (hhalts halt rfl))
  · rw [hrun] at hmid
    rw [EndsIn, Run.bind_of_ok hrun]
    exact hf a hmid

/-- A run that ends in `inv` from every context that is in it. -/
def Guards (inv : Context → Prop) (allowed : Halt → Prop) (m : Exec α) : Prop :=
  ∀ ctx, inv ctx → EndsIn inv allowed m ctx

theorem Guards.bind (hm : Guards inv allowed m) (hf : ∀ a, Guards inv allowed (f a)) :
    Guards inv allowed (m >>= f) := fun ctx hctx =>
  (hm ctx hctx).bind id id fun a hmid => hf a _ hmid

theorem Guards.pure (a : α) : Guards inv allowed (Pure.pure a : Exec α) := fun ctx hctx =>
  .of_ok (Run.pure_apply a ctx) hctx

theorem Guards.abort {reason : Abort} (h : allowed (.aborted reason)) :
    Guards inv allowed (Run.abort reason : Exec α) := fun _ hctx => .of_error rfl hctx h

theorem Guards.discard (hm : Guards inv allowed m) :
    Guards inv allowed (Functor.discard m : Exec PUnit) := by
  rw [Run.discard_eq_bind]
  exact hm.bind fun _ => .pure _

theorem Guards.tryCatch {handle : Halt → Exec α} (hm : Guards inv allowed m)
    (hhandle : ∀ halt, allowed halt → Guards inv allowed (handle halt)) :
    Guards inv allowed (MonadExcept.tryCatch m handle) := by
  intro ctx hctx
  obtain ⟨hmid, hhalts⟩ := hm ctx hctx
  rw [EndsIn, Run.tryCatch_apply]
  rcases hrun : m ctx with ⟨halt | a, mid⟩
  · rw [hrun] at hmid hhalts
    exact hhandle halt (hhalts halt rfl) mid hmid
  · rw [hrun] at hmid hhalts
    exact ⟨hmid, hhalts⟩

/-- A property for which the frames are all that counts in a faithful stack, and a set of
halts that bars no more than the aborts of the call engine. -/
structure Contract (inv : Context → Prop) (allowed : Halt → Prop) : Prop where
  faithful : ∀ {ctx}, inv ctx → ctx.stack.Faithful
  follows : ∀ {ctx after}, inv ctx → Follows ctx after →
    after.stack.calls.frames = ctx.stack.calls.frames → inv after
  regular : ∀ {halt : Halt}, halt.Regular → allowed halt

namespace Contract

/-- A step that leaves the stack alone. -/
theorem quiet (h : Contract inv allowed) (hquiet : Quiet m) (hregular : Run.Regular m) :
    Guards inv allowed m := by
  intro ctx hctx
  obtain ⟨hhost, hstack⟩ := hquiet ctx
  refine ⟨h.follows hctx (.of_stack_eq (h.faithful hctx) hhost hstack) ?_, fun halt hhalt => ?_⟩
  · rw [hstack]
  · exact h.regular (hregular ctx halt hhalt)

theorem lift (h : Contract inv allowed) (x : Except Failure α) :
    Guards inv allowed (liftM x : Exec α) := h.quiet (Quiet.lift x) (.lift x)

theorem get (h : Contract inv allowed) : Guards inv allowed (MonadState.get : Exec Context) :=
  h.quiet Quiet.get .get

theorem note (h : Contract inv allowed) (n : Note) : Guards inv allowed (Context.note n) :=
  h.quiet (Quiet.note n) (note_regular n)

theorem onHeap (h : Contract inv allowed) {m : Run Region α} (hm : Run.Regular m) :
    Guards inv allowed (Context.onHeap m) := h.quiet (Quiet.onHeap m) (onHeap_regular hm)

theorem consult (h : Contract inv allowed) (point : FaultPoint) :
    Guards inv allowed (Context.consult point) :=
  h.quiet (Quiet.consult point) (consult_regular point)

theorem readAnswer (h : Contract inv allowed) (len : Nat) :
    Guards inv allowed (Context.readAnswer len) :=
  h.quiet (Quiet.readAnswer len) (readAnswer_regular len)

theorem readCurrentAnswer (h : Contract inv allowed) (len : Nat) :
    Guards inv allowed (Context.readCurrentAnswer len) :=
  h.quiet (Quiet.readCurrentAnswer len) (readCurrentAnswer_regular len)

/-- An answer changes a slot, and no frame. -/
theorem writeAnswer (h : Contract inv allowed) (bytes : List UInt8) :
    Guards inv allowed (Context.writeAnswer bytes) := by
  intro ctx hctx
  have hfaithful := h.faithful hctx
  rcases writeAnswer_cases hfaithful.mirrored bytes with ⟨failure, hrun⟩ |
    ⟨top, below, rest, hframes, hlen, hrun⟩
  · exact .of_error hrun hctx (h.regular trivial)
  · have hput := withSlot_follows hfaithful (caller_mem hframes) hlen
    rw [EndsIn, hrun]
    exact h.consult _ _ (h.follows hctx hput rfl)

end Contract

/-- A run that keeps the stack faithful does so between other such runs. -/
theorem Keeps.guards (hm : Keeps m) (start : Context) :
    Guards (Follows start) (fun _ => True) m :=
  fun ctx hctx => ⟨hctx.trans (hm ctx hctx.stack.faithful), fun _ _ => trivial⟩

theorem Keeps.of_guards (hm : ∀ start, Guards (Follows start) allowed m) : Keeps m :=
  fun ctx hctx => (hm ctx ctx (.refl hctx)).1

theorem follows_contract (start : Context) (hregular : ∀ halt : Halt, halt.Regular → allowed halt) :
    Contract (Follows start) allowed :=
  ⟨fun h => h.stack.faithful, fun h hfollows _ => h.trans hfollows, hregular _⟩

end Context

open Context

variable {caller : Caller} {inv : Context → Prop} {allowed : Halt → Prop}

/-! ## Bodies -/

namespace Builtin

theorem publish_quiet (t : SwapTask) (result : UInt8) : Quiet (publish t result) :=
  Quiet.onHeap _

/-- What is left of a task once its nested call has returned. -/
theorem publishAnswer_quiet (t : SwapTask) :
    Quiet (do publish t (answerByte (← readAnswer 1)) : Exec Unit) :=
  (Quiet.readAnswer 1).bind fun _ => publish_quiet _ _

theorem publish_regular (t : SwapTask) (result : UInt8) : Run.Regular (publish t result) :=
  onHeap_regular (Region.persist_ofHeap _ _).regular

theorem runSwap_guards (h : Contract inv allowed) (args : List UInt8) :
    Guards inv allowed (runSwap args) := by
  refine (h.lift _).bind fun a => h.get.bind fun ctx => ?_
  exact (h.onHeap (swapOf ctx a).attempt_ofHeap.regular).bind fun _ => h.writeAnswer _

theorem runRecoverSwap_guards (h : Contract inv allowed) (args : List UInt8) :
    Guards inv allowed (runRecoverSwap args) := by
  refine (h.lift _).bind fun a => (h.readCurrentAnswer 1).bind fun bytes => ?_
  by_cases hanswered : answerByte bytes ≤ 1
  · simp only [if_pos hanswered]
    exact .pure _
  · simp only [if_neg hanswered]
    refine h.get.bind fun ctx => ?_
    exact (h.onHeap (swapOf ctx a).recover_ofHeap.regular).bind fun _ => h.writeAnswer _

theorem runTask_guards (h : Contract inv allowed)
    (hcaller : ∀ request, Guards inv allowed (caller request)) (recover : Bool)
    (args : List UInt8) : Guards inv allowed (runTask caller recover args) := by
  refine (h.lift _).bind fun t => ?_
  have hpublish := fun result => h.quiet (publish_quiet t result) (publish_regular t result)
  have hnested := fun request => (hcaller request).bind fun _ =>
    (h.readAnswer 1).bind fun bytes => hpublish (answerByte bytes)
  cases recover with
  | false => exact hnested _
  | true =>
    refine (h.readAnswer 1).bind fun bytes => ?_
    by_cases hanswered : answerByte bytes ≤ 1
    · simp only [if_pos hanswered]
      exact (hpublish _).bind fun _ => .pure _
    · simp only [if_neg hanswered]
      exact hnested _

theorem run_guards (h : Contract inv allowed)
    (hcaller : ∀ request, Guards inv allowed (caller request)) (args : List UInt8)
    (entry : Builtin) : Guards inv allowed (entry.run caller args) := by
  cases entry with
  | swap => exact runSwap_guards h args
  | recoverSwap => exact runRecoverSwap_guards h args
  | task => exact runTask_guards h hcaller false args
  | recoverTask => exact runTask_guards h hcaller true args

end Builtin

namespace Program

theorem runAction_guards (h : Contract inv allowed)
    (hcaller : ∀ request, Guards inv allowed (caller request)) (args : List UInt8)
    (action : Action) : Guards inv allowed (runAction caller args action) := by
  cases action with
  | note text => exact h.note _
  | noteArgs => exact h.note _
  | noteNames => exact h.get.bind fun _ => h.note _
  | answer bytes => exact h.writeAnswer bytes
  | answerArgs => exact h.writeAnswer args
  | noteAnswer len => exact (h.readAnswer len).bind fun _ => h.note _
  | noteCurrent len => exact (h.readCurrentAnswer len).bind fun _ => h.note _
  | passAnswer len => exact (h.readAnswer len).bind fun _ => h.writeAnswer _
  | call name own options => exact hcaller _
  | fail message => exact h.quiet (Quiet.fail _) (.fail _)
  | raise message => exact .abort (h.regular trivial)
  | noteHeap offset len =>
    have hcopy := Run.Regular.get.bind fun heap : Region =>
      Run.Regular.liftHalt (heap.copyOut_regular offset len)
    exact (h.onHeap hcopy).bind fun _ => h.note _
  | writeHeap offset bytes => exact h.onHeap (Region.write_ofHeap offset bytes).regular

theorem handled_of_ok {body : Exec Unit} {ctx after : Context} (h : body ctx = (.ok (), after)) :
    handled body ctx = (.ok none, after) := by
  rw [handled, Run.tryCatch_apply, Run.bind_of_ok h]
  rfl

theorem handled_of_failed {body : Exec Unit} {ctx after : Context} {failure : Failure}
    (h : body ctx = (.error (.failed failure), after)) :
    handled body ctx = (.ok (some failure), after) := by
  rw [handled, Run.tryCatch_apply, Run.bind_of_error h]
  rfl

theorem handled_of_aborted {body : Exec Unit} {ctx after : Context} {reason : Abort}
    (h : body ctx = (.error (.aborted reason), after)) :
    handled body ctx = (.error (.aborted reason), after) := by
  rw [handled, Run.tryCatch_apply, Run.bind_of_error h]
  rfl

theorem handled_guards {body : Exec Unit} (hbody : Guards inv allowed body) :
    Guards inv allowed (handled body) := by
  refine Guards.tryCatch (hbody.bind fun _ => .pure _) fun halt hallowed => ?_
  cases halt with
  | failed failure => exact .pure _
  | aborted reason => exact .abort hallowed

/-- A branch runs one of its bodies, and then the rest. -/
theorem run_ifArgs (caller : Caller) (args : List UInt8) (yes no rest : Program) :
    (ifArgs yes no rest).run caller args = (do
      (if args.isEmpty then no else yes).run caller args
      rest.run caller args) := by
  rw [run]
  by_cases hempty : args.isEmpty = true
  · simp only [if_pos hempty]
  · simp only [if_neg hempty]

theorem run_ifAnswered (caller : Caller) (args : List UInt8) (yes no rest : Program) :
    (ifAnswered yes no rest).run caller args = (do
      let bytes ← readCurrentAnswer 1
      (if Builtin.answerByte bytes ≠ unanswered then yes else no).run caller args
      rest.run caller args) := by
  rw [run]
  refine bind_congr fun bytes => ?_
  by_cases hanswered : Builtin.answerByte bytes ≠ unanswered
  · simp only [if_pos hanswered]
  · simp only [if_neg hanswered]

/-- **A program keeps what its calls keep**, by induction on the tree. All of its other actions are
covered by the contract, and a handler goes on from the context that a failed body has left, which
is in the invariant too. -/
theorem run_guards (h : Contract inv allowed)
    (hcaller : ∀ request, Guards inv allowed (caller request)) (args : List UInt8)
    (body : Program) : Guards inv allowed (body.run caller args) := by
  induction body with
  | done => exact .pure _
  | act action rest ihRest => exact (runAction_guards h hcaller args action).bind fun _ => ihRest
  | attempt body rest ihBody ihRest =>
    exact (handled_guards ihBody).bind fun _ => (h.note _).bind fun _ => ihRest
  | ifArgs yes no rest ihYes ihNo ihRest =>
    rw [run_ifArgs]
    refine Guards.bind ?_ fun _ => ihRest
    by_cases hempty : args.isEmpty = true
    · rw [if_pos hempty]
      exact ihNo
    · rw [if_neg hempty]
      exact ihYes
  | ifAnswered yes no rest ihYes ihNo ihRest =>
    rw [run_ifAnswered]
    refine (h.readCurrentAnswer 1).bind fun bytes => Guards.bind ?_ fun _ => ihRest
    by_cases hanswered : Builtin.answerByte bytes ≠ unanswered
    · rw [if_pos hanswered]
      exact ihYes
    · rw [if_neg hanswered]
      exact ihNo

end Program

theorem EntryPoint.run_guards (h : Contract inv allowed)
    (hcaller : ∀ request, Guards inv allowed (caller request)) (args : List UInt8)
    (entry : EntryPoint) : Guards inv allowed (entry.run caller args) := by
  cases entry with
  | builtin entry => exact entry.run_guards h hcaller args
  | program body => exact body.run_guards h hcaller args

namespace Context

/-! ## Calls -/

variable {start ctx after : Context} {base base' : List Placed} {p : Placed}

/-- The context follows another one, and these frames are still at the bottom. A body never takes
them away, so what was pushed before it is there when it returns or fails. -/
structure Above (start : Context) (base : List Placed) (ctx : Context) : Prop where
  follows : Follows start ctx
  suffix : base <:+ ctx.stack.calls.frames

theorem Above.mono (h : Above start base ctx) (hbase : base' <:+ base) : Above start base' ctx :=
  ⟨h.follows, hbase.trans h.suffix⟩

theorem Above.seeded (h : Above start base ctx) (hseeded : Seeded ctx after) :
    Above start base after :=
  ⟨h.follows.trans (hseeded.follows h.follows.stack.faithful), by
    rw [hseeded.frames_eq]
    exact h.suffix⟩

theorem Above.contract (start : Context) (base : List Placed)
    (hregular : ∀ halt : Halt, halt.Regular → allowed halt) :
    Contract (Above start base) allowed where
  faithful h := h.follows.stack.faithful
  follows h hfollows hframes := ⟨h.follows.trans hfollows, by rw [hframes]; exact h.suffix⟩
  regular := hregular _

/-- The calls with a frame at the bottom leave room for more of them. -/
theorem Above.length_lt (h : Above start base ctx) : base.length < start.depthBound := by
  have hle := h.suffix.length_le
  have hlines := h.follows.stack.faithful.mirrored.length_le
  rw [h.follows.stack.size_eq] at hlines
  rw [depthBound]
  omega

/-- Without its top, a stack still ends in what lies below a frame that it ended in. -/
theorem suffix_of_cons_suffix_cons {top : Placed} {rest : List Placed}
    (h : p :: base <:+ top :: rest) : base <:+ rest := by
  rcases List.suffix_cons_iff.1 h with heq | hbelow
  · exact (List.cons.inj heq).2 ▸ List.suffix_refl _
  · exact (List.suffix_cons p base).trans hbelow

theorem popFrame_regular (h : ctx.stack.Faithful) : EndsRegularly (popFrame ctx).1 := by
  rcases popFrame_cases h.mirrored with ⟨-, hrun⟩ | ⟨top, below, rest, -, hrun⟩
  · rw [hrun]
    exact .error trivial
  · rw [hrun]
    exact .ok ()

/-- One pop takes no more than the frame that a call has pushed. -/
theorem Above.popped (h : Above start (p :: base) ctx) : Above start base (popFrame ctx).2 := by
  have hfaithful := h.follows.stack.faithful
  refine ⟨h.follows.trans (popFrame_keeps ctx hfaithful), ?_⟩
  have hsuffix := h.suffix
  rcases popFrame_cases hfaithful.mirrored with ⟨-, hrun⟩ | ⟨top, below, rest, hframes, hrun⟩
  · rw [hrun]
    exact (List.suffix_cons p base).trans hsuffix
  · rw [hrun]
    rw [hframes] at hsuffix
    exact suffix_of_cons_suffix_cons hsuffix

/-- Nothing but the body of a call and its end come behind the push of its frame. -/
theorem callWithin_succ (depth : Nat) (request : CallRequest) :
    callWithin (depth + 1) request = (do
      let entry ← enter request
      (do consult .afterFramePush; entry.run (callWithin depth) request.args)
      (do consult .beforeFrameRemove; popFrame)) := by
  simp only [callWithin, bind_assoc]

theorem call_apply (request : CallRequest) (ctx : Context) :
    call request ctx = callWithin ctx.depthBound request ctx := by
  rw [call, Run.bind_of_ok (Run.get_apply ctx)]

/-- How a call is left whose body has returned. -/
theorem Above.leave (h : Above start (p :: base) ctx) :
    EndsIn (Above start base) Halt.Regular (do consult .beforeFrameRemove; popFrame) ctx := by
  have hconsult := (contract start (p :: base) fun _ h => h).consult .beforeFrameRemove ctx h
  exact hconsult.bind (mono · (List.suffix_cons p base)) id fun _ hmid =>
    ⟨hmid.popped, popFrame_regular hmid.follows.stack.faithful⟩

/-- The frame of a call is above those of before. -/
theorem Above.entered {mid : Context} {request : CallRequest} {frame : Frame}
    (h : Above start base ctx) (hmade : Frame.make request.name request.args = .ok frame)
    (hseeded : Seeded ctx mid) (answer : Slot)
    (hroom : nextPosition mid.stack.calls.frames + frame.size ≤ mid.stack.region.size) :
    Above start (⟨frame, nextPosition mid.stack.calls.frames⟩ :: ctx.stack.calls.frames)
      { mid with stack := mid.stack.pushed frame answer } := by
  have hmid := (h.seeded hseeded).follows
  have hfits := (Frame.make_eq_ok_iff.1 hmade).2
  refine ⟨hmid.trans ⟨rfl, hmid.stack.faithful.pushed hfits answer hroom⟩, ?_⟩
  show _ <:+ ⟨frame, nextPosition mid.stack.calls.frames⟩ :: mid.stack.calls.frames
  exact hseeded.frames_eq ▸ List.suffix_refl _

/-- The halts of a call that may nest so deep above a base. If that is enough for the region,
none of them is an abort of the call engine. -/
def HaltsAbove (start : Context) (base : List Placed) (depth : Nat) (halt : Halt) : Prop :=
  start.depthBound ≤ base.length + depth → halt.Regular

/-- What follows the push of a frame pops no more than that frame. -/
theorem Above.inside {depth : Nat} (h : Above start (p :: base) ctx)
    (hcaller : ∀ request, Guards (Above start (p :: base)) (HaltsAbove start (p :: base) depth)
      (callWithin depth request)) (entry : EntryPoint) (args : List UInt8) :
    EndsIn (Above start base) (HaltsAbove start (p :: base) depth) (do
      (do consult .afterFramePush; entry.run (callWithin depth) args)
      (do consult .beforeFrameRemove; popFrame)) ctx := by
  have hregular : ∀ halt : Halt, halt.Regular → HaltsAbove start (p :: base) depth halt :=
    fun _ hregular _ => hregular
  have hcontract := contract start (p :: base) hregular
  have hbody := (hcontract.consult .afterFramePush).bind fun _ =>
    entry.run_guards hcontract hcaller args
  exact (hbody ctx h).bind (mono · (List.suffix_cons p base)) id fun _ hdone =>
    hdone.leave.mono id (hregular _)

/-- **A call never reaches below the frames of before**, and it nests as deep as the region
lets it. The induction is on how deep calls may nest. -/
theorem callWithin_above (start : Context) (base : List Placed) (depth : Nat)
    (request : CallRequest) :
    Guards (Above start base) (HaltsAbove start base depth) (callWithin depth request) := by
  induction depth generalizing base request with
  | zero =>
    -- the base has no more frames than the region has room for
    intro ctx hctx
    have hroom := hctx.length_lt
    refine .of_error rfl hctx fun hdeep => ?_
    omega
  | succ depth ih =>
    intro ctx hctx
    rw [callWithin_succ]
    have hmirrored := hctx.follows.stack.faithful.mirrored
    rcases enter_cases hmirrored request with ⟨failure, mid, hrun, hseeded⟩ |
      ⟨entry, frame, answer, mid, -, hmade, hseeded, hroom, hrun⟩
    · exact .of_error (Run.bind_of_error hrun) (hctx.seeded hseeded) fun _ => trivial
    · have hinside := (hctx.entered hmade hseeded answer hroom).inside (ih _) entry request.args
      rw [EndsIn, Run.bind_of_ok hrun]
      refine hinside.mono (Above.mono · hctx.suffix) fun hhalts hdeep => hhalts ?_
      have hmore := hctx.suffix.length_le
      rw [List.length_cons]
      omega

theorem callWithin_keeps (depth : Nat) (request : CallRequest) :
    Keeps (callWithin depth request) := fun ctx hctx =>
  (callWithin_above ctx [] depth request ctx ⟨.refl hctx, List.nil_suffix⟩).1.follows

end Context

end DurableCalls
