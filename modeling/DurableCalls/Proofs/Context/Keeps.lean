/-
`Keeps.lean` -- runs on a context that keep its stack faithful.

Most of what a run does leaves the stack alone: it reads, notes, consults the hook, or
works on the heap (`Quiet`). What is left are a write into a slot, a push and a pop, and
each of them has one lemma that says how it ends. The frames of a context are changed by
nothing else.
-/
import DurableCalls.Call
import DurableCalls.Proofs.Context.Ends
import DurableCalls.Proofs.Stack.Faithful

set_option autoImplicit false

namespace DurableCalls

open CallStack Region DurableStack

namespace Context

variable {α β : Type} {m : Exec α} {f : α → Exec β} {ctx after : Context}

/-! ## Runs that leave the stack alone -/

/-- The run changes neither the host nor the stack. -/
def Quiet (m : Exec α) : Prop := ∀ ctx, (m ctx).2.host = ctx.host ∧ (m ctx).2.stack = ctx.stack

theorem Quiet.pure (a : α) : Quiet (Pure.pure a) := fun _ => ⟨rfl, rfl⟩

theorem Quiet.fail (failure : Failure) : Quiet (Run.fail failure : Exec α) := fun _ => ⟨rfl, rfl⟩

theorem Quiet.abort (reason : Abort) : Quiet (Run.abort reason : Exec α) := fun _ => ⟨rfl, rfl⟩

theorem Quiet.get : Quiet (MonadState.get : Exec Context) := fun _ => ⟨rfl, rfl⟩

theorem Quiet.lift (x : Except Failure α) : Quiet (liftM x : Exec α) := by
  intro ctx
  rw [Run.lift_apply]
  exact ⟨rfl, rfl⟩

theorem Quiet.liftHalt (x : Except Halt α) : Quiet (liftM x : Exec α) := by
  intro ctx
  rw [Run.liftHalt_apply]
  exact ⟨rfl, rfl⟩

theorem Quiet.bind (hm : Quiet m) (hf : ∀ a, Quiet (f a)) : Quiet (m >>= f) := by
  intro ctx
  obtain ⟨hhost, hstack⟩ := hm ctx
  rcases hrun : m ctx with ⟨halt | a, mid⟩
  · rw [hrun] at hhost hstack
    rw [Run.bind_of_error hrun]
    exact ⟨hhost, hstack⟩
  · rw [hrun] at hhost hstack
    rw [Run.bind_of_ok hrun]
    obtain ⟨hhost', hstack'⟩ := hf a mid
    exact ⟨hhost'.trans hhost, hstack'.trans hstack⟩

theorem Quiet.note (n : Note) : Quiet (Context.note n) := fun _ => ⟨rfl, rfl⟩

theorem Quiet.onHeap (m : Run Region α) : Quiet (Context.onHeap m) := fun _ => ⟨rfl, rfl⟩

theorem Quiet.consult (point : FaultPoint) : Quiet (Context.consult point) := by
  intro ctx
  rcases consult_ends point ctx with ⟨_, _, hrun, -, hook, rfl⟩ | ⟨_, _, _, hrun, -, -, hook, rfl⟩
  · rw [hrun]
    exact ⟨rfl, rfl⟩
  · rw [hrun]
    exact ⟨rfl, rfl⟩

theorem Quiet.readSlot (slot len : Nat) : Quiet (Context.readSlot slot len) :=
  Quiet.get.bind fun _ => Quiet.lift _

/-- A read of an answer changes nothing at all. -/
theorem readAnswer_context (len : Nat) (ctx : Context) : (readAnswer len ctx).2 = ctx := by
  simp only [Context.readAnswer, Run.bind_apply, Run.lift_apply]
  cases checkAnswer len with
  | error failure => rfl
  | ok =>
    simp only [Run.mapError_ok, Run.get_apply]
    cases ctx.stack.calls.top? with
    | none => rfl
    | some top =>
      simp only [Context.readSlot, Run.bind_apply, Run.get_apply, Run.lift_apply]

theorem Quiet.readAnswer (len : Nat) : Quiet (Context.readAnswer len) := by
  intro ctx
  rw [readAnswer_context]
  exact ⟨rfl, rfl⟩

theorem Quiet.readCurrentAnswer (len : Nat) : Quiet (Context.readCurrentAnswer len) := by
  refine (Quiet.lift _).bind fun _ => Quiet.get.bind fun ctx => ?_
  cases ctx.stack.calls.answerSlot? with
  | none => exact Quiet.fail _
  | some slot => exact Quiet.readSlot _ _

/-! ## Runs that keep the stack faithful -/

/-- The host and the size of the region are the same, and the stack is faithful. Runs that keep this
can be put in a row, and every context on the way can be scanned after a crash. -/
structure Follows (ctx after : Context) : Prop where
  host_eq : after.host = ctx.host
  stack : ctx.stack.Follows after.stack

theorem Follows.refl (h : ctx.stack.Faithful) : Follows ctx ctx := ⟨rfl, h.follows⟩

theorem Follows.trans {mid : Context} (h₁ : Follows ctx mid) (h₂ : Follows mid after) :
    Follows ctx after :=
  ⟨h₂.host_eq.trans h₁.host_eq, h₁.stack.trans h₂.stack⟩

theorem Follows.of_stack_eq (h : ctx.stack.Faithful) (hhost : after.host = ctx.host)
    (hstack : after.stack = ctx.stack) : Follows ctx after :=
  ⟨hhost, by rw [hstack]; exact h.follows⟩

/-- The run keeps the stack faithful, however it ends. -/
def Keeps (m : Exec α) : Prop := ∀ ctx, ctx.stack.Faithful → Follows ctx (m ctx).2

/-- What begins behind a step follows what was in front of it. -/
theorem Keeps.follows {a : α} (hm : Keeps m) (hctx : ctx.stack.Faithful)
    (hrun : m ctx = (.ok a, after)) : Follows ctx after := by
  have hfollows := hm ctx hctx
  rw [hrun] at hfollows
  exact hfollows

theorem Quiet.keeps (h : Quiet m) : Keeps m := fun ctx hctx =>
  .of_stack_eq hctx (h ctx).1 (h ctx).2

theorem Keeps.bind (hm : Keeps m) (hf : ∀ a, Keeps (f a)) : Keeps (m >>= f) := by
  intro ctx hctx
  have hmid := hm ctx hctx
  rcases hrun : m ctx with ⟨halt | a, mid⟩
  · rw [hrun] at hmid
    rw [Run.bind_of_error hrun]
    exact hmid
  · rw [hrun] at hmid
    rw [Run.bind_of_ok hrun]
    exact hmid.trans (hf a mid hmid.stack.faithful)

theorem Keeps.discard (hm : Keeps m) : Keeps (Functor.discard m : Exec PUnit) := by
  rw [Run.discard_eq_bind]
  exact hm.bind fun _ => (Quiet.pure _).keeps

theorem Keeps.onStack {m : Run DurableStack α}
    (hm : ∀ s : DurableStack, s.Faithful → s.Follows (m s).2) :
    Keeps (Context.onStack m) := by
  intro ctx hctx
  rw [onStack_apply]
  exact ⟨rfl, hm ctx.stack hctx⟩

/-! ## Answers -/

/-- The context with bytes put into the slot of a frame. -/
def withSlot (ctx : Context) (p : Placed) (bytes : List UInt8) : Context :=
  { ctx with stack := ⟨ctx.stack.calls, ctx.stack.region.put p.position bytes⟩ }

variable {p : Placed} {bytes : List UInt8}

theorem withSlot_follows (h : ctx.stack.Faithful) (hp : p ∈ ctx.stack.calls.frames)
    (hlen : bytes.length ≤ 8) : Follows ctx (ctx.withSlot p bytes) :=
  ⟨rfl, h.put_slot hp hlen⟩

theorem writeSlot_apply (h : ctx.stack.Mirrored) (hp : p ∈ ctx.stack.calls.frames)
    (hlen : bytes.length ≤ 8) :
    writeSlot p.slotAt bytes ctx = (.ok (), ctx.withSlot p bytes) := by
  have hslot := h.slot_in hp
  have hpersist : DurableStack.persist p.slotAt bytes ctx.stack
      = (.ok (), ⟨ctx.stack.calls, ctx.stack.region.put p.position bytes⟩) :=
    persist_of_in (show p.position + bytes.length ≤ _ by omega)
  rw [writeSlot, onStack_apply, hpersist]
  rfl

/-- Only answers that fit a slot are let through. -/
theorem checkAnswer_ends (len : Nat) (ctx : Context) :
    (∃ failure, (liftM (checkAnswer len) : Exec Unit) ctx = (.error (.failed failure), ctx)) ∨
    ((liftM (checkAnswer len) : Exec Unit) ctx = (.ok (), ctx) ∧ len ≤ 8) := by
  by_cases hlen : len = 0 ∨ slotSize < len
  · refine .inl ⟨.answerSize len, ?_⟩
    rw [Run.lift_apply, checkAnswer, if_pos hlen, Run.mapError_error]
  · refine .inr ⟨?_, ?_⟩
    · rw [Run.lift_apply, checkAnswer, if_neg hlen, Run.mapError_ok]
    · simp only [slotSize] at hlen
      omega

/-- **How an answer ends**: it is refused, or it is in the slot of the caller and the hook
is consulted. -/
theorem writeAnswer_cases (h : ctx.stack.Mirrored) (bytes : List UInt8) :
    (∃ failure, writeAnswer bytes ctx = (.error (.failed failure), ctx)) ∨
    ∃ top below rest, ctx.stack.calls.frames = top :: below :: rest ∧ bytes.length ≤ 8 ∧
      writeAnswer bytes ctx = consult .afterAnswerWrite (ctx.withSlot below bytes) := by
  rcases checkAnswer_ends bytes.length ctx with ⟨failure, hrefused⟩ | ⟨hchecked, hlen⟩
  · exact .inl ⟨failure, Run.bind_of_error hrefused⟩
  · -- an answer needs a caller
    rw [writeAnswer, Run.bind_of_ok hchecked, Run.bind_of_ok (Run.get_apply ctx)]
    rcases hframes : ctx.stack.calls.frames with _ | ⟨top, _ | ⟨below, rest⟩⟩
    · simp only [CallStack.answerSlot?, hframes]
      exact .inl ⟨_, rfl⟩
    · simp only [CallStack.answerSlot?, hframes]
      exact .inl ⟨_, rfl⟩
    · have hmem := caller_mem hframes
      simp only [CallStack.answerSlot?, hframes]
      exact .inr ⟨top, below, rest, rfl, hlen, Run.bind_of_ok (writeSlot_apply h hmem hlen)⟩

/-! ## Frames -/

/-- What a call does before it pushes: nothing, or it fills the slot of its caller. -/
def Seeded (ctx after : Context) : Prop :=
  after = ctx ∨ ∃ top rest bytes, ctx.stack.calls.frames = top :: rest ∧ bytes.length ≤ 8 ∧
    after = ctx.withSlot top bytes

theorem Seeded.follows (h : Seeded ctx after) (hctx : ctx.stack.Faithful) : Follows ctx after := by
  rcases h with rfl | ⟨top, rest, bytes, hframes, hlen, rfl⟩
  · exact .refl hctx
  · exact withSlot_follows hctx (top_mem hframes) hlen

theorem Seeded.mirrored (h : Seeded ctx after) (hctx : ctx.stack.Mirrored) :
    after.stack.Mirrored := by
  rcases h with rfl | ⟨top, rest, bytes, hframes, hlen, rfl⟩
  · exact hctx
  · exact hctx.put_slot (top_mem hframes) hlen

theorem Seeded.frames_eq (h : Seeded ctx after) :
    after.stack.calls.frames = ctx.stack.calls.frames := by
  rcases h with rfl | ⟨top, rest, bytes, -, -, rfl⟩
  · rfl
  · rfl

/-- The slot of the caller is filled, or the seed is refused and nothing is written. -/
theorem seedCaller_cases (h : ctx.stack.Mirrored) (seed : Option (List UInt8)) :
    ∃ mid, Seeded ctx mid ∧ (seedCaller seed ctx = (.ok (), mid) ∨
      ∃ failure, seedCaller seed ctx = (.error (.failed failure), mid)) := by
  rcases checkAnswer_ends (seed.getD Slot.cleared.toList).length ctx with
    ⟨failure, hrefused⟩ | ⟨hchecked, hlen⟩
  · refine ⟨ctx, .inl rfl, .inr ⟨failure, ?_⟩⟩
    rw [seedCaller, Run.bind_of_error hrefused]
  · -- without a caller there is nothing to fill, and a seed is refused
    rw [seedCaller, Run.bind_of_ok hchecked, Run.bind_of_ok (Run.get_apply ctx)]
    rcases hframes : ctx.stack.calls.frames with _ | ⟨top, rest⟩
    · refine ⟨ctx, .inl rfl, ?_⟩
      simp only [CallStack.top?, hframes, List.head?_nil]
      cases seed.isSome with
      | true => exact .inr ⟨.noCallerFrame, rfl⟩
      | false => exact .inl rfl
    · have hmem := top_mem hframes
      refine ⟨ctx.withSlot top (seed.getD Slot.cleared.toList),
        .inr ⟨top, rest, _, hframes, hlen, rfl⟩, .inl ?_⟩
      simp only [CallStack.top?, hframes, List.head?_cons]
      rw [writeSlot_apply h hmem hlen]

/-- A push fails and changes nothing, or the frame is the top one. -/
theorem push_ends {frame : Frame} (h : ctx.stack.Mirrored) (hfits : frame.Fits)
    (seed : Option (List UInt8)) :
    (∃ failure, (Functor.discard (onStack (DurableStack.push frame seed)) : Exec PUnit) ctx
      = (.error (.failed failure), ctx)) ∨
    ∃ answer, nextPosition ctx.stack.calls.frames + frame.size ≤ ctx.stack.region.size ∧
      (Functor.discard (onStack (DurableStack.push frame seed)) : Exec PUnit) ctx
        = (.ok (), { ctx with stack := ctx.stack.pushed frame answer }) := by
  have honStack : ∀ {result stack}, DurableStack.push frame seed ctx.stack = (result, stack) →
      onStack (DurableStack.push frame seed) ctx = (result, { ctx with stack }) := by
    intro result stack hresult
    rw [onStack_apply, hresult]
  rcases push_cases h hfits seed with ⟨bytes, -, -, hpush⟩ | ⟨-, -, hpush⟩ |
    ⟨-, hroom, hpush⟩
  · exact .inl ⟨_, Run.discard_of_error (honStack hpush)⟩
  · exact .inl ⟨_, Run.discard_of_error (honStack hpush)⟩
  · exact .inr ⟨_, hroom, Run.discard_of_ok (honStack hpush)⟩

/-- The checks of a call come before anything is written: whether the mode allows it, whether the
function is known, and whether its frame can be made. Behind them the call seeds, pushes and runs.
-/
theorem enter_checks (request : CallRequest) (ctx : Context) :
    (∃ failure, enter request ctx = (.error (.failed failure), ctx)) ∨
    ∃ entry frame,
      Registry.entry ctx.host.registry request.name request.options.recover = .ok entry ∧
      Frame.make request.name request.args = .ok frame ∧
      enter request ctx = (do
        seedCaller request.options.callerSeed
        discard <| onStack (DurableStack.push frame request.options.calleeSeed)
        return entry : Exec EntryPoint) ctx := by
  obtain ⟨name, args, options⟩ := request
  rw [enter, Run.bind_of_ok (Run.get_apply ctx)]
  by_cases hmode : options.recover = true ∧ ctx.host.mode ≠ .recovery
  · simp only [if_pos hmode]
    exact .inl ⟨_, rfl⟩
  · simp only [if_neg hmode]
    cases hentry : Registry.entry ctx.host.registry name options.recover with
    | error failure => exact .inl ⟨failure, rfl⟩
    | ok entry =>
      cases hmade : Frame.make name args with
      | error failure => exact .inl ⟨failure, rfl⟩
      | ok frame => exact .inr ⟨entry, frame, rfl, rfl, rfl⟩

/-- **How a call begins**: it fails before its frame is pushed, or its function is found and
its frame is the top one. -/
theorem enter_cases (h : ctx.stack.Mirrored) (request : CallRequest) :
    (∃ failure mid, enter request ctx = (.error (.failed failure), mid) ∧ Seeded ctx mid) ∨
    ∃ entry frame answer mid,
      Registry.entry ctx.host.registry request.name request.options.recover = .ok entry ∧
      Frame.make request.name request.args = .ok frame ∧ Seeded ctx mid ∧
      nextPosition mid.stack.calls.frames + frame.size ≤ mid.stack.region.size ∧
      enter request ctx = (.ok entry, { mid with stack := mid.stack.pushed frame answer }) := by
  rcases enter_checks request ctx with ⟨failure, hrun⟩ | ⟨entry, frame, hentry, hmade, hrun⟩
  · exact .inl ⟨failure, ctx, hrun, .inl rfl⟩
  · obtain ⟨mid, hseeded, hseed | ⟨failure, hseed⟩⟩ :=
      seedCaller_cases h request.options.callerSeed
    · rw [hrun, Run.bind_of_ok hseed]
      have hfits := (Frame.make_eq_ok_iff.1 hmade).2
      rcases push_ends (hseeded.mirrored h) hfits request.options.calleeSeed with
        ⟨failure, hfailed⟩ | ⟨answer, hroom, hpushed⟩
      · exact .inl ⟨failure, mid, Run.bind_of_error hfailed, hseeded⟩
      · exact .inr ⟨entry, frame, answer, mid, hentry, hmade, hseeded, hroom,
          Run.bind_of_ok hpushed⟩
    · rw [hrun]
      exact .inl ⟨failure, mid, Run.bind_of_error hseed, hseeded⟩

theorem enter_keeps (request : CallRequest) : Keeps (enter request) := by
  intro ctx hctx
  rcases enter_cases hctx.mirrored request with ⟨_, mid, hrun, hseeded⟩ |
    ⟨entry, frame, answer, mid, -, hmade, hseeded, hroom, hrun⟩
  · rw [hrun]
    exact hseeded.follows hctx
  · have hmid := hseeded.follows hctx
    rw [hrun]
    exact hmid.trans ⟨rfl, hmid.stack.faithful.pushed (Frame.make_eq_ok_iff.1 hmade).2 answer hroom⟩

/-- The root is refused, or its frame is the only one. -/
theorem pushRoot_cases (h : ctx.stack.Mirrored) (name : String) :
    (∃ failure, pushRoot name ctx = (.error (.failed failure), ctx)) ∨
    ∃ frame answer, Frame.make name [] = .ok frame ∧
      nextPosition ctx.stack.calls.frames + frame.size ≤ ctx.stack.region.size ∧
      pushRoot name ctx = (.ok (), { ctx with stack := ctx.stack.pushed frame answer }) := by
  rw [pushRoot, Run.bind_of_ok (Run.get_apply ctx)]
  cases ctx.stack.calls.isEmpty with
  | false => exact .inl ⟨_, rfl⟩
  | true =>
    cases hmade : Frame.make name [] with
    | error failure => exact .inl ⟨failure, rfl⟩
    | ok frame =>
      rcases push_ends h (Frame.make_eq_ok_iff.1 hmade).2 none with hfailed | ⟨answer, hroom, hpush⟩
      · exact .inl hfailed
      · exact .inr ⟨frame, answer, rfl, hroom, hpush⟩

theorem pushRoot_keeps (name : String) : Keeps (pushRoot name) := by
  intro ctx hctx
  rcases pushRoot_cases hctx.mirrored name with ⟨_, hrun⟩ | ⟨frame, answer, hmade, hroom, hrun⟩
  · rw [hrun]
    exact .refl hctx
  · rw [hrun]
    exact ⟨rfl, hctx.pushed (Frame.make_eq_ok_iff.1 hmade).2 answer hroom⟩

/-- **How a call is left**: the only frame stays, and else the top one is gone. The mirror says that
the marker of the frame below has its place inside the region, so the pop cannot fail otherwise. -/
theorem popFrame_cases (h : ctx.stack.Mirrored) :
    (ctx.stack.calls.frames.length ≤ 1 ∧
      popFrame ctx = (.error (.failed .firstFrameRemoval), ctx)) ∨
    ∃ top below rest, ctx.stack.calls.frames = top :: below :: rest ∧
      popFrame ctx = (.ok (), { ctx with stack := ctx.stack.popped below rest }) := by
  rcases hframes : ctx.stack.calls.frames with _ | ⟨top, _ | ⟨below, rest⟩⟩
  · refine .inl ⟨Nat.zero_le _, Run.discard_of_error ?_⟩
    rw [onStack_apply, pop_of_nil hframes]
  · refine .inl ⟨Nat.le_refl _, Run.discard_of_error ?_⟩
    rw [onStack_apply, pop_of_one hframes]
  · refine .inr ⟨top, below, rest, rfl, Run.discard_of_ok (a := top) ?_⟩
    rw [onStack_apply, h.pop_of_two hframes]

theorem popFrame_keeps : Keeps popFrame := (Keeps.onStack fun _ => Faithful.pop).discard

end Context

end DurableCalls
