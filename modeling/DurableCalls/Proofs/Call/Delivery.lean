/-
`Delivery.lean` -- what a call that returns leaves of its caller: its answer, and nothing else.

While a body runs in its frame, the slot of its caller *shows* what the call was begun with,
under the answers that the body has given by then (`Shows`). One lemma for each kind of step
says what the step does to this slot. A nested call has a frame of its own to answer to, so it
leaves the slot alone, whatever is called in it. The rest follows along the points of the body,
and the last step of the call, which pops its frame, writes one marker behind the slot.
-/
import DurableCalls.Proofs.Call.Answers
import DurableCalls.Proofs.Call.Cramped
import DurableCalls.Proofs.Call.Refused
import DurableCalls.Proofs.Stack.Overlay

set_option autoImplicit false

namespace DurableCalls

open CallStack Region DurableStack Slot

namespace Context

variable {depth : Nat} {frames under rest : List Placed} {p c : Placed} {slot bytes : List UInt8}
  {ctx mid after point start : Context} {request : CallRequest} {args : List UInt8}
  {given : List (List UInt8)}

theorem Ready.mem_frames (h : Ready depth frames ctx) (hp : p ∈ frames) :
    p ∈ ctx.stack.calls.frames := by
  rw [h.frames_eq]
  exact hp

theorem size_withSlot (ctx : Context) (p : Placed) (bytes : List UInt8) :
    (ctx.withSlot p bytes).stack.region.size = ctx.stack.region.size := size_put _ _ _

/-- What is put into a slot leaves everything in order. -/
theorem Ready.withSlot (h : Ready depth frames ctx) (hp : p ∈ frames)
    (hlen : bytes.length ≤ slotSize) : Ready depth frames (ctx.withSlot p bytes) := by
  have hfollows := withSlot_follows h.faithful (h.mem_frames hp) hlen
  refine ⟨hfollows.stack.faithful, h.propagates, h.frames_eq, ?_⟩
  rw [depthBound, size_withSlot]
  exact h.deep

/-- A context with these frames, in which the slot of one of them holds these bytes. This is what is
followed through the body of a call: for the caller of the body it is what the call delivers. -/
structure Shows (depth : Nat) (frames : List Placed) (c : Placed) (slot : List UInt8)
    (ctx : Context) : Prop where
  ready : Ready depth frames ctx
  mem : c ∈ frames
  read_eq : ctx.stack.region.read c.position slotSize = .ok slot

namespace Shows

theorem length_eq (h : Shows depth frames c slot ctx) : slot.length = slotSize :=
  (read_eq_ok_iff.1 h.read_eq).2.1

/-- A frame has a slot, whatever it holds. -/
theorem exists_of_ready (hready : Ready depth frames ctx) (hmem : c ∈ frames) :
    ∃ slot, Shows depth frames c slot ctx := by
  obtain ⟨slot, hread⟩ := exists_read (hready.faithful.mirrored.slot_in (hready.mem_frames hmem))
  exact ⟨slot, hready, hmem, hread⟩

/-! ## Reading the slot -/

theorem readSlot (h : Shows depth frames c slot ctx) {len : Nat} (hmax : len ≤ slotSize) :
    readSlot c.slotAt len ctx = (.ok (slot.take len), ctx) := by
  have hpart := read_part h.read_eq (show 0 + len ≤ slotSize by omega)
  rw [Nat.add_zero, List.drop_zero] at hpart
  exact readSlot_of_read hpart

/-- The caller reads it when it is on top again. -/
theorem readAnswer (h : Shows depth (c :: rest) c slot ctx) {len : Nat} (hpos : 1 ≤ len)
    (hmax : len ≤ slotSize) : readAnswer len ctx = (.ok (slot.take len), ctx) := by
  have htop : ctx.stack.calls.top? = some c := by
    rw [CallStack.top?, h.ready.frames_eq]
    rfl
  rw [Context.readAnswer, checkAnswer_of_le hpos hmax, Run.bind_of_ok (Run.lift_apply _ ctx),
    Run.bind_of_ok (Run.get_apply ctx)]
  simp only [htop]
  exact h.readSlot hmax

/-- The callee reads it as its current answer. -/
theorem readCurrentAnswer (h : Shows depth (p :: c :: rest) c slot ctx) {len : Nat}
    (hpos : 1 ≤ len) (hmax : len ≤ slotSize) :
    readCurrentAnswer len ctx = (.ok (slot.take len), ctx) := by
  have hslot : ctx.stack.calls.answerSlot? = some c.slotAt := by
    rw [CallStack.answerSlot?, h.ready.frames_eq]
  rw [Context.readCurrentAnswer, checkAnswer_of_le hpos hmax,
    Run.bind_of_ok (Run.lift_apply _ ctx), Run.bind_of_ok (Run.get_apply ctx)]
  simp only [hslot]
  exact h.readSlot hmax

/-! ## Steps of a body -/

theorem quiet {α : Type} {m : Exec α} {a : α} (h : Shows depth frames c slot ctx) (hm : Quiet m)
    (hrun : m ctx = (.ok a, mid)) : Shows depth frames c slot mid := by
  have hstack := (hm ctx).2
  rw [hrun] at hstack
  have hgrows : Grows frames [] ctx mid := .of_stack_eq hstack
  refine ⟨h.ready.returns hm.keeps hrun hgrows, h.mem, ?_⟩
  rw [show mid.stack = ctx.stack from hstack]
  exact h.read_eq

/-- Bytes that are put into the slot go over the first ones that it shows. -/
theorem withSlot (h : Shows depth frames c slot ctx) (hlen : bytes.length ≤ slotSize) :
    Shows depth frames c (overlay slot bytes) (ctx.withSlot c bytes) :=
  ⟨h.ready.withSlot h.mem hlen, h.mem, read_put_overlay h.read_eq hlen⟩

/-- **An answer of the callee goes over the slot of its caller.** It fits there, or it would have
been refused, and its bytes replace the first ones that the slot shows. The frames stay. -/
theorem answer (h : Shows depth (p :: c :: rest) c slot ctx)
    (hrun : writeAnswer bytes ctx = (.ok (), mid)) :
    AnswersFit [bytes] ∧ Shows depth (p :: c :: rest) c (overlay slot bytes) mid := by
  -- that an answer is not empty is checked first, and says nothing of the slot
  have hpos : 1 ≤ bytes.length := by
    obtain ⟨⟨⟩, _, hcheck, -⟩ := Run.exists_of_bind_ok hrun
    rw [Run.lift_apply, checkAnswer] at hcheck
    split at hcheck
    next => cases hcheck
    next hfits => omega
  rcases writeAnswer_cases h.ready.faithful.mirrored bytes with ⟨failure, hrefused⟩ |
    ⟨top, below, rest', hframes, hlen, hwrite⟩
  · rw [hrefused] at hrun
    cases hrun
  · -- the frame below the top one is the caller
    rw [h.ready.frames_eq] at hframes
    cases hframes
    rw [hwrite] at hrun
    exact ⟨answersFit_cons.2 ⟨⟨hpos, hlen⟩, answersFit_nil⟩,
      (h.withSlot hlen).quiet (Quiet.consult .afterAnswerWrite) hrun⟩

/-- **A nested call leaves every slot below the frame that makes it**, however deep it nests and
whatever its callees answer. -/
theorem nested (h : Shows depth (p :: under) c slot ctx) (hc : c ∈ under)
    (hrun : callWithin depth request ctx = (.ok (), mid)) :
    Shows depth (p :: under) c slot mid := by
  have hgrows := (callWithin_tracked depth request h.ready).returns hrun
  have hfollows := (callWithin_keeps depth request).follows h.ready.faithful hrun
  -- the slot lies in a frame that ends where the one of the caller begins, or before
  have hwritten := h.ready.written
  have hpast : c.past ≤ endOf under := hwritten.2.2.2.past_le_endOf hc
  have hbelow : endOf under ≤ p.position := hwritten.endOf_le_position
  have hover := c.overhead_le_past
  have hover' := p.overhead_le_past
  have hagree : Agree c.position (c.position + slotSize) ctx.stack.region mid.stack.region := by
    refine ⟨hfollows.stack.size_eq, fun i _ hi => hgrows.spares i ?_ ?_⟩
    · simp only [slotSize] at hi
      omega
    · simp only [slotSize] at hi ⊢
      omega
  refine ⟨h.ready.returns (callWithin_keeps depth request) hrun hgrows, h.mem, ?_⟩
  rw [read_of_agree hagree]
  exact h.read_eq

/-- An action does to the slot what it answers. An answer is laid over its first bytes. No other
action touches it, for a call that the frame makes is answered to the frame itself. -/
theorem action {action : Action} (h : Shows depth (p :: c :: rest) c slot ctx)
    (hrun : Program.runAction (callWithin depth) args action ctx = (.ok (), mid)) :
    AnswersFit (action.given args ctx) ∧
      Shows depth (p :: c :: rest) c (overlayAll slot (action.given args ctx)) mid := by
  cases action with
  | note text => exact ⟨answersFit_nil, h.quiet (Quiet.note _) hrun⟩
  | noteArgs => exact ⟨answersFit_nil, h.quiet (Quiet.note _) hrun⟩
  | noteNames => exact ⟨answersFit_nil, h.quiet (Quiet.get.bind fun _ => Quiet.note _) hrun⟩
  | answer bytes => exact h.answer hrun
  | answerArgs => exact h.answer hrun
  | noteAnswer len =>
    exact ⟨answersFit_nil, h.quiet ((Quiet.readAnswer len).bind fun _ => Quiet.note _) hrun⟩
  | noteCurrent len =>
    exact ⟨answersFit_nil, h.quiet ((Quiet.readCurrentAnswer len).bind fun _ => Quiet.note _) hrun⟩
  | passAnswer len =>
    -- what is answered is what the action has read from the slot of its own frame
    obtain ⟨bytes, read, hread, hwrite⟩ := Run.exists_of_bind_ok hrun
    have hgiven : (Action.passAnswer len).given args ctx = [bytes] := by
      simp only [Action.given, hread]
      rfl
    rw [hgiven]
    exact (h.quiet (Quiet.readAnswer len) hread).answer hwrite
  | call name own options => exact ⟨answersFit_nil, h.nested List.mem_cons_self hrun⟩
  | fail message => exact ⟨answersFit_nil, h.quiet (Quiet.fail _) hrun⟩
  | raise message => exact ⟨answersFit_nil, h.quiet (Quiet.abort _) hrun⟩
  | noteHeap offset len =>
    exact ⟨answersFit_nil, h.quiet ((Quiet.onHeap _).bind fun _ => Quiet.note _) hrun⟩
  | writeHeap offset bytes => exact ⟨answersFit_nil, h.quiet (Quiet.onHeap _) hrun⟩

theorem step {body next : Program} (h : Shows depth (p :: c :: rest) c slot ctx)
    (hstep : Program.Step (callWithin depth) args body ctx given next mid) :
    AnswersFit given ∧ Shows depth (p :: c :: rest) c (overlayAll slot given) mid := by
  cases hstep with
  | action run => exact h.action run
  | branch => exact ⟨answersFit_nil, h⟩
  | answered reading => exact ⟨answersFit_nil, h.quiet (Quiet.readCurrentAnswer 1) reading⟩

/-- **Every point of a program shows its answers**, by induction on the way to it. Between two of
them it may make calls. Those answer to the frame of the program itself, and the slot that is shown
belongs to the frame below. -/
theorem passes {body left : Program} (h : Shows depth (p :: c :: rest) c slot ctx)
    (hpasses : body.Passes (callWithin depth) args ctx given left point) :
    AnswersFit given ∧ Shows depth (p :: c :: rest) c (overlayAll slot given) point := by
  induction hpasses generalizing slot with
  | here => exact ⟨answersFit_nil, h⟩
  | step first _ ih =>
    obtain ⟨hfirst, hmid⟩ := h.step first
    obtain ⟨hmore, hpoint⟩ := ih hmid
    rw [overlayAll_append]
    exact ⟨answersFit_append.2 ⟨hfirst, hmore⟩, hpoint⟩

/-- A task answers nothing, and the call that it makes has the slot of the task to answer to. -/
theorem callsOnce {entry : Builtin} (h : Shows depth (p :: c :: rest) c slot ctx)
    (hcalls : entry.CallsOnce (callWithin depth) args ctx)
    (hrun : entry.run (callWithin depth) args ctx = (.ok (), mid)) :
    Shows depth (p :: c :: rest) c slot mid := by
  rcases hcalls with ⟨-, m, hquiet, heq⟩ | ⟨request, t, -, heq⟩
  · exact h.quiet hquiet (heq.symm.trans hrun)
  · rw [heq] at hrun
    obtain ⟨⟨⟩, called, hcall, hpublish⟩ := Run.exists_of_bind_ok hrun
    exact (h.nested List.mem_cons_self hcall).quiet (Builtin.publishAnswer_quiet t) hpublish

theorem upToAnswer {entry : Builtin} {answer : Option (List UInt8)}
    (h : Shows depth (p :: c :: rest) c slot ctx)
    (hrun : entry.upToAnswer (callWithin depth) args ctx = (.ok answer, mid)) :
    Shows depth (p :: c :: rest) c slot mid := by
  -- a swap works on the heap, and the answer is what is left to give
  have hswap : ∀ (a : SwapArgs) (m : Swap → Run Region Bool), Quiet (do
      let yes ← onHeap (m (Builtin.swapOf (← get) a))
      return some (Builtin.verdict yes) : Exec (Option (List UInt8))) := fun a m =>
    Quiet.get.bind fun _ => (Quiet.onHeap _).bind fun _ => Quiet.pure _
  cases entry with
  | swap => exact h.quiet ((Quiet.lift _).bind fun a => hswap a Swap.attempt) hrun
  | recoverSwap =>
    refine h.quiet ((Quiet.lift _).bind fun a => (Quiet.readCurrentAnswer 1).bind fun bytes => ?_)
      hrun
    by_cases hanswered : Builtin.answerByte bytes ≤ 1
    · simp only [if_pos hanswered]
      exact Quiet.pure _
    · simp only [if_neg hanswered]
      exact hswap a Swap.recover
  | task =>
    obtain ⟨⟨⟩, ran, htask, hpure⟩ := Run.exists_of_bind_ok hrun
    exact (h.callsOnce (Builtin.task_callsOnce _ args ctx) htask).quiet (Quiet.pure _) hpure
  | recoverTask =>
    obtain ⟨⟨⟩, ran, htask, hpure⟩ := Run.exists_of_bind_ok hrun
    exact (h.callsOnce (Builtin.recoverTask_callsOnce _ args ctx) htask).quiet (Quiet.pure _) hpure

theorem entryPasses {entry left : EntryPoint} (h : Shows depth (p :: c :: rest) c slot ctx)
    (hpasses : entry.Passes (callWithin depth) args ctx given left point) :
    AnswersFit given ∧ Shows depth (p :: c :: rest) c (overlayAll slot given) point := by
  cases hpasses with
  | inProgram passes => exact h.passes passes
  | atStart => exact ⟨answersFit_nil, h⟩
  | behind run passes => exact (h.upToAnswer run).passes passes

end Shows

/-! ## Calls -/

/-- **How a call is entered**: the slot of its caller is filled, and the frame of the callee is
pushed above it. -/
theorem enter_ok {entry : EntryPoint} (h : ctx.stack.Mirrored)
    (hframes : ctx.stack.calls.frames = c :: rest) (hrun : enter request ctx = (.ok entry, start)) :
    AnswersFit [filler request.options] ∧
    Registry.entry ctx.host.registry request.name request.options.recover = .ok entry ∧
    ∃ frame answer, Frame.make request.name request.args = .ok frame ∧
      nextPosition ctx.stack.calls.frames + frame.size ≤ ctx.stack.region.size ∧
      start = { ctx with
        stack := (ctx.withSlot c (filler request.options)).stack.pushed frame answer } := by
  have htop : ctx.stack.calls.top? = some c := by
    rw [CallStack.top?, hframes]
    rfl
  rcases enter_checks request ctx with ⟨failure, hrefused⟩ | ⟨entry', frame, hentry, hmade, heq⟩
  · rw [hrefused] at hrun
    cases hrun
  · rw [heq] at hrun
    obtain ⟨⟨⟩, seeded, hseeds, hrest⟩ := Run.exists_of_bind_ok hrun
    obtain ⟨⟨⟩, pushed, hpushes, hlast⟩ := Run.exists_of_bind_ok hrest
    cases hlast
    rcases seedCaller_ends ctx request with ⟨failure, hrefused, -⟩ | ⟨hseeded, hfits, -⟩
    · rw [hrefused] at hseeds
      cases hseeds
    rw [hseeded, htop] at hseeds
    cases hseeds
    have hmirrored : (ctx.withSlot c (filler request.options)).stack.Mirrored :=
      h.put_slot (top_mem hframes) hfits.2
    -- the push is made on a stack whose slot was filled, so the mirror has to outlive that
    rcases push_ends hmirrored (Frame.make_eq_ok_iff.1 hmade).2 request.options.calleeSeed with
      ⟨failure, hrefused⟩ | ⟨answer, hroom, hpushed⟩
    · exact absurd (hrefused.symm.trans hpushes) (by rintro ⟨⟩)
    · refine ⟨answersFit_cons.2 ⟨hfits, answersFit_nil⟩, hentry, frame, answer, hmade, ?_, ?_⟩
      · rw [size_withSlot] at hroom
        exact hroom
      · exact (Prod.mk.inj (hpushed.symm.trans hpushes)).2.symm

namespace Shows

/-- A callee begins with the filler of its call over what the slot of its caller held. -/
theorem enter {entry : EntryPoint} (h : Shows (depth + 1) (c :: rest) c slot ctx)
    (hrun : enter request ctx = (.ok entry, start)) :
    AnswersFit [filler request.options] ∧ entry.Propagates ∧
      ∃ p, Shows depth (p :: c :: rest) c (overlay slot (filler request.options)) start := by
  obtain ⟨hfits, hentry, frame, answer, hmade, hroom, rfl⟩ :=
    enter_ok h.ready.faithful.mirrored h.ready.frames_eq hrun
  have hlen := (answersFit_cons.1 hfits).1.2
  have hseeded := h.withSlot hlen
  have hroom' : nextPosition (ctx.withSlot c (filler request.options)).stack.calls.frames
      + frame.size ≤ (ctx.withSlot c (filler request.options)).stack.region.size := by
    rw [size_withSlot]
    exact hroom
  have hready := (h.ready.entered hmade (.inr ⟨c, rest, _, h.ready.frames_eq, hlen, rfl⟩) answer
    hroom').1
  refine ⟨hfits, h.ready.propagates.entry hentry, _, hready, List.mem_cons_of_mem _ h.mem, ?_⟩
  -- the slot lies below the marker of its frame, which is the first byte that a push changes
  have hover := c.overhead_le_past
  have hend : endOf (ctx.withSlot c (filler request.options)).stack.calls.frames = c.past := by
    rw [hseeded.ready.frames_eq]
    rfl
  have hagree : Agree c.position (c.position + slotSize)
      (ctx.withSlot c (filler request.options)).stack.region
      ((ctx.withSlot c (filler request.options)).stack.pushed frame answer).region :=
    hseeded.ready.faithful.mirrored.agree_pushed hroom' (by rw [hend, slotSize]; omega)
  rw [read_of_agree hagree]
  exact hseeded.read_eq

theorem begins {entry : EntryPoint} (h : Shows (depth + 1) (c :: rest) c slot ctx)
    (hbegins : Begins request ctx entry start) :
    AnswersFit [filler request.options] ∧ entry.Propagates ∧
      ∃ p, Shows depth (p :: c :: rest) c (overlay slot (filler request.options)) start := by
  obtain ⟨mid, hentering, hpassing⟩ := hbegins
  obtain ⟨hfits, hentry, p, hmid⟩ := h.enter hentering
  exact ⟨hfits, hentry, p, hmid.quiet (Quiet.consult .afterFramePush) hpassing⟩

/-- **Every point of a callee shows its answers** in the slot of its caller, laid over the filler
that was written before the callee began. At each of these points the callee's frame is right above
the caller's. -/
theorem passesWithin {left : EntryPoint} (h : Shows (depth + 1) (c :: rest) c slot ctx)
    (hpasses : PassesWithin (depth + 1) request ctx given left point) :
    AnswersFit (filler request.options :: given) ∧
      ∃ p, Shows depth (p :: c :: rest) c
        (overlayAll slot (filler request.options :: given)) point := by
  obtain ⟨begins, passes⟩ := hpasses
  obtain ⟨hfits, -, p, hstart⟩ := h.begins begins
  obtain ⟨hgiven, hpoint⟩ := hstart.entryPasses passes
  exact ⟨answersFit_cons.2 ⟨(answersFit_cons.1 hfits).1, hgiven⟩, p, hpoint⟩

/-- The pop of a callee's frame writes the marker of its caller, which lies behind the slot. So what
the callee has answered is still there when the call returns. -/
theorem leave (h : Shows depth (p :: c :: rest) c slot ctx)
    (hrun : popFrame ctx = (.ok (), after)) :
    after.stack.region.read c.position slotSize = .ok slot := by
  have hmirrored := h.ready.faithful.mirrored
  rcases popFrame_cases hmirrored with ⟨-, hrefused⟩ | ⟨top, below, rest', hframes, hpop⟩
  · rw [hrefused] at hrun
    cases hrun
  · rw [hpop] at hrun
    cases hrun
    rw [h.ready.frames_eq] at hframes
    cases hframes
    -- the marker of the caller is the only byte that a pop writes
    have hin : c.past ≤ ctx.stack.region.size := h.ready.written.2.2.2.endOf_le
    have hover := c.overhead_le_past
    have hagree : Agree c.position (c.position + slotSize) ctx.stack.region
        (ctx.stack.popped c rest).region := agree_popped hin (by rw [slotSize]; omega)
    rw [read_of_agree hagree]
    exact h.read_eq

/-- **A call that returns delivers its callee's answers**, over its filler. They are the answers up
to the end of the callee's body; behind it the pop writes one marker, which lies behind the slot. -/
theorem returns (h : Shows (depth + 1) (c :: rest) c slot ctx)
    (hrun : callWithin (depth + 1) request ctx = (.ok (), after)) :
    ∃ given, Answers (depth + 1) request ctx given ∧
      AnswersFit (filler request.options :: given) ∧
      Shows (depth + 1) (c :: rest) c
        (overlayAll slot (filler request.options :: given)) after := by
  have hready := h.ready.returns (callWithin_keeps _ request) hrun
    ((callWithin_tracked _ request h.ready).returns hrun)
  rw [callWithin_succ] at hrun
  obtain ⟨entry, entered, hentering, hrun⟩ := Run.exists_of_bind_ok hrun
  obtain ⟨⟨⟩, done, hbody, hleave⟩ := Run.exists_of_bind_ok hrun
  obtain ⟨⟨⟩, running, hpassing, hbody⟩ := Run.exists_of_bind_ok hbody
  obtain ⟨⟨⟩, leaving, hconsult, hpop⟩ := Run.exists_of_bind_ok hleave
  have hbegins : Begins request ctx entry running := ⟨entered, hentering, hpassing⟩
  obtain ⟨-, hentry, -⟩ := h.begins hbegins
  obtain ⟨given, hpasses⟩ := (EntryPoint.run_eq_ok_iff hentry).1 hbody
  -- the end of the body is the last of the points of the call, and the pop comes behind it
  have hanswers : PassesWithin (depth + 1) request ctx given .ended done := ⟨hbegins, hpasses⟩
  obtain ⟨hfits, p, hdone⟩ := h.passesWithin hanswers
  have hread := (hdone.quiet (Quiet.consult .beforeFrameRemove) hconsult).leave hpop
  exact ⟨given, ⟨done, hanswers⟩, hfits, hready, h.mem, hread⟩

end Shows

/-! ## Contexts over a blank region -/

variable {host : Host} {thread : UInt32} {region : Region} {caller : Placed}

/-- A frame has had room, so the region is not too small for any. -/
theorem Reachable.room_of_top (hmake : make host thread region = .ok start)
    (hreached : Reachable start ctx) (hcaller : ctx.stack.calls.top? = some caller) :
    13 ≤ region.size := by
  by_contra hroom
  have hstack := stack_of_make hmake
  have hcramped : start.stack.Cramped := by
    rw [hstack]
    exact ⟨rfl, Nat.lt_of_not_le hroom⟩
  rw [hreached.stack_of_cramped hcramped, hstack] at hcaller
  cases hcaller

/-- Everything is in order where a frame is on top, and the frame is counted. -/
theorem Reachable.ready_of_top (hblank : region.Blank) (hmake : make host thread region = .ok start)
    (hreached : Reachable start ctx) (hpropagates : ctx.host.registry.Propagates)
    (hcaller : ctx.stack.calls.top? = some caller) :
    ∃ rest, Ready ctx.depthBound (caller :: rest) ctx := by
  have hfaithful := hreached.faithful_of_blank hblank (hreached.room_of_top hmake hcaller) hmake
  obtain ⟨rest, hframes⟩ := List.head?_eq_some_iff.1 hcaller
  exact ⟨rest, hfaithful, hpropagates, hframes, Nat.le_add_left _ _⟩

/-- So its slot shows something. -/
theorem Reachable.shows_of_top (hblank : region.Blank) (hmake : make host thread region = .ok start)
    (hreached : Reachable start ctx) (hpropagates : ctx.host.registry.Propagates)
    (hcaller : ctx.stack.calls.top? = some caller) :
    ∃ rest slot, Shows ctx.depthBound (caller :: rest) caller slot ctx := by
  obtain ⟨rest, hready⟩ := hreached.ready_of_top hblank hmake hpropagates hcaller
  obtain ⟨slot, hshows⟩ := Shows.exists_of_ready hready List.mem_cons_self
  exact ⟨rest, slot, hshows⟩

/-- The slot as a caller reads the whole of it. -/
theorem Shows.readWhole (h : Shows depth (c :: rest) c slot ctx) :
    Context.readAnswer slotSize ctx = (.ok slot, ctx) := by
  have hread := h.readAnswer (show 1 ≤ slotSize by decide) (Nat.le_refl _)
  rw [List.take_of_length_le (Nat.le_of_eq h.length_eq)] at hread
  exact hread

/-- A slot that was cleared shows nothing of what it held. -/
theorem overlayAll_cleared (h : slot.length = slotSize) (answers : List (List UInt8)) :
    overlayAll slot (filler {} :: answers)
      = overlayAll (List.replicate slotSize unanswered) answers := by
  have hfiller : filler {} = List.replicate slotSize unanswered := toList_cleared
  have hlen : slot.length = (List.replicate slotSize unanswered).length := by
    rw [h, List.length_replicate]
  rw [overlayAll_cons, hfiller, overlay_of_length_le (Nat.le_of_eq hlen)]

/-- **A call delivers what its callee has answered by itself.** The byte strings that the callee
gives in its own frame are read off its program, and the calls that it makes give none of them.
In the order of the program they go over a cleared slot: the caller reads the whole of it when
the call has returned, and the callee reads at each of its points what it has given by then. -/
theorem call_delivers (hblank : region.Blank) (hmake : make host thread region = .ok start)
    (hreached : Reachable start ctx) (hpropagates : ctx.host.registry.Propagates)
    (hcaller : ctx.stack.calls.top? = some caller) (hdefault : request.options = {})
    (hcall : call request ctx = (.ok (), after)) :
    ∃ given : List (List UInt8),
      (∀ other, Answers ctx.depthBound request ctx other ↔ other = given) ∧ AnswersFit given ∧
      after.stack.calls.top? = some caller ∧
      readAnswer slotSize after
        = (.ok (overlayAll (List.replicate slotSize unanswered) given), after) ∧
      ∀ sofar left point, PassesWithin ctx.depthBound request ctx sofar left point →
        sofar <+: given ∧
        ∀ len, 1 ≤ len → len ≤ slotSize → readCurrentAnswer len point
          = (.ok ((overlayAll (List.replicate slotSize unanswered) sofar).take len), point) := by
  obtain ⟨rest, slot, hshows⟩ := hreached.shows_of_top hblank hmake hpropagates hcaller
  have hcleared := fun answers => overlayAll_cleared hshows.length_eq answers
  rw [← hdefault] at hcleared
  rw [call_apply] at hcall
  -- a context has room for one call at least
  obtain ⟨depth, hdepth⟩ : ∃ depth, ctx.depthBound = depth + 1 := ⟨_, rfl⟩
  rw [hdepth] at hshows hcall ⊢
  obtain ⟨given, hanswers, hfits, hafter⟩ := hshows.returns hcall
  have hread := hafter.readWhole
  rw [hcleared] at hread
  refine ⟨given, fun other => ⟨hanswers.unique, ?_⟩, (answersFit_cons.1 hfits).2, ?_, hread, ?_⟩
  · rintro rfl
    exact hanswers
  · rw [CallStack.top?, hafter.ready.frames_eq]
    rfl
  · intro sofar left point hpasses
    obtain ⟨-, p, hpoint⟩ := hshows.passesWithin hpasses
    refine ⟨hpasses.prefix_of_answers hanswers, fun len hpos hmax => ?_⟩
    rw [← hcleared]
    exact hpoint.readCurrentAnswer hpos hmax

/-- Answers, calls `g`, and answers again with fewer bytes. -/
def answeringTwice : EntryPoint :=
  .program (.act (.answer [1, 2, 3]) (.act (.call "g" (some [8, 8, 8, 8]) {})
    (.act (.answer [7]) .done)))

def answeringFunctions : Registry :=
  (Table.empty.insert "f" ⟨answeringTwice, answeringTwice⟩).insert "g" ⟨answering, answering⟩

theorem answeringFunctions_propagates : answeringFunctions.Propagates := by
  have hempty : Registry.Propagates .empty := fun _ _ hfind => by cases hfind
  have htwice : answeringTwice.Propagates := trivial
  have hanswering : answering.Propagates := trivial
  exact (hempty.insert "f" htwice htwice).insert "g" hanswering hanswering

/-- A context over the three lines, with a root frame. -/
def overThreeLines : Context where
  host := ⟨answeringFunctions, .execution, 1⟩
  thread := 0
  stack := threeLines

theorem make_overThreeLines :
    make ⟨answeringFunctions, .execution, 1⟩ 0 threeLines.region = .ok overThreeLines := rfl

def withRoot : Context := (Operation.run (.pushRoot rootFunction) overThreeLines).2

theorem withRoot_reachable : Reachable overThreeLines withRoot :=
  Reachable.start.step (.pushRoot rootFunction)

theorem withRoot_propagates : withRoot.host.registry.Propagates := by
  have hregistry : withRoot.host.registry = answeringFunctions := by decide +kernel
  rw [hregistry]
  exact answeringFunctions_propagates

theorem withRoot_top : withRoot.stack.calls.top? = some ⟨⟨rootFunction, []⟩, 0⟩ := by
  decide +kernel

/-- Behind the call of `f`. -/
def delivered : Context := (call ⟨"f", [], {}⟩ withRoot).2

theorem withRoot_returns : call ⟨"f", [], {}⟩ withRoot = (.ok (), delivered) :=
  Prod.ext (by decide +kernel) (by rw [delivered])

/-- The answer of `g` is not in what `f` delivers. The second answer of `f` goes over the first byte
of its first one, and the bytes that it has not written are cleared. -/
theorem withRoot_delivers :
    threeLines.region.Blank ∧
    make ⟨answeringFunctions, .execution, 1⟩ 0 threeLines.region = .ok overThreeLines ∧
    Reachable overThreeLines withRoot ∧ withRoot.host.registry.Propagates ∧
    withRoot.stack.calls.top? = some ⟨⟨rootFunction, []⟩, 0⟩ ∧
    call ⟨"f", [], {}⟩ withRoot = (.ok (), delivered) ∧
    (readAnswer slotSize delivered).1 = .ok [7, 2, 3, 255, 255, 255, 255, 255] ∧
    ∃ given : List (List UInt8),
      (∀ other, Answers withRoot.depthBound ⟨"f", [], {}⟩ withRoot other ↔ other = given) ∧
      AnswersFit given ∧ delivered.stack.calls.top? = some ⟨⟨rootFunction, []⟩, 0⟩ ∧
      readAnswer slotSize delivered
        = (.ok (overlayAll (List.replicate slotSize unanswered) given), delivered) ∧
      ∀ sofar left point, PassesWithin withRoot.depthBound ⟨"f", [], {}⟩ withRoot sofar left point →
        sofar <+: given ∧
        ∀ len, 1 ≤ len → len ≤ slotSize → readCurrentAnswer len point
          = (.ok ((overlayAll (List.replicate slotSize unanswered) sofar).take len), point) :=
  ⟨threeLines_fresh.blank, make_overThreeLines, withRoot_reachable, withRoot_propagates,
    withRoot_top, withRoot_returns, by decide +kernel,
    call_delivers threeLines_fresh.blank make_overThreeLines withRoot_reachable withRoot_propagates
      withRoot_top rfl withRoot_returns⟩

/-! ## What else is below the end of the caller -/

/-- **A call that returns touches one slot of its callers.** Every byte below the end of the
caller is what it was, but for those of the caller's own slot; the caller's frame ends the stack
again, and the frames are those of before. -/
theorem call_touches_one_slot (hblank : region.Blank) (hmake : make host thread region = .ok start)
    (hreached : Reachable start ctx) (hpropagates : ctx.host.registry.Propagates)
    (hcaller : ctx.stack.calls.top? = some caller) (hcall : call request ctx = (.ok (), after)) :
    after.stack.calls = ctx.stack.calls ∧ after.stack.region.size = ctx.stack.region.size ∧
    ∃ stop marker, caller.stop = .ok stop ∧ caller.markerAt = .ok marker ∧
      after.stack.region.readByte marker = .ok stackEnd ∧
      ∀ i, i < stop → ¬(caller.slotAt ≤ i ∧ i < caller.slotAt + slotSize) →
        after.stack.region.cells[i]? = ctx.stack.region.cells[i]? := by
  obtain ⟨rest, hready⟩ := hreached.ready_of_top hblank hmake hpropagates hcaller
  rw [call_apply] at hcall
  have hgrows := (callWithin_tracked _ request hready).returns hcall
  have hafter := hready.returns (callWithin_keeps _ request) hcall hgrows
  have hsize := ((callWithin_keeps _ request).follows hready.faithful hcall).stack.size_eq
  -- before and after the call, the caller is stored as the end of the stack
  have hbefore := hready.written
  have hbehind := hafter.written
  have hspares := hgrows.spares
  have hword : caller.past < wordLimit :=
    Nat.lt_of_le_of_lt (Nat.le_add_right _ 64) hbefore.endOf_add_lt
  have hmark := hbefore.2.2.1.getElem?_marker
  have hmark' := hbehind.2.2.1.getElem?_marker
  refine ⟨congrArg CallStack.mk hgrows.frames_eq, hsize, caller.past, caller.past - 1,
    addWord_eq hword, Placed.markerAt_eq_ok hword, readByte_of_getElem? hmark', fun i hi hout => ?_⟩
  -- the marker is lowered and put back, and what lies in front of it is spared
  by_cases hlast : i = caller.past - 1
  · rw [hlast, hmark, hmark']
  · exact hspares i (by omega) hout

/-- A call with a filler of its own, behind the one that has delivered. -/
def refilled : Context := (call ⟨"g", [5], { callerSeed := some [1, 2] }⟩ delivered).2

theorem delivered_returns :
    call ⟨"g", [5], { callerSeed := some [1, 2] }⟩ delivered = (.ok (), refilled) :=
  Prod.ext (by decide +kernel) (by rw [refilled])

theorem delivered_touches :
    Reachable overThreeLines delivered ∧ delivered.host.registry.Propagates ∧
    delivered.stack.calls.top? = some ⟨⟨rootFunction, []⟩, 0⟩ ∧
    call ⟨"g", [5], { callerSeed := some [1, 2] }⟩ delivered = (.ok (), refilled) ∧
    (readAnswer slotSize refilled).1 = .ok [5, 2, 3, 255, 255, 255, 255, 255] ∧
    refilled.stack.calls = delivered.stack.calls ∧
    refilled.stack.region.size = delivered.stack.region.size ∧
    ∃ stop marker, Placed.stop ⟨⟨rootFunction, []⟩, 0⟩ = .ok stop ∧
      Placed.markerAt ⟨⟨rootFunction, []⟩, 0⟩ = .ok marker ∧
      refilled.stack.region.readByte marker = .ok stackEnd ∧
      ∀ i, i < stop → ¬(0 ≤ i ∧ i < 0 + slotSize) →
        refilled.stack.region.cells[i]? = delivered.stack.region.cells[i]? := by
  have hreached : Reachable overThreeLines delivered :=
    withRoot_reachable.step (.call ⟨"f", [], {}⟩)
  have hregistry : delivered.host.registry = answeringFunctions := by decide +kernel
  have hpropagates : delivered.host.registry.Propagates := by
    rw [hregistry]
    exact answeringFunctions_propagates
  have htop : delivered.stack.calls.top? = some ⟨⟨rootFunction, []⟩, 0⟩ := by decide +kernel
  exact ⟨hreached, hpropagates, htop, delivered_returns, by decide +kernel,
    call_touches_one_slot threeLines_fresh.blank make_overThreeLines hreached hpropagates htop
      delivered_returns⟩

end Context

end DurableCalls
