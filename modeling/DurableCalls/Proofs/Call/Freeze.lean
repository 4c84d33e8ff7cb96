/-
`Freeze.lean` -- a halt freezes the stack at the calls that are under way.

A call pushes its frame, runs its body and pops the frame. Where it returns, its caller's
frames are as they were, and where it halts they stand below one frame per active call
(`callWithin_tracked`). The induction is on how deep calls may nest. They never nest too
deep, because each has a frame on a cache line of its own.
-/
import DurableCalls.Proofs.Call.Bodies

set_option autoImplicit false

namespace DurableCalls

open CallStack Region DurableStack

namespace Context

variable {ctx mid after : Context} {under frames : List Placed} {p : Placed} {depth : Nat}
  {caller : Caller} {nested : StopsAs}

/-! ## Calls -/

theorem Seeded.grows (h : Seeded ctx after) (hfaithful : ctx.stack.Faithful) :
    Grows ctx.stack.calls.frames [] ctx after := by
  refine ⟨h.frames_eq, ?_⟩
  rcases h with rfl | ⟨top, rest, bytes, hframes, hlen, rfl⟩
  · exact .refl
  · have hslot := hfaithful.mirrored.slot_in (top_mem hframes)
    rw [hframes]
    exact Spares.put (show top.position + bytes.length ≤ _ by omega) (.inl ⟨rfl, hlen⟩)

/-- How a call ends whose body has returned: it halts with its frame in place, or the frame
is gone. -/
theorem Ready.leave_cases (h : Ready depth (p :: under) ctx) :
    (∃ halt after, (do consult .beforeFrameRemove; popFrame : Exec Unit) ctx
      = (.error halt, after) ∧ Grows under [] ctx after) ∨
    ∃ after, (do consult .beforeFrameRemove; popFrame : Exec Unit) ctx = (.ok (), after) ∧
      after.stack.calls.frames = under ∧ Spares under ctx.stack.region after.stack.region := by
  have hstack := (Quiet.consult .beforeFrameRemove ctx).2
  rcases hconsult : consult .beforeFrameRemove ctx with ⟨halt | ⟨⟩, mid⟩
  · rw [hconsult] at hstack
    exact .inl ⟨halt, mid, Run.bind_of_error hconsult, .of_stack_eq hstack⟩
  · rw [hconsult] at hstack
    rw [Run.bind_of_ok hconsult]
    have hfaithful : mid.stack.Faithful := by
      rw [hstack]
      exact h.faithful
    rcases popFrame_cases hfaithful.mirrored with ⟨-, hpop⟩ | ⟨top, below, rest, hframes, hpop⟩
    · exact .inl ⟨_, mid, hpop, .of_stack_eq hstack⟩
    · have hunder : below :: rest = under := by
        rw [hstack, h.frames_eq] at hframes
        exact (List.cons.inj hframes).2.symm
      refine .inr ⟨_, hpop, hunder, ?_⟩
      rw [← hstack, ← hunder]
      exact hfaithful.mirrored.spares_popped hframes

/-- A call that is refused leaves the frames alone. -/
theorem tracked_of_refused {request : CallRequest} {halt : Halt} {rest : EntryPoint → Exec Unit}
    (h : Ready depth frames ctx) (hrun : enter request ctx = (.error halt, mid))
    (hseeded : Seeded ctx mid) :
    Tracked frames (CallStops caller nested request ctx) (enter request >>= rest) ctx := by
  have hgrows := hseeded.grows h.faithful
  rw [h.frames_eq] at hgrows
  exact .of_halt (Run.bind_of_error hrun) hgrows (.refused hrun)

/-- The frame of a call that was entered is above those of before, and it is counted: what the
callee may nest in turn is one call less. Nothing below the new frame was written but the slot of
its caller. -/
theorem Ready.entered {request : CallRequest} {frame : Frame}
    (h : Ready (depth + 1) frames ctx) (hmade : Frame.make request.name request.args = .ok frame)
    (hseeded : Seeded ctx mid) (answer : Slot)
    (hroom : nextPosition mid.stack.calls.frames + frame.size ≤ mid.stack.region.size) :
    Ready depth (⟨frame, nextPosition mid.stack.calls.frames⟩ :: frames)
        { mid with stack := mid.stack.pushed frame answer } ∧
      Grows frames [⟨frame, nextPosition mid.stack.calls.frames⟩] ctx
        { mid with stack := mid.stack.pushed frame answer } := by
  have hmid := hseeded.follows h.faithful
  have hframes : mid.stack.calls.frames = frames := hseeded.frames_eq.trans h.frames_eq
  have hfits := (Frame.make_eq_ok_iff.1 hmade).2
  have hpushed := hmid.stack.trans (hmid.stack.faithful.pushed hfits answer hroom)
  have hgrows := hseeded.grows h.faithful
  rw [h.frames_eq] at hgrows
  refine ⟨⟨hpushed.faithful, ?_, ?_, ?_⟩, ?_, ?_⟩
  · rw [hmid.host_eq]
    exact h.propagates
  · show ⟨frame, nextPosition mid.stack.calls.frames⟩ :: mid.stack.calls.frames = _
    rw [hframes]
  · have hdeep := h.deep
    rw [depthBound] at hdeep ⊢
    rw [hpushed.size_eq, List.length_cons]
    omega
  · show ⟨frame, nextPosition mid.stack.calls.frames⟩ :: mid.stack.calls.frames = _
    rw [hseeded.frames_eq]
    rfl
  · refine hgrows.spares.trans ?_
    rw [← hframes]
    exact hmid.stack.faithful.mirrored.spares_pushed hroom

/-- From the push of its frame up to its end, a call is the outermost of the active ones. -/
theorem Ready.inside {request : CallRequest} {entry : EntryPoint} {start : Context}
    (hcaller : TracksCalls depth (callWithin depth) nested) (hentry : entry.Propagates)
    (hentering : enter request ctx = (.ok entry, start)) (h : Ready depth (p :: under) start) :
    Tracked under
      (fun active => CallStops (callWithin depth) nested request ctx
        (⟨request.name, request.args⟩ :: active))
      (do consult .afterFramePush; entry.run (callWithin depth) request.args) start := by
  have hconsult := Quiet.consult .afterFramePush
  refine h.bind hconsult.keeps ((hconsult.tracked start).mono ?_) fun hpass hrunning => ?_
  · rintro halt after active hrun rfl
    exact .entered hentering hrun
  · exact (entry_tracked (callWithin_keeps depth) hcaller entry hentry hrunning).mono
      fun _ _ hactive => .inBody hentering hpass hactive

/-- A call whose function was found, from the push of its frame on. Where it halts, its own frame is
below those of the calls that were going on in it; where it returns, that frame is popped. -/
theorem tracked_of_entered {request : CallRequest} {entry : EntryPoint} {start : Context}
    (hcaller : TracksCalls depth (callWithin depth) nested) (hentry : entry.Propagates)
    (hentering : enter request ctx = (.ok entry, start)) (hstart : Ready depth (p :: under) start)
    (hframe : p.frame = ⟨request.name, request.args⟩) (hunder : ctx.stack.calls.frames = under)
    (hgrows : Grows under [p] ctx start) :
    Tracked under (CallStops (callWithin depth) nested request ctx)
      (callWithin (depth + 1) request) ctx := by
  have hinside := hstart.inside hcaller hentry hentering
  rcases hbody : (do consult .afterFramePush; entry.run (callWithin depth) request.args :
    Exec Unit) start with ⟨halt | ⟨⟩, done⟩
  · obtain ⟨above, habove, hactive⟩ := hinside.halts hbody
    have hrun : callWithin (depth + 1) request ctx = (.error halt, done) := by
      rw [callWithin_succ, Run.bind_of_ok hentering, Run.bind_of_error hbody]
    refine .of_halt hrun (hgrows.trans habove) ?_
    rw [List.reverse_append, List.map_append, List.reverse_singleton, List.map_singleton, hframe]
    exact hactive
  · have hdone := hinside.returns hbody
    have hkeeps := (Quiet.consult .afterFramePush).keeps.bind fun _ =>
      entry.run_keeps (callWithin_keeps depth) request.args
    obtain ⟨⟨⟩, running, hpass, hrun⟩ := Run.exists_of_bind_ok hbody
    have hleave : callWithin (depth + 1) request ctx
        = (do consult .beforeFrameRemove; popFrame : Exec Unit) done := by
      rw [callWithin_succ, Run.bind_of_ok hentering, Run.bind_of_ok hbody]
    rcases (hstart.returns hkeeps hbody hdone).leave_cases with ⟨halt, after, hend, hgrows'⟩ |
      ⟨after, hend, hframes, hspares⟩
    · refine .of_halt (hleave.trans hend) ((hgrows.trans hdone).trans hgrows') ?_
      rw [List.nil_append, List.nil_append, List.reverse_singleton, List.map_singleton, hframe]
      exact .leaving hentering hpass hrun hend
    · refine .of_return (hleave.trans hend) ⟨?_, hgrows.spares.trans (hdone.spares.trans hspares)⟩
      rw [hframes, hunder, List.nil_append]

/-- **A call leaves its caller's frames, or it halts and adds those of the active calls.** The
induction is on how deep it may nest, and needs no bound of its own: at depth zero the region would
hold more frames than it has lines. -/
theorem callWithin_tracked (depth : Nat) :
    TracksCalls depth (callWithin depth) (StopsWithin depth) := by
  induction depth with
  | zero =>
    intro frames ctx request h
    -- there are no more frames than lines, and one
    have hcount := h.written.length_le
    have hdeep := h.deep
    rw [depthBound] at hdeep
    omega
  | succ depth ih =>
    intro frames ctx request h
    rcases enter_cases h.faithful.mirrored request with ⟨halt, mid, hrun, hseeded⟩ |
      ⟨entry, frame, answer, mid, hentry, hmade, hseeded, hroom, hentering⟩
    · rw [callWithin_succ]
      exact tracked_of_refused h hrun hseeded
    · obtain ⟨hstart, hgrows⟩ := h.entered hmade hseeded answer hroom
      exact tracked_of_entered ih (h.propagates.entry hentry) hentering hstart
        (Frame.make_eq_ok_iff.1 hmade).1 h.frames_eq hgrows

/-- **A halt freezes the stack at exactly the active calls.** Whatever a context over a blank
region went through before, a call that halts leaves the frames that were there, followed by
those of the calls under way where it stopped, and of no others. The region reads back as
these frames, and below the caller's end only its slot and its marker may have changed. -/
theorem call_freezes {host : Host} {thread : UInt32} {region : Region} {start : Context}
    {request : CallRequest} {halt : Halt} (hblank : region.Blank) (hroom : 13 ≤ region.size)
    (hmake : make host thread region = .ok start) (hreached : Reachable start ctx)
    (hpropagates : ctx.host.registry.Propagates) (hstop : call request ctx = (.error halt, after)) :
    ∃ above : List Placed,
      after.stack.calls.toList = ctx.stack.calls.toList ++ above ∧
      (∀ active, StopsWithin ctx.depthBound request ctx active ↔ active = above.map (·.frame)) ∧
      scan after.stack.region = .ok after.stack.calls ∧
      after.stack.region.size = ctx.stack.region.size ∧
      Spares ctx.stack.calls.frames ctx.stack.region after.stack.region := by
  have hstart : start.stack.Faithful := by
    rw [stack_of_make hmake]
    exact Fresh.faithful ⟨hblank, hroom, rfl⟩
  have hfaithful := hreached.faithful hstart
  have hready : Ready ctx.depthBound ctx.stack.calls.frames ctx :=
    ⟨hfaithful, hpropagates, rfl, Nat.le_add_left _ _⟩
  have hrun : callWithin ctx.depthBound request ctx = (.error halt, after) := by
    rw [call, Run.bind_of_ok (Run.get_apply ctx)] at hstop
    exact hstop
  obtain ⟨above, hgrows, hactive⟩ := (callWithin_tracked _ request hready).halts hrun
  have hfollows := callWithin_keeps ctx.depthBound request ctx hfaithful
  rw [hrun] at hfollows
  refine ⟨above.reverse, ?_, fun active => ⟨fun hother => ?_, ?_⟩,
    hfollows.stack.faithful.scan_eq, hfollows.stack.size_eq, hgrows.spares⟩
  · rw [CallStack.toList, hgrows.frames_eq, List.reverse_append]
    rfl
  · exact stopsWithin_unique _ _ _ _ _ hother hactive
  · rintro rfl
    exact hactive

/-- Answers with its arguments. -/
def answering : EntryPoint := .program (.act .answerArgs .done)

/-- Calls `g`, and then `h`. -/
def calling : EntryPoint :=
  .program (.act (.call "g" (some [1]) {}) (.act (.call "h" (some [2, 3]) {}) .done))

def threeFunctions : Registry :=
  ((Table.empty.insert "f" ⟨calling, calling⟩).insert "g" ⟨answering, answering⟩).insert "h"
    ⟨answering, answering⟩

theorem threeFunctions_propagates : threeFunctions.Propagates := by
  have hempty : Registry.Propagates .empty := fun _ _ hfind => by cases hfind
  have hcalling : calling.Propagates := trivial
  have hanswering : answering.Propagates := trivial
  exact ((hempty.insert "f" hcalling hcalling).insert "g" hanswering hanswering).insert "h"
    hanswering hanswering

/-- A context over the three lines. -/
def onThreeLines : Context where
  host := ⟨threeFunctions, .execution, 1⟩
  thread := 0
  stack := threeLines

theorem make_onThreeLines :
    make ⟨threeFunctions, .execution, 1⟩ 0 threeLines.region = .ok onThreeLines := rfl

/-- The same with a root frame, and with a hook that stops `h` before its frame goes. -/
def rooted : Context :=
  { (Operation.run (.pushRoot rootFunction) onThreeLines).2 with
    hook := some (.whenever fun point name => point = .beforeFrameRemove ∧ name = "h") }

theorem rooted_reachable : Reachable onThreeLines rooted :=
  (Reachable.start.step (.pushRoot rootFunction)).hooked _

theorem rooted_propagates : rooted.host.registry.Propagates := by
  have hregistry : rooted.host.registry = threeFunctions := by decide +kernel
  rw [hregistry]
  exact threeFunctions_propagates

/-- What is left of the call of `f`. -/
def frozen : Context := (call ⟨"f", [], {}⟩ rooted).2

theorem rooted_halts : (call ⟨"f", [], {}⟩ rooted).1
    = .error (.failed (.simulatedCrash .beforeFrameRemove "h")) := by
  decide +kernel

theorem rooted_stops : call ⟨"f", [], {}⟩ rooted
    = (.error (.failed (.simulatedCrash .beforeFrameRemove "h")), frozen) :=
  Prod.ext rooted_halts (by rw [frozen])

/-- The call of `g` has returned before, at the place where `h` is now. So what is frozen are the
calls that are going on, and not those that have been made. -/
theorem rooted_freezes :
    threeLines.region.Blank ∧ 13 ≤ threeLines.region.size ∧
    make ⟨threeFunctions, .execution, 1⟩ 0 threeLines.region = .ok onThreeLines ∧
    Reachable onThreeLines rooted ∧ rooted.host.registry.Propagates ∧
    frozen.stack.calls.toList.map (·.frame)
      = [⟨rootFunction, []⟩, ⟨"f", []⟩, ⟨"h", [2, 3]⟩] ∧
    ∃ above : List Placed,
      frozen.stack.calls.toList = rooted.stack.calls.toList ++ above ∧
      (∀ active, StopsWithin rooted.depthBound ⟨"f", [], {}⟩ rooted active ↔
        active = above.map (·.frame)) ∧
      scan frozen.stack.region = .ok frozen.stack.calls ∧
      frozen.stack.region.size = rooted.stack.region.size ∧
      Spares rooted.stack.calls.frames rooted.stack.region frozen.stack.region :=
  ⟨threeLines_fresh.blank, threeLines_fresh.room, make_onThreeLines, rooted_reachable,
    rooted_propagates, by decide +kernel,
    call_freezes threeLines_fresh.blank threeLines_fresh.room make_onThreeLines rooted_reachable
      rooted_propagates rooted_stops⟩

end Context

end DurableCalls
