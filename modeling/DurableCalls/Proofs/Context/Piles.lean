/-
`Piles.lean` -- frames on top of others, and the room that is left for more.

A push asks for room at the next cache line behind the last frame. So frames that are pushed
lie on lines of their own (`Piled`), whatever is below them, and a region has no more frames
pushed on it than it has lines, the last of which may be cut off (`Piled.length_lt`). Each push
uses up a line of the room that is left (`room_push`), and what is pushed and not popped never
gives it back (`Piled.room_le`).

A context is `Over` some frames if its own ones are piled on them. Nothing but a push and a pop
changes the frames (`Level`). A push puts its frame on the pile or fails and changes none
(`enter_ends`), and a pop takes the one on top (`Over.popFrame`).
-/
import DurableCalls.Proofs.Call.Guards
import DurableCalls.Proofs.Call.Refused
import DurableCalls.Proofs.Context.Frames

set_option autoImplicit false

namespace DurableCalls

open CallStack DurableStack

/-! ## Piles -/

namespace CallStack

variable {size : Nat} {base low high above frames : List Placed} {p : Placed}

/-- Frames on top of others, newest first: each starts on the next line behind those below it,
and ends inside so many bytes. -/
def Piled (size : Nat) (base : List Placed) : (above : List Placed) → Prop
  | [] => True
  | p :: above => p.position = nextPosition (above ++ base) ∧ p.past ≤ size ∧ Piled size base above

/-- A frame has a line of its own. -/
theorem nextPosition_push (hpos : p.position = nextPosition frames) :
    nextPosition frames + 64 ≤ nextPosition (p :: frames) := by
  have hover := p.overhead_le_past
  have hnext : nextPosition (p :: frames) = lineFrom p.past := rfl
  have hline : nextPosition frames = (endOf frames + 63) / 64 * 64 := rfl
  rw [hnext, lineFrom]
  omega

theorem endOf_lt_push (hpos : p.position = nextPosition frames) :
    endOf frames < endOf (p :: frames) := by
  have hover := p.overhead_le_past
  have hline : endOf frames ≤ nextPosition frames := le_lineFrom _
  show endOf frames < p.past
  omega

namespace Piled

theorem lines (h : Piled size base above) :
    nextPosition base + 64 * above.length ≤ nextPosition (above ++ base) := by
  induction above with
  | nil => exact Nat.le_refl _
  | cons p above ih =>
    have hbelow := ih h.2.2
    have hpush := nextPosition_push h.1
    rw [List.length_cons, List.cons_append]
    omega

/-- No more frames are pushed than there are lines, counting one that is cut off. -/
theorem length_lt (h : Piled size base above) : 64 * above.length < size + 64 := by
  cases above with
  | nil => simp
  | cons p above =>
    obtain ⟨hpos, hpast, hbelow⟩ := h
    have hlines := hbelow.lines
    have hover := p.overhead_le_past
    rw [List.length_cons]
    omega

/-- On top of any frame, no more frames are pushed than there are whole lines: the one that is
cut off comes for the frame below. -/
theorem length_le (h : Piled size base above) (hbase : base ≠ []) : 64 * above.length ≤ size := by
  cases above with
  | nil => exact Nat.zero_le _
  | cons p above =>
    obtain ⟨q, rest, rfl⟩ := List.exists_cons_of_ne_nil hbase
    obtain ⟨hpos, hpast, hbelow⟩ := h
    have hlines := hbelow.lines
    have hover := p.overhead_le_past
    have hbelowPast := q.overhead_le_past
    have hline : q.past ≤ nextPosition (q :: rest) := le_lineFrom _
    have hnext : nextPosition (q :: rest) = (q.past + 63) / 64 * 64 := rfl
    rw [List.length_cons]
    omega

theorem endOf_le (h : Piled size base above) : endOf base ≤ endOf (above ++ base) := by
  induction above with
  | nil => exact Nat.le_refl _
  | cons p above ih => exact Nat.le_of_lt (Nat.lt_of_le_of_lt (ih h.2.2) (endOf_lt_push h.1))

/-- Piles are put on each other. -/
theorem append (hlow : Piled size base low) (hhigh : Piled size (low ++ base) high) :
    Piled size base (high ++ low) := by
  induction high with
  | nil => exact hlow
  | cons p high ih =>
    obtain ⟨hpos, hpast, hbelow⟩ := hhigh
    rw [← List.append_assoc] at hpos
    exact ⟨hpos, hpast, ih hbelow⟩

end Piled

/-! ## Room -/

/-- How many frames have room on top of these, at most. -/
def room (size : Nat) (frames : List Placed) : Nat := (size + 63 - nextPosition frames) / 64

/-- A push uses up room. -/
theorem room_push (hpos : p.position = nextPosition frames) (hpast : p.past ≤ size) :
    room size (p :: frames) < room size frames := by
  have hnext := nextPosition_push hpos
  have hover := p.overhead_le_past
  unfold room
  omega

theorem Piled.room_le (h : Piled size base above) :
    room size (above ++ base) ≤ room size base := by
  have hlines := h.lines
  unfold room
  omega

theorem room_lt (size : Nat) (frames : List Placed) : room size frames < size / 64 + 2 := by
  unfold room
  omega

end CallStack

/-! ## Pushes and pops on any stack -/

namespace Halt

/-- Any halt but that of calls that nest too deep. -/
def Shallow (halt : Halt) : Prop := halt ≠ .aborted .callDepth

theorem Regular.shallow {halt : Halt} (h : halt.Regular) : halt.Shallow := by
  rintro rfl
  exact h

theorem shallow_failed (failure : Failure) : Shallow (.failed failure) := fun h => by cases h

theorem shallow_addOverflow : Shallow (.aborted .addOverflow) := fun h => by cases h

end Halt

namespace DurableStack

variable {frame : Frame} {seed : Option (List UInt8)}

/-- **A push is done or not at all.** It puts the frame on the next line and inside the region,
or it changes nothing. -/
theorem push_done_or_refused (s : DurableStack) (hfits : frame.Fits) (seed : Option (List UInt8)) :
    (∃ halt, push frame seed s = (.error halt, s) ∧ halt.Shallow) ∨
    ∃ answer, nextPosition s.calls.frames + frame.size ≤ s.region.size ∧
      push frame seed s = (.ok (nextPosition s.calls.frames), s.pushed frame answer) := by
  rcases hslot : seedSlot seed with failure | answer
  · exact .inl ⟨_, push_of_bad_seed hslot, Halt.shallow_failed _⟩
  by_cases hend : endOf s.calls.frames + 64 < wordLimit
  · rcases checkRoom_cases s (nextPosition s.calls.frames) frame.size with hcheck |
      ⟨-, hcheck⟩ | ⟨hroom, -⟩
    · exact .inl ⟨_, push_of_check_error hslot hend hcheck, Halt.shallow_addOverflow⟩
    · exact .inl ⟨_, push_of_check_error hslot hend hcheck, Halt.shallow_failed _⟩
    · have hle : endOf s.calls.frames ≤ nextPosition s.calls.frames := le_lineFrom _
      exact .inr ⟨answer, hroom, push_of_room hslot (by omega) hfits hroom⟩
  · -- where the stack ends so late, the next line is no word
    refine .inl ⟨.aborted .addOverflow, ?_, Halt.shallow_addOverflow⟩
    have hstop : s.calls.stop = .ok (endOf s.calls.frames) ∨
        s.calls.stop = .error (.aborted .addOverflow) := by
      obtain ⟨⟨_ | ⟨last, below⟩⟩, region⟩ := s
      · exact .inl rfl
      · by_cases hlast : last.past < wordLimit
        · exact .inl (addWord_eq hlast)
        · exact .inr (if_neg hlast)
    have halign : alignUp (endOf s.calls.frames) = .error (.aborted .addOverflow) := by
      have hover : ¬endOf s.calls.frames + lineSize < wordLimit := hend
      rw [alignUp, addWord, if_neg hover]
      rfl
    rcases hstop with hstop | hstop
    · simp only [push, Run.bind_apply, Run.lift_apply, Run.liftHalt_apply, Run.get_apply, hslot,
        Run.mapError_ok, hstop, halign]
    · simp only [push, Run.bind_apply, Run.lift_apply, Run.liftHalt_apply, Run.get_apply, hslot,
        Run.mapError_ok, hstop]

theorem persist_ends (s : DurableStack) (offset : Nat) (data : List UInt8) :
    (∃ failure, persist offset data s = (.error (.failed failure), s)) ∨
    persist offset data s = (.ok (), ⟨s.calls, s.region.put offset data⟩) := by
  by_cases hin : offset + data.length ≤ s.region.size
  · exact .inr (persist_of_in hin)
  · exact .inl ⟨_, persist_of_out (Nat.not_le.1 hin)⟩

/-- A pop leaves the region its size, also if its write fails. -/
theorem pop_ends (s : DurableStack) :
    (pop s).2.region.size = s.region.size ∧ ∀ halt, (pop s).1 = .error halt → halt.Shallow := by
  have hrefused : ∀ {halt t}, pop s = (.error halt, t) → t.region.size = s.region.size →
      halt.Shallow → (pop s).2.region.size = s.region.size ∧
        ∀ halt, (pop s).1 = .error halt → halt.Shallow := by
    intro halt t hrun hsize hshallow
    rw [hrun]
    refine ⟨hsize, fun halt' h => ?_⟩
    cases h
    exact hshallow
  rcases hframes : s.calls.frames with _ | ⟨last, _ | ⟨below, rest⟩⟩
  · exact hrefused (pop_of_nil hframes) rfl (Halt.shallow_failed _)
  · exact hrefused (pop_of_one hframes) rfl (Halt.shallow_failed _)
  · have hpop := pop_eq_of_two hframes
    -- the marker below may have no offset, or no room, and the frame is gone in both cases
    by_cases hstop : below.past < wordLimit
    · have hpast : below.stop = .ok below.past := addWord_eq hstop
      rw [hpast, Run.bind_of_ok (Run.liftHalt_apply _ _)] at hpop
      rcases persist_ends ⟨⟨below :: rest⟩, s.region⟩ (below.past - 1) [stackEnd] with
        ⟨failure, hwrite⟩ | hwrite
      · rw [Run.bind_of_error hwrite] at hpop
        exact hrefused hpop rfl (Halt.shallow_failed _)
      · rw [Run.bind_of_ok hwrite] at hpop
        rw [hpop]
        refine ⟨Region.size_put _ _ _, fun halt h => ?_⟩
        cases h
    · have hover : below.stop = .error (.aborted .addOverflow) := if_neg hstop
      rw [hover, Run.bind_of_error (Run.liftHalt_apply _ _)] at hpop
      exact hrefused hpop rfl Halt.shallow_addOverflow

end DurableStack

/-! ## Runs that leave the frames and the size of the region -/

namespace Context

variable {α β : Type} {m : Exec α} {f : α → Exec β} {ctx mid after : Context} {size : Nat}
  {base : List Placed} {p : Placed}

/-- The same frames over a region of the same size. -/
def Beside (ctx after : Context) : Prop :=
  framesOf after = framesOf ctx ∧ after.stack.region.size = ctx.stack.region.size

theorem Beside.trans (h : Beside ctx mid) (h' : Beside mid after) : Beside ctx after :=
  ⟨h'.1.trans h.1, h'.2.trans h.2⟩

/-- The run changes neither the frames nor the size of the region, and it meets no abort of
the call engine. -/
def Level (m : Exec α) : Prop := ∀ ctx, EndsIn (Beside ctx) Halt.Regular m ctx

namespace Level

theorem of_quiet (hquiet : Quiet m) (hregular : Run.Regular m) : Level m := by
  intro ctx
  refine ⟨⟨?_, ?_⟩, hregular ctx⟩
  · rw [framesOf, (hquiet ctx).2]
  · rw [(hquiet ctx).2]

theorem bind (hm : Level m) (hf : ∀ a, Level (f a)) : Level (m >>= f) := by
  intro ctx
  refine (hm ctx).bind id id fun a hmid => ?_
  exact (hf a _).mono hmid.trans id

theorem lift (x : Except Failure α) : Level (liftM x : Exec α) :=
  of_quiet (Quiet.lift x) (.lift x)

theorem get : Level (MonadState.get : Exec Context) := of_quiet Quiet.get .get

theorem pure (a : α) : Level (Pure.pure a : Exec α) := of_quiet (Quiet.pure a) fun _ => .ok a

theorem fail (failure : Failure) : Level (Run.fail failure : Exec α) :=
  of_quiet (Quiet.fail failure) (.fail failure)

theorem note (n : Note) : Level (Context.note n) := of_quiet (Quiet.note n) (note_regular n)

theorem onHeap {m : Run Region α} (hm : Run.Regular m) : Level (Context.onHeap m) :=
  of_quiet (Quiet.onHeap m) (onHeap_regular hm)

theorem consult (point : FaultPoint) : Level (Context.consult point) :=
  of_quiet (Quiet.consult point) (consult_regular point)

theorem readAnswer (len : Nat) : Level (Context.readAnswer len) :=
  of_quiet (Quiet.readAnswer len) (readAnswer_regular len)

theorem readCurrentAnswer (len : Nat) : Level (Context.readCurrentAnswer len) :=
  of_quiet (Quiet.readCurrentAnswer len) (readCurrentAnswer_regular len)

theorem writeSlot (slot : Nat) (bytes : List UInt8) : Level (Context.writeSlot slot bytes) := by
  intro ctx
  have hrun : Context.writeSlot slot bytes ctx = ((DurableStack.persist slot bytes ctx.stack).1,
      { ctx with stack := (DurableStack.persist slot bytes ctx.stack).2 }) := onStack_apply _ _
  rcases persist_ends ctx.stack slot bytes with ⟨failure, hwrite⟩ | hwrite
  · rw [hwrite] at hrun
    exact .of_error hrun ⟨rfl, rfl⟩ trivial
  · rw [hwrite] at hrun
    exact .of_ok hrun ⟨rfl, Region.size_put _ _ _⟩

theorem writeAnswer (bytes : List UInt8) : Level (Context.writeAnswer bytes) := by
  refine (Level.lift _).bind fun _ => Level.get.bind fun ctx => ?_
  split
  · exact .fail _
  · exact (Level.writeSlot _ _).bind fun _ => .consult _

theorem seedCaller (seed : Option (List UInt8)) : Level (Context.seedCaller seed) := by
  refine (Level.lift _).bind fun _ => Level.get.bind fun ctx => ?_
  split
  · exact .writeSlot _ _
  · split
    · exact .fail _
    · exact .pure _

end Level

/-- **How a call begins**, on any stack: its frame is on the next line, or it is refused and
there is none. -/
theorem enter_ends (request : CallRequest) (ctx : Context) :
    (∃ halt mid, enter request ctx = (.error halt, mid) ∧ Beside ctx mid ∧ halt.Shallow) ∨
    ∃ entry p mid, enter request ctx = (.ok entry, mid) ∧
      framesOf mid = p :: framesOf ctx ∧ mid.stack.region.size = ctx.stack.region.size ∧
      p.position = nextPosition (framesOf ctx) ∧ p.past ≤ ctx.stack.region.size := by
  rcases enter_checks request ctx with ⟨failure, hrun⟩ | ⟨entry, frame, -, hmade, hrun⟩
  · exact .inl ⟨_, ctx, hrun, ⟨rfl, rfl⟩, Halt.shallow_failed _⟩
  have hfits := (Frame.make_eq_ok_iff.1 hmade).2
  obtain ⟨⟨hframes, hsize⟩, hhalts⟩ := Level.seedCaller request.options.callerSeed ctx
  -- both the seeding and the push may halt, and neither has taken a frame then
  rcases hseed : seedCaller request.options.callerSeed ctx with ⟨halt | ⟨⟩, mid⟩
  · rw [hseed] at hframes hsize hhalts
    rw [hrun, Run.bind_of_error hseed]
    exact .inl ⟨halt, mid, rfl, ⟨hframes, hsize⟩, (hhalts halt rfl).shallow⟩
  · rw [hseed] at hframes hsize
    rw [hrun, Run.bind_of_ok hseed]
    have honStack := onStack_apply (DurableStack.push frame request.options.calleeSeed) mid
    rcases push_done_or_refused mid.stack hfits request.options.calleeSeed with
      ⟨halt, hpush, hshallow⟩ | ⟨answer, hroom, hpush⟩
    · rw [hpush] at honStack
      rw [Run.bind_of_error (Run.discard_of_error honStack)]
      exact .inl ⟨halt, mid, rfl, ⟨hframes, hsize⟩, hshallow⟩
    · rw [hpush] at honStack
      rw [Run.bind_of_ok (Run.discard_of_ok honStack)]
      have hframes' : mid.stack.calls.frames = ctx.stack.calls.frames := hframes
      refine .inr ⟨entry, ⟨frame, nextPosition mid.stack.calls.frames⟩, _, rfl, ?_, ?_, ?_, ?_⟩
      · rw [← hframes]
        rfl
      · exact (size_pushed _ _ _).trans hsize
      · rw [hframes']
      · rw [← hsize]
        exact hroom

/-! ## Contexts over frames -/

/-- The frames of the context are piled on these, in a region of this size. -/
def Over (size : Nat) (base : List Placed) (ctx : Context) : Prop :=
  ctx.stack.region.size = size ∧ ∃ above, framesOf ctx = above ++ base ∧ Piled size base above

namespace Over

theorem self (ctx : Context) : Over ctx.stack.region.size (framesOf ctx) ctx :=
  ⟨rfl, [], rfl, trivial⟩

theorem beside (h : Over size base ctx) (hbeside : Beside ctx after) : Over size base after := by
  obtain ⟨hsize, above, hframes, hpiled⟩ := h
  exact ⟨hbeside.2.trans hsize, above, hbeside.1.trans hframes, hpiled⟩

theorem trans (h : Over size base ctx) (h' : Over size (framesOf ctx) after) :
    Over size base after := by
  obtain ⟨-, low, hlow, hpiled⟩ := h
  obtain ⟨hsize, high, hhigh, hpiled'⟩ := h'
  rw [hlow] at hhigh hpiled'
  exact ⟨hsize, high ++ low, by rw [hhigh, List.append_assoc], hpiled.append hpiled'⟩

/-- What is over a frame on the next line is over the frames below it. -/
theorem below (h : Over size (p :: base) ctx) (hpos : p.position = nextPosition base)
    (hpast : p.past ≤ size) : Over size base ctx := by
  obtain ⟨hsize, above, hframes, hpiled⟩ := h
  have hone : Piled size base [p] := ⟨hpos, hpast, trivial⟩
  refine ⟨hsize, above ++ [p], ?_, hone.append hpiled⟩
  rw [hframes, List.append_assoc]
  rfl

theorem room_le (h : Over size base ctx) : room size (framesOf ctx) ≤ room size base := by
  obtain ⟨-, above, hframes, hpiled⟩ := h
  rw [hframes]
  exact hpiled.room_le

theorem endOf_le (h : Over size base ctx) : endOf base ≤ endOf (framesOf ctx) := by
  obtain ⟨-, above, hframes, hpiled⟩ := h
  rw [hframes]
  exact hpiled.endOf_le

/-- **A pop takes at most one frame off a pile**, so the frames that the call was made over
stay. -/
theorem popFrame (h : Over size (p :: base) ctx) (hpos : p.position = nextPosition base)
    (hpast : p.past ≤ size) : EndsIn (Over size base) Halt.Shallow popFrame ctx := by
  obtain ⟨hsize, hhalts⟩ := pop_ends ctx.stack
  have honStack := onStack_apply DurableStack.pop ctx
  have hrun : (Context.popFrame ctx).2.stack.region.size = ctx.stack.region.size ∧
      ∀ halt, (Context.popFrame ctx).1 = .error halt → halt.Shallow := by
    rcases hpop : DurableStack.pop ctx.stack with ⟨halt | last, t⟩
    · rw [hpop] at honStack hsize hhalts
      rw [Context.popFrame, Run.discard_of_error honStack]
      refine ⟨hsize, fun halt' hhalt => ?_⟩
      cases hhalt
      exact hhalts halt rfl
    · rw [hpop] at honStack hsize
      rw [Context.popFrame, Run.discard_of_ok honStack]
      exact ⟨hsize, fun halt hhalt => by cases hhalt⟩
  refine ⟨?_, hrun.2⟩
  rcases popFrame_frames ctx with ⟨-, halt, hkept⟩ | ⟨top, next, rest, hframes, hpopped⟩
  · rw [hkept]
    exact h.below hpos hpast
  · obtain ⟨hctx, above, habove, hpiled⟩ := h
    refine ⟨hrun.1.trans hctx, ?_⟩
    rw [hpopped]
    rw [hframes] at habove
    cases above with
    | nil =>
      -- the frame of the call itself
      rw [List.nil_append, List.cons.injEq] at habove
      exact ⟨[], habove.2, trivial⟩
    | cons q above =>
      -- a frame that a failed call has left
      rw [List.cons_append, List.cons.injEq] at habove
      have hone : Piled size base [p] := ⟨hpos, hpast, trivial⟩
      refine ⟨above ++ [p], ?_, hone.append hpiled.2.2⟩
      rw [habove.2, List.append_assoc]
      rfl

end Over

end Context

end DurableCalls
