/-
`Refused.lean` -- calls that are refused before they have a frame.

The checks of a call come in a fixed order: mode, name, fields, the length of the seed for
the caller's slot, the caller. All of them stand in front of the first write. Behind it, the
slot of the caller being seeded, come the two checks of the push: the length of the seed for
the callee's slot, and the room for the frame. So a refused call leaves the stack as it
found it, but for the slot of the caller where one of the last two refuses it
(`refused_call_keeps_iff`).
-/
import DurableCalls.Proofs.Context.Keeps
import DurableCalls.Proofs.Context.Stands
import DurableCalls.Proofs.Stack.Refinement

set_option autoImplicit false

namespace DurableCalls

open CallStack Region DurableStack

/-! ## Writing what is there -/

/-- A write changes a region unless the bytes of its range are those of the data. This is what makes
the conditions below exact: a filler over equal bytes leaves no trace. -/
theorem Region.put_eq_self_iff {r : Region} {offset : Nat} {data : List UInt8}
    (hin : offset + data.length ≤ r.size) :
    r.put offset data = r ↔ r.read offset data.length = .ok data := by
  constructor
  · intro h
    have hread := read_put_self hin
    rwa [h] at hread
  · intro h
    have hsame := (read_eq_ok_iff.1 h).2.2
    have hcells : overwrite r.cells offset data = r.cells := by
      refine Array.ext_getElem? fun i => ?_
      rw [getElem?_overwrite _ _ _ hin]
      by_cases hrange : offset ≤ i ∧ i < offset + data.length
      · rw [if_pos hrange, hsame (i - offset) (by omega), show offset + (i - offset) = i by omega]
      · rw [if_neg hrange]
    simp only [put, hcells]

/-! ## Sums that abort -/

/-- A computation whose only halts are aborts. -/
def NeverFails {α : Type} (x : Except Halt α) : Prop := ∀ f, x ≠ .error (.failed f)

namespace NeverFails

variable {α β : Type} {x : Except Halt α}

theorem ok (a : α) : NeverFails (.ok a : Except Halt α) := by
  intro f h
  cases h

theorem aborted (reason : Abort) : NeverFails (.error (.aborted reason) : Except Halt α) := by
  intro f h
  cases h

theorem bind {g : α → Except Halt β} (hx : NeverFails x) (hg : ∀ a, NeverFails (g a)) :
    NeverFails (x >>= g) := by
  intro f h
  cases x with
  | error halt =>
    cases h
    exact hx f rfl
  | ok a => exact hg a f h

theorem addWord (a b : Nat) : NeverFails (addWord a b) := by
  unfold DurableCalls.addWord
  split
  · exact ok _
  · exact aborted _

theorem alignUp (offset : Nat) : NeverFails (alignUp offset) :=
  (addWord offset lineSize).bind fun _ => ok _

theorem stop (calls : CallStack) : NeverFails calls.stop := by
  unfold CallStack.stop
  split
  · exact ok 0
  · exact addWord _ _

/-- A frame is put on top, or the thread is aborted. -/
theorem push (calls : CallStack) (p : Placed) : NeverFails (calls.push p) := by
  unfold CallStack.push
  split
  · exact ok _
  · refine bind (bind (addWord _ _) alignUp) fun next => ?_
    split
    · exact aborted _
    · exact ok _

end NeverFails

/-! ## A push that is refused -/

namespace DurableStack

variable {s t : DurableStack} {frame : Frame} {seed : Option (List UInt8)} {f : Failure}

/-- Why a push is refused: the seed is no answer, or the frame has no room at the place where
the next one starts. -/
inductive NoPush (s : DurableStack) (frame : Frame) : Option (List UInt8) → Failure → Prop
  | seed {bytes : List UInt8} (bad : ¬SeedFits (some bytes)) :
      NoPush s frame (some bytes) (.answerSize bytes.length)
  | room {seed : Option (List UInt8)} {stop position : Nat} (fits : SeedFits seed)
      (stop_eq : s.calls.stop = .ok stop) (position_eq : alignUp stop = .ok position)
      (outside : s.region.size < position + frame.size) :
      NoPush s frame seed (.outOfBounds position frame.size s.region.size)

theorem checkRoom_cases (s : DurableStack) (position size : Nat) :
    s.checkRoom position size = .error (.aborted .addOverflow) ∨
    (s.region.size < position + size ∧ s.checkRoom position size
      = .error (.failed (.outOfBounds position size s.region.size))) ∨
    (position + size ≤ s.region.size ∧ s.checkRoom position size = .ok ()) := by
  unfold checkRoom addWord
  by_cases hword : position + size < wordLimit
  · rw [if_pos hword]
    by_cases hroom : s.region.size < position + size
    · refine .inr (.inl ⟨hroom, ?_⟩)
      simp only [bind, Except.bind, if_pos hroom]
      rfl
    · refine .inr (.inr ⟨by omega, ?_⟩)
      simp only [bind, Except.bind, if_neg hroom]
      rfl
  · rw [if_neg hword]
    exact .inl rfl

/-- What comes behind the checks of a push does not fail: the frame has its room, and the
marker below it is inside the region too. -/
theorem placed_ne_failed {stop position : Nat} {bytes : List UInt8}
    (hroom : position + bytes.length ≤ s.region.size) (hstop : stop ≤ position)
    (hbytes : 0 < bytes.length) :
    ((do
      persist position bytes
      Run.update fun s => do return { s with calls := ← s.calls.push ⟨frame, position⟩ }
      if 1 < (← get).calls.depth then persist (stop - 1) [frameEnd]
      return position : Run DurableStack Nat) s).1 ≠ .error (.failed f) := by
  intro hfailed
  rw [Run.bind_of_ok (persist_of_in hroom), Run.bind_apply, Run.update_apply] at hfailed
  rcases hpush : s.calls.push ⟨frame, position⟩ with halt | calls
  · simp only [hpush] at hfailed
    cases hfailed
    exact NeverFails.push _ _ f hpush
  · -- the marker that is lowered lies before the frame, which has its room
    have hlower : stop - 1 + [frameEnd].length
        ≤ (⟨calls, s.region.put position bytes⟩ : DurableStack).region.size := by
      rw [size_put, List.length_singleton]
      omega
    simp only [hpush] at hfailed
    have hgo : ∀ mid : DurableStack, mid.region.size = s.region.size →
        ((do
          if 1 < (← get).calls.depth then persist (stop - 1) [frameEnd]
          return position : Run DurableStack Nat) mid).1 ≠ .error (.failed f) := by
      intro mid hsize h
      rw [Run.bind_of_ok (Run.get_apply mid)] at h
      split at h
      · rw [Run.bind_of_ok (persist_of_in (by rw [hsize, List.length_singleton]; omega))] at h
        cases h
      · cases h
    exact hgo _ (size_put _ _ _) hfailed

/-- **A push that fails has been refused**, and nothing is changed. Both reasons are checked in
front of the first write, and behind the checks nothing fails any more. -/
theorem push_failed (h : push frame seed s = (.error (.failed f), t)) :
    t = s ∧ NoPush s frame seed f := by
  rw [push] at h
  by_cases hfits : SeedFits seed
  · rw [Run.bind_of_ok (by rw [Run.lift_apply, seedSlot_of_fits hfits]; rfl),
      Run.bind_of_ok (Run.get_apply s)] at h
    -- the offsets may leave the word, and that is an abort and no failure
    rcases hstop : s.calls.stop with halt | stop
    · rw [Run.bind_of_error (by rw [Run.liftHalt_apply, hstop])] at h
      cases h
      exact absurd hstop (NeverFails.stop _ f)
    rw [Run.bind_of_ok (by rw [Run.liftHalt_apply, hstop])] at h
    rcases hposition : alignUp stop with halt | position
    · rw [Run.bind_of_error (by rw [Run.liftHalt_apply, hposition])] at h
      cases h
      exact absurd hposition (NeverFails.alignUp _ f)
    rw [Run.bind_of_ok (by rw [Run.liftHalt_apply, hposition]),
      Run.bind_of_ok (Run.get_apply s)] at h
    -- the room is the last thing that is checked
    rcases checkRoom_cases s position frame.size with hroom | ⟨hout, hroom⟩ | ⟨hin, hroom⟩
    · rw [Run.bind_of_error (by rw [Run.liftHalt_apply, hroom])] at h
      cases h
    · rw [Run.bind_of_error (by rw [Run.liftHalt_apply, hroom])] at h
      cases h
      exact ⟨rfl, .room hfits hstop hposition hout⟩
    · rw [Run.bind_of_ok (by rw [Run.liftHalt_apply, hroom])] at h
      refine absurd (congrArg Prod.fst h) (placed_ne_failed ?_ (le_of_alignUp hposition) ?_)
      · rw [Frame.length_encode]
        exact hin
      · have := frame.overhead_le_size
        rw [Frame.length_encode]
        simp only [Frame.overhead, slotSize] at this
        omega
  · obtain ⟨bytes, rfl⟩ : ∃ bytes, seed = some bytes := by
      cases seed with
      | none => exact absurd trivial hfits
      | some bytes => exact ⟨bytes, rfl⟩
    rw [Run.bind_of_error (by rw [Run.lift_apply, seedSlot_of_not_fits hfits]; rfl)] at h
    cases h
    exact ⟨rfl, .seed hfits⟩

end DurableStack

/-! ## A call that is refused -/

theorem Registry.entry_eq_error {r : Registry} {name : String} {recover : Bool} {f : Failure}
    (h : r.entry name recover = .error f) : r.find? name = none ∧ f = .unknownFunction name := by
  rw [entry] at h
  cases hfind : r.find? name with
  | none =>
    rw [hfind] at h
    exact ⟨rfl, (Except.error.inj h).symm⟩
  | some function =>
    rw [hfind] at h
    cases h

namespace Context

variable {ctx after : Context} {request : CallRequest} {failure : Failure} {p : Placed}

/-- Why a call is refused before it has a frame, and the frame whose slot has been seeded by
then. Only a push is refused behind the seeding. -/
inductive Refusal (ctx : Context) (request : CallRequest) : (seeded : Option Placed) →
    Failure → Prop
  | illegalRecovery (recover : request.options.recover = true) (mode : ctx.host.mode ≠ .recovery) :
      Refusal ctx request none .illegalRecoveryCall
  | unknownFunction (missing : ctx.host.registry.find? request.name = none) :
      Refusal ctx request none (.unknownFunction request.name)
  | oversized {f : Failure} (made : Frame.make request.name request.args = .error f) :
      Refusal ctx request none f
  | callerSeed (bad : ¬SeedFits (some (filler request.options))) :
      Refusal ctx request none (.answerSize (filler request.options).length)
  | noCaller (nobody : ctx.stack.calls.frames = [])
      (seeds : request.options.callerSeed.isSome = true) :
      Refusal ctx request none .noCallerFrame
  | slotOutside {caller : Placed} (top : ctx.stack.calls.top? = some caller)
      (outside : ctx.stack.region.size < caller.slotAt + (filler request.options).length) :
      Refusal ctx request none
        (.outOfBounds caller.slotAt (filler request.options).length ctx.stack.region.size)
  | noPush {frame : Frame} {f : Failure} (made : Frame.make request.name request.args = .ok frame)
      (refused : NoPush ctx.stack frame request.options.calleeSeed f) :
      Refusal ctx request ctx.stack.calls.top? f

/-- The slot of a frame is seeded, if there is a frame. -/
def seeding (ctx : Context) (options : CallOptions) : Option Placed → Context
  | none => ctx
  | some p => ctx.withSlot p (filler options)

theorem seedCaller_eq (options : CallOptions) :
    seedCaller options.callerSeed = (do
      liftM (checkAnswer (filler options).length)
      match (← get).stack.calls.top? with
      | some caller => writeSlot caller.slotAt (filler options)
      | none => if options.callerSeed.isSome then Run.fail .noCallerFrame : Exec Unit) := rfl

/-- How the caller's slot is seeded. Either its bytes are in the region, and they had room in the
slot and the region, or the seed is refused for one of the reasons of `Refusal` and nothing is done.
-/
theorem seedCaller_ends (ctx : Context) (request : CallRequest) :
    (∃ f, seedCaller request.options.callerSeed ctx = (.error (.failed f), ctx) ∧
      Refusal ctx request none f) ∨
    (seedCaller request.options.callerSeed ctx
        = (.ok (), ctx.seeding request.options ctx.stack.calls.top?) ∧
      SeedFits (some (filler request.options)) ∧
      ∀ p ∈ ctx.stack.calls.top?,
        p.slotAt + (filler request.options).length ≤ ctx.stack.region.size) := by
  by_cases hfits : SeedFits (some (filler request.options))
  · have hcheck : (liftM (checkAnswer (filler request.options).length) : Exec Unit) ctx
        = (.ok (), ctx) := by
      rw [Run.lift_apply, checkAnswer_of_le hfits.1 hfits.2]
      rfl
    rw [seedCaller_eq, Run.bind_of_ok hcheck, Run.bind_of_ok (Run.get_apply ctx)]
    -- a call from outside has no caller to seed
    cases htop : ctx.stack.calls.top? with
    | none =>
      have hnobody : ctx.stack.calls.frames = [] := List.head?_eq_none_iff.1 htop
      cases hseed : request.options.callerSeed.isSome with
      | true => exact .inl ⟨_, rfl, .noCaller hnobody hseed⟩
      | false => exact .inr ⟨rfl, hfits, fun _ hp => (nomatch hp)⟩
    | some caller =>
      have hwrite : writeSlot caller.slotAt (filler request.options) ctx
          = ((Region.write caller.slotAt (filler request.options) ctx.stack.region).1,
            { ctx with stack := ⟨ctx.stack.calls,
              (Region.write caller.slotAt (filler request.options) ctx.stack.region).2⟩ }) := by
        rw [writeSlot, onStack_apply, DurableStack.persist, persist_eq_write]
        rfl
      rw [write_apply] at hwrite
      by_cases hin : caller.slotAt + (filler request.options).length ≤ ctx.stack.region.size
      · rw [if_pos hin] at hwrite
        refine .inr ⟨hwrite, hfits, fun p hp => ?_⟩
        cases hp
        exact hin
      · rw [if_neg hin] at hwrite
        exact .inl ⟨_, hwrite, .slotOutside htop (by omega)⟩
  · have hcheck : (liftM (checkAnswer (filler request.options).length) : Exec Unit) ctx
        = (.error (.failed (.answerSize (filler request.options).length)), ctx) := by
      have hbad : (filler request.options).length = 0 ∨
          slotSize < (filler request.options).length := by
        simp only [SeedFits] at hfits
        omega
      rw [Run.lift_apply, checkAnswer, if_pos hbad]
      rfl
    exact .inl ⟨_, by rw [seedCaller_eq, Run.bind_of_error hcheck], .callerSeed hfits⟩

/-- The push asks for the room of the region, and seeding a slot does not change it. -/
theorem noPush_of_seeding {frame : Frame} {seed : Option (List UInt8)} {f : Failure}
    {options : CallOptions} {top : Option Placed}
    (h : NoPush (ctx.seeding options top).stack frame seed f) : NoPush ctx.stack frame seed f := by
  cases top with
  | none => exact h
  | some p =>
    cases h with
    | seed bad => exact .seed bad
    | room fits stop_eq position_eq outside =>
      have hsize : (ctx.seeding options (some p)).stack.region.size = ctx.stack.region.size :=
        size_put _ _ _
      rw [hsize] at outside ⊢
      exact .room fits stop_eq position_eq outside

/-- A push that is refused behind the seeding changes nothing more. What is left of such a call is
the filler in the caller's slot. -/
theorem pushSeeded_failed {frame : Frame} {options : CallOptions} {top : Option Placed}
    (h : (discard (onStack (DurableStack.push frame options.calleeSeed)) : Exec Unit)
      (ctx.seeding options top) = (.error (.failed failure), after)) :
    after = ctx.seeding options top ∧ NoPush ctx.stack frame options.calleeSeed failure := by
  have honStack := onStack_apply (DurableStack.push frame options.calleeSeed)
    (ctx.seeding options top)
  rcases hpush : DurableStack.push frame options.calleeSeed (ctx.seeding options top).stack with
    ⟨halt | position, stack⟩
  · rw [hpush] at honStack
    rw [Run.discard_of_error honStack] at h
    cases h
    obtain ⟨rfl, hrefused⟩ := push_failed hpush
    exact ⟨rfl, noPush_of_seeding hrefused⟩
  · rw [hpush] at honStack
    rw [Run.discard_of_ok honStack] at h
    cases h

/-- **Where a call is refused.** The filler may be in the caller's slot by then, because it is
written in front of the push; everything else is as it was. `seeded` is the frame with that slot, if
there is one. -/
theorem enter_failed (h : enter request ctx = (.error (.failed failure), after)) :
    ∃ seeded, Refusal ctx request seeded failure ∧ after = ctx.seeding request.options seeded ∧
      ∀ p ∈ seeded, SeedFits (some (filler request.options)) ∧
        p.slotAt + (filler request.options).length ≤ ctx.stack.region.size := by
  obtain ⟨name, args, options⟩ := request
  rw [enter, Run.bind_of_ok (Run.get_apply ctx)] at h
  -- in front of the seeding nothing is written, so nothing is seeded either
  by_cases hmode : options.recover = true ∧ ctx.host.mode ≠ .recovery
  · simp only [if_pos hmode] at h
    cases h
    exact ⟨none, .illegalRecovery hmode.1 hmode.2, rfl,
      fun _ hp => absurd hp (Option.not_mem_none _)⟩
  simp only [if_neg hmode] at h
  cases hentry : Registry.entry ctx.host.registry name options.recover with
  | error f =>
    obtain ⟨hfind, rfl⟩ := Registry.entry_eq_error hentry
    rw [hentry] at h
    cases h
    exact ⟨none, .unknownFunction hfind, rfl, fun _ hp => absurd hp (Option.not_mem_none _)⟩
  | ok entry =>
    rw [hentry] at h
    cases hmade : Frame.make name args with
    | error f =>
      rw [hmade] at h
      cases h
      exact ⟨none, .oversized hmade, rfl, fun _ hp => absurd hp (Option.not_mem_none _)⟩
    | ok frame =>
      rw [hmade] at h
      replace h : (do
          seedCaller options.callerSeed
          discard <| onStack (DurableStack.push frame options.calleeSeed)
          return entry : Exec EntryPoint) ctx = (.error (.failed failure), after) := h
      rcases seedCaller_ends ctx ⟨name, args, options⟩ with
        ⟨f, hseed, hrefusal⟩ | ⟨hseed, hfits, hin⟩
      · rw [Run.bind_of_error hseed] at h
        cases h
        exact ⟨none, hrefusal, rfl, fun _ hp => absurd hp (Option.not_mem_none _)⟩
      · rw [Run.bind_of_ok hseed] at h
        -- here the filler is in the slot already
        rcases hpush : (discard (onStack (DurableStack.push frame options.calleeSeed)) : Exec Unit)
            (ctx.seeding options ctx.stack.calls.top?) with ⟨halt | ⟨⟩, pushed⟩
        · rw [Run.bind_of_error hpush] at h
          cases h
          obtain ⟨rfl, hrefused⟩ := pushSeeded_failed hpush
          exact ⟨_, .noPush hmade hrefused, rfl, fun p hp => ⟨hfits, hin p hp⟩⟩
        · rw [Run.bind_of_ok hpush] at h
          cases h

/-- A refused call is its refusal: nothing comes behind it. -/
theorem call_of_refused (h : enter request ctx = (.error (.failed failure), after)) :
    call request ctx = (.error (.failed failure), after) := by
  rw [call, Run.bind_of_ok (Run.get_apply ctx), depthBound, callWithin, Run.bind_of_error h]

theorem withSlot_eq_self_iff {bytes : List UInt8}
    (hin : p.slotAt + bytes.length ≤ ctx.stack.region.size) :
    ctx.withSlot p bytes = ctx ↔ ctx.stack.region.read p.slotAt bytes.length = .ok bytes := by
  rw [← put_eq_self_iff hin]
  constructor
  · intro h
    exact congrArg (·.stack.region) h
  · intro h
    rw [withSlot, show p.position = p.slotAt from rfl, h]

/-- **What a refused call leaves.** A call that fails before its frame is pushed leaves the
calls, and every byte of the stack region outside the slot of its caller. It leaves no trace
at all unless the push refuses it: then the filler stands in the slot of the caller, and the
region is the one from before only if the filler stood there already. -/
theorem refused_call_keeps_iff (h : enter request ctx = (.error (.failed failure), after)) :
    call request ctx = (.error (.failed failure), after) ∧
    after.stack.calls = ctx.stack.calls ∧
    ∃ seeded, Refusal ctx request seeded failure ∧
      (∀ i, (∀ p ∈ seeded, i < p.slotAt ∨ p.slotAt + slotSize ≤ i) →
        after.stack.region.cells[i]? = ctx.stack.region.cells[i]?) ∧
      (∀ p ∈ seeded, after.stack.region.read p.slotAt (filler request.options).length
        = .ok (filler request.options)) ∧
      (after = ctx ↔ ∀ p ∈ seeded,
        ctx.stack.region.read p.slotAt (filler request.options).length
          = .ok (filler request.options)) := by
  refine ⟨call_of_refused h, ?_⟩
  obtain ⟨seeded, hrefusal, rfl, hseeded⟩ := enter_failed h
  cases seeded with
  | none =>
    exact ⟨rfl, none, hrefusal, fun i _ => rfl, fun _ hp => (nomatch hp),
      fun _ _ hp => (nomatch hp), fun _ => rfl⟩
  | some p =>
    obtain ⟨hfits, hin⟩ := hseeded p rfl
    refine ⟨rfl, some p, hrefusal, fun i hi => ?_, fun q hq => ?_, ?_⟩
    · have hbeside := hi p rfl
      exact (getElem?_overwrite _ _ _ hin i).trans (if_neg (by
        have := hfits.2
        omega))
    · cases hq
      exact read_put_self hin
    · rw [seeding, withSlot_eq_self_iff hin]
      constructor
      · intro hread q hq
        cases hq
        exact hread
      · intro hread
        exact hread p rfl

/-! ## An answer that a refused call takes away -/

/-- One function, which answers with the byte 7. -/
def answeringHost : Host where
  registry := Table.empty.insert "f" ⟨.program (.act (.answer [7]) .done), .program .done⟩
  mode := .execution
  threads := 1

/-- A root whose callee has answered. -/
def answered : Context :=
  (call ⟨"f", [], {}⟩ (pushRoot rootFunction ⟨answeringHost, 0, threeLines, none, none, []⟩).2).2

/-- The next call has an empty seed for its callee. -/
def emptySeed : CallRequest := ⟨"f", [], { calleeSeed := some [] }⟩

def afterEmptySeed : Context := (enter emptySeed answered).2

theorem emptySeed_refused :
    enter emptySeed answered = (.error (.failed (.answerSize 0)), afterEmptySeed) :=
  Prod.ext (by decide +kernel) (by rw [afterEmptySeed])

/-- The refused call is a misuse, and it has cleared the answer that stood in the slot of its
caller. -/
theorem emptySeed_clearsAnswer :
    call emptySeed answered = (.error (.failed (.answerSize 0)), afterEmptySeed) ∧
    (Failure.answerSize 0).isMisuse = true ∧
    afterEmptySeed.stack.calls = answered.stack.calls ∧
    answered.stack.region.read 0 8 = .ok [7, 255, 255, 255, 255, 255, 255, 255] ∧
    afterEmptySeed.stack.region.read 0 8 = .ok [255, 255, 255, 255, 255, 255, 255, 255] := by
  refine ⟨call_of_refused emptySeed_refused, rfl, by decide +kernel, ?_, ?_⟩
  · rw [read_eq_ok_iff]
    decide +kernel
  · rw [read_eq_ok_iff]
    decide +kernel

/-- Nothing else is changed. -/
theorem emptySeed_keeps :
    enter emptySeed answered = (.error (.failed (.answerSize 0)), afterEmptySeed) ∧
    call emptySeed answered = (.error (.failed (.answerSize 0)), afterEmptySeed) ∧
    afterEmptySeed.stack.calls = answered.stack.calls ∧
    ∃ seeded, Refusal answered emptySeed seeded (.answerSize 0) ∧
      (∀ i, (∀ p ∈ seeded, i < p.slotAt ∨ p.slotAt + slotSize ≤ i) →
        afterEmptySeed.stack.region.cells[i]? = answered.stack.region.cells[i]?) ∧
      (∀ p ∈ seeded, afterEmptySeed.stack.region.read p.slotAt (filler emptySeed.options).length
        = .ok (filler emptySeed.options)) ∧
      (afterEmptySeed = answered ↔ ∀ p ∈ seeded,
        answered.stack.region.read p.slotAt (filler emptySeed.options).length
          = .ok (filler emptySeed.options)) :=
  ⟨emptySeed_refused, refused_call_keeps_iff emptySeed_refused⟩

end Context

end DurableCalls
