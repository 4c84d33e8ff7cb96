/-
`Frames.lean` -- what a run does to the frames of its thread, whatever the region holds.

A region may hold anything, and a scan may find frames in it of which it is no true image: the
writes of a push or a pop may then fall anywhere, and they may fail halfway. But what the
thread sees is changed by a push and a pop alone, and everything else leaves it (`Still`). A
push that returns has put one frame on top, and one that fails has done that or nothing
(`Pushes`). A pop takes one frame away, also if its write fails (`popFrame_frames`).
-/
import DurableCalls.Proofs.Call.Stops

set_option autoImplicit false

namespace DurableCalls

open CallStack

/-! ## Still runs, and pushes -/

namespace Run

variable {σ α β : Type} {frames : σ → List Placed} {m : Run σ α} {f : α → Run σ β} {s : σ}

/-- The run leaves the frames, however it ends. -/
def Still (frames : σ → List Placed) (m : Run σ α) : Prop := ∀ s, frames (m s).2 = frames s

theorem Still.pure (a : α) : Still frames (Pure.pure a) := fun _ => rfl

theorem Still.get : Still frames (MonadState.get : Run σ σ) := fun _ => rfl

theorem Still.fail (failure : Failure) : Still frames (Run.fail failure : Run σ α) := fun _ => rfl

theorem Still.lift (x : Except Failure α) : Still frames (liftM x : Run σ α) := by
  intro s
  rw [Run.lift_apply]

theorem Still.liftHalt (x : Except Halt α) : Still frames (liftM x : Run σ α) := by
  intro s
  rw [Run.liftHalt_apply]

theorem Still.bind (hm : Still frames m) (hf : ∀ a, Still frames (f a)) :
    Still frames (m >>= f) := by
  intro s
  have hmid := hm s
  rcases hrun : m s with ⟨halt | a, t⟩
  · rw [hrun] at hmid
    rw [Run.bind_of_error hrun]
    exact hmid
  · rw [hrun] at hmid
    rw [Run.bind_of_ok hrun]
    exact (hf a t).trans hmid

/-- The run puts a frame on top. If it halts it may have done so or not, but the frames of before
are still at the bottom. -/
structure Pushes (frames : σ → List Placed) (m : Run σ α) (s : σ) : Prop where
  grows : frames s <:+ frames (m s).2
  pushed : ∀ a, (m s).1 = .ok a → ∃ p, frames (m s).2 = p :: frames s

theorem Pushes.of_error {halt : Halt} {t : σ} (h : m s = (.error halt, t))
    (hframes : frames t = frames s) : Pushes frames m s := by
  refine ⟨?_, fun a ha => ?_⟩
  · rw [h]
    exact hframes ▸ List.suffix_refl _
  · rw [h] at ha
    cases ha

/-- What comes in front of a push leaves the frames. -/
theorem Pushes.behind (hm : Still frames m) (hf : ∀ a t, Pushes frames (f a) t) :
    Pushes frames (m >>= f) s := by
  have hmid := hm s
  rcases hrun : m s with ⟨halt | a, t⟩
  · rw [hrun] at hmid
    exact .of_error (Run.bind_of_error hrun) hmid
  · rw [hrun] at hmid
    obtain ⟨hgrows, hpushed⟩ := hf a t
    rw [hmid] at hgrows hpushed
    refine ⟨?_, ?_⟩
    · rw [Run.bind_of_ok hrun]
      exact hgrows
    · rw [Run.bind_of_ok hrun]
      exact hpushed

/-- What comes behind it does so too. -/
theorem Pushes.followed (h : Pushes frames m s) (hf : ∀ a, Still frames (f a)) :
    Pushes frames (m >>= f) s := by
  obtain ⟨hgrows, hpushed⟩ := h
  rcases hrun : m s with ⟨halt | a, t⟩
  · rw [hrun] at hgrows
    refine ⟨?_, fun b hb => ?_⟩
    · rw [Run.bind_of_error hrun]
      exact hgrows
    · rw [Run.bind_of_error hrun] at hb
      cases hb
  · rw [hrun] at hgrows hpushed
    refine ⟨?_, fun b _ => ?_⟩
    · rw [Run.bind_of_ok hrun, hf a t]
      exact hgrows
    · rw [Run.bind_of_ok hrun, hf a t]
      exact hpushed a rfl

end Run

open Run

namespace DurableStack

/-- The frames of a stack. -/
abbrev framesOf (s : DurableStack) : List Placed := s.calls.frames

theorem persist_still (offset : Nat) (data : List UInt8) : Still framesOf (persist offset data) :=
  fun _ => rfl

theorem frames_of_push {calls after : CallStack} {p : Placed} (h : calls.push p = .ok after) :
    after.frames = p :: calls.frames := by
  rcases hframes : calls.frames with _ | ⟨last, rest⟩
  · simp only [CallStack.push, hframes] at h
    rw [← Except.ok.inj h]
  · simp only [CallStack.push, hframes] at h
    obtain ⟨next, -, h⟩ := exists_of_bind_eq_ok h
    by_cases hplace : p.position < next
    · rw [if_pos hplace] at h
      cases h
    · rw [if_neg hplace] at h
      rw [← Except.ok.inj h]

theorem push_pushes (frame : Frame) (seed : Option (List UInt8)) (s : DurableStack) :
    Pushes framesOf (push frame seed) s := by
  -- the writes in front of the frame and behind it may fall anywhere
  refine .behind (.lift _) fun slot _ => .behind .get fun s₁ _ =>
    .behind (.liftHalt _) fun stop _ => .behind (.liftHalt _) fun position _ =>
    .behind .get fun s₂ _ => .behind (.liftHalt _) fun _ _ =>
    .behind (persist_still _ _) fun _ t => Pushes.followed ?_ fun _ => Still.get.bind fun s₃ => ?_
  · cases hpush : t.calls.push ⟨frame, position⟩ with
    | error halt =>
      have hrun : Run.update
          (fun s => do return { s with calls := ← s.calls.push ⟨frame, position⟩ }) t
            = (.error halt, t) := by
        rw [Run.update_apply, hpush]
        rfl
      exact .of_error hrun rfl
    | ok calls =>
      have hrun := update_calls_of_push hpush
      have hframes : calls.frames = ⟨frame, position⟩ :: t.calls.frames := frames_of_push hpush
      refine ⟨?_, fun _ _ => ⟨⟨frame, position⟩, ?_⟩⟩
      · rw [hrun]
        show t.calls.frames <:+ calls.frames
        rw [hframes]
        exact List.suffix_cons _ _
      · rw [hrun]
        exact hframes
  · by_cases hdeep : 1 < s₃.calls.depth
    · simp only [if_pos hdeep]
      exact (persist_still _ _).bind fun _ => .pure _
    · simp only [if_neg hdeep]
      exact .pure _

/-- The top frame is gone, or it was the only one and stays. A pop whose write fails has taken the
frame from the calls all the same. -/
theorem pop_frames (s : DurableStack) :
    (s.calls.frames.length ≤ 1 ∧ ∃ halt, pop s = (.error halt, s)) ∨
    ∃ top below rest, s.calls.frames = top :: below :: rest ∧
      (pop s).2.calls.frames = below :: rest := by
  rcases hframes : s.calls.frames with _ | ⟨top, _ | ⟨below, rest⟩⟩
  · exact .inl ⟨Nat.zero_le _, _, pop_of_nil hframes⟩
  · exact .inl ⟨Nat.le_refl _, _, pop_of_one hframes⟩
  · refine .inr ⟨top, below, rest, rfl, ?_⟩
    have hbehind : Still framesOf (do
        let stop ← below.stop
        persist (stop - 1) [stackEnd]
        return top : Run DurableStack Placed) :=
      (Still.liftHalt _).bind fun _ => (persist_still _ _).bind fun _ => .pure _
    rw [pop, Run.bind_of_ok (Run.get_apply s)]
    simp only [hframes]
    rw [Run.bind_of_ok (Run.modify_apply _ s)]
    exact hbehind _

end DurableStack

namespace Context

variable {α : Type} {ctx : Context}

/-- The frames that the thread of a context sees. -/
abbrev framesOf (ctx : Context) : List Placed := ctx.stack.calls.frames

theorem Quiet.still {m : Exec α} (h : Quiet m) : Still framesOf m := by
  intro ctx
  rw [framesOf, (h ctx).2]

theorem writeSlot_still (slot : Nat) (bytes : List UInt8) : Still framesOf (writeSlot slot bytes) :=
  fun _ => rfl

theorem writeAnswer_still (bytes : List UInt8) : Still framesOf (writeAnswer bytes) := by
  refine (Still.lift _).bind fun _ => Still.get.bind fun ctx => ?_
  split
  · exact .fail _
  · exact (writeSlot_still _ _).bind fun _ => (Quiet.consult _).still

theorem seedCaller_still (seed : Option (List UInt8)) : Still framesOf (seedCaller seed) := by
  refine (Still.lift _).bind fun _ => Still.get.bind fun ctx => ?_
  split
  · exact writeSlot_still _ _
  · split
    · exact .fail _
    · exact .pure _

/-- **How a call begins**: its frame is on top once it has begun. The checks and the filler in front
of the push leave the frames, so if it is refused the frames of before are still there. -/
theorem enter_pushes (request : CallRequest) (ctx : Context) :
    Pushes framesOf (enter request) ctx := by
  rcases enter_checks request ctx with ⟨failure, hrun⟩ | ⟨entry, frame, -, -, hrun⟩
  · exact .of_error hrun rfl
  · have hpush : ∀ t, Pushes framesOf (discard <|
        onStack (DurableStack.push frame request.options.calleeSeed) : Exec Unit) t := by
      intro t
      have h := DurableStack.push_pushes frame request.options.calleeSeed t.stack
      have honStack : Pushes framesOf
          (onStack (DurableStack.push frame request.options.calleeSeed)) t := by
        refine ⟨?_, fun a ha => ?_⟩
        · rw [onStack_apply]
          exact h.grows
        · rw [onStack_apply] at ha ⊢
          exact h.pushed a ha
      rw [Run.discard_eq_bind]
      exact honStack.followed fun _ => .pure _
    have hcall : Pushes framesOf (do
        seedCaller request.options.callerSeed
        discard <| onStack (DurableStack.push frame request.options.calleeSeed)
        return entry : Exec EntryPoint) ctx :=
      .behind (seedCaller_still _) fun _ t => (hpush t).followed fun _ => .pure _
    exact ⟨hrun ▸ hcall.grows, fun a ha => hrun ▸ hcall.pushed a (hrun ▸ ha)⟩

/-- **How a call is left.** The frame on top goes, unless it is the only one, and nobody asks whose
it is. Nothing is assumed of the region: the frame is gone also where the marker below it finds no
room. -/
theorem popFrame_frames (ctx : Context) :
    (framesOf ctx).length ≤ 1 ∧ (∃ halt, popFrame ctx = (.error halt, ctx)) ∨
    ∃ top below rest, framesOf ctx = top :: below :: rest ∧
      framesOf (popFrame ctx).2 = below :: rest := by
  have hpop : (popFrame ctx).2 = { ctx with stack := (DurableStack.pop ctx.stack).2 } := by
    rw [popFrame, Run.discard_eq_bind, Run.bind_apply, onStack_apply]
    rcases DurableStack.pop ctx.stack with ⟨halt | p, t⟩
    · rfl
    · rfl
  rcases DurableStack.pop_frames ctx.stack with ⟨hshort, halt, hrun⟩ |
    ⟨top, below, rest, hframes, hpopped⟩
  · refine .inl ⟨hshort, halt, Run.discard_of_error ?_⟩
    rw [onStack_apply, hrun]
  · refine .inr ⟨top, below, rest, hframes, ?_⟩
    rw [hpop]
    exact hpopped

end Context

/-! ## What makes no call -/

open Context

/-- Such an action only reads, notes, answers and writes into the heap. -/
theorem Action.run_still {caller : Caller} {args : List UInt8} {action : Action}
    (h : action.request? args = none) : Still framesOf (Program.runAction caller args action) := by
  cases action with
  | note text => exact (Quiet.note _).still
  | noteArgs => exact (Quiet.note _).still
  | noteNames => exact Still.get.bind fun _ => (Quiet.note _).still
  | answer bytes => exact writeAnswer_still bytes
  | answerArgs => exact writeAnswer_still args
  | noteAnswer len => exact (Quiet.readAnswer len).still.bind fun _ => (Quiet.note _).still
  | noteCurrent len => exact (Quiet.readCurrentAnswer len).still.bind fun _ => (Quiet.note _).still
  | passAnswer len => exact (Quiet.readAnswer len).still.bind fun _ => writeAnswer_still _
  | call name own options => cases h
  | fail message => exact .fail _
  | raise message => exact (Quiet.abort _).still
  | noteHeap offset len => exact (Quiet.onHeap _).still.bind fun _ => (Quiet.note _).still
  | writeHeap offset bytes => exact (Quiet.onHeap _).still

theorem Builtin.runSwap_still (args : List UInt8) : Still framesOf (Builtin.runSwap args) :=
  (Still.lift _).bind fun _ => Still.get.bind fun _ => (Quiet.onHeap _).still.bind fun _ =>
    writeAnswer_still _

theorem Builtin.runRecoverSwap_still (args : List UInt8) :
    Still framesOf (Builtin.runRecoverSwap args) := by
  refine (Still.lift _).bind fun _ => (Quiet.readCurrentAnswer 1).still.bind fun bytes => ?_
  split
  · exact .pure _
  · exact Still.get.bind fun _ => (Quiet.onHeap _).still.bind fun _ => writeAnswer_still _

end DurableCalls
