/-
`AnyRoot.lean` -- a swap task beside its work on the heap, on any root frame and under any hook.

A swap task asks for its two functions and for room for its two frames, then it swaps, and then
it publishes the answer (`SwapTask.effectOver`). What is on the stack is no part of that, so a run
of the task is told beside it: it ends with the same value or the same halt, and with the same
heap (`Performs`). A hook may stop the run on the way, at a fault point, and there is no more to
say then (`PerformsOrStops`).

Nothing is asked of the root frame but that it is the only one, and its end says where the frame
of the task begins.
-/
import DurableCalls.Proofs.Call.SwapTask
import DurableCalls.Proofs.Call.Working

set_option autoImplicit false

namespace DurableCalls

open CallStack Region DurableStack

/-! ## The host -/

/-- No other functions are registered under the names of the built-in ones. These may be missing
themselves. -/
structure Host.Reserves (host : Host) : Prop where
  task_eq : ∀ f, host.registry.find? taskFunction = some f → f.execute = .builtin .task
  swap_eq : ∀ f, host.registry.find? swapFunction = some f → f.execute = .builtin .swap

theorem Registry.execute_of_entry {r : Registry} {name : String} {entry : EntryPoint}
    (h : r.entry name false = .ok entry) : ∃ f, r.find? name = some f ∧ f.execute = entry := by
  rw [Registry.entry] at h
  cases hfind : r.find? name with
  | none =>
    rw [hfind] at h
    cases h
  | some f =>
    rw [hfind] at h
    exact ⟨f, rfl, Except.ok.inj h⟩

namespace Host.Reserves

variable {host : Host} {entry : EntryPoint}

theorem task_entry (h : host.Reserves)
    (hentry : Registry.entry host.registry taskFunction false = .ok entry) :
    entry = .builtin .task := by
  obtain ⟨f, hfind, hexecute⟩ := Registry.execute_of_entry hentry
  rw [← hexecute]
  exact h.task_eq f hfind

theorem swap_entry (h : host.Reserves)
    (hentry : Registry.entry host.registry swapFunction false = .ok entry) :
    entry = .builtin .swap := by
  obtain ⟨f, hfind, hexecute⟩ := Registry.execute_of_entry hentry
  rw [← hexecute]
  exact h.swap_eq f hfind

end Host.Reserves

/-- No others are registered where the built-in functions are. -/
theorem Host.Serves.reserves {host : Host} (h : host.Serves) : host.Reserves := by
  constructor
  · intro f hfind
    obtain ⟨f', hfind', hexecute⟩ := Registry.execute_of_entry (h.task_eq false)
    cases hfind.symm.trans hfind'
    exact hexecute
  · intro f hfind
    obtain ⟨f', hfind', hexecute⟩ := Registry.execute_of_entry (h.swap_eq false)
    cases hfind.symm.trans hfind'
    exact hexecute

/-- The built-in functions can be registered behind any others. -/
theorem reserves_of_addBuiltins {registry : Registry} {mode : Mode} {threads : UInt32} :
    Host.Reserves ⟨registry.addBuiltins, mode, threads⟩ := by
  constructor
  · intro f hfind
    simp only [Registry.addBuiltins, Table.find?_insert] at hfind
    cases hfind
    rfl
  · intro f hfind
    simp only [Registry.addBuiltins, Table.find?_insert] at hfind
    cases hfind
    rfl

/-! ## The effect -/

/-- Whether a frame at its place is admitted: its function is known, and there is room for it. -/
def Placed.permit (p : Placed) (host : Host) (room : Nat) : Except Failure Unit := do
  discard <| Registry.entry host.registry p.frame.name false
  if room < p.past then throw (.outOfBounds p.position p.frame.size room)

namespace Placed

variable {p : Placed} {host : Host} {room : Nat} {entry : EntryPoint}

theorem permit_of_unknown {f : Failure}
    (h : Registry.entry host.registry p.frame.name false = .error f) :
    p.permit host room = .error f := by
  rw [permit, h]
  rfl

theorem permit_of_known (h : Registry.entry host.registry p.frame.name false = .ok entry) :
    p.permit host room
      = if room < p.past then .error (.outOfBounds p.position p.frame.size room) else .ok () := by
  rw [permit, h]
  rfl

theorem permit_failed {f : Failure} (h : p.permit host room = .error f) :
    f = .unknownFunction p.frame.name ∨
      f = .outOfBounds p.position p.frame.size room ∧ room < p.past := by
  cases hentry : Registry.entry host.registry p.frame.name false with
  | error failure =>
    rw [permit_of_unknown hentry] at h
    cases h
    exact .inl (Registry.entry_eq_error hentry).2
  | ok entry =>
    rw [permit_of_known hentry] at h
    split at h
    · next hout =>
      cases h
      exact .inr ⟨rfl, hout⟩
    · cases h

end Placed

namespace SwapTask

/-- The frame of a task behind this root frame, and the frame of its swap behind that. -/
def frameOver (t : SwapTask) (root : Placed) : Placed :=
  ⟨(taskFrame t).frame, nextPosition [root]⟩

def swapFrameOver (t : SwapTask) (root : Placed) : Placed :=
  ⟨(swapFrame t).frame, nextPosition [t.frameOver root, root]⟩

/-- The swap of a task, as one thread makes it with so much room for its frames. -/
def swapEffectOver (t : SwapTask) (root : Placed) (host : Host) (thread : UInt32) (room : Nat) :
    Run Region Bool := do
  (t.swapFrameOver root).permit host room
  (t.swapBy host.threads thread).attempt

/-- **What a swap task does to the heap.** -/
def effectOver (t : SwapTask) (root : Placed) (host : Host) (thread : UInt32) (room : Nat) :
    Run Region Unit := do
  (t.frameOver root).permit host room
  let yes ← t.swapEffectOver root host thread room
  Region.persist t.answer.toNat (Builtin.verdict yes)

end SwapTask

namespace Context

variable {α β γ δ : Type} {m : Exec α} {f : α → Exec γ} {work : Run Region β}
  {g : β → Run Region δ} {ctx after : Context} {heap next : Region} {hooked : Prop}
  {done done' : α → β → Region → Context → Prop} {last : γ → δ → Region → Context → Prop}
  {left left' : Region → Context → Prop}

/-! ## Runs beside a work on the heap -/

/-- A run from this context ends as the work does on this heap: with a value if it has one, and
else with the same halt. Where it has come to is told for both ends, beside the heap that the
work leaves. -/
def Performs (m : Exec α) (ctx : Context) (work : Run Region β) (heap : Region)
    (done : α → β → Region → Context → Prop) (left : Region → Context → Prop) : Prop :=
  (∃ a after b next, m ctx = (.ok a, after) ∧ work heap = (.ok b, next) ∧ done a b next after) ∨
  ∃ halt after next, m ctx = (.error halt, after) ∧ work heap = (.error halt, next) ∧
    left next after

namespace Performs

theorem of_ok {a : α} {b : β} (hm : m ctx = (.ok a, after)) (hwork : work heap = (.ok b, next))
    (hdone : done a b next after) : Performs m ctx work heap done left :=
  .inl ⟨a, after, b, next, hm, hwork, hdone⟩

theorem of_error {halt : Halt} (hm : m ctx = (.error halt, after))
    (hwork : work heap = (.error halt, next)) (hleft : left next after) :
    Performs m ctx work heap done left :=
  .inr ⟨halt, after, next, hm, hwork, hleft⟩

theorem mono (h : Performs m ctx work heap done left)
    (hdone : ∀ a b next after, done a b next after → done' a b next after)
    (hleft : ∀ next after, left next after → left' next after) :
    Performs m ctx work heap done' left' := by
  rcases h with ⟨a, after, b, next, hm, hwork, h⟩ | ⟨halt, after, next, hm, hwork, h⟩
  · exact .of_ok hm hwork (hdone a b next after h)
  · exact .of_error hm hwork (hleft next after h)

/-- **Both go on** from where they have come to. The second parts may depend on the values that the
first ones return, and these need not be of one type. -/
theorem bind (h : Performs m ctx work heap done left)
    (hf : ∀ a b next after, done a b next after →
      Performs (f a) after (g b) next last left) :
    Performs (m >>= f) ctx (work >>= g) heap last left := by
  rcases h with ⟨a, after, b, next, hm, hwork, h⟩ | ⟨halt, after, next, hm, hwork, h⟩
  · unfold Performs
    rw [Run.bind_of_ok hm, Run.bind_of_ok hwork]
    exact hf a b next after h
  · exact .of_error (Run.bind_of_error hm) (Run.bind_of_error hwork) h

end Performs

/-- A hook stops the run. -/
def Crashes (m : Exec α) (ctx : Context) : Prop :=
  ∃ point function after, m ctx = (.error (.failed (.simulatedCrash point function)), after)

/-- A run that ends as the work does, unless a hook stops it. -/
def PerformsOrStops (hooked : Prop) (m : Exec α) (ctx : Context) (work : Run Region β)
    (heap : Region) (done : α → β → Region → Context → Prop) (left : Region → Context → Prop) :
    Prop :=
  Performs m ctx work heap done left ∨ hooked ∧ Crashes m ctx

namespace PerformsOrStops

theorem of_ok {a : α} {b : β} (hm : m ctx = (.ok a, after)) (hwork : work heap = (.ok b, next))
    (hdone : done a b next after) : PerformsOrStops hooked m ctx work heap done left :=
  .inl (.of_ok hm hwork hdone)

theorem mono (h : PerformsOrStops hooked m ctx work heap done left)
    (hdone : ∀ a b next after, done a b next after → done' a b next after) :
    PerformsOrStops hooked m ctx work heap done' left :=
  h.imp_left fun h => h.mono hdone fun _ _ => id

theorem congr {m' : Exec α} {ctx' : Context} (h : m ctx = m' ctx')
    (hm : PerformsOrStops hooked m' ctx' work heap done left) :
    PerformsOrStops hooked m ctx work heap done left := by
  unfold PerformsOrStops Performs Crashes at hm ⊢
  rw [h]
  exact hm

/-- **Both go on**, unless the run is stopped before. A stopped run has no counterpart in the work
on the heap, so nothing is said of the work then. -/
theorem bind (h : PerformsOrStops hooked m ctx work heap done left)
    (hf : ∀ a b next after, done a b next after →
      PerformsOrStops hooked (f a) after (g b) next last left) :
    PerformsOrStops hooked (m >>= f) ctx (work >>= g) heap last left := by
  rcases h with (⟨a, after, b, next, hm, hwork, h⟩ | ⟨halt, after, next, hm, hwork, h⟩)
    | ⟨hhooked, point, function, after, hm⟩
  · refine .congr (Run.bind_of_ok hm) ?_
    unfold PerformsOrStops Performs
    rw [Run.bind_of_ok hwork]
    exact hf a b next after h
  · exact .inl (.of_error (Run.bind_of_error hm) (Run.bind_of_error hwork) h)
  · exact .inr ⟨hhooked, point, function, after, Run.bind_of_error hm⟩

/-- The run takes a step of its own. -/
theorem step {a : α} {last : γ → β → Region → Context → Prop} (hm : m ctx = (.ok a, after))
    (hf : PerformsOrStops hooked (f a) after work heap last left) :
    PerformsOrStops hooked (m >>= f) ctx work heap last left :=
  .congr (Run.bind_of_ok hm) hf

/-- The run goes on when the work is done. -/
theorem tail {last : γ → β → Region → Context → Prop}
    (h : PerformsOrStops hooked m ctx work heap done left)
    (hf : ∀ a b next after, done a b next after →
      PerformsOrStops hooked (f a) after (pure b : Run Region β) next last left) :
    PerformsOrStops hooked (m >>= f) ctx work heap last left := by
  have hboth := h.bind hf
  rwa [bind_pure] at hboth

end PerformsOrStops

/-! ## Contexts under any hook -/

/-- The context of a thread on a stack region of this name and size. There may be a hook or not,
and if there is to be none there is none. -/
structure Stacked (hooked : Prop) (host : Host) (thread : UInt32) (room : Region)
    (frames : List Placed) (heap : Region) (ctx : Context) : Prop where
  stands : Stands host thread frames heap ctx
  hook_eq : ¬hooked → ctx.hook = none
  path_eq : ctx.stack.region.path = room.path
  size_eq : ctx.stack.region.size = room.size

section Calls

variable {host : Host} {thread : UInt32} {room heap' : Region} {frames frames' rest : List Placed}
  {root top below p : Placed} {request : CallRequest} {t : SwapTask} {entry : EntryPoint}

theorem Stacked.of_resembles (h : Stacked hooked host thread room frames heap ctx)
    (hstands : Stands host thread frames' heap' after) (halike : Resembles ctx after) :
    Stacked hooked host thread room frames' heap' after :=
  ⟨hstands, fun hnot => halike.hook_eq.trans (h.hook_eq hnot), halike.path_eq.trans h.path_eq,
    halike.size_eq.trans h.size_eq⟩

theorem Stacked.withHeap (h : Stacked hooked host thread room frames heap ctx) (next : Region) :
    Stacked hooked host thread room frames next { ctx with heap := some next } :=
  h.of_resembles ⟨h.stands.host_eq, h.stands.thread_eq, rfl, h.stands.frames_eq,
    h.stands.mirrored⟩ ⟨rfl, rfl, rfl⟩

/-- Without a hook it is the context of a worker without a plan. -/
theorem stacked_false_iff :
    Stacked False host thread room frames heap ctx ↔
      Working host thread none room frames heap ctx := by
  constructor
  · intro h
    exact ⟨h.stands, h.hook_eq id, h.path_eq, h.size_eq⟩
  · intro h
    exact ⟨h.stands, fun _ => h.hook_eq, h.path_eq, h.size_eq⟩

/-- A fault point is passed, with the frames and the heap as they are, or the run stops there. -/
theorem Stacked.consult (h : Stacked hooked host thread room frames heap ctx) (point : FaultPoint)
    (b : β) :
    PerformsOrStops hooked (Context.consult point) ctx (pure b : Run Region β) heap
      (fun _ b' next after => b' = b ∧ next = heap ∧ after.stack = ctx.stack ∧
        Stacked hooked host thread room frames heap after) left := by
  rcases consult_ends point ctx with ⟨_, after, hrun, hnone, hook, rfl⟩
    | ⟨_, function, after, hrun, hsome, -⟩
  · exact .of_ok hrun (Run.pure_apply b heap) ⟨rfl, rfl, rfl, h.stands.withHook hook,
      fun hnot => hnone (h.hook_eq hnot), h.path_eq, h.size_eq⟩
  · have hhooked : hooked := Classical.byContradiction fun hnot => hsome (h.hook_eq hnot)
    exact .inr ⟨hhooked, _, function, after, hrun⟩

/-- Behind a fault point the run goes on as before it. -/
theorem Stacked.pass {more : Exec γ} {last : γ → β → Region → Context → Prop}
    (h : Stacked hooked host thread room frames heap ctx) (point : FaultPoint)
    (hmore : ∀ after, after.stack = ctx.stack →
      Stacked hooked host thread room frames heap after →
      PerformsOrStops hooked more after work heap last left) :
    PerformsOrStops hooked (do Context.consult point; more) ctx work heap last left := by
  have hpassed : PerformsOrStops hooked (Context.consult point) ctx (pure () : Run Region Unit) heap
      _ left := h.consult point ()
  rw [← pure_bind () fun _ => work]
  refine hpassed.bind ?_
  rintro _ _ _ after ⟨-, rfl, hstack, hafter⟩
  exact hmore after hstack hafter

/-! ## A call begins -/

theorem enter_of_unknown {failure : Failure} (hrecover : request.options.recover = false)
    (hentry : Registry.entry ctx.host.registry request.name false = .error failure) :
    enter request ctx = (.error (.failed failure), ctx) := by
  obtain ⟨name, args, callerSeed, calleeSeed, recover⟩ := request
  cases hrecover
  have hlookup : (liftM (Registry.entry ctx.host.registry name false) : Exec EntryPoint) ctx
      = (.error (.failed failure), ctx) := by
    rw [Run.lift_apply, hentry]
    rfl
  have hallowed : ¬(false = true ∧ ctx.host.mode ≠ .recovery) := fun h => Bool.false_ne_true h.1
  rw [enter, Run.bind_of_ok (Run.get_apply ctx)]
  simp only [if_neg hallowed]
  exact Run.bind_of_error hlookup

/-- A call with sound slots whose function is known is refused only for want of room: the frame
would lie behind the end of the region, and the failure names the place and the length. -/
theorem Stands.refused_for_room {seeded : Option Placed} {failure : Failure} {frame : Frame}
    (h : Stands host thread (top :: rest) heap ctx)
    (hrecover : request.options.recover = false)
    (hentry : Registry.entry host.registry request.name false = .ok entry)
    (hmade : Frame.make request.name request.args = .ok frame)
    (hfiller : SeedFits (some (filler request.options)))
    (hseed : SeedFits request.options.calleeSeed) (hrefusal : Refusal ctx request seeded failure) :
    failure = .outOfBounds (nextPosition (top :: rest)) frame.size ctx.stack.region.size ∧
      ctx.stack.region.size < nextPosition (top :: rest) + frame.size := by
  obtain ⟨name, args, callerSeed, calleeSeed, recover⟩ := request
  have hframes := h.frames_eq
  cases hrefusal with
  | illegalRecovery recover mode => cases hrecover.symm.trans recover
  | unknownFunction missing =>
    obtain ⟨function, hfind, -⟩ := Registry.execute_of_entry hentry
    rw [h.host_eq, hfind] at missing
    cases missing
  | oversized made => cases hmade.symm.trans made
  | callerSeed bad => exact absurd hfiller bad
  | noCaller nobody seeds => cases hframes.symm.trans nobody
  | slotOutside at_top outside =>
    cases h.top_eq.symm.trans at_top
    -- the slot is in the frame, and the filler fits the slot
    have hslot := h.slot_in List.mem_cons_self
    have hmax := hfiller.2
    simp only [slotSize, Placed.slotAt] at hmax outside
    omega
  | noPush made refused =>
    cases hmade.symm.trans made
    cases refused with
    | seed bad => exact absurd hseed bad
    | room fits stop_eq position_eq outside =>
      have hend : endOf ctx.stack.calls.frames ≤ ctx.stack.region.size :=
        Written.endOf_le h.mirrored
      obtain ⟨hstop, hposition, -⟩ := offsets_of_endOf_le hend (Frame.make_eq_ok_iff.1 hmade).2
      cases hstop.symm.trans stop_eq
      cases hposition.symm.trans position_eq
      rw [hframes] at outside ⊢
      exact ⟨rfl, outside⟩

/-- **A call is entered if its frame is admitted**, and else it fails with the same failure. The
heap stays in both cases, and so do the frames below. -/
theorem Stacked.enter_performs (h : Stacked hooked host thread room (top :: rest) heap ctx)
    (request : CallRequest) (hmade : Frame.make request.name request.args = .ok p.frame)
    (hposition : nextPosition (top :: rest) = p.position)
    (hrecover : request.options.recover = false)
    (hfiller : SeedFits (some (filler request.options)))
    (hseed : SeedFits request.options.calleeSeed) :
    Performs (Context.enter request) ctx (liftM (p.permit host room.size) : Run Region Unit) heap
      (fun entry _ next after => Registry.entry host.registry request.name false = .ok entry ∧
        next = heap ∧ Stacked hooked host thread room (p :: top :: rest) heap after)
      (fun next after => next = heap ∧
        Stacked hooked host thread room (top :: rest) heap after) := by
  have hname : p.frame.name = request.name := by
    rw [(Frame.make_eq_ok_iff.1 hmade).1]
  cases hentry : Registry.entry host.registry request.name false with
  | error failure =>
    have hpermit : p.permit host room.size = .error failure := by
      apply Placed.permit_of_unknown
      rw [hname, hentry]
    rw [← h.stands.host_eq] at hentry
    refine .of_error (enter_of_unknown hrecover hentry) ?_ ⟨rfl, h⟩
    rw [Run.lift_apply, hpermit]
    rfl
  | ok entry =>
    have hpermit : p.permit host room.size = if room.size < p.past then
        .error (.outOfBounds p.position p.frame.size room.size) else .ok () := by
      apply Placed.permit_of_known
      rw [hname, hentry]
    have hlookup := hentry
    rw [← hrecover] at hlookup
    rcases h.stands.enter_finishes request hlookup hmade with ⟨_, after, hrun, rfl, hafter, halike⟩
      | ⟨halt, after, hrun, ⟨failure, rfl, -⟩, hafter, halike⟩
    · -- the frame is in the region now, so there was room for it
      rw [hposition] at hafter
      have hstacked := h.of_resembles hafter halike
      have hpast : p.past ≤ room.size := by
        have hend := Written.endOf_le hafter.mirrored
        rwa [hafter.frames_eq, hstacked.size_eq] at hend
      rw [if_neg (Nat.not_lt.2 hpast)] at hpermit
      refine .of_ok (b := ()) hrun ?_ ⟨rfl, rfl, hstacked⟩
      rw [Run.lift_apply, hpermit]
      rfl
    · obtain ⟨seeded, hrefusal, -⟩ := enter_failed hrun
      obtain ⟨rfl, hout⟩ := h.stands.refused_for_room hrecover hentry hmade hfiller hseed hrefusal
      rw [hposition, h.size_eq] at hrun hout
      rw [if_pos (show room.size < p.past from hout)] at hpermit
      refine .of_error hrun ?_ ⟨rfl, h.of_resembles hafter halike⟩
      rw [Run.lift_apply, hpermit]
      rfl

/-! ## Its steps -/

/-- Work that is lent the heap does what it does. -/
theorem Stacked.onHeap_performs (h : Stacked hooked host thread room frames heap ctx)
    (work : Run Region β) :
    Performs (Context.onHeap work) ctx work heap
      (fun a b next after => a = b ∧ after.stack = ctx.stack ∧
        Stacked hooked host thread room frames next after)
      (Stacked hooked host thread room frames) := by
  have hheap := Context.onHeap_apply work h.stands.heap_eq
  rcases hwork : work heap with ⟨halt | b, next⟩
  · rw [hwork] at hheap
    exact .of_error hheap hwork (h.withHeap next)
  · rw [hwork] at hheap
    exact .of_ok hheap hwork ⟨rfl, rfl, h.withHeap next⟩

/-- The frames are the root frame, and others above it. -/
def StackedOver (hooked : Prop) (host : Host) (thread : UInt32) (room : Region) (root : Placed)
    (heap : Region) (ctx : Context) : Prop :=
  ∃ above, Stacked hooked host thread room (above ++ [root]) heap ctx

/-- The swap of a task is made, and its answer is in the slot of the task. If the hook stops the
run, the root frame and others above it are on the stack, over the heap that the swap has come to.
-/
theorem Stacked.runSwap_performs
    (h : Stacked hooked host thread room [t.swapFrameOver root, t.frameOver root, root] heap ctx) :
    PerformsOrStops hooked (Builtin.runSwap t.swap.encode) ctx
      (t.swapBy host.threads thread).attempt heap
      (fun _ yes next after =>
        Stacked hooked host thread room [t.swapFrameOver root, t.frameOver root, root] next after ∧
        after.stack.region.read (t.frameOver root).position 1 = .ok [answerOf yes])
      (StackedOver hooked host thread room root) := by
  have hswap : Builtin.swapOf ctx t.swap = t.swapBy host.threads thread := by
    rw [Builtin.swapOf, h.stands.host_eq, h.stands.thread_eq]
    rfl
  have hmem : t.frameOver root ∈ [t.swapFrameOver root, t.frameOver root, root] :=
    List.mem_cons_of_mem _ List.mem_cons_self
  refine .step (decode_apply t ctx) (.step (Run.get_apply ctx) ?_)
  rw [hswap]
  refine .tail (.inl ((h.onHeap_performs _).mono (fun _ _ _ _ => id) ?_)) ?_
  · intro next after hafter
    exact ⟨[t.swapFrameOver root, t.frameOver root], hafter⟩
  rintro yes _ next after ⟨rfl, -, hafter⟩
  have hpos : 1 ≤ (Builtin.verdict yes).length := Nat.le_refl 1
  have hmax : (Builtin.verdict yes).length ≤ 8 := Nat.le_add_left 1 7
  have hin : (t.frameOver root).position + (Builtin.verdict yes).length
      ≤ after.stack.region.size := by
    have hslot := hafter.stands.slot_in hmem
    omega
  have hwritten := hafter.of_resembles (hafter.stands.withSlot hmem hmax)
    (withSlot_resembles after (t.frameOver root) (Builtin.verdict yes))
  refine .congr (hafter.stands.writeAnswer_eq hpos hmax) ((hwritten.consult _ yes).mono ?_)
  rintro _ _ _ told ⟨rfl, rfl, hstack, htold⟩
  refine ⟨htold, ?_⟩
  rw [hstack]
  exact read_put_self hin

/-- The frame of a call goes when the work is done, and the slot of its caller stays. -/
theorem Stacked.leave_performs
    (h : Stacked hooked host thread room (top :: below :: rest) heap ctx) (b : β) :
    PerformsOrStops hooked (do Context.consult .beforeFrameRemove; Context.popFrame) ctx
      (pure b : Run Region β) heap
      (fun _ b' next after => b' = b ∧ next = heap ∧
        Stacked hooked host thread room (below :: rest) heap after ∧
        after.stack.region.read below.position 1 = ctx.stack.region.read below.position 1)
      left := by
  refine h.pass .beforeFrameRemove fun passed hstack hpassed => ?_
  obtain ⟨after, hpop, hafter, halike, hslot⟩ := hpassed.stands.popFrame_resembles
  rw [hstack] at hslot
  exact .of_ok hpop (Run.pure_apply b heap) ⟨rfl, rfl, hpassed.of_resembles hafter halike, hslot⟩

/-- The call of the swap. Its answer stays behind when its frame is gone. -/
theorem Stacked.callSwap_performs (hreserves : host.Reserves)
    (h : Stacked hooked host thread room [t.frameOver root, root] heap ctx) (depth : Nat) :
    PerformsOrStops hooked (callWithin (depth + 1)
        ⟨swapFunction, t.swap.encode, { callerSeed := some [unanswered] }⟩) ctx
      (t.swapEffectOver root host thread room.size) heap
      (fun _ yes next after =>
        Stacked hooked host thread room [t.frameOver root, root] next after ∧
        after.stack.region.read (t.frameOver root).position 1 = .ok [answerOf yes])
      (StackedOver hooked host thread room root) := by
  have hfiller : SeedFits (some [unanswered]) := by decide
  have henter := h.enter_performs (p := t.swapFrameOver root)
    ⟨swapFunction, t.swap.encode, { callerSeed := some [unanswered] }⟩
    (make_swapFrame t) rfl rfl hfiller trivial
  refine .bind (.inl (henter.mono (fun _ _ _ _ => id) ?_)) ?_
  · rintro next after ⟨rfl, hafter⟩
    exact ⟨[t.frameOver root], hafter⟩
  rintro entry _ next entered ⟨hentry, rfl, hentered⟩
  rw [hreserves.swap_entry hentry]
  refine hentered.pass .afterFramePush fun pushed _ hpushed => ?_
  refine .tail hpushed.runSwap_performs ?_
  rintro _ yes next answered ⟨hanswered, hslot⟩
  refine (hanswered.leave_performs yes).mono ?_
  rintro _ _ _ popped ⟨rfl, rfl, hpopped, hsame⟩
  exact ⟨hpopped, hsame.trans hslot⟩

/-! ## The task -/

/-- The body of a swap task publishes what the swap has answered. -/
theorem Stacked.runTask_performs (hreserves : host.Reserves)
    (h : Stacked hooked host thread room [t.frameOver root, root] heap ctx) (depth : Nat) :
    PerformsOrStops hooked (Builtin.runTask (callWithin (depth + 1)) false t.encode) ctx (do
        let yes ← t.swapEffectOver root host thread room.size
        Region.persist t.answer.toNat (Builtin.verdict yes)) heap
      (fun _ _ next after => Stacked hooked host thread room [t.frameOver root, root] next after)
      (StackedOver hooked host thread room root) := by
  refine .step (decodeTask_apply t ctx) (.bind (h.callSwap_performs hreserves depth) ?_)
  rintro _ yes next answered ⟨hanswered, hslot⟩
  refine .step (hanswered.stands.readAnswer hslot) (.inl ((hanswered.onHeap_performs _).mono ?_ ?_))
  · rintro _ _ next after ⟨-, -, hafter⟩
    exact hafter
  · intro next after hafter
    exact ⟨[t.frameOver root], hafter⟩

/-- **A swap task does to the heap what its effect does**, and it ends as its effect ends, unless
the hook stops it. -/
theorem Stacked.dispatchSwap_performs (hreserves : host.Reserves)
    (h : Stacked hooked host thread room [root] heap ctx) (t : SwapTask) :
    PerformsOrStops hooked (Context.dispatch (.swap t)) ctx
      (t.effectOver root host thread room.size) heap
      (fun _ _ next after => Stacked hooked host thread room [root] next after)
      (StackedOver hooked host thread room root) := by
  have hfiller : SeedFits (some (filler { calleeSeed := some [unanswered] })) := by decide
  have hseed : SeedFits (some [unanswered]) := by decide
  have henter := h.enter_performs (p := t.frameOver root)
    ⟨taskFunction, t.encode, { calleeSeed := some [unanswered] }⟩
    (make_taskFrame t) rfl rfl hfiller hseed
  -- two calls can be nested, whatever the size of the region
  refine .step (Run.get_apply ctx) (.bind (.inl (henter.mono (fun _ _ _ _ => id) ?_)) ?_)
  · rintro next after ⟨rfl, hafter⟩
    exact ⟨[], hafter⟩
  rintro entry _ next entered ⟨hentry, rfl, hentered⟩
  rw [hreserves.task_entry hentry]
  refine hentered.pass .afterFramePush fun pushed _ hpushed => ?_
  refine .tail (hpushed.runTask_performs hreserves _) ?_
  intro _ _ next told htold
  refine (htold.leave_performs _).mono ?_
  rintro _ _ _ popped ⟨-, rfl, hpopped, -⟩
  exact hpopped

end Calls

end Context

end DurableCalls
