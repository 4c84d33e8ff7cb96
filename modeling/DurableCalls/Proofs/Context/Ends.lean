/-
`Ends.lean` -- runs that a fault hook may stop.

A run that meets no failure of its own ends with a value, or a hook stops it. `Ends`
says in which contexts: one condition for the value, one for the stop. It goes through a
sequence of steps (`Ends.bind`), so a protocol is told step by step, and every fault
point adds the context that it would leave.
-/
import DurableCalls.Context

set_option autoImplicit false

namespace DurableCalls

namespace Context

variable {α β : Type} {m : Exec α} {f : α → Exec β} {ctx : Context}
  {done done' : α → Context → Prop} {last : β → Context → Prop}
  {stopped stopped' : FaultPoint → Context → Prop}

/-- The run ends with a value in `done`, or a hook stops it at a point in `stopped`. Without a
hook nothing stops it, and there is none afterwards. -/
def Ends (m : Exec α) (ctx : Context) (done : α → Context → Prop)
    (stopped : FaultPoint → Context → Prop) : Prop :=
  (∃ a after, m ctx = (.ok a, after) ∧ (ctx.hook = none → after.hook = none) ∧ done a after) ∨
  (∃ point function after, m ctx = (.error (.failed (.simulatedCrash point function)), after) ∧
    ctx.hook ≠ none ∧ stopped point after)

theorem Ends.of_ok {a : α} {after : Context} (h : m ctx = (.ok a, after))
    (hhook : after.hook = ctx.hook) (hdone : done a after) : Ends m ctx done stopped :=
  .inl ⟨a, after, h, fun hnone => hhook.trans hnone, hdone⟩

theorem Ends.mono (h : Ends m ctx done stopped) (hdone : ∀ a after, done a after → done' a after)
    (hstopped : ∀ point after, stopped point after → stopped' point after) :
    Ends m ctx done' stopped' := by
  rcases h with ⟨a, after, hrun, hhook, ha⟩ | ⟨point, function, after, hrun, hhook, ha⟩
  · exact .inl ⟨a, after, hrun, hhook, hdone a after ha⟩
  · exact .inr ⟨point, function, after, hrun, hhook, hstopped point after ha⟩

theorem Ends.congr {m' : Exec α} (h : m ctx = m' ctx) (hends : Ends m' ctx done stopped) :
    Ends m ctx done stopped := by
  unfold Ends at hends ⊢
  rw [h]
  exact hends

/-- **Steps in a row.** The second begins where the first has ended. A stop in either of them is a
stop of the whole, and without a hook there is none. -/
theorem Ends.bind (h : Ends m ctx done stopped)
    (hf : ∀ a after, done a after → Ends (f a) after last stopped) :
    Ends (m >>= f) ctx last stopped := by
  rcases h with ⟨a, after, hrun, hhook, ha⟩ | ⟨point, function, after, hrun, hhook, ha⟩
  · -- a stop in the second part needs a hook there, so there was one all along
    rcases hf a after ha with ⟨b, after', hrun', hhook', hb⟩ | ⟨point, function, after', hrun',
      hhook', hb⟩
    · exact .inl ⟨b, after', by rw [Run.bind_of_ok hrun, hrun'], fun hnone => hhook' (hhook hnone),
        hb⟩
    · exact .inr ⟨point, function, after', by rw [Run.bind_of_ok hrun, hrun'],
        fun hnone => hhook' (hhook hnone), hb⟩
  · exact .inr ⟨point, function, after, by rw [Run.bind_of_error hrun], hhook, ha⟩

/-- A step that no hook can stop. -/
theorem Ends.step {a : α} {after : Context} (h : m ctx = (.ok a, after))
    (hhook : after.hook = ctx.hook) (hf : Ends (f a) after last stopped) :
    Ends (m >>= f) ctx last stopped := by
  rcases hf with ⟨b, after', hrun, hnone, hb⟩ | ⟨point, function, after', hrun, hsome, hb⟩
  · exact .inl ⟨b, after', by rw [Run.bind_of_ok h, hrun], fun h => hnone (hhook.trans h), hb⟩
  · exact .inr ⟨point, function, after', by rw [Run.bind_of_ok h, hrun],
      fun h => hsome (hhook.trans h), hb⟩

/-! ## The steps -/

/-- Without a hook nothing happens at a fault point. -/
theorem consult_of_no_hook (point : FaultPoint) (h : ctx.hook = none) :
    consult point ctx = (.ok (), ctx) := by
  rw [consult, Run.bind_of_ok (Run.get_apply ctx)]
  simp only [h]
  rfl

/-- At a fault point nothing changes but the memory of the hook, and the run may stop. That holds of
every hook, whatever it remembers and whenever it strikes. -/
theorem consult_ends (point : FaultPoint) (ctx : Context) :
    Ends (consult point) ctx (fun _ after => ∃ hook, after = { ctx with hook })
      (fun place after => place = point ∧ ∃ hook, after = { ctx with hook }) := by
  cases hhook : ctx.hook with
  | none => exact .of_ok (consult_of_no_hook point hhook) rfl ⟨none, by rw [← hhook]⟩
  | some hook =>
    rcases hconsult : hook.consult hook.memory point ctx.currentFunction with ⟨stops, memory⟩
    have hsome : ctx.hook ≠ none := by rw [hhook]; exact Option.some_ne_none hook
    have hafter : ∃ next,
        { ctx with hook := some { hook with memory } } = { ctx with hook := next } := ⟨_, rfl⟩
    -- the memory is kept in both cases
    cases stops with
    | false =>
      refine .inl ⟨(), _, ?_, fun hnone => absurd hnone hsome, hafter⟩
      rw [consult, Run.bind_of_ok (Run.get_apply ctx)]
      simp only [hhook, hconsult]
      exact Run.bind_of_ok (Run.set_apply _ _)
    | true =>
      refine .inr ⟨point, ctx.currentFunction, _, ?_, hsome, rfl, hafter⟩
      rw [consult, Run.bind_of_ok (Run.get_apply ctx)]
      simp only [hhook, hconsult]
      exact Run.bind_of_ok (Run.set_apply _ _)

/-- A hook that stops a run at a fault point. -/
theorem consult_of_stops {hook : FaultHook} {point : FaultPoint} (hhook : ctx.hook = some hook)
    (hstops : (hook.consult hook.memory point ctx.currentFunction).1 = true) :
    ∃ after, consult point ctx
      = (.error (.failed (.simulatedCrash point ctx.currentFunction)), after) := by
  rcases hconsult : hook.consult hook.memory point ctx.currentFunction with ⟨stops, memory⟩
  rw [hconsult] at hstops
  cases hstops
  refine ⟨{ ctx with hook := some { hook with memory } }, ?_⟩
  rw [consult, Run.bind_of_ok (Run.get_apply ctx)]
  simp only [hhook, hconsult]
  exact Run.bind_of_ok (Run.set_apply _ _)

theorem onStack_apply (m : Run DurableStack α) (ctx : Context) :
    onStack m ctx = ((m ctx.stack).1, { ctx with stack := (m ctx.stack).2 }) := rfl

theorem onHeap_apply {heap : Region} (m : Run Region α) (h : ctx.heap = some heap) :
    onHeap m ctx = ((m heap).1, { ctx with heap := some (m heap).2 }) := by
  rw [onHeap, Run.zoom_apply]
  show ((ifAttached m ctx.heap).1, { ctx with heap := (ifAttached m ctx.heap).2 }) = _
  rw [h]
  rfl

end Context

end DurableCalls
