/-
`Finishes.lean` -- runs told by the two ways in which they end.

A run ends with a value or with a reason to stop, and it has reached a state in both cases.
`Finishes` has a condition for each of them, and goes through steps in a row. It is told of
any reasons and any states, so a thread and a workload over open files share its rules.

Where neither the value nor the state matters, a result is told by its errors alone (`EndsBy`).
-/
import DurableCalls.Failure

set_option autoImplicit false

namespace DurableCalls

/-! ## Results -/

section Results

variable {ε α β : Type} {allowed allowed' : ε → Prop} {x : Except ε α} {f : α → Except ε β}

/-- A value, or an error of this kind. -/
def EndsBy (allowed : ε → Prop) (x : Except ε α) : Prop := ∀ e, x = .error e → allowed e

namespace EndsBy

theorem ok (a : α) : EndsBy allowed (.ok a) := by
  intro e h
  cases h

theorem error {e : ε} (he : allowed e) : EndsBy allowed (.error e : Except ε α) := by
  intro e' h
  cases h
  exact he

theorem mono (h : EndsBy allowed x) (hallowed : ∀ e, allowed e → allowed' e) :
    EndsBy allowed' x := by
  intro e he
  exact hallowed e (h e he)

theorem bind (hx : EndsBy allowed x) (hf : ∀ a, EndsBy allowed (f a)) :
    EndsBy allowed (x >>= f) := by
  cases x with
  | error e => exact .error (hx e rfl)
  | ok a => exact hf a

end EndsBy

end Results

/-! ## Runs -/

variable {ε σ α β : Type} {m : ExceptT ε (StateM σ) α} {f : α → ExceptT ε (StateM σ) β} {s t : σ}
  {done done' : α → σ → Prop} {last : β → σ → Prop} {broken broken' : ε → σ → Prop}

theorem bindState_of_ok {a : α} (h : m s = (.ok a, t)) : (m >>= f) s = f a t := by
  show StateT.bind m (ExceptT.bindCont f) s = _
  unfold StateT.bind
  rw [h]
  rfl

theorem bindState_of_error {e : ε} (h : m s = (.error e, t)) : (m >>= f) s = (.error e, t) := by
  show StateT.bind m (ExceptT.bindCont f) s = _
  unfold StateT.bind
  rw [h]
  rfl

/-- The run returns a value and is in `done`, or it stops for a reason and is in `broken`. -/
def Finishes (m : ExceptT ε (StateM σ) α) (s : σ) (done : α → σ → Prop)
    (broken : ε → σ → Prop) : Prop :=
  (∃ a t, m s = (.ok a, t) ∧ done a t) ∨ ∃ e t, m s = (.error e, t) ∧ broken e t

namespace Finishes

theorem of_ok {a : α} (h : m s = (.ok a, t)) (hdone : done a t) : Finishes m s done broken :=
  .inl ⟨a, t, h, hdone⟩

theorem of_error {e : ε} (h : m s = (.error e, t)) (hbroken : broken e t) :
    Finishes m s done broken :=
  .inr ⟨e, t, h, hbroken⟩

theorem mono (h : Finishes m s done broken) (hdone : ∀ a t, done a t → done' a t)
    (hbroken : ∀ e t, broken e t → broken' e t) : Finishes m s done' broken' := by
  rcases h with ⟨a, t, hrun, ha⟩ | ⟨e, t, hrun, he⟩
  · exact .of_ok hrun (hdone a t ha)
  · exact .of_error hrun (hbroken e t he)

theorem congr {m' : ExceptT ε (StateM σ) α} (h : m s = m' t) (hm : Finishes m' t done broken) :
    Finishes m s done broken := by
  unfold Finishes at hm ⊢
  rw [h]
  exact hm

/-- **Steps in a row.** The second one begins where the first one has returned. The whole breaks off
for the reasons of either of them. -/
theorem bind (h : Finishes m s done broken) (hf : ∀ a t, done a t → Finishes (f a) t last broken) :
    Finishes (m >>= f) s last broken := by
  rcases h with ⟨a, t, hrun, ha⟩ | ⟨e, t, hrun, he⟩
  · exact .congr (bindState_of_ok hrun) (hf a t ha)
  · exact .of_error (bindState_of_error hrun) he

/-- A step whose end is known. -/
theorem step {a : α} (h : m s = (.ok a, t)) (hf : Finishes (f a) t last broken) :
    Finishes (m >>= f) s last broken :=
  .congr (bindState_of_ok h) hf

end Finishes

end DurableCalls
