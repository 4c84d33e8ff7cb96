/-
`Stages.lean` -- operations that go from stage to stage.

An operation that others may interrupt is told as a machine. A stage says how far the operation is
and what it remembers, and a step is a run, after which the operation is at another stage or gives
a value. What is left to do at a stage can be told in one go as well.

If each step is the first part of what is left, and leads nearer to the end, then the steps one
after the other, with nobody between them, are the operation (`Staged.leads_iff`): from each stage
and each state they come to an end, and it is the one to which the operation comes.
-/
import DurableCalls.Failure

set_option autoImplicit false

namespace DurableCalls

variable {σ S α β : Type}

/-! ## What a run returns -/

/-- Whatever the run returns satisfies `post`. -/
def Run.Returns (m : Run σ α) (post : α → Prop) : Prop :=
  ∀ s a t, m s = (.ok a, t) → post a

namespace Run.Returns

variable {m : Run σ α} {f : α → Run σ β} {post : α → Prop} {post' : β → Prop}

theorem pure {a : α} (h : post a) : Returns (σ := σ) (Pure.pure a) post := by
  intro s b t hrun
  cases hrun
  exact h

/-- Runs one after the other. -/
theorem bind (hm : m.Returns post) (hf : ∀ a, post a → (f a).Returns post') :
    (m >>= f).Returns post' := by
  intro s b t hrun
  obtain ⟨a, mid, hfirst, hrest⟩ := Run.exists_of_bind_ok hrun
  exact hf a (hm s a mid hfirst) mid b t hrest

/-- What the first run returns does not matter. -/
theorem behind (hf : ∀ a, (f a).Returns post') : (m >>= f).Returns post' := by
  have hm : m.Returns fun _ => True := fun _ _ _ _ => trivial
  exact hm.bind fun a _ => hf a

end Run.Returns

/-! ## Stages -/

section Stages

variable {advance : S → Run σ (S ⊕ α)} {remaining : S → Run σ α} {stage : S} {s t : σ}
  {result : Except Halt α}

/-- Where the steps of an operation lead from a stage if nobody comes between them. It is a
relation, as steps need not come to an end for every machine; for those that have a rank they do. -/
inductive Leads (advance : S → Run σ (S ⊕ α)) : S → σ → Except Halt α → σ → Prop
  | gives {stage : S} {s t : σ} {a : α} (step : advance stage s = (.ok (.inr a), t)) :
      Leads advance stage s (.ok a) t
  | halts {stage : S} {s t : σ} {halt : Halt} (step : advance stage s = (.error halt, t)) :
      Leads advance stage s (.error halt) t
  | goesOn {stage next : S} {s t u : σ} {result : Except Halt α}
      (step : advance stage s = (.ok (.inl next), t)) (rest : Leads advance next t result u) :
      Leads advance stage s result u

/-- The next stage is in a later phase, or nearer to the end of this one. -/
def Nearer (rank : S → Nat × Nat) (stage : S) : S ⊕ α → Prop
  | .inl next => Prod.Lex (· < ·) (· < ·) (rank next) (rank stage)
  | .inr _ => True

/-- Each step is the first part of what is left, and leads nearer to the end. The two obligations
are told one step at a time, and the run follows from them once for all machines. -/
structure Staged (advance : S → Run σ (S ⊕ α)) (remaining : S → Run σ α)
    (rank : S → Nat × Nat) : Prop where
  apart : ∀ stage, remaining stage = advance stage >>= Sum.elim remaining pure
  nearer : ∀ stage, (advance stage).Returns (Nearer rank stage)

/-- **The steps are the operation.** One direction is by induction on the steps. The other one is by
the rank, which tells that there is an end. -/
theorem Staged.leads_iff {rank : S → Nat × Nat} (h : Staged advance remaining rank) :
    Leads advance stage s result t ↔ remaining stage s = (result, t) := by
  constructor
  · intro hleads
    induction hleads with
    | gives step =>
      rw [h.apart, Run.bind_of_ok step]
      rfl
    | halts step => rw [h.apart, Run.bind_of_error step]
    | goesOn step rest ih =>
      rw [h.apart, Run.bind_of_ok step]
      exact ih
  · -- the operation has one result, and a smaller rank is nearer to it
    have hwf : WellFounded (InvImage (Prod.Lex (· < ·) (· < ·)) rank) :=
      InvImage.wf rank (Prod.lex Nat.lt_wfRel Nat.lt_wfRel).wf
    induction stage using hwf.induction generalizing s with
    | _ stage ih =>
      intro hrun
      rw [h.apart] at hrun
      rcases hstep : advance stage s with ⟨halt | next | a, mid⟩
      · rw [Run.bind_of_error hstep] at hrun
        cases hrun
        exact .halts hstep
      · rw [Run.bind_of_ok hstep] at hrun
        exact .goesOn hstep (ih next (h.nearer stage s _ mid hstep) hrun)
      · rw [Run.bind_of_ok hstep] at hrun
        cases hrun
        exact .gives hstep

end Stages

end DurableCalls
