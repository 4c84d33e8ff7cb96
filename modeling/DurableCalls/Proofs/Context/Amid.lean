/-
`Amid.lean` -- what a thread makes of a heap that others write to.

A thread that is one of several finds another heap at each of its steps. What it does can be told
all the same if it relies on little: that the heap, apart from what the thread has written itself,
*looks* in some way. Then each step adds some writes to those made so far, and the writes of all
threads together, in whatever order they came, make up the heap (`Performs`). The writes that a
thread may make at all are listed beforehand, as its plan. So what others rely on can be compared
with the plan, and not with the steps.

What is said of the steps of a run holds for the run too, which is the case in which no other
thread writes (`Performs.run`). Steps in a row perform what each of them performs
(`Performs.bind`).
-/
import DurableCalls.Context
import DurableCalls.Steps
import DurableCalls.Proofs.Region.Writes

set_option autoImplicit false

namespace DurableCalls

open Region

/-- A state that has a heap, which may be exchanged for another one. Between two steps of a thread
the heap belongs to the others; the thread goes on with what it is lent then. -/
class HasHeap (σ : Type) where
  lent : σ → Region → σ
  heap? : σ → Option Region
  /-- The heap that is there already makes no difference. -/
  lent_eq : ∀ {s : σ} {heap : Region}, heap? s = some heap → lent s heap = s

open HasHeap

instance : HasHeap Region where
  lent _ heap := heap
  heap? heap := some heap
  lent_eq h := (Option.some.inj h).symm

instance : HasHeap Context where
  lent ctx heap := { ctx with heap := some heap }
  heap? ctx := ctx.heap
  lent_eq h := by rw [← h]

section Performs

variable {σ α β : Type} [HasHeap σ] {look : Region → Prop} {plan : List Write}

/-- Whatever heap the thread is lent for a step, if it looks as the thread relies on: the step
returns, and it has added writes of the plan to the writes made so far. Where the steps are done,
the value, the state and all writes are as told. -/
def Performs (look : Region → Prop) (plan : List Write) (ends : α → σ → List Write → Prop) :
    Steps σ α → σ → (made : List Write) → Prop
  | .done a, s, made => ends a s made
  | .step m rest, s, made => ∀ heap, look heap → ∃ b after new,
      m (lent s (heap.putAll made)) = (.ok b, after) ∧
      heap? after = some (heap.putAll (made ++ new)) ∧ new ⊆ plan ∧
      Performs look plan ends (rest b) after (made ++ new)

variable {ends : α → σ → List Write → Prop} {ends' : β → σ → List Write → Prop}
  {t : Steps σ α} {f : α → Steps σ β} {s : σ} {made : List Write}

/-- **Steps in a row.** The second part begins where the first has ended, with all writes of the
first. -/
theorem Performs.bind (h : Performs look plan ends t s made)
    (hf : ∀ a after all, ends a after all → Performs look plan ends' (f a) after all) :
    Performs look plan ends' (t >>= f) s made := by
  induction t generalizing s made with
  | done a => exact hf a s made h
  | step m rest ih =>
    intro heap hlook
    obtain ⟨b, after, new, hrun, hheap, hnew, hrest⟩ := h heap hlook
    exact ⟨b, after, new, hrun, hheap, hnew, ih b hrest⟩

/-- One step, and what comes behind it. -/
theorem Performs.step {m : Run σ α}
    (h : ∀ heap, look heap → ∃ a after new, m (lent s (heap.putAll made)) = (.ok a, after) ∧
      heap? after = some (heap.putAll (made ++ new)) ∧ new ⊆ plan ∧
      Performs look plan ends' (f a) after (made ++ new)) :
    Performs look plan ends' (liftM m >>= f) s made :=
  h

/-- A step that writes nothing. -/
theorem Performs.quiet {m : Run σ α}
    (h : ∀ heap, look heap → ∃ a after, m (lent s (heap.putAll made)) = (.ok a, after) ∧
      heap? after = some (heap.putAll made) ∧ Performs look plan ends' (f a) after made) :
    Performs look plan ends' (liftM m >>= f) s made := by
  intro heap hlook
  obtain ⟨a, after, hrun, hheap, hrest⟩ := h heap hlook
  rw [← List.append_nil made] at hheap hrest
  exact ⟨a, after, [], hrun, hheap, List.nil_subset plan, hrest⟩

/-- Nothing comes behind the last step. -/
theorem Performs.ended {m : Run σ α} (h : Performs look plan ends (liftM m >>= pure) s made) :
    Performs look plan ends (liftM m) s made :=
  h

/-- Nobody comes between the steps. -/
theorem Performs.run (h : Performs look plan ends t s made) (hsub : made ⊆ plan) {heap : Region}
    (hlook : look heap) (hheap : heap? s = some (heap.putAll made)) :
    ∃ a after all, t.run s = (.ok a, after) ∧ heap? after = some (heap.putAll all) ∧ all ⊆ plan ∧
      ends a after all := by
  induction t generalizing s made with
  | done a => exact ⟨a, s, made, rfl, hheap, hsub, h⟩
  | step m rest ih =>
    obtain ⟨b, after, new, hrun, hafter, hnew, hrest⟩ := h heap hlook
    rw [lent_eq hheap] at hrun
    obtain ⟨a, last, all, hlast, hend⟩ := ih b hrest (List.append_subset.2 ⟨hsub, hnew⟩) hafter
    exact ⟨a, last, all, (Run.bind_of_ok hrun).trans hlast, hend⟩

end Performs

end DurableCalls
