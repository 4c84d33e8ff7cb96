/-
`Spares.lean` -- what the frames above a caller leave of the bytes below its end.

A caller's callees answer into its slot, and its marker says whether a frame stands behind
it. Nothing else below its end is ever written while they run. This is said of the top
caller alone, and it then holds of everyone below (`Spares.below`).
-/
import DurableCalls.Proofs.Stack.Slots

set_option autoImplicit false

namespace DurableCalls

open CallStack Region

/-- The second region has the bytes of the first one below the end of the top frame, beside
its slot and its marker. -/
def Region.Spares : (frames : List Placed) → (r r' : Region) → Prop
  | [], _, _ => True
  | caller :: _, r, r' => ∀ i, i + 1 < caller.past →
      ¬(caller.position ≤ i ∧ i < caller.position + slotSize) → r'.cells[i]? = r.cells[i]?

namespace Region.Spares

variable {r r₁ r₂ r₃ : Region} {frames rest : List Placed} {p caller : Placed} {offset : Nat}
  {data : List UInt8} {marker : UInt8}

theorem refl : Spares frames r r := by
  cases frames with
  | nil => trivial
  | cons caller rest => exact fun _ _ _ => rfl

theorem trans (h₁ : Spares frames r₁ r₂) (h₂ : Spares frames r₂ r₃) : Spares frames r₁ r₃ := by
  cases frames with
  | nil => trivial
  | cons caller rest => exact fun i hi hout => (h₂ i hi hout).trans (h₁ i hi hout)

/-- A write at the slot of the caller, or at its marker or behind. -/
theorem put (hin : offset + data.length ≤ r.size)
    (h : (offset = caller.position ∧ data.length ≤ 8) ∨ caller.past ≤ offset + 1) :
    Spares (caller :: rest) r (r.put offset data) := by
  intro i hi hout
  simp only [slotSize] at hout
  have hagree : Agree i (i + 1) r (r.put offset data) := agree_put hin (by omega)
  exact hagree.2 i (Nat.le_refl i) (Nat.lt_succ_self i)

/-- What is spared for a callee is spared for its caller, who ends below it. -/
theorem below (hwritten : r.Written marker (p :: frames)) (h : Spares (p :: frames) r₁ r₂) :
    Spares frames r₁ r₂ := by
  cases frames with
  | nil => trivial
  | cons caller rest =>
    have hapart : caller.past ≤ p.position := hwritten.endOf_le_position
    have hover := p.overhead_le_past
    intro i hi hout
    exact h i (by omega) (by omega)

end Region.Spares

namespace DurableStack

variable {s : DurableStack} {frame : Frame} {answer : Slot} {last below : Placed}
  {rest : List Placed}

theorem Mirrored.spares_pushed (h : s.Mirrored)
    (hroom : nextPosition s.calls.frames + frame.size ≤ s.region.size) :
    Spares s.calls.frames s.region (s.pushed frame answer).region := by
  rcases hframes : s.calls.frames with _ | ⟨caller, rest⟩
  · trivial
  · have hend : caller.past ≤ s.region.size := by
      have hle : endOf s.calls.frames ≤ s.region.size := Written.endOf_le h
      rw [hframes] at hle
      exact hle
    have hover := caller.overhead_le_past
    have hposition : caller.past ≤ nextPosition (caller :: rest) := le_lineFrom _
    rw [hframes] at hroom
    simp only [DurableStack.pushed, lowered, hframes]
    refine Spares.trans (Spares.put ?_ (.inr (by omega))) (Spares.put ?_ (.inr (by omega)))
    · rw [Frame.length_encode]
      exact hroom
    · rw [List.length_singleton, size_put]
      omega

theorem Mirrored.spares_popped (h : s.Mirrored) (hframes : s.calls.frames = last :: below :: rest) :
    Spares (below :: rest) s.region (s.popped below rest).region := by
  have hwritten : s.region.Written stackEnd s.calls.frames := h
  rw [hframes] at hwritten
  have hin : below.past ≤ s.region.size := hwritten.2.2.2.endOf_le
  have hover := below.overhead_le_past
  refine Spares.put ?_ (.inr (by omega))
  rw [List.length_singleton]
  omega

end DurableStack

end DurableCalls
