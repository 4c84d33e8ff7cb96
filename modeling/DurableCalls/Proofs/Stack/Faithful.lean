/-
`Faithful.lean` -- stacks whose region reads back as their calls.

A mirror says nothing about a region without calls. So a faithful stack also has a blank
start while nothing is pushed, and then a scan gives the calls in every case. Pushes, pops
and answers keep a stack faithful, whether they succeed or fail, and a reload finds the
calls that are there.

Every frame has a cache line of its own, so the size of a region bounds how many there are
(`Written.length_le`).
-/
import DurableCalls.Proofs.Stack.Refinement
import DurableCalls.Proofs.Stack.Slots

set_option autoImplicit false

namespace DurableCalls

open CallStack Region

namespace CallStack

variable {calls : CallStack} {top caller : Placed} {rest : List Placed}

theorem top_mem (h : calls.frames = top :: rest) : top ∈ calls.frames := by
  rw [h]
  exact List.mem_cons_self

theorem caller_mem (h : calls.frames = top :: caller :: rest) : caller ∈ calls.frames := by
  rw [h]
  exact List.mem_cons_of_mem top List.mem_cons_self

end CallStack

namespace Region.Written

variable {r : Region} {marker : UInt8} {p : Placed} {frames below : List Placed}

/-- As many cache lines lie in front of a frame as there are frames below it. -/
theorem length_le_position (h : r.Written marker (p :: below)) :
    below.length * lineSize ≤ p.position := by
  induction below generalizing marker p with
  | nil =>
    rw [List.length_nil, Nat.zero_mul]
    exact Nat.zero_le _
  | cons q rest ih =>
    have hq := ih h.2.2.2
    have hover := q.overhead_le_past
    have hposition : p.position = (q.past + 63) / 64 * 64 := h.1
    simp only [List.length_cons, lineSize] at hq ⊢
    omega

/-- A region has no more frames than lines, and one. -/
theorem length_le (h : r.Written marker frames) : frames.length ≤ r.size / lineSize + 1 := by
  cases frames with
  | nil => exact Nat.zero_le _
  | cons p below =>
    have hlines := h.length_le_position
    have hover := p.overhead_le_past
    have hpast : p.past ≤ r.size := h.endOf_le
    simp only [List.length_cons, lineSize] at hlines ⊢
    omega

end Region.Written

namespace DurableStack

/-- **The invariant.** The calls are written in the region, or there are none and the
region starts blank. -/
structure Faithful (s : DurableStack) : Prop where
  mirrored : s.Mirrored
  blank : s.calls.frames = [] → s.region.BlankStart

variable {s : DurableStack} {frame : Frame} {p : Placed} {bytes : List UInt8}

theorem Mirrored.faithful (h : s.Mirrored) (hne : s.calls.frames ≠ []) : s.Faithful :=
  ⟨h, fun hnil => absurd hnil hne⟩

theorem Fresh.faithful (h : s.Fresh) : s.Faithful := by
  refine ⟨?_, fun _ => h.blank.blankStart h.room⟩
  rw [Mirrored, h.empty]
  trivial

/-- **The region reads back as the calls.** With frames the scan finds what is written; without any
the region starts blank, and that is the one failing read that a scan takes for an empty stack. -/
theorem Faithful.scan_eq (h : s.Faithful) : scan s.region = .ok s.calls := by
  by_cases hnil : s.calls.frames = []
  · have hcalls : s.calls = .empty := by
      rw [show s.calls = ⟨s.calls.frames⟩ from rfl, hnil]
      rfl
    rw [hcalls]
    exact scan_of_blankStart (h.blank hnil)
  · exact h.mirrored.scan_eq hnil

/-- So a reload changes nothing. -/
theorem Faithful.reload_eq (h : s.Faithful) : reload s = (.ok (), s) := by
  rw [reload, Run.update_apply, h.scan_eq]
  rfl

/-! ## The operations -/

/-- The region keeps its size, and reads back as the calls. This is what one operation on a stack
leaves to the next one. -/
structure Follows (s t : DurableStack) : Prop where
  faithful : t.Faithful
  size_eq : t.region.size = s.region.size

theorem Faithful.follows (h : s.Faithful) : Follows s s :=
  ⟨h, rfl⟩

theorem Follows.trans {t u : DurableStack} (h₁ : Follows s t) (h₂ : Follows t u) : Follows s u :=
  ⟨h₂.faithful, h₂.size_eq.trans h₁.size_eq⟩

theorem Faithful.pushed (h : s.Faithful) (hfits : frame.Fits) (answer : Slot)
    (hroom : nextPosition s.calls.frames + frame.size ≤ s.region.size) :
    Follows s (s.pushed frame answer) :=
  ⟨(h.mirrored.pushed hfits answer hroom).faithful (List.cons_ne_nil _ _), size_pushed _ _ _⟩

theorem Faithful.pop (h : s.Faithful) : Follows s (pop s).2 := by
  rcases hframes : s.calls.frames with _ | ⟨last, _ | ⟨below, rest⟩⟩
  · rw [pop_of_nil hframes]
    exact h.follows
  · rw [pop_of_one hframes]
    exact h.follows
  · rw [h.mirrored.pop_of_two hframes]
    exact ⟨(h.mirrored.popped hframes).faithful (List.cons_ne_nil _ _), size_popped _ _ _⟩

theorem Faithful.put_slot (h : s.Faithful) (hp : p ∈ s.calls.frames) (hlen : bytes.length ≤ 8) :
    Follows s ⟨s.calls, s.region.put p.position bytes⟩ :=
  ⟨(h.mirrored.put_slot hp hlen).faithful (List.ne_nil_of_mem hp), size_put _ _ _⟩

end DurableStack

end DurableCalls
