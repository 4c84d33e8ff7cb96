/-
`Refinement.lean` -- a durable stack behaves like a plain list of frames.

Pushes and pops lead from a stack without calls to stacks that mirror their region
(`Reachable.mirrored`): nothing is written at the start, and each operation keeps the
mirror whether it succeeds or fails. Over a zero-filled region, a scan after any
operation gives the live calls, and the operations are those of a list
(`reachable_actsAsList`).
-/
import DurableCalls.Proofs.Stack.Operations

set_option autoImplicit false

namespace DurableCalls

open CallStack Region

/-- Every byte is zero, as in a file that was just created. -/
def Region.Blank (r : Region) : Prop := ∀ i, i < r.size → r.cells[i]? = some 0

/-- A blank region with room for a frame starts with a frame of zeros. -/
theorem Region.Blank.blankStart {r : Region} (h : r.Blank) (hroom : 13 ≤ r.size) :
    r.BlankStart := by
  have hzeros : Frame.encode ⟨"", []⟩ (Vector.replicate 8 0) 0 = List.replicate 13 0 := by decide
  refine ⟨Vector.replicate 8 0, read_eq_ok_iff.2 ⟨hroom, rfl, fun i hi => ?_⟩⟩
  have hlt : i < 13 := hi
  rw [hzeros, List.getElem?_replicate, if_pos hlt, Nat.zero_add, h i (by omega)]

namespace DurableStack

/-- The stacks that pushes of frames that can be made, and pops, lead to. An operation
that fails leads to a stack as well. -/
inductive Reachable (start : DurableStack) : DurableStack → Prop
  | start : Reachable start start
  | push {s : DurableStack} {frame : Frame} (reached : Reachable start s)
      (name : String) (args : List UInt8) (made : Frame.make name args = .ok frame)
      (seed : Option (List UInt8)) : Reachable start (push frame seed s).2
  | pop {s : DurableStack} (reached : Reachable start s) : Reachable start (pop s).2

/-- **Both operations keep the mirror** and the size of the region, and while nothing is
pushed the region stays as it was. -/
theorem Reachable.mirrored {start s : DurableStack} (hempty : start.calls = .empty)
    (h : Reachable start s) :
    s.Mirrored ∧ s.region.size = start.region.size ∧
      (s.calls.frames = [] → s.region = start.region) := by
  induction h with
  | start =>
    refine ⟨?_, rfl, fun _ => rfl⟩
    rw [Mirrored, hempty]
    trivial
  -- a push that fails leaves the stack, and one that succeeds leaves calls
  | push reached name args made seed ih =>
    obtain ⟨hs, hsize, hsame⟩ := ih
    have hfits := (Frame.make_eq_ok_iff.1 made).2
    rcases push_cases hs hfits seed with ⟨bytes, -, -, hpush⟩ | ⟨-, -, hpush⟩ | ⟨-, hroom, hpush⟩
    · rw [hpush]
      exact ⟨hs, hsize, hsame⟩
    · rw [hpush]
      exact ⟨hs, hsize, hsame⟩
    · rw [hpush]
      exact ⟨hs.pushed hfits _ hroom, by rw [size_pushed, hsize], fun hnil => by cases hnil⟩
  | @pop s reached ih =>
    obtain ⟨hs, hsize, hsame⟩ := ih
    rcases hframes : s.calls.frames with _ | ⟨last, _ | ⟨below, rest⟩⟩
    · rw [pop_of_nil hframes]
      exact ⟨hs, hsize, hsame⟩
    · rw [pop_of_one hframes]
      exact ⟨hs, hsize, hsame⟩
    · rw [hs.pop_of_two hframes]
      exact ⟨hs.popped hframes, by rw [size_popped, hsize], fun hnil => by cases hnil⟩

/-- A stack over a zero-filled region with room for the smallest frame. -/
structure Fresh (s : DurableStack) : Prop where
  blank : s.region.Blank
  room : 13 ≤ s.region.size
  empty : s.calls = .empty

theorem Reachable.scan_eq {start s : DurableStack} (hfresh : start.Fresh)
    (h : Reachable start s) : scan s.region = .ok s.calls := by
  obtain ⟨hs, -, hsame⟩ := h.mirrored hfresh.empty
  -- without calls nothing is mirrored, and the region is the blank one of the start
  by_cases hnil : s.calls.frames = []
  · have hcalls : s.calls = .empty := by
      rw [show s.calls = ⟨s.calls.frames⟩ from rfl, hnil]
      rfl
    rw [hcalls, hsame hnil]
    exact scan_of_blankStart (hfresh.blank.blankStart hfresh.room)
  · exact hs.scan_eq hnil

/-! ## The operations of a list -/

/-- A stack whose region reads back as its calls, and on which the operations are those
of a list of frames in a bounded space. An operation that fails changes nothing. -/
structure ActsAsList (s : DurableStack) : Prop where
  /-- The region reads back as the live calls. -/
  scan_eq : scan s.region = .ok s.calls
  /-- A push puts its frame on the next cache line behind the end, unless the seed fits
  no slot or the frame has no room there. -/
  push_eq : ∃ stop position, s.calls.stop = .ok stop ∧ alignUp stop = .ok position ∧
    ∀ name args frame seed, Frame.make name args = .ok frame →
      if SeedFits seed ∧ position + frame.size ≤ s.region.size then
        ∃ region, push frame seed s
          = (.ok position, ⟨⟨⟨frame, position⟩ :: s.calls.frames⟩, region⟩)
      else ∃ failure, push frame seed s = (.error (.failed failure), s)
  /-- A pop takes the last frame, unless it is the only one or there is none. -/
  pop_eq : match s.calls.frames with
    | last :: below :: rest => ∃ region, pop s = (.ok last, ⟨⟨below :: rest⟩, region⟩)
    | _ => pop s = (.error (.failed .firstFrameRemoval), s)

theorem Mirrored.actsAsList {s : DurableStack} (h : s.Mirrored)
    (hscan : scan s.region = .ok s.calls) : s.ActsAsList := by
  have hend : endOf s.calls.frames ≤ s.region.size := Written.endOf_le h
  have hword : endOf s.calls.frames + 64 < wordLimit := Written.endOf_add_lt h
  refine ⟨hscan, ⟨endOf s.calls.frames, nextPosition s.calls.frames, ?_, ?_, ?_⟩, ?_⟩
  · exact stop_eq_endOf (Nat.lt_of_le_of_lt (Nat.le_add_right _ _) hword)
  · exact alignUp_eq_lineFrom hword
  · intro name args frame seed made
    have hfits := (Frame.make_eq_ok_iff.1 made).2
    rcases push_cases h hfits seed with ⟨bytes, -, hseed, hpush⟩ | ⟨-, hroom, hpush⟩
      | ⟨hseed, hroom, hpush⟩
    · rw [if_neg fun hboth => hseed hboth.1]
      exact ⟨_, hpush⟩
    · rw [if_neg fun hboth => Nat.not_lt.2 hboth.2 hroom]
      exact ⟨_, hpush⟩
    · rw [if_pos ⟨hseed, hroom⟩]
      exact ⟨_, hpush⟩
  · rcases hframes : s.calls.frames with _ | ⟨last, _ | ⟨below, rest⟩⟩
    · exact pop_of_nil hframes
    · exact pop_of_one hframes
    · exact ⟨_, h.pop_of_two hframes⟩

/-- **A durable stack refines a plain list of frames.** Whatever pushes and pops were made
since the region was blank, the region reads back as the live calls, and the next
operation is that of a list. -/
theorem reachable_actsAsList {start s : DurableStack} (hfresh : start.Fresh)
    (h : Reachable start s) : s.ActsAsList :=
  (h.mirrored hfresh.empty).1.actsAsList (h.scan_eq hfresh)

/-- A stack without calls over three cache lines of zeros. -/
def threeLines : DurableStack where
  calls := .empty
  region := {
    path := .ofText "stack"
    cells := Array.replicate 192 0
    size_lt := by rw [Array.size_replicate]; decide }

@[simp] theorem size_threeLines : threeLines.region.size = 192 := Array.size_replicate

theorem threeLines_fresh : threeLines.Fresh where
  blank i hi := by
    rw [size_threeLines] at hi
    simp [threeLines, hi]
  room := by rw [size_threeLines]; decide
  empty := rfl

/-- Two frames are pushed on the three lines, a third one has no room, and one is popped. -/
def usedLines : DurableStack :=
  (pop (push ⟨"h", List.replicate 60 1⟩ none
    (push ⟨"g", [7]⟩ (some [1]) (push ⟨"f", []⟩ none threeLines).2).2).2).2

theorem usedLines_reachable : Reachable threeLines usedLines := by
  have h₀ : Reachable threeLines threeLines := .start
  have h₁ := h₀.push "f" [] (show Frame.make "f" [] = .ok ⟨"f", []⟩ from rfl) none
  have h₂ := h₁.push "g" [7] (show Frame.make "g" [7] = .ok ⟨"g", [7]⟩ from rfl) (some [1])
  have h₃ := h₂.push "h" (List.replicate 60 1)
    (show Frame.make "h" (List.replicate 60 1) = .ok ⟨"h", List.replicate 60 1⟩ from rfl) none
  exact h₃.pop

theorem usedLines_actsAsList :
    threeLines.Fresh ∧ Reachable threeLines usedLines ∧ usedLines.ActsAsList :=
  ⟨threeLines_fresh, usedLines_reachable,
    reachable_actsAsList threeLines_fresh usedLines_reachable⟩

end DurableStack

end DurableCalls
