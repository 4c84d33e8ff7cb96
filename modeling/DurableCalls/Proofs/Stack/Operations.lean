/-
`Operations.lean` -- what a push and a pop do to a stack that mirrors its region.

A stack *mirrors* its region if its frames are written there, the top one as the end of
the stack. This says more than that a scan gives its calls, because the scans behind the
next operations have to succeed as well.

Each operation has one equation per way in which it can end. The states they lead to are
named (`pushed`, `popped`), and both operations keep the mirror (`Mirrored.pushed`,
`Mirrored.popped`), whatever the region holds behind the top frame.
-/
import DurableCalls.Proofs.Stack.Mirror

set_option autoImplicit false

namespace DurableCalls

open CallStack Region

namespace DurableStack

/-- **The invariant.** The frames that the thread sees are written in the region, the top
one as the end of the stack. -/
def Mirrored (s : DurableStack) : Prop := s.region.Written stackEnd s.calls.frames

theorem Mirrored.scan_eq {s : DurableStack} (h : s.Mirrored) (hne : s.calls.frames ≠ []) :
    scan s.region = .ok s.calls :=
  scan_of_written hne h

/-! ## Writes and seeds -/

theorem persist_of_in {offset : Nat} {data : List UInt8} {s : DurableStack}
    (hin : offset + data.length ≤ s.region.size) :
    persist offset data s = (.ok (), ⟨s.calls, s.region.put offset data⟩) := by
  rw [persist, onRegion, Run.zoom_apply]
  show ((Region.persist offset data s.region).1, DurableStack.mk s.calls _) = _
  rw [persist_eq_write, write_apply, if_pos hin]

theorem persist_of_out {offset : Nat} {data : List UInt8} {s : DurableStack}
    (hout : s.region.size < offset + data.length) : persist offset data s
      = (.error (.failed (.outOfBounds offset data.length s.region.size)), s) := by
  rw [persist, onRegion, Run.zoom_apply]
  show ((Region.persist offset data s.region).1, DurableStack.mk s.calls _) = _
  rw [persist_eq_write, write_apply, if_neg (Nat.not_le.2 hout)]

theorem update_calls_of_push {p : Placed} {calls : CallStack} {s : DurableStack}
    (h : s.calls.push p = .ok calls) :
    Run.update (fun s : DurableStack => do return { s with calls := ← s.calls.push p }) s
      = (.ok (), ⟨calls, s.region⟩) := by
  rw [Run.update_apply, h]
  rfl

/-- The seeds that a slot can take: none at all, or 1 to 8 bytes. -/
def SeedFits : Option (List UInt8) → Prop
  | none => True
  | some bytes => 1 ≤ bytes.length ∧ bytes.length ≤ slotSize

instance (seed : Option (List UInt8)) : Decidable (SeedFits seed) :=
  match seed with
  | none => inferInstanceAs (Decidable True)
  | some bytes => inferInstanceAs (Decidable (1 ≤ bytes.length ∧ bytes.length ≤ slotSize))

theorem seedSlot_of_fits {seed : Option (List UInt8)} (h : SeedFits seed) :
    seedSlot seed = .ok (.seeded (seed.getD [])) := by
  cases seed with
  | none => rfl
  | some bytes =>
    obtain ⟨hpos, hmax⟩ := h
    have hlen : ¬(bytes.length = 0 ∨ slotSize < bytes.length) := by omega
    simp only [seedSlot, checkAnswer, if_neg hlen]
    rfl

theorem seedSlot_of_not_fits {bytes : List UInt8} (h : ¬SeedFits (some bytes)) :
    seedSlot (some bytes) = .error (.answerSize bytes.length) := by
  have hlen : bytes.length = 0 ∨ slotSize < bytes.length := by
    simp only [SeedFits] at h
    omega
  simp only [seedSlot, checkAnswer, if_pos hlen]
  rfl

/-! ## Pushing -/

/-- The region with the top frame of a list marked as a frame that has a successor. -/
def lowered (r : Region) : (frames : List Placed) → Region
  | [] => r
  | last :: _ => r.put (last.past - 1) [frameEnd]

/-- The stack after a push. -/
def pushed (s : DurableStack) (frame : Frame) (answer : Slot) : DurableStack where
  calls := ⟨⟨frame, nextPosition s.calls.frames⟩ :: s.calls.frames⟩
  region := lowered (s.region.put (nextPosition s.calls.frames) (frame.encode answer stackEnd))
    s.calls.frames

@[simp] theorem size_pushed (s : DurableStack) (frame : Frame) (answer : Slot) :
    (s.pushed frame answer).region.size = s.region.size := by
  cases hframes : s.calls.frames <;> simp [pushed, lowered, hframes]

section Push

variable {s : DurableStack} {frame : Frame} {seed : Option (List UInt8)}

theorem push_of_bad_seed {f : Failure} (h : seedSlot seed = .error f) :
    push frame seed s = (.error (.failed f), s) := by
  refine Run.bind_of_error ?_
  rw [Run.lift_apply, h]
  rfl

/-- The offsets of a push, for a stack that ends inside its region. -/
theorem offsets_of_endOf_le (hend : endOf s.calls.frames ≤ s.region.size) (hfits : frame.Fits) :
    s.calls.stop = .ok (endOf s.calls.frames) ∧
      alignUp (endOf s.calls.frames) = .ok (nextPosition s.calls.frames) ∧
      addWord (nextPosition s.calls.frames) frame.size
        = .ok (nextPosition s.calls.frames + frame.size) := by
  have hlt : s.region.size < 9223372036854775808 := s.region.size_lt
  have hposition : nextPosition s.calls.frames ≤ endOf s.calls.frames + 63 := lineFrom_le _
  have hsize := hfits.size_le
  have hstop : endOf s.calls.frames < wordLimit := by
    simp only [wordLimit]
    omega
  have halign : endOf s.calls.frames + 64 < wordLimit := by
    simp only [wordLimit]
    omega
  have hpast : nextPosition s.calls.frames + frame.size < wordLimit := by
    simp only [wordLimit]
    omega
  exact ⟨stop_eq_endOf hstop, alignUp_eq_lineFrom halign, addWord_eq hpast⟩

/-- A push that is refused its room writes nothing. -/
theorem push_of_check_error {answer : Slot} {halt : Halt} (hslot : seedSlot seed = .ok answer)
    (hend : endOf s.calls.frames + 64 < wordLimit)
    (hcheck : s.checkRoom (nextPosition s.calls.frames) frame.size = .error halt) :
    push frame seed s = (.error halt, s) := by
  have hstop : s.calls.stop = .ok (endOf s.calls.frames) :=
    stop_eq_endOf (Nat.lt_of_le_of_lt (Nat.le_add_right _ _) hend)
  have hposition : alignUp (endOf s.calls.frames) = .ok (nextPosition s.calls.frames) :=
    alignUp_eq_lineFrom hend
  simp only [push, Run.bind_apply, Run.lift_apply, Run.liftHalt_apply, Run.get_apply, hslot,
    Run.mapError_ok, hstop, hposition, hcheck]

/-- Without room for the frame nothing is written. -/
theorem push_of_no_room {answer : Slot} (hslot : seedSlot seed = .ok answer)
    (hend : endOf s.calls.frames ≤ s.region.size) (hfits : frame.Fits)
    (hroom : s.region.size < nextPosition s.calls.frames + frame.size) :
    push frame seed s = (.error (.failed (.outOfBounds (nextPosition s.calls.frames) frame.size
      s.region.size)), s) := by
  obtain ⟨-, hposition, hpast⟩ := offsets_of_endOf_le hend hfits
  refine push_of_check_error hslot (alignUp_eq_ok.1 hposition).1 ?_
  simp only [checkRoom, hpast, bind, Except.bind, if_pos hroom]
  rfl

theorem push_of_room {answer : Slot} (hslot : seedSlot seed = .ok answer)
    (hend : endOf s.calls.frames ≤ s.region.size) (hfits : frame.Fits)
    (hroom : nextPosition s.calls.frames + frame.size ≤ s.region.size) :
    push frame seed s = (.ok (nextPosition s.calls.frames), s.pushed frame answer) := by
  obtain ⟨hstop, hposition, hpast⟩ := offsets_of_endOf_le hend hfits
  have hcheck : s.checkRoom (nextPosition s.calls.frames) frame.size = .ok () := by
    simp only [checkRoom, hpast, bind, Except.bind, if_neg (Nat.not_lt.2 hroom)]
    rfl
  have hwrite : persist (nextPosition s.calls.frames) (frame.encode answer stackEnd) s
      = (.ok (), ⟨s.calls, s.region.put (nextPosition s.calls.frames)
          (frame.encode answer stackEnd)⟩) :=
    persist_of_in (by rw [Frame.length_encode]; exact hroom)
  have hword : endOf s.calls.frames + 64 < wordLimit := by
    have hlt : s.region.size < 9223372036854775808 := s.region.size_lt
    simp only [wordLimit]
    omega
  have hpush : s.calls.push ⟨frame, nextPosition s.calls.frames⟩
      = .ok ⟨⟨frame, nextPosition s.calls.frames⟩ :: s.calls.frames⟩ :=
    push_at_nextPosition hword rfl
  have hcalls := update_calls_of_push (s := ⟨s.calls, s.region.put (nextPosition s.calls.frames)
    (frame.encode answer stackEnd)⟩) hpush
  simp only [push, Run.bind_apply, Run.lift_apply, Run.liftHalt_apply, Run.get_apply, hslot,
    Run.mapError_ok, hstop, hposition, hcheck, hwrite, hcalls, pushed]
  -- only a frame with another one below it lowers a marker
  cases hframes : s.calls.frames with
  | nil => rfl
  | cons last below =>
    have hover := last.overhead_le_past
    have hin : last.past - 1 + [frameEnd].length ≤ s.region.size := by
      rw [hframes] at hend
      simp only [endOf] at hend
      simp only [List.length_singleton]
      omega
    have hdeep : 1 < CallStack.depth ⟨⟨frame, nextPosition (last :: below)⟩ :: last :: below⟩ := by
      simp only [CallStack.depth, List.length_cons]
      omega
    rw [if_pos hdeep, Run.bind_of_ok (persist_of_in (by rw [size_put]; exact hin))]
    rfl

/-- **How a push ends**: with a seed that fits no slot, without room, or pushed. The three cases
exclude each other, and the first two change nothing. This is the lemma by which pushes are told
elsewhere. -/
theorem push_cases (h : s.Mirrored) (hfits : frame.Fits) (seed : Option (List UInt8)) :
    (∃ bytes, seed = some bytes ∧ ¬SeedFits seed ∧
      push frame seed s = (.error (.failed (.answerSize bytes.length)), s)) ∨
    (SeedFits seed ∧ s.region.size < nextPosition s.calls.frames + frame.size ∧
      push frame seed s = (.error (.failed (.outOfBounds (nextPosition s.calls.frames) frame.size
        s.region.size)), s)) ∨
    (SeedFits seed ∧ nextPosition s.calls.frames + frame.size ≤ s.region.size ∧
      push frame seed s = (.ok (nextPosition s.calls.frames),
        s.pushed frame (.seeded (seed.getD [])))) := by
  have hend : endOf s.calls.frames ≤ s.region.size := Written.endOf_le h
  -- the seed is checked before the room
  by_cases hseed : SeedFits seed
  · have hslot := seedSlot_of_fits hseed
    by_cases hroom : s.region.size < nextPosition s.calls.frames + frame.size
    · exact .inr (.inl ⟨hseed, hroom, push_of_no_room hslot hend hfits hroom⟩)
    · have hle := Nat.not_lt.1 hroom
      exact .inr (.inr ⟨hseed, hle, push_of_room hslot hend hfits hle⟩)
  · cases seed with
    | none => exact absurd trivial hseed
    | some bytes =>
      exact .inl ⟨bytes, rfl, hseed, push_of_bad_seed (seedSlot_of_not_fits hseed)⟩

/-- The bytes that a push leaves: all but the new frame's range and the marker below it. -/
theorem agree_lowered {r : Region} {frames : List Placed} {lo hi : Nat}
    (hend : endOf frames ≤ r.size) (h : endOf frames ≤ lo ∨ hi + 1 ≤ endOf frames) :
    Agree lo hi r (lowered r frames) := by
  cases frames with
  | nil => exact Agree.refl
  | cons last below =>
    have hover := last.overhead_le_past
    simp only [endOf] at hend h
    refine agree_put ?_ ?_
    · simp only [List.length_singleton]
      omega
    · simp only [List.length_singleton]
      omega

/-- The frames below a pushed one are written as before, and all of them have a successor. -/
theorem written_lowered {r : Region} {frames : List Placed} (h : r.Written stackEnd frames) :
    (lowered r frames).Written frameEnd frames := by
  cases frames with
  | nil => trivial
  | cons last below => exact h.mark frameEnd

/-- **A push keeps the mirror.** The new frame is stored behind the end of the others, and the
marker below it now says that there is a next one. Neither write touches the other frames. -/
theorem Mirrored.pushed (h : s.Mirrored) (hfits : frame.Fits) (answer : Slot)
    (hroom : nextPosition s.calls.frames + frame.size ≤ s.region.size) :
    (s.pushed frame answer).Mirrored := by
  have hin : nextPosition s.calls.frames + (frame.encode answer stackEnd).length
      ≤ s.region.size := by rw [Frame.length_encode]; exact hroom
  have hend : endOf s.calls.frames ≤ nextPosition s.calls.frames := le_lineFrom _
  have hsize : endOf s.calls.frames ≤ (s.region.put (nextPosition s.calls.frames)
      (frame.encode answer stackEnd)).size := by
    rw [size_put]
    exact Written.endOf_le h
  have hbelow : (s.region.put (nextPosition s.calls.frames)
      (frame.encode answer stackEnd)).Written stackEnd s.calls.frames :=
    Written.of_agree h (agree_put hin (.inl hend))
  -- the marker below lies in front of the new frame, so lowering it keeps that stored
  refine ⟨rfl, hfits, ?_, written_lowered hbelow⟩
  exact (Placed.Stored.put frame answer _ hroom).of_agree (agree_lowered hsize (.inl hend))

end Push

/-! ## Popping -/

/-- The stack after a pop that leaves these frames. -/
def popped (s : DurableStack) (below : Placed) (rest : List Placed) : DurableStack where
  calls := ⟨below :: rest⟩
  region := s.region.put (below.past - 1) [stackEnd]

@[simp] theorem size_popped (s : DurableStack) (below : Placed) (rest : List Placed) :
    (s.popped below rest).region.size = s.region.size := size_put _ _ _

section Pop

variable {s : DurableStack} {last below : Placed} {rest : List Placed}

theorem pop_of_nil (hframes : s.calls.frames = []) :
    pop s = (.error (.failed .firstFrameRemoval), s) := by
  rw [pop, Run.bind_of_ok (Run.get_apply s)]
  simp only [hframes]
  rfl

theorem pop_of_one (hframes : s.calls.frames = [last]) :
    pop s = (.error (.failed .firstFrameRemoval), s) := by
  rw [pop, Run.bind_of_ok (Run.get_apply s)]
  simp only [hframes]
  rfl

/-- A pop cuts the calls first, and its marker is written for those that are left. -/
theorem pop_eq_of_two (hframes : s.calls.frames = last :: below :: rest) :
    pop s = (do
      let stop ← below.stop
      persist (stop - 1) [stackEnd]
      return last : Run DurableStack Placed) ⟨⟨below :: rest⟩, s.region⟩ := by
  rw [pop, Run.bind_of_ok (Run.get_apply s)]
  simp only [hframes]
  rw [Run.bind_of_ok (Run.modify_apply _ s)]

theorem pop_of_two (hframes : s.calls.frames = last :: below :: rest)
    (hin : below.past ≤ s.region.size) : pop s = (.ok last, s.popped below rest) := by
  have hover := below.overhead_le_past
  have hlt : s.region.size < 9223372036854775808 := s.region.size_lt
  have hstop : below.stop = .ok below.past := by
    refine addWord_eq (show below.past < wordLimit from ?_)
    simp only [wordLimit]
    omega
  have hwrite : below.past - 1 + [stackEnd].length ≤ s.region.size := by
    simp only [List.length_singleton]
    omega
  rw [pop_eq_of_two hframes, hstop, Run.bind_of_ok (Run.liftHalt_apply _ _),
    Run.bind_of_ok (persist_of_in (s := ⟨⟨below :: rest⟩, s.region⟩) hwrite)]
  rfl

theorem Mirrored.pop_of_two (h : s.Mirrored) (hframes : s.calls.frames = last :: below :: rest) :
    pop s = (.ok last, s.popped below rest) := by
  have hwritten : s.region.Written stackEnd s.calls.frames := h
  rw [hframes] at hwritten
  exact DurableStack.pop_of_two hframes hwritten.2.2.2.endOf_le

/-- **A pop keeps the mirror.** One byte is written, the marker of the frame that is now on top; the
bytes of the popped frame stay where they are, behind the end. -/
theorem Mirrored.popped (h : s.Mirrored) (hframes : s.calls.frames = last :: below :: rest) :
    (s.popped below rest).Mirrored := by
  have hwritten : s.region.Written stackEnd s.calls.frames := h
  rw [hframes] at hwritten
  exact hwritten.2.2.2.mark stackEnd

end Pop

end DurableStack

end DurableCalls
