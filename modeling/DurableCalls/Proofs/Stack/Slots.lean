/-
`Slots.lean` -- answers in the frames of a stack.

An answer slot is the start of its frame, so writing an answer is a write inside a frame
that is stored. It stays stored, and every other frame lies beside it. The slots
themselves survive pushes and pops, which write the new frame and one marker.
-/
import DurableCalls.Proofs.Stack.Operations

set_option autoImplicit false

namespace DurableCalls

open CallStack Region

variable {r : Region} {marker : UInt8} {p : Placed} {frames : List Placed} {bytes : List UInt8}

/-! ## Writing an answer -/

/-- A stored frame stays stored, with another answer, when its slot is written. -/
theorem Placed.Stored.put_slot (h : p.Stored r marker) (hlen : bytes.length ≤ 8) :
    p.Stored (r.put p.position bytes) marker := by
  obtain ⟨answer, hread⟩ := h
  have hslot : answer.toList.length = 8 := answer.length_toList
  -- the slot is cut in two: what the answer goes over, and what it leaves
  have hsplit : p.frame.encode answer marker = [] ++ (answer.toList.take bytes.length ++
      (answer.toList.drop bytes.length ++ toBytes 2 p.frame.name.utf8ByteSize
        ++ Text.utf8 p.frame.name ++ toBytes 2 p.frame.args.length ++ p.frame.args
        ++ [marker])) := by
    simp only [Frame.encode, List.nil_append, ← List.append_assoc, List.take_append_drop]
  have hold : (answer.toList.take bytes.length).length = bytes.length := by
    rw [List.length_take, hslot]
    omega
  rw [hsplit] at hread
  have hput := read_put_within hread hold
  have hnew : (bytes ++ answer.toList.drop bytes.length).toArray.size = 8 := by
    rw [List.size_toArray, List.length_append, List.length_drop, hslot]
    omega
  refine ⟨⟨(bytes ++ answer.toList.drop bytes.length).toArray, hnew⟩, ?_⟩
  simpa only [Frame.encode, Vector.toList, List.nil_append, List.length_nil, Nat.add_zero,
    ← List.append_assoc] using hput

namespace Region.Written

/-- **Writing an answer keeps what is written**, whichever frame it goes to. The slot is the part of
a frame that its written form leaves open, and no other frame has a byte in it. -/
theorem put_slot (h : r.Written marker frames) (hp : p ∈ frames) (hlen : bytes.length ≤ 8) :
    (r.put p.position bytes).Written marker frames := by
  have hover := p.overhead_le_past
  have hin : p.position + bytes.length ≤ r.size := by
    have hend := h.endOf_le
    have hpast := h.past_le_endOf hp
    omega
  induction frames generalizing marker with
  | nil => cases hp
  | cons top below ih =>
    obtain ⟨hposition, hfits, hstored, hbelow⟩ := h
    have hend : endOf below ≤ top.position := by
      rw [hposition]
      exact le_lineFrom _
    -- the frame itself keeps its form, and all others lie beside its slot
    rcases List.mem_cons.1 hp with rfl | hp
    · exact ⟨hposition, hfits, hstored.put_slot hlen, hbelow.of_agree (agree_put hin (.inl hend))⟩
    · have hpast := hbelow.past_le_endOf hp
      exact ⟨hposition, hfits, hstored.of_agree (agree_put hin (.inr (by omega))),
        ih hbelow hp⟩

end Region.Written

namespace DurableStack

variable {s : DurableStack} {frame : Frame} {answer : Slot} {below : Placed} {rest : List Placed}
  {lo hi n : Nat}

theorem Mirrored.put_slot (h : s.Mirrored) (hp : p ∈ s.calls.frames) (hlen : bytes.length ≤ 8) :
    Mirrored ⟨s.calls, s.region.put p.position bytes⟩ :=
  Written.put_slot h hp hlen

/-- A slot of the stack lies in its region. -/
theorem Mirrored.slot_in (h : s.Mirrored) (hp : p ∈ s.calls.frames) :
    p.position + 8 ≤ s.region.size := by
  have hover := p.overhead_le_past
  have hpast : p.past ≤ endOf s.calls.frames := Written.past_le_endOf h hp
  have hend : endOf s.calls.frames ≤ s.region.size := Written.endOf_le h
  omega

/-! ## Slots under pushes and pops -/

/-- A push leaves the bytes below the marker of the top frame. -/
theorem Mirrored.agree_pushed (h : s.Mirrored)
    (hroom : nextPosition s.calls.frames + frame.size ≤ s.region.size)
    (hmarker : hi + 1 ≤ endOf s.calls.frames) :
    Agree lo hi s.region (s.pushed frame answer).region := by
  have hend : endOf s.calls.frames ≤ s.region.size := Written.endOf_le h
  have hposition : endOf s.calls.frames ≤ nextPosition s.calls.frames := le_lineFrom _
  have hput : Agree lo hi s.region (s.region.put (nextPosition s.calls.frames)
      (frame.encode answer stackEnd)) :=
    agree_put (by rw [Frame.length_encode]; exact hroom) (.inl (by omega))
  exact hput.trans (agree_lowered (by rw [size_put]; exact hend) (.inr hmarker))

/-- A pushed frame starts with the answer that it was seeded with. The marker that a push lowers
lies before the frame, so it is not in its slot. -/
theorem Mirrored.read_slot_pushed (h : s.Mirrored)
    (hroom : nextPosition s.calls.frames + frame.size ≤ s.region.size) (hn : n ≤ 8) :
    (s.pushed frame answer).region.read (nextPosition s.calls.frames) n
      = .ok (answer.toList.take n) := by
  have hend : endOf s.calls.frames ≤ s.region.size := Written.endOf_le h
  have hposition : endOf s.calls.frames ≤ nextPosition s.calls.frames := le_lineFrom _
  have hslot : answer.toList.length = 8 := answer.length_toList
  have hover := frame.overhead_le_size
  simp only [Frame.overhead, slotSize] at hover
  have hread : (s.region.put (nextPosition s.calls.frames) (frame.encode answer stackEnd)).read
      (nextPosition s.calls.frames) (frame.encode answer stackEnd).length
      = .ok (frame.encode answer stackEnd) :=
    read_put_self (by rw [Frame.length_encode]; exact hroom)
  have hpart : (s.region.put (nextPosition s.calls.frames) (frame.encode answer stackEnd)).read
      (nextPosition s.calls.frames + 0) n
      = .ok (((frame.encode answer stackEnd).drop 0).take n) :=
    read_part hread (by rw [Frame.length_encode]; omega)
  have htake : (frame.encode answer stackEnd).take n = answer.toList.take n := by
    simp only [Frame.encode, List.append_assoc]
    exact List.take_append_of_le_length (by omega)
  rw [Nat.add_zero, List.drop_zero, htake] at hpart
  rw [← hpart]
  exact read_of_agree (agree_lowered (by rw [size_put]; exact hend) (.inl hposition))

/-- A pop leaves the bytes below the marker of the frame that it uncovers. -/
theorem agree_popped (hin : below.past ≤ s.region.size) (hmarker : hi + 1 ≤ below.past) :
    Agree lo hi s.region (s.popped below rest).region := by
  refine agree_put ?_ (.inl (by omega))
  rw [List.length_singleton]
  omega

end DurableStack

end DurableCalls
