/-
`Measured.lean` -- stacks that were read from a region of any contents.

A scan goes from frame to frame by the lengths that are stored, and the calls that it
gives are measured by the texts that were read. The two agree for a frame if its name was
stored with as many bytes as its text has (`Measured`). A name that is no text may be read
as a longer one. Then the frame seems to end behind its marker: `markerAt` is not where
the marker is (`ReadsAs.markerAt_eq_iff`), and what a push or a pop writes there changes
nothing that a scan looks at.

So the region reads back as the live calls after all pushes and pops if and only if every
frame is measured whose marker one of them has to change (`scanned_stays_iff`).
-/
import DurableCalls.Proofs.Stack.Refinement
import DurableCalls.Proofs.Text.Lossy

set_option autoImplicit false

namespace DurableCalls

open CallStack Region

/-! ## Frames -/

namespace Placed

variable {r r' : Region} {name name' : List UInt8} {marker marker' : UInt8} {p : Placed}

/-- The stored name has as many bytes as the text that it is read as. -/
def Measured (r : Region) (p : Placed) : Prop :=
  r.readNumber 2 (p.position + Frame.nameLengthAt) = .ok p.frame.name.utf8ByteSize

/-- The marker that a scan reads for a frame is at this offset: the last byte of the range that
the two stored lengths give. -/
def MarkerRead (r : Region) (marker : UInt8) (offset : Nat) (p : Placed) : Prop :=
  ∃ n m, r.readNumber 2 (p.position + Frame.nameLengthAt) = .ok n ∧
    r.readNumber 2 (p.position + (Frame.nameLengthAt + 2 + n)) = .ok m ∧
    offset = p.position + (Frame.overhead + n + m) - 1 ∧ r.readByte offset = .ok marker

theorem Measured.of_agree {hi : Nat} (h : p.Measured r) (hagree : Agree 0 hi r r')
    (hle : p.position + 10 ≤ hi) : p.Measured r' := by
  have hnumber : Agree (p.position + Frame.nameLengthAt) (p.position + Frame.nameLengthAt + 2)
      r r' := hagree.mono (Nat.zero_le _) hle
  rw [Measured, readNumber_of_agree hnumber]
  exact h

namespace ReadsAs

/-- A text is no shorter than the bytes of the name, so no frame ends in front of its marker. -/
theorem behind_le_past (h : p.ReadsAs r name marker) : p.behind name ≤ p.past := by
  have hname := Text.length_le_ofUtf8Lossy name
  rw [h.name_eq] at hname
  unfold behind past Frame.size
  omega

theorem measured_iff (h : p.ReadsAs r name marker) : p.Measured r ↔ p.behind name = p.past := by
  rw [Measured, Frame.nameLengthAt, slotSize, h.held.readNumber_name h.name_le, Except.ok.injEq]
  unfold behind past Frame.size
  omega

/-- The markers of frames that are not measured are in front of where they seem to be. -/
theorem behind_lt_past (h : p.ReadsAs r name marker) (hnot : ¬p.Measured r) :
    p.behind name < p.past :=
  Nat.lt_of_le_of_ne h.behind_le_past (mt h.measured_iff.2 hnot)

theorem of_agree (h : p.ReadsAs r name marker)
    (hagree : Agree p.position (p.behind name) r r') : p.ReadsAs r' name marker :=
  ⟨h.held.of_agree hagree, h.name_eq, h.name_le, h.args_le⟩

/-- A place is read in one way. -/
theorem unique (h : p.ReadsAs r name marker) (h' : p.ReadsAs r name' marker') :
    marker = marker' := by
  have hlength : name.length = name'.length :=
    Except.ok.inj ((h.held.readNumber_name h.name_le).symm.trans
      (h'.held.readNumber_name h'.name_le))
  have hbehind : p.behind name = p.behind name' := by
    rw [behind, behind, hlength]
  have hmarker := h.held.getElem?_marker
  rw [hbehind] at hmarker
  exact Option.some.inj (hmarker.symm.trans h'.held.getElem?_marker)

theorem markerRead (h : p.ReadsAs r name marker) :
    p.MarkerRead r marker (p.behind name - 1) :=
  ⟨name.length, p.frame.args.length, h.held.readNumber_name h.name_le,
    h.held.readNumber_args h.args_le, rfl, readByte_of_getElem? h.held.getElem?_marker⟩

/-- **The marker is where the frame says** exactly if the frame is measured. A name that is read as
a longer text moves the end that is computed behind the end that is stored. -/
theorem markerAt_eq_iff (h : p.ReadsAs r name marker) (hword : p.past < wordLimit) :
    p.markerAt = .ok (p.behind name - 1) ↔ p.Measured r := by
  have hover : p.position + 13 ≤ p.behind name := by
    simp only [behind, Frame.overhead, slotSize]
    omega
  have hle := h.behind_le_past
  rw [markerAt_eq_ok hword, Except.ok.injEq, h.measured_iff]
  omega

/-- A measured frame can be marked where it says. -/
theorem mark (h : p.ReadsAs r name marker) (hmeasured : p.Measured r) (next : UInt8) :
    p.ReadsAs (r.put (p.past - 1) [next]) name next := by
  have hheld := h.held.mark next
  rw [h.measured_iff.1 hmeasured] at hheld
  exact ⟨hheld, h.name_eq, h.name_le, h.args_le⟩

end ReadsAs

end Placed

/-! ## Stacks that are found -/

namespace Region.Found

variable {r r' : Region} {marker : UInt8} {p : Placed} {frames below : List Placed}

/-- A frame ends no lower than those below it. -/
theorem past_le_past {above : List Placed} (h : r.Found marker (above ++ p :: below)) :
    ∀ q ∈ above, p.past ≤ q.past := by
  induction above generalizing marker with
  | nil => intro q hq; cases hq
  | cons last above ih =>
    intro q hq
    rcases List.mem_cons.1 hq with rfl | hq
    · exact h.past_le_endOf (List.mem_append_right _ List.mem_cons_self)
    · exact ih h.2.2.2 q hq

/-- Every frame but the top one has a successor. -/
theorem readsAs_of_mem (h : r.Found frameEnd frames) (hp : p ∈ frames) :
    p.past + 64 < wordLimit ∧ ∃ name, p.ReadsAs r name frameEnd := by
  induction frames with
  | nil => cases hp
  | cons q below ih =>
    rcases List.mem_cons.1 hp with rfl | hbelow
    · exact ⟨h.2.1, h.2.2.1⟩
    · exact ih h.2.2.2 hbelow

/-- **Only the bytes below the end matter.** The end is the one that the frames have by their texts.
Where these are longer than what is stored, it lies behind all bytes that a scan reads. -/
theorem of_agree (h : r.Found marker frames) (hagree : Agree 0 (endOf frames) r r') :
    r'.Found marker frames := by
  induction frames generalizing marker with
  | nil => trivial
  | cons p below ih =>
    have hle := h.endOf_le_position
    have hover := p.overhead_le_past
    obtain ⟨hposition, hword, ⟨name, hreads⟩, hbelow⟩ := h
    have hbehind := hreads.behind_le_past
    refine ⟨hposition, hword, ⟨name, hreads.of_agree (hagree.mono (Nat.zero_le _) hbehind)⟩, ?_⟩
    have hend : endOf below ≤ endOf (p :: below) := show endOf below ≤ p.past by omega
    exact ih hbelow (hagree.mono (Nat.le_refl _) hend)

/-- Marking the top frame changes how it ends, if it is measured. -/
theorem mark (h : r.Found marker (p :: below)) (hmeasured : p.Measured r) (next : UInt8) :
    (r.put (p.past - 1) [next]).Found next (p :: below) := by
  have hle := h.endOf_le_position
  have hover := p.overhead_le_past
  obtain ⟨hposition, hword, ⟨name, hreads⟩, hbelow⟩ := h
  have hpast : p.past ≤ r.size := by
    rw [← hreads.measured_iff.1 hmeasured]
    exact hreads.held.behind_le
  have hin : p.past - 1 + [next].length ≤ r.size := by
    simp only [List.length_singleton]
    omega
  exact ⟨hposition, hword, ⟨name, hreads.mark hmeasured next⟩,
    hbelow.of_agree (agree_put hin (.inl (by omega)))⟩

end Region.Found

namespace DurableStack

/-- The frames are measured whose marker a push or a pop may have to change: all those below the
top one, and the top one as well if the smallest frame has room behind it. -/
structure Lasting (r : Region) (top : Placed) (below : List Placed) : Prop where
  top_measured : top.Measured r ∨ r.size < nextPosition (top :: below) + Frame.overhead
  below_measured : ∀ p ∈ below, p.Measured r

/-- **The invariant.** -/
def Stays (s : DurableStack) : Prop :=
  ∃ top below, s.calls.frames = top :: below ∧ s.region.Found stackEnd (top :: below) ∧
    Lasting s.region top below

variable {s : DurableStack} {frame : Frame} {seed : Option (List UInt8)}

theorem Stays.scan_eq (h : s.Stays) : scan s.region = .ok s.calls := by
  obtain ⟨top, below, hframes, hfound, -⟩ := h
  rw [show s.calls = ⟨s.calls.frames⟩ from rfl, hframes]
  exact scan_of_found (List.cons_ne_nil _ _) hfound

/-- A push without room leaves the stack, also where the frame would not fit the word. -/
theorem push_of_cramped {answer : Slot} (hslot : seedSlot seed = .ok answer)
    (hend : endOf s.calls.frames + 64 < wordLimit)
    (hroom : s.region.size < nextPosition s.calls.frames + frame.size) :
    (push frame seed s).2 = s := by
  have hcheck : ∃ halt, s.checkRoom (nextPosition s.calls.frames) frame.size = .error halt := by
    rcases hadd : addWord (nextPosition s.calls.frames) frame.size with halt | past
    · exact ⟨halt, by simp only [checkRoom, hadd, bind, Except.bind]⟩
    · have hpast := (addWord_eq_ok.1 hadd).2
      rw [← hpast] at hroom
      exact ⟨_, by simp only [checkRoom, hadd, bind, Except.bind, if_pos hroom]; rfl⟩
  obtain ⟨halt, hcheck⟩ := hcheck
  rw [push_of_check_error hslot hend hcheck]

section Steps

variable {top : Placed} {below rest : List Placed}

/-- A push leaves what is in front of the marker below it. -/
theorem agree_pushed (hframes : s.calls.frames = top :: below) (answer : Slot)
    (hroom : nextPosition (top :: below) + frame.size ≤ s.region.size) :
    Agree 0 (top.past - 1) s.region (s.pushed frame answer).region := by
  have hend : top.past ≤ nextPosition (top :: below) := le_lineFrom _
  have hover := top.overhead_le_past
  have hin : nextPosition (top :: below) + (frame.encode answer stackEnd).length
      ≤ s.region.size := by rw [Frame.length_encode]; exact hroom
  have hmarker : top.past - 1 + [frameEnd].length
      ≤ (s.region.put (nextPosition (top :: below)) (frame.encode answer stackEnd)).size := by
    rw [size_put, List.length_singleton]
    omega
  rw [pushed, hframes]
  exact (agree_put hin (.inl (by omega))).trans (agree_put hmarker (.inl (Nat.le_refl _)))

/-- A push on measured frames gives measured frames: the marker that is lowered is the one that the
frame below has, and the new frame is measured as it was written. -/
theorem stays_pushed (hframes : s.calls.frames = top :: below)
    (hfound : s.region.Found stackEnd (top :: below)) (htop : top.Measured s.region)
    (hbelow : ∀ p ∈ below, p.Measured s.region) (hfits : frame.Fits) (answer : Slot)
    (hroom : nextPosition (top :: below) + frame.size ≤ s.region.size) :
    (s.pushed frame answer).Stays := by
  have hend : top.past ≤ nextPosition (top :: below) := le_lineFrom _
  have hlt : s.region.size < 9223372036854775808 := s.region.size_lt
  have hin : nextPosition (top :: below) + (frame.encode answer stackEnd).length
      ≤ s.region.size := by rw [Frame.length_encode]; exact hroom
  -- the new frame is written behind the end, and then the marker below it
  have hwritten : Agree 0 top.past s.region
      (s.region.put (nextPosition (top :: below)) (frame.encode answer stackEnd)) :=
    agree_put hin (.inl hend)
  have htopWritten := htop.of_agree hwritten (by have := top.overhead_le_past; omega)
  have hlowered := (hfound.of_agree hwritten).mark htopWritten frameEnd
  have hstored : (⟨frame, nextPosition (top :: below)⟩ : Placed).Stored
      (s.pushed frame answer).region stackEnd := by
    rw [pushed, hframes]
    refine (Placed.Stored.put frame answer _ hroom).of_agree (agree_lowered ?_ (.inl hend))
    rw [size_put]
    exact Nat.le_trans hend (by omega)
  have hreads := hstored.readsAs hfits
  refine ⟨⟨frame, nextPosition (top :: below)⟩, top :: below, ?_, ⟨rfl, ?_, ⟨_, hreads⟩, ?_⟩,
    .inl (hreads.measured_iff.2 rfl), ?_⟩
  · rw [pushed, hframes]
  · show nextPosition (top :: below) + frame.size + 64 < wordLimit
    simp only [wordLimit]
    omega
  · rw [pushed, hframes]
    exact hlowered
  · intro p hp
    have hagree := agree_pushed hframes answer hroom
    have hpast : p.past ≤ top.past := hfound.past_le_endOf hp
    have hover := p.overhead_le_past
    refine Placed.Measured.of_agree ?_ hagree (by omega)
    rcases List.mem_cons.1 hp with rfl | hp
    · exact htop
    · exact hbelow p hp

/-- **Both operations keep the frames measured**, whether they succeed or fail. A frame that is
pushed is stored as it is told, and the marker below it is changed where it is read, because the top
frame was measured if there was room above it. -/
theorem Stays.push (h : s.Stays) (hfits : frame.Fits) (seed : Option (List UInt8)) :
    (push frame seed s).2.Stays := by
  obtain ⟨top, below, hframes, hfound, htop, hbelow⟩ := id h
  -- the seed is checked before the room, and without either nothing is written
  by_cases hseed : SeedFits seed
  · have hslot := seedSlot_of_fits hseed
    by_cases hroom : s.region.size < nextPosition (top :: below) + frame.size
    · rw [push_of_cramped hslot (by rw [hframes]; exact hfound.endOf_add_lt)
        (by rw [hframes]; exact hroom)]
      exact h
    · -- there is room for a frame, so the marker below it is where it is written
      have hle := Nat.not_lt.1 hroom
      have hover := frame.overhead_le_size
      have hmeasured : top.Measured s.region :=
        htop.resolve_right fun hno => by omega
      have hend : endOf (top :: below) ≤ nextPosition (top :: below) := le_lineFrom _
      rw [push_of_room hslot (by rw [hframes]; omega) hfits (by rw [hframes]; exact hle)]
      exact stays_pushed hframes hfound hmeasured hbelow hfits _ hle
  · cases seed with
    | none => exact absurd trivial hseed
    | some bytes =>
      rw [push_of_bad_seed (seedSlot_of_not_fits hseed)]
      exact h

theorem Stays.pop (h : s.Stays) : (pop s).2.Stays := by
  obtain ⟨top, below, hframes, hfound, htop, hbelow⟩ := id h
  cases below with
  | nil =>
    rw [pop_of_one hframes]
    exact h
  | cons p rest =>
    -- the next frame is the top one now, and it is measured
    have hmeasured := hbelow p List.mem_cons_self
    obtain ⟨-, -, -, hrest⟩ := hfound
    obtain ⟨-, -, ⟨name, hreads⟩, -⟩ := id hrest
    have hin : p.past ≤ s.region.size := by
      rw [← hreads.measured_iff.1 hmeasured]
      exact hreads.held.behind_le
    rw [pop_of_two hframes hin]
    have hover := p.overhead_le_past
    have hagree : Agree 0 (p.past - 1) s.region (s.popped p rest).region :=
      agree_put (by simp only [List.length_singleton]; omega) (.inl (Nat.le_refl _))
    refine ⟨p, rest, rfl, hrest.mark hmeasured stackEnd,
      .inl (hmeasured.of_agree hagree (by omega)), fun q hq => ?_⟩
    have hpast : q.past ≤ p.past := hrest.past_le_endOf (List.mem_cons_of_mem p hq)
    have hqover := q.overhead_le_past
    exact (hbelow q (List.mem_cons_of_mem p hq)).of_agree hagree (by omega)

theorem Reachable.stays {start : DurableStack} (h : Reachable start s) (hstart : start.Stays) :
    s.Stays := by
  induction h with
  | start => exact hstart
  | push reached name args made seed ih => exact ih.push (Frame.make_eq_ok_iff.1 made).2 seed
  | pop reached ih => exact ih.pop

/-! ## What happens otherwise -/

/-- A pop leaves the frames below, and what is in front of the place where the next marker
should be, also if that place is not in the region. -/
theorem pop_uncovers {last p : Placed} (hframes : s.calls.frames = last :: p :: rest) :
    (pop s).2.calls.frames = p :: rest ∧
      Agree 0 (p.past - 1) s.region (pop s).2.region := by
  by_cases hin : p.past ≤ s.region.size
  · have hover := p.overhead_le_past
    rw [pop_of_two hframes hin]
    exact ⟨rfl, agree_put (by simp only [List.length_singleton]; omega) (.inl (Nat.le_refl _))⟩
  · -- the write of the marker fails, and the calls are cut all the same
    have hout : (pop s).2 = ⟨⟨p :: rest⟩, s.region⟩ := by
      rw [pop_eq_of_two hframes]
      rcases hstop : p.stop with halt | stop
      · rw [Run.bind_of_error (Run.liftHalt_apply _ _)]
      · have hpast : stop = p.past := (addWord_eq_ok.1 hstop).2
        have hwrite : s.region.size < stop - 1 + [stackEnd].length := by
          simp only [List.length_singleton]
          omega
        rw [Run.bind_of_ok (Run.liftHalt_apply _ _),
          Run.bind_of_error (persist_of_out (s := ⟨⟨p :: rest⟩, s.region⟩) hwrite)]
    rw [hout]
    exact ⟨rfl, .refl⟩

/-- Any frame of a stack becomes the top one, by popping those above it. The marker that is
read for it stays in front of the place where a pop writes one. -/
theorem Reachable.exists_uncovered {start : DurableStack} {p : Placed} {above : List Placed}
    (h : Reachable start s) (hframes : s.calls.frames = above ++ p :: rest)
    (habove : ∀ q ∈ above, p.past ≤ q.past) :
    ∃ t, Reachable start t ∧ t.calls.frames = p :: rest ∧
      Agree 0 (p.past - 1) s.region t.region := by
  induction above generalizing s with
  | nil => exact ⟨s, h, hframes, .refl⟩
  | cons last above ih =>
    -- the frame below the last one ends no lower than `p`
    obtain ⟨q, lower, hlower, hpast⟩ : ∃ q lower, above ++ p :: rest = q :: lower ∧
        p.past ≤ q.past := by
      cases above with
      | nil => exact ⟨p, rest, rfl, Nat.le_refl _⟩
      | cons q above =>
        exact ⟨q, above ++ p :: rest, rfl, habove q (by simp)⟩
    rw [List.cons_append, hlower] at hframes
    obtain ⟨hcalls, hagree⟩ := pop_uncovers hframes
    obtain ⟨t, ht, htframes, htagree⟩ := ih h.pop (by rw [hcalls, hlower])
      fun q hq => habove q (List.mem_cons_of_mem last hq)
    exact ⟨t, ht, htframes, (hagree.mono (Nat.le_refl _) (by omega)).trans htagree⟩

end Steps

section Scanned

variable {r : Region} {calls : CallStack} {top : Placed} {below : List Placed}

/-- A frame whose name is read as a longer text keeps its marker, whatever is written where the
frame says that it is. -/
theorem marker_eq_of_not_measured {r' : Region} {p : Placed} {name name' : List UInt8}
    {marker marker' : UInt8} (h : p.ReadsAs r name marker) (hnot : ¬p.Measured r)
    (hagree : Agree 0 (p.past - 1) r r') (h' : p.ReadsAs r' name' marker') :
    marker = marker' := by
  -- all that is read for the frame lies in front of that place, so it is read again
  have hlt := h.behind_lt_past hnot
  exact (h.of_agree (hagree.mono (Nat.zero_le _) (by omega))).unique h'

/-- The top frame is measured if a push is found by the next scan. If it were not, the push would
lower a byte that no scan looks at, and the scan would end where it ended before. -/
theorem top_measured_of_scans (hfound : r.Found stackEnd (top :: below))
    (hscans : ∀ s, Reachable ⟨⟨top :: below⟩, r⟩ s → scan s.region = .ok s.calls)
    (hroom : nextPosition (top :: below) + Frame.overhead ≤ r.size) : top.Measured r := by
  by_contra hnot
  obtain ⟨-, -, ⟨name, hreads⟩, -⟩ := hfound
  -- the smallest frame is pushed
  have hend : endOf (top :: below) ≤ nextPosition (top :: below) := le_lineFrom _
  have hfits : Frame.Fits ⟨"", []⟩ := ⟨Nat.zero_le _, Nat.zero_le _⟩
  have hpush : push ⟨"", []⟩ none ⟨⟨top :: below⟩, r⟩ = _ :=
    push_of_room (seedSlot_of_fits trivial) (show endOf (top :: below) ≤ r.size by omega) hfits
      hroom
  have hscan := hscans _ (.push .start "" [] (Frame.make_eq_ok_iff.2 ⟨rfl, hfits⟩) none)
  rw [hpush] at hscan
  obtain ⟨-, -, -, -, -, ⟨name', hreads'⟩, -⟩ := (scan_eq_ok_iff (List.cons_ne_nil _ _)).1 hscan
  have hmarker := marker_eq_of_not_measured hreads hnot (agree_pushed rfl _ hroom) hreads'
  exact absurd hmarker (by decide)

/-- Any other frame is measured if the next scan finds it as the end, once it is on top. -/
theorem below_measured_of_scans (hfound : r.Found stackEnd (top :: below))
    (hscans : ∀ s, Reachable ⟨⟨top :: below⟩, r⟩ s → scan s.region = .ok s.calls)
    {p : Placed} (hp : p ∈ below) : p.Measured r := by
  by_contra hnot
  obtain ⟨-, name, hreads⟩ := hfound.2.2.2.readsAs_of_mem hp
  obtain ⟨above, rest, rfl⟩ := List.append_of_mem hp
  have habove : ∀ q ∈ top :: above, p.past ≤ q.past := Region.Found.past_le_past hfound
  have hstart : Reachable ⟨⟨top :: (above ++ p :: rest)⟩, r⟩ ⟨⟨top :: (above ++ p :: rest)⟩, r⟩ :=
    .start
  -- the frame is the top one in `t`, so a scan should end with it
  obtain ⟨t, ht, htframes, hagree⟩ := hstart.exists_uncovered rfl habove
  have hscan := hscans t ht
  rw [show t.calls = ⟨t.calls.frames⟩ from rfl, htframes] at hscan
  obtain ⟨-, -, ⟨name', hreads'⟩, -⟩ := (scan_eq_ok_iff (List.cons_ne_nil _ _)).1 hscan
  exact absurd (marker_eq_of_not_measured hreads hnot hagree hreads') (by decide)

/-- **What is scanned from any bytes.** For each frame the marker that was read is where the frame
says if and only if the frame is measured. The region reads back as the live calls after all
pushes and pops if and only if every frame below the top one is measured, and also the top one
unless no frame fits behind it. -/
theorem scanned_stays_iff (hscan : scan r = .ok calls) (hframes : calls.frames = top :: below) :
    (∃ offset, top.MarkerRead r stackEnd offset ∧
      (top.markerAt = .ok offset ↔ top.Measured r)) ∧
    (∀ p ∈ below, ∃ offset, p.MarkerRead r frameEnd offset ∧
      (p.markerAt = .ok offset ↔ p.Measured r)) ∧
    ((∀ s, Reachable ⟨calls, r⟩ s → scan s.region = .ok s.calls) ↔ Lasting r top below) := by
  have hcalls : calls = ⟨top :: below⟩ := by
    rw [← hframes]
  rw [hcalls] at hscan ⊢
  have hfound : r.Found stackEnd (top :: below) :=
    (scan_eq_ok_iff (List.cons_ne_nil _ _)).1 hscan
  refine ⟨?_, fun p hp => ?_, ?_, ?_⟩
  · obtain ⟨-, hword, ⟨name, hreads⟩, -⟩ := hfound
    exact ⟨_, hreads.markerRead, hreads.markerAt_eq_iff (by omega)⟩
  · obtain ⟨hword, name, hreads⟩ := hfound.2.2.2.readsAs_of_mem hp
    exact ⟨_, hreads.markerRead, hreads.markerAt_eq_iff (by omega)⟩
  · intro hscans
    -- a push tells whether the top frame is measured, if there is room for any
    refine ⟨?_, fun p hp => below_measured_of_scans hfound hscans hp⟩
    rcases Nat.lt_or_ge r.size (nextPosition (top :: below) + Frame.overhead) with hno | hroom
    · exact .inr hno
    · exact .inl (top_measured_of_scans hfound hscans hroom)
  · intro hlasting s hs
    exact (hs.stays ⟨top, below, rfl, hfound, hlasting⟩).scan_eq

/-- Two frames of no arguments over two lines: the lower one has a single byte for a name, and the
top one is called `g`. -/
def twoFrames (name : UInt8) : Region where
  path := .ofText "stack"
  cells := #[255, 255, 255, 255, 255, 255, 255, 255, 1, 0, name, 0, 0, frameEnd]
    ++ Array.replicate 50 0
    ++ #[255, 255, 255, 255, 255, 255, 255, 255, 1, 0, 103, 0, 0, stackEnd]
    ++ Array.replicate 50 0
  size_lt := by
    simp only [Array.size_append, Array.size_replicate]
    show 14 + 50 + 14 + 50 < sizeLimit
    decide

/-- The calls that the two frames are read as. -/
def twoCalls (name : String) : CallStack := ⟨[⟨⟨"g", []⟩, 64⟩, ⟨⟨name, []⟩, 0⟩]⟩

/-- A name that is text. -/
theorem found_twoFrames_text : (twoFrames 102).Found stackEnd (twoCalls "f").frames := by
  refine ⟨by decide, by decide, ⟨[103], ⟨.cleared, ?_⟩, ?_, ?_, ?_⟩,
    by decide, by decide, ⟨[102], ⟨.cleared, ?_⟩, ?_, ?_, ?_⟩, trivial⟩
  all_goals decide +kernel

theorem scanned_twoFrames_stays : scan (twoFrames 102) = .ok (twoCalls "f") ∧
    ∀ s, Reachable ⟨twoCalls "f", twoFrames 102⟩ s → scan s.region = .ok s.calls := by
  have hscan : scan (twoFrames 102) = .ok (twoCalls "f") :=
    scan_of_found (List.cons_ne_nil _ _) found_twoFrames_text
  refine ⟨hscan, (scanned_stays_iff hscan rfl).2.2.2 ⟨.inl ?_, fun p hp => ?_⟩⟩
  · unfold Placed.Measured
    decide +kernel
  · obtain rfl := List.mem_singleton.1 hp
    unfold Placed.Measured
    decide +kernel

/-- A byte that is no text is read as a character of three bytes, so the lower frame seems to end
two bytes behind its marker, where a pop marks it in vain: the popped frame is there again. -/
theorem twoFrames_popInVain :
    scan (twoFrames 255) = .ok (twoCalls "\uFFFD") ∧
    (⟨⟨"\uFFFD", []⟩, 0⟩ : Placed).markerAt = .ok 15 ∧
    (twoFrames 255).readByte 15 = .ok 0 ∧
    ∃ t, pop ⟨twoCalls "\uFFFD", twoFrames 255⟩ = (.ok ⟨⟨"g", []⟩, 64⟩, t) ∧
      t.calls = ⟨[⟨⟨"\uFFFD", []⟩, 0⟩]⟩ ∧ scan t.region = .ok (twoCalls "\uFFFD") := by
  -- the byte at 15 is neither read nor part of a frame
  have hfound : ∀ r, r = twoFrames 255 ∨ r = (twoFrames 255).put 15 [stackEnd] →
      r.Found stackEnd (twoCalls "\uFFFD").frames := by
    rintro r (rfl | rfl)
    all_goals
      refine ⟨by decide +kernel, by decide +kernel, ⟨[103], ⟨.cleared, ?_⟩, ?_, ?_, ?_⟩,
        by decide +kernel, by decide +kernel, ⟨[255], ⟨.cleared, ?_⟩, ?_, ?_, ?_⟩, trivial⟩
      all_goals decide +kernel
  have hpop := pop_of_two (s := ⟨twoCalls "\uFFFD", twoFrames 255⟩) rfl (by decide +kernel)
  exact ⟨scan_of_found (List.cons_ne_nil _ _) (hfound _ (.inl rfl)), rfl, by decide +kernel, _,
    hpop, rfl, scan_of_found (List.cons_ne_nil _ _) (hfound _ (.inr rfl))⟩

end Scanned

end DurableStack

end DurableCalls
