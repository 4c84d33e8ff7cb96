/-
`TornPush.lean` -- a push is atomic, however its writes reach the disk.

A scan reads the bytes below the end of the stack and no other. The new frame lies
behind that end, so while its range fills with bytes in any order, and even with bytes
that look like frames, a scan gives the old calls. The marker of the frame below it is
the only byte that a push changes elsewhere, and the push takes effect with it
(`push_crashAtomic`).
-/
import DurableCalls.Proofs.Stack.Refinement

set_option autoImplicit false

namespace DurableCalls

open CallStack Region

/-! ## Images of a region -/

/-- A region of the same size with the same bytes outside a range; inside the range it
may hold anything. -/
def Region.TornIn (lo hi : Nat) (r image : Region) : Prop :=
  image.size = r.size ∧ ∀ i, i < lo ∨ hi ≤ i → image.cells[i]? = r.cells[i]?

theorem Region.TornIn.agree {lo hi : Nat} {r image : Region} (h : TornIn lo hi r image) :
    Agree 0 lo r image :=
  ⟨h.1, fun i _ hlt => h.2 i (.inl hlt)⟩

namespace DurableStack

/-- **The old calls outlive a torn write** of anything behind their end. Inside the torn range there
may be any bytes, also some that look like a frame: a scan stops at the marker of the top frame. -/
theorem Mirrored.scan_torn {s : DurableStack} {lo hi : Nat} {image : Region} (h : s.Mirrored)
    (hne : s.calls.frames ≠ []) (hend : endOf s.calls.frames ≤ lo)
    (htorn : TornIn lo hi s.region image) : scan image = .ok s.calls := by
  have hagree : Agree 0 (endOf s.calls.frames) s.region image :=
    htorn.agree.mono (Nat.le_refl 0) hend
  exact scan_of_written hne (Written.of_agree h hagree)

/-- The push from `s` to `t` put a frame at `position`, and took effect with one byte. Before that
byte is on the disk a scan shows the old stack, whatever has become of the frame's range; behind it
the new one. -/
structure CrashAtomic (s t : DurableStack) (frame : Frame) (position marker : Nat) : Prop where
  /-- Nothing that the range of the frame may hold changes what a scan gives. -/
  hidden : ∀ image, TornIn position (position + frame.size) s.region image →
    scan image = .ok s.calls
  /-- Outside that range and the marker below it, every byte stays. -/
  size_eq : t.region.size = s.region.size
  kept : ∀ i, i < position ∨ position + frame.size ≤ i → i ≠ marker →
    t.region.cells[i]? = s.region.cells[i]?
  /-- The marker ends the old stack, and then its last frame. -/
  marker_before : s.region.cells[marker]? = some stackEnd
  marker_after : t.region.cells[marker]? = some frameEnd
  /-- The push is complete, and no image shows it unless its marker has changed. -/
  calls_eq : t.calls = ⟨⟨frame, position⟩ :: s.calls.frames⟩
  scan_eq : scan t.region = .ok t.calls
  only_marked : ∀ image : Region, image.size = s.region.size →
    (∀ i, i < position ∨ position + frame.size ≤ i → i ≠ marker →
      image.cells[i]? = s.region.cells[i]?) →
    scan image = .ok t.calls → image.cells[marker]? ≠ s.region.cells[marker]?

/-- A push writes its frame and one marker, and leaves every other byte. The marker is that of the
frame below, and it is the last byte of it. -/
theorem getElem?_pushed {s : DurableStack} {frame : Frame} {last : Placed} {below : List Placed}
    {i : Nat} (hframes : s.calls.frames = last :: below) (hpast : last.past ≤ s.region.size)
    (answer : Slot) (hroom : nextPosition s.calls.frames + frame.size ≤ s.region.size)
    (hout : i < nextPosition s.calls.frames ∨ nextPosition s.calls.frames + frame.size ≤ i)
    (hmarker : i ≠ last.past - 1) :
    (s.pushed frame answer).region.cells[i]? = s.region.cells[i]? := by
  have hover := last.overhead_le_past
  have hput : Agree i (i + 1) s.region (s.region.put (nextPosition s.calls.frames)
      (frame.encode answer stackEnd)) := by
    refine agree_put ?_ ?_
    · rw [Frame.length_encode]
      exact hroom
    · rw [Frame.length_encode]
      omega
  have hlower : Agree i (i + 1) (s.region.put (nextPosition s.calls.frames)
      (frame.encode answer stackEnd)) (s.pushed frame answer).region := by
    rw [pushed, hframes]
    refine agree_put ?_ ?_
    · rw [size_put, List.length_singleton]
      omega
    · rw [List.length_singleton]
      omega
  exact (hput.trans hlower).2 i (Nat.le_refl i) (Nat.lt_succ_self i)

/-- A push that succeeds puts the new frame, and then lowers the marker below it. Until the marker
is lowered a scan ends there, so it does not matter how much of the frame is written. -/
theorem crashAtomic_pushed {s : DurableStack} {frame : Frame} {last : Placed}
    {below : List Placed} (h : s.Mirrored) (hframes : s.calls.frames = last :: below)
    (hfits : frame.Fits) (answer : Slot)
    (hroom : nextPosition s.calls.frames + frame.size ≤ s.region.size) :
    CrashAtomic s (s.pushed frame answer) frame (nextPosition s.calls.frames) (last.past - 1) := by
  have hne : s.calls.frames ≠ [] := by
    rw [hframes]
    exact List.cons_ne_nil _ _
  have hhidden : ∀ image, TornIn (nextPosition s.calls.frames)
      (nextPosition s.calls.frames + frame.size) s.region image → scan image = .ok s.calls :=
    fun image htorn => h.scan_torn hne (le_lineFrom _) htorn
  have hpushed : (s.pushed frame answer).Mirrored := h.pushed hfits answer hroom
  have hwritten : s.region.Written stackEnd (last :: below) := by
    rw [← hframes]
    exact h
  have hlowered : (s.pushed frame answer).region.Written stackEnd
      (⟨frame, nextPosition s.calls.frames⟩ :: s.calls.frames) := hpushed
  rw [hframes] at hlowered
  have hbefore := hwritten.2.2.1.getElem?_marker
  have hafter := hlowered.2.2.2.2.2.1.getElem?_marker
  refine ⟨hhidden, size_pushed s frame answer, ?kept, hbefore, hafter, rfl,
    hpushed.scan_eq (List.cons_ne_nil _ _), ?only_marked⟩
  case kept =>
    intro i hout hmarker
    exact getElem?_pushed hframes hwritten.2.2.1.past_le answer hroom hout hmarker
  case only_marked =>
    intro image hsize hsame hscan hmarker
    -- with the old marker the image is one of those that hide the frame
    have htorn : TornIn (nextPosition s.calls.frames)
        (nextPosition s.calls.frames + frame.size) s.region image := by
      refine ⟨hsize, fun i hout => ?_⟩
      by_cases hat : i = last.past - 1
      · rw [hat, hmarker]
      · exact hsame i hout hat
    have hold := hhidden image htorn
    rw [hscan] at hold
    -- but a push makes the calls longer
    have hcalls : (s.pushed frame answer).calls = s.calls := Except.ok.inj hold
    have hlength := congrArg (fun calls => calls.frames.length) hcalls
    simp only [pushed, List.length_cons] at hlength
    omega

/-- **A push is atomic under crashes.** On any stack with calls that pushes and pops lead
to, the frame goes behind the end of the stack, and whatever a torn write leaves there,
a scan gives the old calls until the marker of the frame below is changed. -/
theorem push_crashAtomic {start s t : DurableStack} {name : String} {args : List UInt8}
    {frame : Frame} {seed : Option (List UInt8)} {position : Nat} {last : Placed}
    {below : List Placed} (hempty : start.calls = .empty) (h : Reachable start s)
    (hframes : s.calls.frames = last :: below) (made : Frame.make name args = .ok frame)
    (hpush : push frame seed s = (.ok position, t)) :
    ∃ stop marker, s.calls.stop = .ok stop ∧ alignUp stop = .ok position ∧
      last.markerAt = .ok marker ∧ CrashAtomic s t frame position marker := by
  obtain ⟨hs, -⟩ := h.mirrored hempty
  have hfits := (Frame.make_eq_ok_iff.1 made).2
  have hword : endOf s.calls.frames + 64 < wordLimit := Written.endOf_add_lt hs
  have hmarkerAt : last.markerAt = .ok (last.past - 1) := by
    rw [hframes] at hword
    exact Placed.markerAt_eq_ok (Nat.lt_of_le_of_lt (Nat.le_add_right _ _) hword)
  rcases push_cases hs hfits seed with ⟨bytes, -, -, hfail⟩ | ⟨-, -, hfail⟩ | ⟨-, hroom, hok⟩
  · rw [hfail] at hpush
    cases hpush
  · rw [hfail] at hpush
    cases hpush
  · rw [hok] at hpush
    cases hpush
    exact ⟨_, _, stop_eq_endOf (Nat.lt_of_le_of_lt (Nat.le_add_right _ _) hword),
      alignUp_eq_lineFrom hword, hmarkerAt, crashAtomic_pushed hs hframes hfits _ hroom⟩

/-- On the three lines, with one call at 0, the next frame goes to 64 and the marker is
byte 13. -/
theorem usedLines_crashAtomic :
    CrashAtomic usedLines (push ⟨"g", [7]⟩ none usedLines).2 ⟨"g", [7]⟩ 64 13 := by
  have hframes : usedLines.calls.frames = ⟨⟨"f", []⟩, 0⟩ :: [] := by decide +kernel
  have hposition : (push ⟨"g", [7]⟩ none usedLines).1 = .ok 64 := by decide +kernel
  have hpush : push ⟨"g", [7]⟩ none usedLines = (.ok 64, (push ⟨"g", [7]⟩ none usedLines).2) := by
    rw [← hposition, Prod.eta]
  obtain ⟨stop, marker, -, -, hmarker, hatomic⟩ := push_crashAtomic rfl
    usedLines_reachable hframes (show Frame.make "g" [7] = .ok ⟨"g", [7]⟩ from rfl) hpush
  cases hmarker
  exact hatomic

end DurableStack

end DurableCalls
