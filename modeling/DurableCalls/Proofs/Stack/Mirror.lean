/-
`Mirror.lean` -- the frames that a region stands for, and the scan that finds them.

A list of frames, newest first, is *written* in a region if each frame is stored right
behind the frame below it, the top one with an end marker of its own choice and every
other one as a frame that has a successor. Nothing is said about the bytes behind the
top frame: popped frames stay there, and a torn push may leave anything.

A scan asks for less. It goes by the lengths that are stored, so it also *finds* frames
whose names were not written as text, and those are all that it gives (`scan_eq_ok_iff`).
It goes from the root up, so the proof that it finds them is by induction on the frames
*above* the one that it has reached (`scanFrom_of_found`). It needs the frames below only
as the calls it has collected.
-/
import DurableCalls.Proofs.Stack.Stored
import Mathlib.Data.List.Induction

set_option autoImplicit false

namespace DurableCalls

namespace CallStack

/-- `stop` without the word. -/
def endOf : (frames : List Placed) → Nat
  | [] => 0
  | last :: _ => last.past

/-- Where the next frame goes. -/
def nextPosition (frames : List Placed) : Nat := lineFrom (endOf frames)

theorem stop_eq_endOf {frames : List Placed} (h : endOf frames < wordLimit) :
    stop ⟨frames⟩ = .ok (endOf frames) := by
  cases frames with
  | nil => rfl
  | cons last below => exact addWord_eq h

theorem next_eq_nextPosition {last : Placed} {below : List Placed}
    (h : last.past + 64 < wordLimit) : last.next = .ok (nextPosition (last :: below)) := by
  have hstop : last.stop = .ok last.past :=
    addWord_eq (show last.past < wordLimit by omega)
  rw [Placed.next, hstop]
  exact alignUp_eq_lineFrom h

/-- A frame that starts where the next one goes can be put on top. -/
theorem push_at_nextPosition {frames : List Placed} {p : Placed}
    (hend : endOf frames + 64 < wordLimit) (hpos : p.position = nextPosition frames) :
    push ⟨frames⟩ p = .ok ⟨p :: frames⟩ := by
  cases frames with
  | nil => rfl
  | cons last below =>
    have hnext : last.next = .ok (nextPosition (last :: below)) := next_eq_nextPosition hend
    have hle : ¬p.position < nextPosition (last :: below) := by omega
    simp only [push, hnext, bind, Except.bind, if_neg hle]
    rfl

end CallStack

namespace Region

open CallStack

/-- The frames, newest first, are read one behind the other; the top one ends with `marker` and
every other one has a successor. Their names may be read from bytes that are no text. -/
def Found (r : Region) : (marker : UInt8) → (frames : List Placed) → Prop
  | _, [] => True
  | marker, p :: below =>
    p.position = nextPosition below ∧ p.past + 64 < wordLimit ∧
      (∃ name, p.ReadsAs r name marker) ∧ r.Found frameEnd below

namespace Found

variable {r : Region} {marker : UInt8} {p : Placed} {frames below : List Placed}

/-- The lower frames are found too, wherever the list is cut. -/
theorem of_append {above : List Placed} (h : r.Found marker (above ++ below)) :
    ∃ lower, r.Found lower below := by
  induction above generalizing marker with
  | nil => exact ⟨marker, h⟩
  | cons q above ih => exact ih h.2.2.2

theorem endOf_add_lt (h : r.Found marker frames) : endOf frames + 64 < wordLimit := by
  cases frames with
  | nil => simp only [endOf, wordLimit]; omega
  | cons p below => exact h.2.1

theorem endOf_le_position (h : r.Found marker (p :: below)) : endOf below ≤ p.position := by
  rw [h.1]
  exact le_lineFrom _

/-- No frame reaches past the end of the top one. -/
theorem past_le_endOf (h : r.Found marker frames) (hp : p ∈ frames) : p.past ≤ endOf frames := by
  induction frames generalizing marker with
  | nil => cases hp
  | cons q below ih =>
    rcases List.mem_cons.1 hp with rfl | hbelow
    · exact Nat.le_refl _
    · have hpast := ih h.2.2.2 hbelow
      have hposition := h.endOf_le_position
      have hover := q.overhead_le_past
      show p.past ≤ q.past
      omega

end Found

/-- The frames, newest first, are stored one behind the other; the top one ends with
`marker` and every other one has a successor. -/
def Written (r : Region) : (marker : UInt8) → (frames : List Placed) → Prop
  | _, [] => True
  | marker, p :: below =>
    p.position = nextPosition below ∧ p.frame.Fits ∧ p.Stored r marker ∧ r.Written frameEnd below

namespace Written

variable {r r' : Region} {marker : UInt8} {p : Placed} {frames below : List Placed}

theorem endOf_le (h : r.Written marker frames) : endOf frames ≤ r.size := by
  cases frames with
  | nil => exact Nat.zero_le _
  | cons p below => exact h.2.2.1.past_le

/-- Everything inside a region is far from the end of the word. -/
theorem endOf_add_lt (h : r.Written marker frames) : endOf frames + 64 < wordLimit := by
  have hle := h.endOf_le
  have hlt : r.size < 9223372036854775808 := r.size_lt
  simp only [wordLimit]
  omega

/-- What is written is found. -/
theorem found (h : r.Written marker frames) : r.Found marker frames := by
  induction frames generalizing marker with
  | nil => trivial
  | cons p below ih =>
    have hend := h.endOf_add_lt
    obtain ⟨hposition, hfits, hstored, hbelow⟩ := h
    exact ⟨hposition, hend, ⟨_, hstored.readsAs hfits⟩, ih hbelow⟩

theorem endOf_le_position (h : r.Written marker (p :: below)) : endOf below ≤ p.position :=
  h.found.endOf_le_position

theorem past_le_endOf (h : r.Written marker frames) (hp : p ∈ frames) : p.past ≤ endOf frames :=
  h.found.past_le_endOf hp

/-- **Only the bytes below the end matter.** What lies behind the top frame may be anything: that is
where the next push writes, and where old frames are left by a pop. -/
theorem of_agree (h : r.Written marker frames) (hagree : Agree 0 (endOf frames) r r') :
    r'.Written marker frames := by
  induction frames generalizing marker with
  | nil => trivial
  | cons p below ih =>
    -- agreement up to the end of the top frame is agreement up to any lower end
    have hbelow : endOf below ≤ p.past :=
      Nat.le_trans h.endOf_le_position (Nat.le_of_lt (Nat.lt_of_lt_of_le (by omega)
        p.overhead_le_past))
    obtain ⟨hpos, hfits, hstored, hrest⟩ := h
    exact ⟨hpos, hfits, hstored.of_agree (hagree.mono (Nat.zero_le _) (Nat.le_refl _)),
      ih hrest (hagree.mono (Nat.le_refl _) hbelow)⟩

/-- Changing the marker of the top frame changes how it ends, and nothing else. -/
theorem mark (h : r.Written marker (p :: below)) (next : UInt8) :
    (r.put (p.past - 1) [next]).Written next (p :: below) := by
  have hover := p.overhead_le_past
  have hle : endOf below ≤ p.past - 1 := by
    have hend := h.endOf_le_position
    omega
  obtain ⟨hpos, hfits, hstored, hbelow⟩ := h
  have hin : p.past - 1 + [next].length ≤ r.size := by
    have hpast := hstored.past_le
    simp only [List.length_singleton]
    omega
  exact ⟨hpos, hfits, hstored.mark next, hbelow.of_agree (agree_put hin (.inl hle))⟩

end Written

/-- The first frame of the region reads as blank: no name, no arguments, marker 0. -/
def BlankStart (r : Region) : Prop := Placed.Stored r 0 ⟨⟨"", []⟩, 0⟩

end Region

/-! ## The scan -/

section Scan

open CallStack Region

variable {r : Region} {calls next : CallStack} {frame : Frame} {offset behind : Nat} {last : Bool}

/-- One step of a scan. -/
theorem scanFrom_of_read (hread : readFrame r offset = .ok (frame, last))
    (hnext : Placed.next ⟨frame, offset⟩ = .ok behind)
    (hpush : calls.push ⟨frame, offset⟩ = .ok next) :
    scanFrom r calls offset = if last then .ok next else scanFrom r next behind := by
  rw [scanFrom]
  split
  next halt herror =>
    rw [hread] at herror
    cases herror
  next found lastFound hfound =>
    rw [hread] at hfound
    cases hfound
    split
    next halt herror =>
      rw [hnext] at herror
      cases herror
    next position hposition =>
      rw [hnext] at hposition
      cases hposition
      rw [hpush]

theorem scanFrom_of_error {halt : Halt} (hread : readFrame r offset = .error halt) :
    scanFrom r calls offset
      = if offset = 0 ∧ halt.isBlankMarker then .ok calls else .error halt := by
  rw [scanFrom]
  split
  next found herror =>
    rw [hread] at herror
    cases herror
    rfl
  next frame last hfound =>
    rw [hread] at hfound
    cases hfound

theorem scanFrom_of_next_error {halt : Halt} (hread : readFrame r offset = .ok (frame, last))
    (hnext : Placed.next ⟨frame, offset⟩ = .error halt) :
    scanFrom r calls offset = .error halt := by
  rw [scanFrom]
  split
  next error herror =>
    rw [hread] at herror
    cases herror
  next found lastFound hfound =>
    rw [hread] at hfound
    cases hfound
    split
    next error herror =>
      rw [hnext] at herror
      cases herror
      rfl
    next position hposition =>
      rw [hnext] at hposition
      cases hposition

/-- From any of the frames that are found, the scan collects that frame and all the frames above
it. The induction is on the frames above, the lowest of them first. -/
theorem scanFrom_of_found (above : List Placed) : ∀ (p : Placed) (below : List Placed),
    r.Found stackEnd (above ++ p :: below) →
    scanFrom r ⟨below⟩ p.position = .ok ⟨above ++ p :: below⟩ := by
  induction above using List.reverseRecOn with
  | nil =>
      intro p below h
      have hread : readFrame r p.position = .ok (p.frame, true) :=
        Placed.readFrame_eq_ok_iff.2 h.2.2.1
      have hnext : Placed.next ⟨p.frame, p.position⟩ = .ok (nextPosition (p :: below)) :=
        next_eq_nextPosition h.2.1
      have hpush : push ⟨below⟩ ⟨p.frame, p.position⟩ = .ok ⟨p :: below⟩ :=
        push_at_nextPosition h.2.2.2.endOf_add_lt h.1
      rw [scanFrom_of_read hread hnext hpush]
      rfl
  | append_singleton above q ih =>
      intro p below h
      -- `q` is the frame right above `p`, so the scan goes on there
      rw [List.append_assoc, List.singleton_append] at h ⊢
      obtain ⟨marker, hq⟩ := h.of_append
      have hp : r.Found frameEnd (p :: below) := hq.2.2.2
      have hread : readFrame r p.position = .ok (p.frame, false) :=
        Placed.readFrame_eq_ok_iff.2 hp.2.2.1
      have hnext : Placed.next ⟨p.frame, p.position⟩ = .ok q.position := by
        rw [hq.1]
        exact next_eq_nextPosition hp.2.1
      have hpush : push ⟨below⟩ ⟨p.frame, p.position⟩ = .ok ⟨p :: below⟩ :=
        push_at_nextPosition hp.2.2.2.endOf_add_lt hp.1
      rw [scanFrom_of_read hread hnext hpush]
      exact ih q (p :: below) h

theorem scan_of_found {frames : List Placed} (hne : frames ≠ []) (h : r.Found stackEnd frames) :
    scan r = .ok ⟨frames⟩ := by
  -- the root is the last of the list, and it starts where the scan does
  obtain ⟨above, root, rfl⟩ := (List.eq_nil_or_concat frames).resolve_left hne
  rw [List.concat_eq_append] at h ⊢
  obtain ⟨marker, hroot⟩ := h.of_append
  have hscan := scanFrom_of_found above root [] h
  rw [hroot.1] at hscan
  exact hscan

/-- A frame that is read behind those that are found is put on top of them. -/
theorem found_push (hposition : offset = nextPosition calls.frames)
    (hfound : r.Found frameEnd calls.frames) (hread : readFrame r offset = .ok (frame, last))
    (hnext : Placed.next ⟨frame, offset⟩ = .ok behind) :
    calls.push ⟨frame, offset⟩ = .ok ⟨⟨frame, offset⟩ :: calls.frames⟩ ∧
      behind = nextPosition (⟨frame, offset⟩ :: calls.frames) ∧
      r.Found (Placed.endMarker last) (⟨frame, offset⟩ :: calls.frames) := by
  rw [Placed.next] at hnext
  obtain ⟨stop, hstop, halign⟩ := exists_of_bind_eq_ok hnext
  have hpast : stop = Placed.past ⟨frame, offset⟩ := (addWord_eq_ok.1 hstop).2
  obtain ⟨hword, hline⟩ := alignUp_eq_ok.1 halign
  rw [hpast] at hword hline
  exact ⟨push_at_nextPosition hfound.endOf_add_lt hposition, hline, hposition, hword,
    Placed.readFrame_eq_ok_iff.1 hread, hfound⟩

/-- A scan goes on to the first end of a stack, by induction along it. It ends without a frame
only at the start of the region. -/
theorem found_of_scanFrom (hposition : offset = nextPosition calls.frames)
    (hfound : r.Found frameEnd calls.frames) (h : scanFrom r calls offset = .ok next) :
    (offset = 0 ∧ next = calls) ∨ r.Found stackEnd next.frames := by
  induction calls, offset using scanFrom.induct r with
  | case1 calls offset halt hread hblank =>
    rw [scanFrom_of_error hread, if_pos hblank] at h
    exact .inl ⟨hblank.1, (Except.ok.inj h).symm⟩
  | case2 calls offset halt hread hblank =>
    rw [scanFrom_of_error hread, if_neg hblank] at h
    cases h
  | case3 calls offset frame last hread halt hnext =>
    rw [scanFrom_of_next_error hread hnext] at h
    cases h
  | case4 calls offset frame last hread behind hnext halt hpush =>
    -- the frames are read in their order, so none of them is refused
    rw [(found_push hposition hfound hread hnext).1] at hpush
    cases hpush
  | case5 calls offset frame behind hnext pushed hpush hread =>
    obtain ⟨hpushed, -, hpushedFound⟩ := found_push hposition hfound hread hnext
    rw [scanFrom_of_read hread hnext hpushed, if_pos rfl] at h
    cases h
    exact .inr hpushedFound
  | case6 calls offset frame last hread behind hnext pushed hpush hlast ih =>
    obtain ⟨hpushed, hbehind, hpushedFound⟩ := found_push hposition hfound hread hnext
    rw [scanFrom_of_read hread hnext hpushed, if_neg hlast] at h
    cases hpushed.symm.trans hpush
    rw [Bool.not_eq_true] at hlast
    rw [hlast] at hpushedFound
    -- the rest of the scan is not at the start of the region
    rcases ih hbehind hpushedFound h with ⟨hzero, -⟩ | hafter
    · have hpositive := Placed.position_lt_of_next hnext
      omega
    · exact .inr hafter

/-- **What a scan gives, if it gives any frames.** They are found one behind the other, the top one
with the marker of the end, whatever else is in the region. An empty stack is another matter, as
nothing marks it. -/
theorem scan_eq_ok_iff {frames : List Placed} (hne : frames ≠ []) :
    scan r = .ok ⟨frames⟩ ↔ r.Found stackEnd frames := by
  constructor
  · intro h
    have hscan : scanFrom r .empty 0 = .ok ⟨frames⟩ := h
    have hnone : r.Found frameEnd CallStack.empty.frames := trivial
    rcases found_of_scanFrom rfl hnone hscan with ⟨-, hempty⟩ | hfound
    · exact absurd (congrArg CallStack.frames hempty) hne
    · exact hfound
  · exact scan_of_found hne

/-- **The scan finds what is written.** What was written by pushes is a special case of what is
found: its names are texts, so they are read as what they are. -/
theorem scan_of_written {frames : List Placed} (hne : frames ≠ [])
    (h : r.Written stackEnd frames) : scan r = .ok ⟨frames⟩ :=
  scan_of_found hne h.found

theorem scan_of_blankStart (h : r.BlankStart) : scan r = .ok .empty := by
  have hfits : Frame.Fits ⟨"", []⟩ := ⟨Nat.zero_le _, Nat.zero_le _⟩
  -- a blank frame ends with a marker that is none, and at 0 that means no calls
  have hread : readFrame r 0 = .error (.failed (.corruptedMarker 12 0)) := by
    have hstored := Placed.readFrame_of_stored h hfits
    rw [if_neg (by decide), if_neg (by decide)] at hstored
    exact hstored
  rw [scan, scanFrom_of_error hread]
  rfl

end Scan

end DurableCalls
