/-
`AnyBytes.lean` -- how the scan of a region ends, whatever its bytes are.

The lengths of a frame are read from the region, so they may be any numbers of 16 bits. A frame
that is read has a bounded size all the same (`ReadsAs.size_le`), although its name may be read
as a text of three times as many bytes. So no sum of a scan leaves the word, and the place where
the next frame is read is behind all that were read before.

A round of the scan reads one frame and goes on. Each round ends a line further on at least, and
it begins inside the region (`Scans.depth_lt`): there are no more rounds than lines, and the scan
comes to an end. It ends with frames in their order (`CallStack.Laid`), or with a failure that
names a range outside the region or a byte that is no marker (`Region.Refuses`).
-/
import DurableCalls.Proofs.Stack.Measured
import Mathlib.Data.List.Chain

set_option autoImplicit false

namespace DurableCalls

open CallStack Region

variable {r : Region} {calls : CallStack} {frame : Frame} {frames : List Placed} {offset : Nat}
  {marker : UInt8} {last : Bool} {halt : Halt} {p : Placed}

/-! ## One frame -/

/-- The name is bounded by its stored length, and its text by three times that. -/
theorem Placed.ReadsAs.size_le {name : List UInt8} (h : p.ReadsAs r name marker) :
    p.frame.size ≤ 262153 := by
  have htext := Text.ofUtf8Lossy_le name
  have hname := h.name_le
  have hargs := h.args_le
  rw [h.name_eq] at htext
  simp only [Frame.fieldLimit] at hname hargs
  simp only [Frame.size, Frame.overhead, slotSize]
  omega

/-- What a scan may fail with: a range that is not inside the region, or a byte of the region that
should be a marker and is none. -/
def Region.Refuses (r : Region) (halt : Halt) : Prop :=
  (∃ offset len, r.size < offset + len ∧ halt = .failed (.outOfBounds offset len r.size)) ∨
  ∃ offset value, r.readByte offset = .ok value ∧ value ≠ stackEnd ∧ value ≠ frameEnd ∧
    halt = .failed (.corruptedMarker offset value)

/-- A read fails outside the region only. -/
theorem Region.refuses_of_read {len : Nat}
    (h : (liftM (r.read offset len) : Except Halt (List UInt8)) = .error halt) :
    r.Refuses halt := by
  obtain ⟨f, hread, rfl⟩ := exists_of_lift_eq_error h
  by_cases hin : offset + len ≤ r.size
  · obtain ⟨bytes, hbytes⟩ := exists_read hin
    rw [hbytes] at hread
    cases hread
  · have hout := Nat.not_le.1 hin
    rw [read_eq_error hout] at hread
    cases hread
    exact .inl ⟨offset, len, hout, rfl⟩

theorem Region.refuses_of_readNumber {width : Nat}
    (h : (liftM (r.readNumber width offset) : Except Halt Nat) = .error halt) :
    r.Refuses halt := by
  obtain ⟨f, hnumber, rfl⟩ := exists_of_lift_eq_error h
  rcases cases_of_bind_eq_error hnumber with hread | ⟨bytes, -, hpure⟩
  · exact refuses_of_read (by rw [hread]; rfl)
  · cases hpure

/-- A frame that is held is read, unless its marker is none. -/
theorem refuses_of_held {name : List UInt8} (hheld : p.Held r name marker)
    (hname : name.length ≤ Frame.fieldLimit) (hargs : p.frame.args.length ≤ Frame.fieldLimit)
    (h : readFrame r p.position = .error halt) : r.Refuses halt := by
  rw [Placed.readFrame_of_held hheld hname hargs] at h
  by_cases hstack : marker = stackEnd
  · rw [if_pos hstack] at h
    cases h
  · by_cases hframe : marker = frameEnd
    · rw [if_neg hstack, if_pos hframe] at h
      cases h
    · rw [if_neg hstack, if_neg hframe] at h
      cases h
      exact .inr ⟨_, marker, readByte_of_getElem? hheld.getElem?_marker, hstack, hframe, rfl⟩

/-- **Where no frame is read**, its bytes are not there or the last of them is no marker. The offset
is far enough from the end of the word that no sum leaves it, so there is no other way to fail. -/
theorem refuses_of_readFrame (hword : offset + 65545 < wordLimit)
    (h : readFrame r offset = .error halt) : r.Refuses halt := by
  have hframe := h
  rw [readFrame] at h
  -- first the length of the name
  rcases cases_of_bind_eq_error h with hadd | ⟨nameAt, hnameAt, h⟩
  · rw [addWord_eq (by simp only [Frame.nameLengthAt, slotSize]; omega)] at hadd
    cases hadd
  obtain ⟨-, rfl⟩ := addWord_eq_ok.1 hnameAt
  rcases cases_of_bind_eq_error h with hn | ⟨n, hn, h⟩
  · exact refuses_of_readNumber hn
  obtain ⟨-, -, -, hnle⟩ := Placed.exists_of_readNumber (eq_ok_of_lift hn)
  simp only [Frame.nameLengthAt, slotSize, Frame.fieldLimit] at hn hnle h
  -- then that of the arguments, behind the name
  rcases cases_of_bind_eq_error h with hadd | ⟨afterAt, hafterAt, h⟩
  · rw [addWord_eq (by omega)] at hadd
    cases hadd
  obtain ⟨-, rfl⟩ := addWord_eq_ok.1 hafterAt
  rcases cases_of_bind_eq_error h with hadd | ⟨argsAt, hargsAt, h⟩
  · rw [addWord_eq (by omega)] at hadd
    cases hadd
  obtain ⟨-, rfl⟩ := addWord_eq_ok.1 hargsAt
  rcases cases_of_bind_eq_error h with hm | ⟨m, hm, h⟩
  · exact refuses_of_readNumber hm
  obtain ⟨-, -, -, hmle⟩ := Placed.exists_of_readNumber (eq_ok_of_lift hm)
  -- and at last the range that they give, which is a written form
  rcases cases_of_bind_eq_error h with hread | ⟨bytes, hbytes, -⟩
  · exact refuses_of_read hread
  have hargs : r.readNumber 2 (offset + (10 + n)) = .ok m := by
    rw [show offset + (10 + n) = offset + 8 + 2 + n by omega]
    exact eq_ok_of_lift hm
  obtain ⟨answer, name, args, marker, rfl, rfl, rfl⟩ :=
    Placed.exists_image_of_reads (eq_ok_of_lift hn) hargs (eq_ok_of_lift hbytes)
  have hheld : Placed.Held r name marker ⟨⟨"", args⟩, offset⟩ := ⟨answer, eq_ok_of_lift hbytes⟩
  exact refuses_of_held hheld hnle hmle hframe

/-- Behind a frame that is read there is a line to go on at, and it is near the region. A frame has
lengths of 16 bits, so no bytes make a scan leave the words. -/
theorem next_of_readFrame (h : readFrame r offset = .ok (frame, last)) :
    Placed.next ⟨frame, offset⟩ = .ok (lineFrom (offset + frame.size)) ∧
      lineFrom (offset + frame.size) < r.size + 262216 := by
  have hinside := lt_size_of_readFrame h
  obtain ⟨name, hreads⟩ := Placed.readFrame_eq_ok_iff.1 h
  have hsize : frame.size ≤ 262153 := hreads.size_le
  have hline := lineFrom_le (offset + frame.size)
  have hlt : r.size < 9223372036854775808 := r.size_lt
  have hword : offset + frame.size + 64 < wordLimit := by
    simp only [wordLimit]
    omega
  have hstop : Placed.stop ⟨frame, offset⟩ = .ok (offset + frame.size) :=
    addWord_eq (show offset + frame.size < wordLimit by omega)
  rw [Placed.next, hstop]
  exact ⟨alignUp_eq_lineFrom hword, by omega⟩

/-! ## The rounds of a scan -/

/-- Where a scan comes by: the calls that it has collected, and the offset that it reads next. A
round reads a frame that is not the last one. -/
inductive Region.Scans (r : Region) : CallStack → Nat → Prop
  | start : Scans r .empty 0
  | round {calls next : CallStack} {frame : Frame} {offset behind : Nat}
      (before : Scans r calls offset) (read : readFrame r offset = .ok (frame, false))
      (next_eq : Placed.next ⟨frame, offset⟩ = .ok behind)
      (push_eq : calls.push ⟨frame, offset⟩ = .ok next) : Scans r next behind

namespace Region.Scans

/-- What is left of the scan at such a place is all of it. -/
theorem scan_eq (h : r.Scans calls offset) : scan r = scanFrom r calls offset := by
  induction h with
  | start => rfl
  | round _ read next_eq push_eq ih =>
    rw [ih, scanFrom_of_read read next_eq push_eq]
    rfl

/-- The frames that were collected are found, and the next one is read behind them. -/
theorem found (h : r.Scans calls offset) :
    offset = nextPosition calls.frames ∧ r.Found frameEnd calls.frames := by
  induction h with
  | start => exact ⟨rfl, trivial⟩
  | round _ read next_eq push_eq ih =>
    obtain ⟨hpush, hbehind, hfound⟩ := found_push ih.1 ih.2 read next_eq
    cases hpush.symm.trans push_eq
    exact ⟨hbehind, hfound⟩

theorem offset_lt (h : r.Scans calls offset) : offset < r.size + 262216 := by
  cases h with
  | start => omega
  | round before read next_eq push_eq =>
    obtain ⟨hnext, hlt⟩ := next_of_readFrame read
    cases hnext.symm.trans next_eq
    exact hlt

/-- Each round goes a line further at least. -/
theorem depth_le (h : r.Scans calls offset) : lineSize * calls.depth ≤ offset := by
  induction h with
  | start => exact Nat.le_refl _
  | @round calls next frame offset behind before read next_eq push_eq ih =>
    obtain ⟨hposition, hfound⟩ := before.found
    obtain ⟨hpush, -, -⟩ := found_push hposition hfound read next_eq
    cases hpush.symm.trans push_eq
    cases (next_of_readFrame read).1.symm.trans next_eq
    have hover := frame.overhead_le_size
    simp only [depth, List.length_cons, lineSize, Frame.overhead, slotSize, nextPosition,
      lineFrom] at ih hposition hover ⊢
    omega

/-- **There are no more rounds than lines**, since each of them begins inside the region and a line
further than the one before. So a scan comes to an end on any bytes. -/
theorem depth_lt (h : r.Scans calls offset) : lineSize * calls.depth < r.size + lineSize := by
  cases h with
  | start =>
    show 0 < r.size + lineSize
    exact Nat.lt_add_left _ (by decide)
  | @round calls next frame offset behind before read next_eq push_eq =>
    have hinside := lt_size_of_readFrame read
    have hdepth := before.depth_le
    obtain ⟨hposition, hfound⟩ := before.found
    obtain ⟨hpush, -, -⟩ := found_push hposition hfound read next_eq
    cases hpush.symm.trans push_eq
    simp only [depth, List.length_cons, lineSize] at hdepth ⊢
    omega

/-- **What a scan fails with**, by induction along its rounds: a range outside the region or a byte
that is no marker. Offsets stay near the region, and the frames are read in their order, so neither
an overflow nor a frame in the wrong place can end it. -/
theorem refuses (h : r.Scans calls offset) (hscan : scanFrom r calls offset = .error halt) :
    r.Refuses halt := by
  induction calls, offset using scanFrom.induct r with
  | case1 calls offset halt' hread hblank =>
    rw [scanFrom_of_error hread, if_pos hblank] at hscan
    cases hscan
  | case2 calls offset halt' hread hblank =>
    rw [scanFrom_of_error hread, if_neg hblank] at hscan
    cases hscan
    have hoffset := h.offset_lt
    have hlt : r.size < 9223372036854775808 := r.size_lt
    -- this is how a scan that refuses ends; the other cases are excluded or go on
    exact refuses_of_readFrame (by simp only [wordLimit]; omega) hread
  | case3 calls offset frame last hread halt' hnext =>
    rw [(next_of_readFrame hread).1] at hnext
    cases hnext
  | case4 calls offset frame last hread behind hnext halt' hpush =>
    obtain ⟨hposition, hfound⟩ := h.found
    rw [(found_push hposition hfound hread hnext).1] at hpush
    cases hpush
  | case5 calls offset frame behind hnext pushed hpush hread =>
    rw [scanFrom_of_read hread hnext hpush, if_pos rfl] at hscan
    cases hscan
  | case6 calls offset frame last hread behind hnext pushed hpush hlast ih =>
    rw [scanFrom_of_read hread hnext hpush, if_neg hlast] at hscan
    rw [Bool.not_eq_true] at hlast
    rw [hlast] at hread
    exact ih (h.round hread hnext hpush) hscan

end Region.Scans

/-! ## Frames in their order -/

/-- The first frame starts the region, each one is followed by the next at the first line behind
it, and so all of them start on lines of their own, one further on than the other. -/
structure CallStack.Laid (calls : CallStack) : Prop where
  first_at : ∀ p ∈ calls.toList.head?, p.position = 0
  next_at : calls.toList.IsChain fun p q => p.next = .ok q.position
  on_line : ∀ p ∈ calls.toList, p.position % lineSize = 0
  ascending : calls.toList.Pairwise fun p q => p.position < q.position

namespace Region.Found

theorem first_at (h : r.Found marker frames) : ∀ p ∈ frames.getLast?, p.position = 0 := by
  induction frames generalizing marker with
  | nil => intro p hp; cases hp
  | cons p below ih =>
    cases below with
    | nil =>
      rintro _ ⟨⟩
      exact h.1
    | cons q below => exact ih h.2.2.2

theorem next_at (h : r.Found marker frames) :
    frames.IsChain fun q p => p.next = .ok q.position := by
  induction frames generalizing marker with
  | nil => exact .nil
  | cons p below ih =>
    have hbelow := h.2.2.2
    cases below with
    | nil => exact .singleton p
    | cons q below =>
      refine .cons_cons ?_ (ih hbelow)
      rw [h.1]
      exact next_eq_nextPosition hbelow.2.1

theorem on_line (h : r.Found marker frames) : ∀ p ∈ frames, p.position % lineSize = 0 := by
  induction frames generalizing marker with
  | nil => intro p hp; cases hp
  | cons p below ih =>
    intro q hq
    rcases List.mem_cons.1 hq with rfl | hq
    · rw [h.1]
      exact Nat.mul_mod_left _ _
    · exact ih h.2.2.2 q hq

theorem ascending (h : r.Found marker frames) :
    frames.Pairwise fun q p => p.position < q.position := by
  induction frames generalizing marker with
  | nil => exact .nil
  | cons p below ih =>
    refine .cons (fun q hq => ?_) (ih h.2.2.2)
    have hpast := h.2.2.2.past_le_endOf hq
    have hend := h.endOf_le_position
    have hover := q.overhead_le_past
    omega

/-- Frames that are found are in their order. -/
theorem laid (h : r.Found marker calls.frames) : calls.Laid where
  first_at := by
    rw [toList, List.head?_reverse]
    exact h.first_at
  next_at := by
    rw [toList, List.isChain_reverse]
    exact h.next_at
  on_line p hp := h.on_line p (List.mem_reverse.1 hp)
  ascending := by
    rw [toList, List.pairwise_reverse]
    exact h.ascending

end Region.Found

/-- What is scanned is in its order. -/
theorem laid_of_scan (h : scan r = .ok calls) : calls.Laid := by
  by_cases hnone : calls.frames = []
  · have hfound : r.Found stackEnd calls.frames := by
      rw [hnone]
      trivial
    exact hfound.laid
  · exact ((scan_eq_ok_iff hnone).1 h).laid

/-- **A scan ends cleanly on all bytes.** It has no more rounds than the region has lines. No sum
leaves the word and no frame is refused, because it gives frames in their order, or it fails for a
range outside the region or for a byte that is no marker. -/
theorem scan_ends_cleanly (r : Region) :
    (∀ calls offset, r.Scans calls offset →
      scan r = scanFrom r calls offset ∧ lineSize * calls.depth < r.size + lineSize) ∧
    ((∃ calls, scan r = .ok calls ∧ calls.Laid) ∨
      ∃ halt, scan r = .error halt ∧ r.Refuses halt) := by
  refine ⟨fun calls offset h => ⟨h.scan_eq, h.depth_lt⟩, ?_⟩
  rcases hscan : scan r with halt | calls
  · exact .inr ⟨halt, rfl, Region.Scans.start.refuses hscan⟩
  · exact .inl ⟨calls, rfl, laid_of_scan hscan⟩

/-- Of two frames the lower one is read in the first round, and the scan goes on behind it. -/
theorem twoFrames_scans :
    (DurableStack.twoFrames 102).Scans ⟨[⟨⟨"f", []⟩, 0⟩]⟩ 64 ∧
    scan (DurableStack.twoFrames 102)
      = scanFrom (DurableStack.twoFrames 102) ⟨[⟨⟨"f", []⟩, 0⟩]⟩ 64 ∧
    lineSize * 1 < (DurableStack.twoFrames 102).size + lineSize := by
  obtain ⟨-, -, -, hlower⟩ := DurableStack.found_twoFrames_text
  have hread : readFrame (DurableStack.twoFrames 102) 0 = .ok (⟨"f", []⟩, false) :=
    Placed.readFrame_eq_ok_iff.2 hlower.2.2.1
  have hscans : (DurableStack.twoFrames 102).Scans ⟨[⟨⟨"f", []⟩, 0⟩]⟩ 64 :=
    .round .start hread rfl rfl
  exact ⟨hscans, (scan_ends_cleanly _).1 _ _ hscans⟩

end DurableCalls
