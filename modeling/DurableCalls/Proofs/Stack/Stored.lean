/-
`Stored.lean` -- single frames in a region.

A placed frame is *stored* with a marker if its range holds a written form of it. The
slot of that form is left open, because answers come and go while a frame stays. A
stored frame is what `readFrame` reads there, and it stays stored as long as its own
range stays (`Stored.of_agree`).

In a region of any contents a frame is *held* with the bytes of a name. The two are the
same for a name that was written as text. Otherwise the bytes are read as some text, and
what `readFrame` reads are the frames that are held (`readFrame_eq_ok_iff`).

The offsets of the operations are sums in the word; for frames inside a region they
never leave it, and the last section gives their values.
-/
import DurableCalls.DurableStack
import DurableCalls.Proofs.Frame.Codec
import DurableCalls.Proofs.Region.Words

set_option autoImplicit false

namespace DurableCalls

/-- The first cache-line boundary at or after an offset. -/
def lineFrom (offset : Nat) : Nat := (offset + 63) / 64 * 64

theorem le_lineFrom (offset : Nat) : offset ≤ lineFrom offset := by
  unfold lineFrom
  omega

theorem lineFrom_le (offset : Nat) : lineFrom offset ≤ offset + 63 := by
  unfold lineFrom
  omega

theorem alignUp_eq_lineFrom {offset : Nat} (h : offset + 64 < wordLimit) :
    alignUp offset = .ok (lineFrom offset) :=
  alignUp_eq_ok.2 ⟨h, rfl⟩

theorem addWord_eq {a b : Nat} (h : a + b < wordLimit) : addWord a b = .ok (a + b) :=
  addWord_eq_ok.2 ⟨h, rfl⟩

namespace Placed

variable {r r' : Region} {marker : UInt8} {p : Placed}

/-- `stop` without the word. -/
def past (p : Placed) : Nat := p.position + p.frame.size

theorem overhead_le_past (p : Placed) : p.position + 13 ≤ p.past := by
  have hsize := p.frame.overhead_le_size
  simp only [Frame.overhead, slotSize] at hsize
  unfold past
  omega

theorem markerAt_eq_ok {p : Placed} (h : p.past < wordLimit) : p.markerAt = .ok (p.past - 1) := by
  have hstop : p.stop = .ok p.past := addWord_eq h
  simp only [markerAt, hstop, bind, Except.bind, pure, Except.pure]

/-- A written form of the frame, with some answer in its slot, is in the frame's range. -/
def Stored (r : Region) (marker : UInt8) (p : Placed) : Prop :=
  ∃ answer : Slot, r.read p.position p.frame.size = .ok (p.frame.encode answer marker)

/-- One past the last byte of a frame that is stored with such a name. -/
def behind (name : List UInt8) (p : Placed) : Nat :=
  p.position + (Frame.overhead + name.length + p.frame.args.length)

/-- A written form that has these bytes for a name is where the frame starts. The name of the
frame may be another one. -/
def Held (r : Region) (name : List UInt8) (marker : UInt8) (p : Placed) : Prop :=
  ∃ answer : Slot, r.read p.position (Frame.overhead + name.length + p.frame.args.length)
    = .ok (Frame.image answer name p.frame.args marker)

/-- A stored frame is held with its own name. -/
theorem stored_iff_held : p.Stored r marker ↔ p.Held r (Text.utf8 p.frame.name) marker := Iff.rfl

namespace Held

variable {name : List UInt8}

theorem behind_le (h : Held r name marker p) : p.behind name ≤ r.size := by
  obtain ⟨answer, hread⟩ := h
  exact (Region.read_eq_ok_iff.1 hread).1

/-- A frame is held as long as its own range stays. -/
theorem of_agree (h : Held r name marker p)
    (hagree : Region.Agree p.position (p.behind name) r r') : Held r' name marker p := by
  obtain ⟨answer, hread⟩ := h
  exact ⟨answer, by rw [Region.read_of_agree hagree, hread]⟩

theorem behind_eq (name : List UInt8) (p : Placed) :
    p.behind name - 1 = p.position + (12 + name.length + p.frame.args.length) := by
  simp only [behind, Frame.overhead, slotSize]
  omega

/-- The marker is the last byte that is held, and changing it changes nothing else. -/
theorem mark (h : Held r name marker p) (next : UInt8) :
    Held (r.put (p.behind name - 1) [next]) name next p := by
  obtain ⟨answer, hread⟩ := h
  -- the written form, cut in front of its marker
  have hlast : ∀ m, Frame.image answer name p.frame.args m = answer.toList
      ++ toBytes 2 name.length ++ name ++ toBytes 2 p.frame.args.length ++ p.frame.args
      ++ ([m] ++ []) := by
    intro m
    rw [List.append_nil, Frame.image]
  rw [hlast] at hread
  have hsame : [marker].length = [next].length := rfl
  have hput := Region.read_put_within hread hsame
  rw [Frame.length_args_part, ← hlast, ← behind_eq] at hput
  exact ⟨answer, hput⟩

/-- The marker is found at the last byte that is held. -/
theorem getElem?_marker (h : Held r name marker p) :
    r.cells[p.behind name - 1]? = some marker := by
  obtain ⟨answer, hread⟩ := h
  obtain ⟨-, -, hcells⟩ := Region.read_eq_ok_iff.1 hread
  have hlast : (Frame.image answer name p.frame.args marker)[12 + name.length
      + p.frame.args.length]? = some marker := by
    rw [← Frame.length_args_part answer name p.frame.args]
    exact List.getElem?_concat_length
  rw [behind_eq, ← hcells _ (by simp only [Frame.overhead, slotSize]; omega), hlast]

/-- Where the length of the name is stored. -/
theorem readNumber_name (h : Held r name marker p) (hname : name.length ≤ Frame.fieldLimit) :
    r.readNumber 2 (p.position + 8) = .ok name.length := by
  obtain ⟨answer, hread⟩ := h
  rw [← List.append_nil (Frame.image answer name p.frame.args marker)] at hread
  have hin : 8 + 2 ≤ Frame.overhead + name.length + p.frame.args.length := by
    simp only [Frame.overhead, slotSize]
    omega
  rw [Region.readNumber_of_read (Region.read_part hread hin),
    Frame.take_drop_of_append _ _ _ (Frame.image_append_eq_nameLength answer name p.frame.args
      marker []) (Frame.length_answer answer).symm (length_toBytes 2 _).symm,
    Frame.ofBytes_toBytes_of_le hname]

/-- Where the length of the arguments is stored. -/
theorem readNumber_args (h : Held r name marker p)
    (hargs : p.frame.args.length ≤ Frame.fieldLimit) :
    r.readNumber 2 (p.position + (10 + name.length)) = .ok p.frame.args.length := by
  obtain ⟨answer, hread⟩ := h
  rw [← List.append_nil (Frame.image answer name p.frame.args marker)] at hread
  have hin : 10 + name.length + 2 ≤ Frame.overhead + name.length + p.frame.args.length := by
    simp only [Frame.overhead, slotSize]
    omega
  rw [Region.readNumber_of_read (Region.read_part hread hin),
    Frame.take_drop_of_append _ _ _ (Frame.image_append_eq_argsLength answer name p.frame.args
      marker []) (Frame.length_name_part answer name).symm (length_toBytes 2 _).symm,
    Frame.ofBytes_toBytes_of_le hargs]

end Held

namespace Stored

theorem past_le (h : Stored r marker p) : p.past ≤ r.size := Held.behind_le h

/-- A frame is stored as long as its own range stays. -/
theorem of_agree (h : Stored r marker p) (hagree : Region.Agree p.position p.past r r') :
    Stored r' marker p := Held.of_agree h hagree

/-- Writing a frame stores it. -/
theorem put (frame : Frame) (answer : Slot) (position : Nat)
    (hin : position + frame.size ≤ r.size) :
    Stored (r.put position (frame.encode answer marker)) marker ⟨frame, position⟩ := by
  refine ⟨answer, ?_⟩
  have hread : (r.put position (frame.encode answer marker)).read position
      (frame.encode answer marker).length = .ok (frame.encode answer marker) :=
    Region.read_put_self (by rw [Frame.length_encode]; exact hin)
  rw [Frame.length_encode] at hread
  exact hread

/-- The marker is the last byte of the frame, and changing it changes nothing else. -/
theorem mark (h : Stored r marker p) (next : UInt8) :
    Stored (r.put (p.past - 1) [next]) next p := Held.mark h next

/-- The marker is found at the last byte of the frame. -/
theorem getElem?_marker (h : Stored r marker p) : r.cells[p.past - 1]? = some marker :=
  Held.getElem?_marker h

end Stored

/-! ## Reading a stored frame -/

/-- **A frame is read where it is held**, its name as text, and its marker says how to go on. Only
the two lengths, the range that they give and its last byte are looked at, so the answer in the slot
may be any. -/
theorem readFrame_of_held {name : List UInt8} (h : Held r name marker p)
    (hname : name.length ≤ Frame.fieldLimit) (hargs : p.frame.args.length ≤ Frame.fieldLimit) :
    readFrame r p.position =
      if marker = stackEnd then .ok (⟨Text.ofUtf8Lossy name, p.frame.args⟩, true)
      else if marker = frameEnd then .ok (⟨Text.ofUtf8Lossy name, p.frame.args⟩, false)
      else .error (.failed (.corruptedMarker (p.behind name - 1) marker)) := by
  have hbehind := h.behind_le
  have hnameLength := h.readNumber_name hname
  have hargsLength := h.readNumber_args hargs
  obtain ⟨answer, hread⟩ := h
  have hlt : r.size < 9223372036854775808 := r.size_lt
  simp only [behind, Frame.overhead, slotSize] at hbehind
  have hdecode := Frame.decode_image_append answer name p.frame.args marker hname hargs []
  rw [List.append_nil] at hdecode
  -- no offset leaves the word, because all of them are inside the region
  have hnameAt : addWord p.position Frame.nameLengthAt = .ok (p.position + 8) :=
    addWord_eq (by simp only [wordLimit, Frame.nameLengthAt, slotSize]; omega)
  have hafter : addWord (p.position + 8) 2 = .ok (p.position + 8 + 2) :=
    addWord_eq (by simp only [wordLimit]; omega)
  have hargsAt : addWord (p.position + 8 + 2) name.length
      = .ok (p.position + (10 + name.length)) := by
    rw [addWord_eq (by simp only [wordLimit]; omega)]
    congr 1
    omega
  simp only [readFrame, bind, Except.bind, liftM, monadLift, MonadLift.monadLift, hnameAt,
    hnameLength, hafter, hargsAt, hargsLength, pure, Except.pure, hread, hdecode]
  rfl

/-- **A stored frame is read where it is stored.** This is the case of a name that was written as
text: the frame comes back as it is, and its end is where its own size says. -/
theorem readFrame_of_stored (h : Stored r marker p) (hfits : p.frame.Fits) :
    readFrame r p.position =
      if marker = stackEnd then .ok (p.frame, true)
      else if marker = frameEnd then .ok (p.frame, false)
      else .error (.failed (.corruptedMarker (p.past - 1) marker)) := by
  have hread := readFrame_of_held (stored_iff_held.1 h) hfits.1 hfits.2
  rw [Text.ofUtf8Lossy_utf8] at hread
  exact hread

/-- A frame is held with a name that is read as its own, and its two lengths are numbers of 16
bits. -/
structure ReadsAs (r : Region) (name : List UInt8) (marker : UInt8) (p : Placed) : Prop where
  held : p.Held r name marker
  name_eq : Text.ofUtf8Lossy name = p.frame.name
  name_le : name.length ≤ Frame.fieldLimit
  args_le : p.frame.args.length ≤ Frame.fieldLimit

theorem Stored.readsAs (h : Stored r marker p) (hfits : p.frame.Fits) :
    p.ReadsAs r (Text.utf8 p.frame.name) marker :=
  ⟨h, Text.ofUtf8Lossy_utf8 _, hfits.1, hfits.2⟩

/-- How a frame ends that is the last one of its stack, and how any other one does. -/
def endMarker (last : Bool) : UInt8 := if last then stackEnd else frameEnd

theorem exists_of_readNumber {offset n : Nat} (h : r.readNumber 2 offset = .ok n) :
    ∃ bytes, r.read offset 2 = .ok bytes ∧ ofBytes bytes = n ∧ n ≤ Frame.fieldLimit := by
  rw [Region.readNumber] at h
  obtain ⟨bytes, hread, hnumber⟩ := exists_of_bind_eq_ok h
  have hlt := ofBytes_lt bytes
  rw [(Region.read_eq_ok_iff.1 hread).2.1] at hlt
  cases hnumber
  exact ⟨bytes, hread, rfl, Nat.le_of_lt_succ hlt⟩

/-- What is read for a frame: two lengths, and then the range that they give. Every reading of a
frame goes through these three, and fails where one of them does. -/
theorem exists_of_readFrame {offset : Nat} {frame : Frame} {last : Bool}
    (h : readFrame r offset = .ok (frame, last)) :
    ∃ n m bytes, r.readNumber 2 (offset + 8) = .ok n ∧
      r.readNumber 2 (offset + (10 + n)) = .ok m ∧
      r.read offset (Frame.overhead + n + m) = .ok bytes ∧
      Frame.decode bytes = .ok (frame, endMarker last) := by
  rw [readFrame] at h
  obtain ⟨nameAt, hnameAt, h⟩ := exists_of_bind_eq_ok h
  obtain ⟨n, hn, h⟩ := exists_of_bind_eq_ok h
  obtain ⟨afterAt, hafterAt, h⟩ := exists_of_bind_eq_ok h
  obtain ⟨argsAt, hargsAt, h⟩ := exists_of_bind_eq_ok h
  obtain ⟨m, hm, h⟩ := exists_of_bind_eq_ok h
  obtain ⟨bytes, hbytes, h⟩ := exists_of_bind_eq_ok h
  obtain ⟨⟨found, marker⟩, hdecode, h⟩ := exists_of_bind_eq_ok h
  have hat : argsAt = offset + (10 + n) := by
    rw [(addWord_eq_ok.1 hargsAt).2, (addWord_eq_ok.1 hafterAt).2, (addWord_eq_ok.1 hnameAt).2,
      Frame.nameLengthAt, slotSize]
    omega
  rw [(addWord_eq_ok.1 hnameAt).2] at hn
  rw [hat] at hm
  refine ⟨n, m, bytes, eq_ok_of_lift hn, eq_ok_of_lift hm, eq_ok_of_lift hbytes, ?_⟩
  -- the marker says whether the frame is the last one
  have hmarker : found = frame ∧ marker = endMarker last := by
    by_cases hstack : marker = stackEnd
    · simp only [if_pos hstack] at h
      cases h
      exact ⟨rfl, hstack⟩
    · by_cases hframe : marker = frameEnd
      · simp only [if_neg hstack, if_pos hframe] at h
        cases h
        exact ⟨rfl, hframe⟩
      · simp only [if_neg hstack, if_neg hframe] at h
        cases h
  rw [← hmarker.1, ← hmarker.2]
  exact eq_ok_of_lift hdecode

/-- What is read for a frame is a written form, because the two lengths are a part of it. -/
theorem exists_image_of_reads {offset n m : Nat} {bytes : List UInt8}
    (hn : r.readNumber 2 (offset + 8) = .ok n)
    (hm : r.readNumber 2 (offset + (10 + n)) = .ok m)
    (hread : r.read offset (Frame.overhead + n + m) = .ok bytes) :
    ∃ answer name args marker, name.length = n ∧ args.length = m ∧
      bytes = Frame.image answer name args marker := by
  obtain ⟨nameNumber, hnameRead, hnameNumber, -⟩ := exists_of_readNumber hn
  obtain ⟨argsNumber, hargsRead, hargsNumber, -⟩ := exists_of_readNumber hm
  -- the two lengths are read again with the whole range
  have hnamePart := Region.read_part hread (show 8 + 2 ≤ Frame.overhead + n + m by
    simp only [Frame.overhead, slotSize]; omega)
  have hargsPart := Region.read_part hread (show 10 + n + 2 ≤ Frame.overhead + n + m by
    simp only [Frame.overhead, slotSize]; omega)
  cases hnamePart.symm.trans hnameRead
  cases hargsPart.symm.trans hargsRead
  exact Frame.exists_image (Region.read_eq_ok_iff.1 hread).2.1 hnameNumber hargsNumber

/-- **Which frames are read**: those that are held there, with a marker that says how to go on.
Nothing is asked of the region, so this tells what a scan finds in bytes that no push has written.
-/
theorem readFrame_eq_ok_iff {offset : Nat} {frame : Frame} {last : Bool} :
    readFrame r offset = .ok (frame, last) ↔
      ∃ name, ReadsAs r name (endMarker last) ⟨frame, offset⟩ := by
  constructor
  · intro h
    obtain ⟨n, m, bytes, hn, hm, hread, hdecode⟩ := exists_of_readFrame h
    obtain ⟨answer, name, args, marker, rfl, rfl, rfl⟩ := exists_image_of_reads hn hm hread
    obtain ⟨-, -, -, hnle⟩ := exists_of_readNumber hn
    obtain ⟨-, -, -, hmle⟩ := exists_of_readNumber hm
    have himage := Frame.decode_image_append answer name args marker hnle hmle []
    rw [List.append_nil] at himage
    cases himage.symm.trans hdecode
    exact ⟨name, ⟨answer, hread⟩, rfl, hnle, hmle⟩
  · rintro ⟨name, hheld, hname, hnameLe, hargsLe⟩
    rw [readFrame_of_held hheld hnameLe hargsLe, hname]
    cases last with
    | true => rfl
    | false => rfl

end Placed

end DurableCalls
