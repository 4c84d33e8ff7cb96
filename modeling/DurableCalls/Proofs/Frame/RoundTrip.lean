/-
`RoundTrip.lean` -- reading a frame is the inverse of writing one.

Reading goes from field to field, and each field is there or the bytes end too early for it. So
there are two cases for all bytes: they start with a written form, or they are refused for more
bytes than they have (`decode_cases`).

What is read from a part of a written form then follows. The part would start with a written
form of its own, and two written forms at the start of the same bytes have the same lengths, by
which the part is the whole (`length_image_eq`).

A name is read as text. Only where its bytes are text can they be written again, so the way
back asks for that.
-/
import DurableCalls.Proofs.Frame.Codec

set_option autoImplicit false

namespace DurableCalls

theorem Text.exists_utf8_eq {bytes : List UInt8}
    (h : ByteArray.IsValidUTF8 ⟨bytes.toArray⟩) : ∃ s, Text.utf8 s = bytes :=
  ⟨⟨⟨bytes.toArray⟩, h⟩, by simp only [Text.utf8]⟩

namespace Frame

variable {α : Type} {bytes part name name' args args' rest rest' : List UInt8}
  {answer answer' : Slot} {marker marker' : UInt8} {f g : Frame}

/-! ## Bytes that end too early -/

/-- The outcome is a refusal: more bytes were asked for than there are. -/
def EndsEarly (bytes : List UInt8) (outcome : Except Failure α) : Prop :=
  ∃ needed, bytes.length < needed ∧
    outcome = .error (.malformedArgs "stack frame" needed bytes.length)

/-- A field is there, or the bytes end in front of its end. -/
theorem field_bind_cases (bytes : List UInt8) (pos len : Nat)
    (f : List UInt8 → Except Failure α) :
    EndsEarly bytes (field bytes pos len >>= f) ∨
      pos + len ≤ bytes.length ∧ (field bytes pos len >>= f) = f ((bytes.drop pos).take len) := by
  by_cases hin : pos + len ≤ bytes.length
  · rw [field, if_pos hin]
    exact .inr ⟨hin, rfl⟩
  · rw [field, if_neg hin]
    exact .inl ⟨pos + len, Nat.not_le.1 hin, rfl⟩

/-- Two bytes are a number of 16 bits. -/
theorem ofBytes_take_two_le {pos : Nat} (hin : pos + 2 ≤ bytes.length) :
    ofBytes ((bytes.drop pos).take 2) ≤ fieldLimit := by
  have hlt := ofBytes_lt ((bytes.drop pos).take 2)
  rw [List.length_take, List.length_drop, Nat.min_eq_left (by omega)] at hlt
  exact Nat.le_of_lt_succ hlt

/-- Bytes that reach as far as their two lengths say start with a written form. -/
theorem exists_image_append {n m : Nat} (hlen : overhead + n + m ≤ bytes.length)
    (hn : ofBytes ((bytes.drop 8).take 2) = n) (hm : ofBytes ((bytes.drop (10 + n)).take 2) = m) :
    ∃ answer name args marker rest, name.length = n ∧ args.length = m ∧
      bytes = image answer name args marker ++ rest := by
  have hpart : ∀ pos, pos + 2 ≤ overhead + n + m →
      ((bytes.take (overhead + n + m)).drop pos).take 2 = (bytes.drop pos).take 2 := by
    intro pos hpos
    rw [List.drop_take, List.take_take, Nat.min_eq_left (by omega)]
  obtain ⟨answer, name, args, marker, hname, hargs, himage⟩ :=
    exists_image (List.length_take_of_le hlen)
      (by rw [hpart 8 (by simp only [overhead, slotSize]; omega)]; exact hn)
      (by rw [hpart (10 + n) (by simp only [overhead, slotSize]; omega)]; exact hm)
  refine ⟨answer, name, args, marker, bytes.drop (overhead + n + m), hname, hargs, ?_⟩
  rw [← himage, List.take_append_drop]

/-- **All bytes** start with a written form, or they end too early for one. Each of the five fields
is cut at an offset that the fields before it give, and a field that is not there ends the decoding.
-/
theorem decode_cases (bytes : List UInt8) :
    EndsEarly bytes (decode bytes) ∨
      ∃ answer name args marker rest, name.length ≤ fieldLimit ∧ args.length ≤ fieldLimit ∧
        bytes = image answer name args marker ++ rest := by
  -- the fields in the order in which they are read; each of them may be missing
  rw [decode]
  rcases field_bind_cases bytes nameLengthAt 2 _ with hshort | ⟨hnameLength, hnext⟩
  · exact .inl hshort
  rw [hnext]
  rcases field_bind_cases bytes _ _ _ with hshort | ⟨-, hnext⟩
  · exact .inl hshort
  rw [hnext]
  rcases field_bind_cases bytes _ _ _ with hshort | ⟨hargsLength, hnext⟩
  · exact .inl hshort
  rw [hnext]
  rcases field_bind_cases bytes _ _ _ with hshort | ⟨-, hnext⟩
  · exact .inl hshort
  rw [hnext]
  rcases field_bind_cases bytes _ _ _ with hshort | ⟨hmarker, -⟩
  · exact .inl hshort
  -- all of them are there, so the bytes up to the marker are a written form
  simp only [nameLengthAt, slotSize] at hnameLength hargsLength hmarker
  generalize hn : ofBytes ((bytes.drop 8).take 2) = n at hargsLength hmarker
  rw [show 8 + 2 + n = 10 + n by omega] at hargsLength hmarker
  generalize hm : ofBytes ((bytes.drop (10 + n)).take 2) = m at hmarker
  have hlen : overhead + n + m ≤ bytes.length := by
    simp only [overhead, slotSize]
    omega
  obtain ⟨answer, name, args, marker, rest, rfl, rfl, himage⟩ := exists_image_append hlen hn hm
  exact .inr ⟨answer, name, args, marker, rest, hn ▸ ofBytes_take_two_le hnameLength,
    hm ▸ ofBytes_take_two_le hargsLength, himage⟩

/-- **What is read**, from which bytes. The name may have been written with other bytes than its
text has, which is why the form is told by its bytes and not by the frame that is read. -/
theorem decode_eq_ok_iff :
    decode bytes = .ok (g, marker) ↔
      ∃ answer name rest, name.length ≤ fieldLimit ∧ g.args.length ≤ fieldLimit ∧
        Text.ofUtf8Lossy name = g.name ∧ bytes = image answer name g.args marker ++ rest := by
  constructor
  · intro h
    rcases decode_cases bytes with ⟨needed, -, herror⟩
      | ⟨answer, name, args, marker', rest, hname, hargs, rfl⟩
    · rw [herror] at h
      cases h
    · rw [decode_image_append answer name args marker' hname hargs rest] at h
      cases h
      exact ⟨answer, name, rest, hname, hargs, rfl, rfl⟩
  · rintro ⟨answer, name, rest, hname, hargs, htext, rfl⟩
    rw [decode_image_append answer name g.args marker hname hargs rest, htext]

/-! ## What a written form tells -/

/-- The length of the name, as it is stored. -/
def nameLength (bytes : List UInt8) : Nat := ofBytes ((bytes.drop nameLengthAt).take 2)

/-- The bytes of the name. -/
def nameBytes (bytes : List UInt8) : List UInt8 :=
  (bytes.drop (nameLengthAt + 2)).take (nameLength bytes)

theorem nameLength_image (hname : name.length ≤ fieldLimit) (rest : List UInt8) :
    nameLength (image answer name args marker ++ rest) = name.length := by
  rw [nameLength, nameLengthAt, slotSize, take_drop_of_append _ _ _
    (image_append_eq_nameLength answer name args marker rest) (length_answer answer).symm
    (length_toBytes 2 _).symm, ofBytes_toBytes_of_le hname]

theorem nameBytes_image (hname : name.length ≤ fieldLimit) (rest : List UInt8) :
    nameBytes (image answer name args marker ++ rest) = name := by
  rw [nameBytes, nameLength_image hname]
  exact take_drop_of_append (answer.toList ++ toBytes 2 name.length) name
    (toBytes 2 args.length ++ args ++ [marker] ++ rest) (by simp only [image, List.append_assoc])
    (by rw [List.length_append, length_answer, length_toBytes, nameLengthAt, slotSize]) rfl

theorem argsLength_image (hargs : args.length ≤ fieldLimit) (rest : List UInt8) :
    ofBytes (((image answer name args marker ++ rest).drop (10 + name.length)).take 2)
      = args.length := by
  rw [take_drop_of_append _ _ _ (image_append_eq_argsLength answer name args marker rest)
    (length_name_part answer name).symm (length_toBytes 2 _).symm, ofBytes_toBytes_of_le hargs]

theorem length_image (answer : Slot) (name args : List UInt8) (marker : UInt8) :
    (image answer name args marker).length = overhead + name.length + args.length := by
  rw [image, List.length_append, length_args_part, List.length_singleton, overhead, slotSize]
  omega

/-- **Two written forms at the start of the same bytes** are equally long, because both lengths are
read from the same places. So no written form is a strict part of another one. -/
theorem length_image_eq (hname : name.length ≤ fieldLimit) (hargs : args.length ≤ fieldLimit)
    (hname' : name'.length ≤ fieldLimit) (hargs' : args'.length ≤ fieldLimit)
    (h : image answer name args marker ++ rest = image answer' name' args' marker' ++ rest') :
    (image answer name args marker).length = (image answer' name' args' marker').length := by
  have hnames : name.length = name'.length := by
    rw [← nameLength_image hname rest, h, nameLength_image hname' rest']
  have hargss : args.length = args'.length := by
    rw [← argsLength_image hargs rest, h, hnames, argsLength_image hargs' rest']
  rw [length_image, length_image, hnames, hargss]

/-! ## The round trip -/

/-- A part of a written form ends too early. It is refused as such, never for another reason, and
never read as a shorter frame. -/
theorem endsEarly_of_part (hfits : f.Fits) (hpart : part <+: f.encode answer marker)
    (hstrict : part ≠ f.encode answer marker) : EndsEarly part (decode part) := by
  rcases decode_cases part with hshort | ⟨answer', name, args, marker', rest, hname, hargs, himage⟩
  · exact hshort
  · obtain ⟨behind, hbehind⟩ := hpart
    -- the written form in the part is as long as the one that it is a part of
    have hbytes : image answer' name args marker' ++ (rest ++ behind)
        = image answer (Text.utf8 f.name) f.args marker ++ [] := by
      rw [← List.append_assoc, ← himage, hbehind, encode_eq_image, List.append_nil]
    have hsame : (image answer' name args marker').length = (f.encode answer marker).length :=
      length_image_eq hname hargs hfits.1 hfits.2 hbytes
    have hle : (f.encode answer marker).length ≤ part.length := by
      rw [← hsame, himage, List.length_append]
      exact Nat.le_add_right _ _
    exact absurd (List.IsPrefix.eq_of_length_le ⟨behind, hbehind⟩ hle) hstrict

/-- What was read is written as it was, if its name was text. -/
theorem encode_of_decode (h : decode bytes = .ok (g, marker))
    (htext : ByteArray.IsValidUTF8 ⟨(nameBytes bytes).toArray⟩) :
    ∃ answer : Slot, answer.toList = bytes.take slotSize ∧
      g.encode answer marker = bytes.take g.size := by
  obtain ⟨answer, name, rest, hname, hargs, hread, rfl⟩ := decode_eq_ok_iff.1 h
  rw [nameBytes_image hname] at htext
  obtain ⟨text, rfl⟩ := Text.exists_utf8_eq htext
  rw [Text.ofUtf8Lossy_utf8] at hread
  have himage : image answer (Text.utf8 text) g.args marker = g.encode answer marker := by
    rw [encode_eq_image, hread]
  refine ⟨answer, ?_, ?_⟩
  · rw [image_append_eq_nameLength]
    exact (List.take_left' (length_answer answer)).symm
  · rw [himage, List.take_left' (length_encode g answer marker)]

/-- **Reading and writing undo each other.** A frame that was made is read from what is written
for it, whatever answer and marker it is written with and whatever follows, and no smaller part of
that is read at all. What is read from any bytes is written as the bytes that it was read from, if
its name is text there. -/
theorem round_trips :
    (∀ (name : String) (args : List UInt8) (f : Frame), make name args = .ok f →
      ∀ (answer : Slot) (marker : UInt8),
        (∀ rest, decode (f.encode answer marker ++ rest) = .ok (f, marker)) ∧
        ∀ part, part <+: f.encode answer marker → part ≠ f.encode answer marker →
          ∃ needed, part.length < needed ∧
            decode part = .error (.malformedArgs "stack frame" needed part.length)) ∧
    ∀ (bytes : List UInt8) (g : Frame) (marker : UInt8), decode bytes = .ok (g, marker) →
      ByteArray.IsValidUTF8 ⟨(nameBytes bytes).toArray⟩ →
        ∃ answer : Slot, answer.toList = bytes.take slotSize ∧
          g.encode answer marker = bytes.take g.size := by
  refine ⟨fun name args f hmake answer marker => ?_, fun bytes g marker => encode_of_decode⟩
  have hfits := (make_eq_ok_iff.1 hmake).2
  exact ⟨decode_encode_append answer marker f hfits, fun part => endsEarly_of_part hfits⟩

/-- The smallest frame that has a name and an argument. -/
def smallFrame : Frame := ⟨"f", [7]⟩

theorem smallFrame_round_trips :
    make "f" [7] = .ok smallFrame ∧
    decode (smallFrame.encode .cleared stackEnd ++ [9]) = .ok (smallFrame, stackEnd) ∧
    (∃ needed, 11 < needed ∧ decode ((smallFrame.encode .cleared stackEnd).take 11)
      = .error (.malformedArgs "stack frame" needed 11)) ∧
    ∃ answer : Slot, answer.toList = (smallFrame.encode .cleared stackEnd ++ [9]).take slotSize ∧
      smallFrame.encode answer stackEnd
        = (smallFrame.encode .cleared stackEnd ++ [9]).take smallFrame.size := by
  have hmake : make "f" [7] = .ok smallFrame := rfl
  obtain ⟨hread, hpart⟩ := round_trips.1 "f" [7] smallFrame hmake .cleared stackEnd
  have htext : ByteArray.IsValidUTF8
      ⟨(nameBytes (smallFrame.encode .cleared stackEnd ++ [9])).toArray⟩ := ⟨['f'], by decide⟩
  exact ⟨hmake, hread [9], hpart _ (List.take_prefix 11 _) (by decide),
    round_trips.2 _ smallFrame stackEnd (hread [9]) htext⟩

end Frame

end DurableCalls
