/-
`Codec.lean` -- what is read back from a written frame.

A frame *fits* if both its fields can be described by their 16-bit lengths; those are
the frames that `Frame.make` accepts. A fitting frame is read back from its written
form whatever slot and marker it was written with, and whatever bytes follow
(`decode_encode_append`): the scan of a stack relies on both, because a slot changes
while its frame stays, and because stale bytes follow the last frame.

A scan may also meet bytes that no frame was written as. They are read as if they were a
written form (`exists_image`), with a name that may be no text.
-/
import DurableCalls.Frame

set_option autoImplicit false

namespace DurableCalls

namespace Frame

/-- Both fields fit their lengths. -/
def Fits (f : Frame) : Prop := f.name.utf8ByteSize ≤ fieldLimit ∧ f.args.length ≤ fieldLimit

theorem Fits.size_le {f : Frame} (h : f.Fits) : f.size ≤ 131083 := by
  obtain ⟨hname, hargs⟩ := h
  simp only [fieldLimit] at hname hargs
  simp only [size, overhead, slotSize]
  omega

/-- The frames that can be made are those that fit. -/
theorem make_eq_ok_iff {name : String} {args : List UInt8} {f : Frame} :
    make name args = .ok f ↔ f = ⟨name, args⟩ ∧ f.Fits := by
  unfold make Fits
  -- the two checks of `make`, in their order
  by_cases hname : fieldLimit < name.utf8ByteSize
  · rw [if_pos hname]
    constructor
    · intro h
      cases h
    · rintro ⟨rfl, hfits, -⟩
      exact absurd hfits (Nat.not_le.2 hname)
  · by_cases hargs : fieldLimit < args.length
    · rw [if_neg hname, if_pos hargs]
      constructor
      · intro h
        cases h
      · rintro ⟨rfl, -, hfits⟩
        exact absurd hfits (Nat.not_le.2 hargs)
    · rw [if_neg hname, if_neg hargs]
      constructor
      · intro h
        cases h
        exact ⟨rfl, Nat.not_lt.1 hname, Nat.not_lt.1 hargs⟩
      · rintro ⟨rfl, -⟩
        rfl

/-! ## Fields

The written form is cut in front of each field in turn. Each cut names what is before
the field, the field, and what is behind it, and the lengths of the first two say where
the field is found. -/

/-- A part of a sequence, found by the lengths of what is before it and of itself. -/
theorem take_drop_of_append (pre mid post : List UInt8) {bytes : List UInt8} {pos len : Nat}
    (hbytes : bytes = pre ++ (mid ++ post)) (hpos : pos = pre.length) (hlen : len = mid.length) :
    (bytes.drop pos).take len = mid := by
  subst hbytes hpos hlen
  rw [List.drop_left, List.take_left]

theorem field_of_append (pre mid post : List UInt8) {bytes : List UInt8} {pos len : Nat}
    (hbytes : bytes = pre ++ (mid ++ post)) (hpos : pos = pre.length) (hlen : len = mid.length) :
    field bytes pos len = .ok mid := by
  have hin : pos + len ≤ bytes.length := by
    rw [hbytes, hpos, hlen]
    simp only [List.length_append]
    omega
  rw [field, if_pos hin, take_drop_of_append pre mid post hbytes hpos hlen]

theorem ofBytes_toBytes_of_le {n : Nat} (h : n ≤ fieldLimit) : ofBytes (toBytes 2 n) = n := by
  have hlt : n < 65536 := by
    unfold fieldLimit at h
    omega
  rw [ofBytes_toBytes]
  exact Nat.mod_eq_of_lt hlt

/-- The written form of a frame, with its name as it is stored. In a region that was damaged the
stored bytes of a name may be no text. -/
def image (answer : Slot) (name args : List UInt8) (marker : UInt8) : List UInt8 :=
  answer.toList ++ toBytes 2 name.length ++ name ++ toBytes 2 args.length ++ args ++ [marker]

theorem encode_eq_image (f : Frame) (answer : Slot) (marker : UInt8) :
    f.encode answer marker = image answer (Text.utf8 f.name) f.args marker := rfl

variable (answer : Slot) (name args : List UInt8) (marker : UInt8)

theorem length_answer : answer.toList.length = 8 := answer.length_toList

theorem length_name_part :
    (answer.toList ++ toBytes 2 name.length ++ name).length = 10 + name.length := by
  simp only [List.length_append, length_answer, length_toBytes]

theorem length_args_part :
    (answer.toList ++ toBytes 2 name.length ++ name ++ toBytes 2 args.length ++ args).length
      = 12 + name.length + args.length := by
  rw [List.append_assoc (_ ++ _ ++ _), List.length_append, length_name_part, List.length_append,
    length_toBytes]
  omega

/-- The written form, cut around the length of the name. -/
theorem image_append_eq_nameLength (rest : List UInt8) :
    image answer name args marker ++ rest = answer.toList ++ (toBytes 2 name.length
      ++ (name ++ toBytes 2 args.length ++ args ++ [marker] ++ rest)) := by
  simp only [image, List.append_assoc]

/-- The written form, cut around the length of the arguments. -/
theorem image_append_eq_argsLength (rest : List UInt8) :
    image answer name args marker ++ rest = answer.toList ++ toBytes 2 name.length ++ name
      ++ (toBytes 2 args.length ++ (args ++ [marker] ++ rest)) := by
  simp only [image, List.append_assoc]

/-! ## The round trip -/

/-- **What is read from a written form**: its name as text, its arguments and its marker. What
follows it is not looked at. -/
theorem decode_image_append (hname : name.length ≤ fieldLimit) (hargs : args.length ≤ fieldLimit)
    (rest : List UInt8) :
    decode (image answer name args marker ++ rest)
      = .ok (⟨Text.ofUtf8Lossy name, args⟩, marker) := by
  -- the fields in the order in which they are cut, each with what is in front of it
  have hnameLength : field (image answer name args marker ++ rest) 8 2
      = .ok (toBytes 2 name.length) :=
    field_of_append _ _ _ (image_append_eq_nameLength answer name args marker rest)
      (length_answer answer).symm (length_toBytes 2 _).symm
  have hnameField : field (image answer name args marker ++ rest) 10 name.length = .ok name :=
    field_of_append (answer.toList ++ toBytes 2 name.length) name
      (toBytes 2 args.length ++ args ++ [marker] ++ rest)
      (by simp only [image, List.append_assoc])
      (by rw [List.length_append, length_answer, length_toBytes]) rfl
  have hargsLength : field (image answer name args marker ++ rest) (10 + name.length) 2
      = .ok (toBytes 2 args.length) :=
    field_of_append _ _ _ (image_append_eq_argsLength answer name args marker rest)
      (length_name_part answer name).symm (length_toBytes 2 _).symm
  have hargsField : field (image answer name args marker ++ rest) (10 + name.length + 2)
      args.length = .ok args :=
    field_of_append (answer.toList ++ toBytes 2 name.length ++ name ++ toBytes 2 args.length) args
      ([marker] ++ rest) (by simp only [image, List.append_assoc])
      (by rw [List.length_append, length_name_part, length_toBytes]) rfl
  have hmarker : field (image answer name args marker ++ rest)
      (10 + name.length + 2 + args.length) 1 = .ok [marker] :=
    field_of_append (answer.toList ++ toBytes 2 name.length ++ name ++ toBytes 2 args.length
        ++ args) [marker] rest (by simp only [image, List.append_assoc])
      (by rw [length_args_part]; omega) rfl
  simp only [decode, nameLengthAt, slotSize, hnameLength, bind, Except.bind,
    ofBytes_toBytes_of_le hname, hnameField, hargsLength, ofBytes_toBytes_of_le hargs, hargsField,
    hmarker]
  rfl

/-- **A written frame is read back**, with the marker that it was written with. What follows it is
not looked at, and the answer in its slot is not part of what is read. -/
theorem decode_encode_append (f : Frame) (hfits : f.Fits) (rest : List UInt8) :
    decode (f.encode answer marker ++ rest) = .ok (f, marker) := by
  have hread := decode_image_append answer (Text.utf8 f.name) f.args marker hfits.1 hfits.2 rest
  rw [Text.ofUtf8Lossy_utf8] at hread
  rw [encode_eq_image]
  exact hread

/-- A sequence from a place on, cut behind so many bytes. -/
theorem drop_eq_take_append (bytes : List UInt8) (pos len : Nat) :
    bytes.drop pos = (bytes.drop pos).take len ++ bytes.drop (pos + len) := by
  rw [← List.drop_drop, List.take_append_drop]

/-- **Bytes of the length that their own two lengths give are a written form.** Nothing else is
asked of them: any bytes may stand in the slot, in the name, in the arguments and for the marker. -/
theorem exists_image {bytes : List UInt8} {n m : Nat}
    (hlen : bytes.length = overhead + n + m) (hn : ofBytes ((bytes.drop 8).take 2) = n)
    (hm : ofBytes ((bytes.drop (10 + n)).take 2) = m) :
    ∃ answer name args marker, name.length = n ∧ args.length = m ∧
      bytes = image answer name args marker := by
  simp only [overhead, slotSize] at hlen
  have hlength : ∀ pos len, pos + len ≤ bytes.length →
      ((bytes.drop pos).take len).length = len := by
    intro pos len hle
    rw [List.length_take, List.length_drop]
    omega
  -- two bytes are the number that they are read as
  have htwo : ∀ pos, pos + 2 ≤ bytes.length →
      toBytes 2 (ofBytes ((bytes.drop pos).take 2)) = (bytes.drop pos).take 2 := by
    intro pos hle
    have hbytes := toBytes_ofBytes ((bytes.drop pos).take 2)
    rw [hlength pos 2 hle] at hbytes
    exact hbytes
  obtain ⟨marker, hmarker⟩ := List.length_eq_one_iff.1
    (show (bytes.drop (12 + n + m)).length = 1 by rw [List.length_drop]; omega)
  have hanswer := hlength 0 8 (by omega)
  have hname := hlength 10 n (by omega)
  have hargs := hlength (12 + n) m (by omega)
  refine ⟨⟨((bytes.drop 0).take 8).toArray, by rw [List.size_toArray, hanswer]⟩,
    (bytes.drop 10).take n, (bytes.drop (12 + n)).take m, marker, hname, hargs, ?_⟩
  have hnameLength : toBytes 2 n = (bytes.drop 8).take 2 := by rw [← hn, htwo 8 (by omega)]
  have hargsLength : toBytes 2 m = (bytes.drop (10 + n)).take 2 := by
    rw [← hm, htwo (10 + n) (by omega)]
  rw [image, hname, hargs, hnameLength, hargsLength, ← hmarker]
  -- the bytes, cut behind one field after the other
  have hcut : bytes.drop (10 + n)
      = (bytes.drop (10 + n)).take 2
        ++ ((bytes.drop (12 + n)).take m ++ bytes.drop (12 + n + m)) := by
    rw [← drop_eq_take_append bytes (12 + n) m, show 12 + n = 10 + n + 2 by omega]
    exact drop_eq_take_append bytes (10 + n) 2
  calc bytes = (bytes.drop 0).take 8 ++ ((bytes.drop 8).take 2
        ++ ((bytes.drop 10).take n ++ bytes.drop (10 + n))) := by
        rw [← drop_eq_take_append bytes 10 n, ← drop_eq_take_append bytes 8 2,
          ← drop_eq_take_append bytes 0 8, List.drop_zero]
    _ = _ := by
        simp only [Vector.toList, List.append_assoc]
        rw [← hcut]

end Frame

end DurableCalls
