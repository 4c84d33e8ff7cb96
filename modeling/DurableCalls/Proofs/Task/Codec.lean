/-
`Codec.lean` -- tasks and swap calls as bytes, and back.

Both forms are fields of fixed width in a row, so a field is read where the fields before
it end. What is read from a field has as many digits as the field has bytes, so nothing is lost
on the way back either: bytes of the right length (and with the right tag) are the form of what
they are read as (`SwapTask.decode_inverts_encode`).
-/
import DurableCalls.Task

set_option autoImplicit false

namespace DurableCalls

namespace SwapArgs

/-- A number that was written between other bytes is read there. -/
theorem numberAt_append (front rest : List UInt8) {width n : Nat} (hn : n < byteRange width) :
    numberAt (front ++ (toBytes width n ++ rest)) front.length width = n := by
  have htake : (toBytes width n ++ rest).take width = toBytes width n := by
    have hlen : (toBytes width n).length = width := length_toBytes width n
    rw [List.take_append_of_le_length (Nat.le_of_eq hlen.symm), List.take_of_length_le
      (Nat.le_of_eq hlen)]
  rw [numberAt, List.drop_left, htake, ofBytes_toBytes, Nat.mod_eq_of_lt hn]

theorem length_field {bytes : List UInt8} {pos width : Nat} (h : pos + width ≤ bytes.length) :
    ((bytes.drop pos).take width).length = width := by
  rw [List.length_take, List.length_drop]
  omega

/-- A field holds a number of its width. -/
theorem numberAt_lt {bytes : List UInt8} {pos width : Nat} (h : pos + width ≤ bytes.length) :
    numberAt bytes pos width < byteRange width := by
  have hlt := ofBytes_lt ((bytes.drop pos).take width)
  rwa [length_field h] at hlt

/-- The number that is read from a field is written as the field. -/
theorem toBytes_numberAt {bytes : List UInt8} {pos width : Nat}
    (h : pos + width ≤ bytes.length) :
    toBytes width (numberAt bytes pos width) = (bytes.drop pos).take width := by
  have hback := toBytes_ofBytes ((bytes.drop pos).take width)
  rwa [length_field h] at hback

/-- A field that is read as a long word is written as before. -/
theorem toBytes_long {bytes : List UInt8} {pos : Nat} (h : pos + 8 ≤ bytes.length) :
    toBytes 8 (UInt64.ofNat (numberAt bytes pos 8)).toNat = (bytes.drop pos).take 8 := by
  rw [UInt64.toNat_ofNat_of_lt' (numberAt_lt h), toBytes_numberAt h]

/-- A field that is read as a word is written as before. -/
theorem toBytes_word {bytes : List UInt8} {pos : Nat} (h : pos + 4 ≤ bytes.length) :
    toBytes 4 (UInt32.ofNat (numberAt bytes pos 4)).toNat = (bytes.drop pos).take 4 := by
  rw [UInt32.toNat_ofNat_of_lt' (numberAt_lt h), toBytes_numberAt h]

@[simp] theorem length_encode (a : SwapArgs) : a.encode.length = 24 := by
  simp only [encode, List.length_append, length_toBytes]

/-- Reading the fields gives back what was written. -/
theorem ofFields_encode (a : SwapArgs) : ofFields a.encode = a := by
  -- one field after the other, each with the fields in front of it
  have hregister : numberAt a.encode 0 8 = a.register.toNat := by
    have h := numberAt_append [] (toBytes 4 a.expected.toNat ++ (toBytes 4 a.new.toNat ++
      toBytes 8 a.matrix.toNat)) (show a.register.toNat < byteRange 8 from a.register.toNat_lt)
    simpa only [encode, List.nil_append, List.append_assoc, List.length_nil] using h
  have hexpected : numberAt a.encode 8 4 = a.expected.toNat := by
    have h := numberAt_append (toBytes 8 a.register.toNat) (toBytes 4 a.new.toNat ++
      toBytes 8 a.matrix.toNat) (show a.expected.toNat < byteRange 4 from a.expected.toNat_lt)
    simpa only [encode, List.append_assoc, length_toBytes] using h
  have hnew : numberAt a.encode 12 4 = a.new.toNat := by
    have h := numberAt_append (toBytes 8 a.register.toNat ++ toBytes 4 a.expected.toNat)
      (toBytes 8 a.matrix.toNat) (show a.new.toNat < byteRange 4 from a.new.toNat_lt)
    simpa only [encode, List.append_assoc, List.length_append, length_toBytes] using h
  have hmatrix : numberAt a.encode 16 8 = a.matrix.toNat := by
    have h := numberAt_append (toBytes 8 a.register.toNat ++ toBytes 4 a.expected.toNat ++
      toBytes 4 a.new.toNat) [] (show a.matrix.toNat < byteRange 8 from a.matrix.toNat_lt)
    simpa only [encode, List.append_nil, List.length_append, length_toBytes] using h
  simp only [ofFields, hregister, hexpected, hnew, hmatrix, UInt64.ofNat_toNat,
    UInt32.ofNat_toNat]

theorem decode_encode (a : SwapArgs) : decode a.encode = .ok a := by
  have hlen : a.encode.length = length := length_encode a
  rw [decode, if_pos hlen, ofFields_encode]

/-- Writing the fields gives back the bytes that they were read from. -/
theorem encode_ofFields {bytes : List UInt8} (h : bytes.length = 24) :
    (ofFields bytes).encode = bytes := by
  have hrest : (bytes.drop 16).take 8 = bytes.drop 16 :=
    List.take_of_length_le (by rw [List.length_drop]; omega)
  -- a field is what the bytes from it on lose up to the next one
  have hsplit : ∀ pos width, (bytes.drop pos).take width ++ bytes.drop (pos + width)
      = bytes.drop pos := by
    intro pos width
    rw [← List.drop_drop, List.take_append_drop]
  rw [encode]
  simp only [ofFields]
  rw [toBytes_long (by omega), toBytes_word (by omega), toBytes_word (by omega),
    toBytes_long (by omega), hrest, List.append_assoc, List.append_assoc, hsplit 12 4, hsplit 8 4,
    hsplit 0 8, List.drop_zero]

/-- What is read from bytes is written as these bytes, and as no others. -/
theorem decode_eq_ok_iff {bytes : List UInt8} {a : SwapArgs} :
    decode bytes = .ok a ↔ a.encode = bytes := by
  constructor
  · intro h
    rw [decode] at h
    split at h
    · next hlen =>
      cases h
      exact encode_ofFields hlen
    · cases h
  · rintro rfl
    exact decode_encode a

/-- Bytes are refused for their number only. -/
theorem decode_eq_error_iff {bytes : List UInt8} {f : Failure} :
    decode bytes = .error f ↔
      bytes.length ≠ 24 ∧ f = .malformedArgs swapFunction 24 bytes.length := by
  rw [decode]
  by_cases hlen : bytes.length = length
  · rw [if_pos hlen]
    constructor
    · intro h
      cases h
    · rintro ⟨hne, -⟩
      exact absurd hlen hne
  · rw [if_neg hlen]
    constructor
    · intro h
      exact ⟨hlen, (Except.error.inj h).symm⟩
    · rintro ⟨-, rfl⟩
      rfl

/-- The forms of calls are the sequences of their length. -/
theorem exists_encode_iff {bytes : List UInt8} :
    (∃ a : SwapArgs, a.encode = bytes) ↔ bytes.length = 24 := by
  constructor
  · rintro ⟨a, rfl⟩
    exact length_encode a
  · intro h
    exact ⟨ofFields bytes, encode_ofFields h⟩

end SwapArgs

namespace SwapTask

@[simp] theorem length_encode (t : SwapTask) : t.encode.length = 33 := by
  simp only [encode, List.length_cons, List.length_append, length_toBytes, SwapArgs.length_encode]

theorem decode_encode (t : SwapTask) : decode t.encode = .ok t := by
  have hlen : (toBytes 8 t.answer.toNat ++ t.swap.encode).length + 1 = length := by
    simp only [List.length_append, length_toBytes, SwapArgs.length_encode]
    rfl
  have hdrop : (toBytes 8 t.answer.toNat ++ t.swap.encode).drop 8 = t.swap.encode :=
    List.drop_left' (length_toBytes 8 _)
  have hanswer : SwapArgs.numberAt (toBytes 8 t.answer.toNat ++ t.swap.encode) 0 8
      = t.answer.toNat :=
    SwapArgs.numberAt_append [] t.swap.encode t.answer.toNat_lt
  simp only [encode, decode, ne_eq, not_true_eq_false, if_false, hlen, hdrop, hanswer,
    SwapArgs.ofFields_encode, UInt64.ofNat_toNat]

/-- The form of a task is that of its swap, behind the tag and the place of the answer. -/
theorem drop_encode (t : SwapTask) : t.encode.drop 9 = t.swap.encode := by
  have htag : t.encode.drop 9 = (toBytes 8 t.answer.toNat ++ t.swap.encode).drop 8 := rfl
  rw [htag]
  exact List.drop_left' (length_toBytes 8 _)

/-- Bytes behind a tag are the form of the task that is read from them. -/
theorem encode_ofFields {rest : List UInt8} (h : rest.length = 32) :
    (SwapTask.mk (.ofFields (rest.drop 8)) (UInt64.ofNat (SwapArgs.numberAt rest 0 8))).encode
      = tag :: rest := by
  have hswap : (rest.drop 8).length = 24 := by
    rw [List.length_drop]
    omega
  rw [encode]
  simp only
  rw [SwapArgs.toBytes_long (by omega), SwapArgs.encode_ofFields hswap, List.drop_zero,
    List.take_append_drop]

/-- The decoder asks for the tag first, and then for the length. -/
theorem decode_cons (first : UInt8) (rest : List UInt8) :
    decode (first :: rest) = if first ≠ tag then .error (.unknownTaskType first)
      else if rest.length + 1 ≠ length then
        .error (.malformedArgs taskFunction length (rest.length + 1))
      else .ok {
        swap := .ofFields (rest.drop 8)
        answer := UInt64.ofNat (SwapArgs.numberAt rest 0 8) } :=
  rfl

theorem decode_eq_ok_iff {bytes : List UInt8} {t : SwapTask} :
    decode bytes = .ok t ↔ t.encode = bytes := by
  constructor
  · intro h
    cases bytes with
    | nil => cases h
    | cons first rest =>
      rw [decode_cons] at h
      split at h
      · cases h
      · next htag =>
        split at h
        · cases h
        · next hlen =>
          cases h
          have hrest : rest.length + 1 = 33 := Decidable.not_not.1 hlen
          rw [encode_ofFields (Nat.succ.inj hrest), Decidable.not_not.1 htag]
  · rintro rfl
    exact decode_encode t

theorem exists_encode_iff {bytes : List UInt8} :
    (∃ t : SwapTask, t.encode = bytes) ↔ bytes.length = 33 ∧ bytes.head? = some 0x00 := by
  constructor
  · rintro ⟨t, rfl⟩
    exact ⟨length_encode t, rfl⟩
  · rintro ⟨hlen, hhead⟩
    obtain ⟨rest, rfl⟩ := List.head?_eq_some_iff.1 hhead
    rw [List.length_cons] at hlen
    exact ⟨_, encode_ofFields (Nat.succ.inj hlen)⟩

/-- Bytes with another tag are those of an unknown task, however many they are. The tag is looked at
before the length. -/
theorem decode_eq_unknown_iff {bytes : List UInt8} {first : UInt8} :
    decode bytes = .error (.unknownTaskType first) ↔
      bytes.head? = some first ∧ first ≠ 0x00 := by
  cases bytes with
  | nil =>
    constructor
    · intro h
      cases h
    · rintro ⟨h, -⟩
      cases h
  | cons leading rest =>
    rw [decode_cons, List.head?_cons]
    constructor
    · intro h
      split at h
      · next htag =>
        cases h
        exact ⟨rfl, htag⟩
      · split at h <;> cases h
    · rintro ⟨hleading, htag⟩
      cases hleading
      exact if_pos htag

/-- **Two decoders undo two encoders.** Calls are the sequences of 24 bytes, and tasks are those of
33 bytes that begin with the tag: what is read from a sequence is what is written as it. A sequence
that is the form of nothing is refused, for an unknown tag if it has one, and else for its length.
The fields of a task are in the order of its call, which is written as its last 24 bytes. -/
theorem decode_inverts_encode :
    (∀ (bytes : List UInt8) (a : SwapArgs),
      SwapArgs.decode bytes = .ok a ↔ a.encode = bytes) ∧
    (∀ bytes : List UInt8, (∃ a : SwapArgs, a.encode = bytes) ↔ bytes.length = 24) ∧
    (∀ (bytes : List UInt8) (f : Failure), SwapArgs.decode bytes = .error f ↔
      bytes.length ≠ 24 ∧ f = .malformedArgs swapFunction 24 bytes.length) ∧
    (∀ (bytes : List UInt8) (t : SwapTask), decode bytes = .ok t ↔ t.encode = bytes) ∧
    (∀ bytes : List UInt8, (∃ t : SwapTask, t.encode = bytes) ↔
      bytes.length = 33 ∧ bytes.head? = some 0x00) ∧
    (∀ (bytes : List UInt8) (first : UInt8), decode bytes = .error (.unknownTaskType first) ↔
      bytes.head? = some first ∧ first ≠ 0x00) ∧
    (∀ (bytes : List UInt8) (f : Failure), decode bytes = .error f →
      (∃ first, f = .unknownTaskType first) ∨ f = .malformedArgs taskFunction 33 bytes.length) ∧
    (∀ t : SwapTask, t.encode = [0x00] ++ toBytes 8 t.answer.toNat ++
      toBytes 8 t.swap.register.toNat ++ toBytes 4 t.swap.expected.toNat ++
      toBytes 4 t.swap.new.toNat ++ toBytes 8 t.swap.matrix.toNat) ∧
    (∀ t : SwapTask, (t.encode.drop 9).take 24 = t.swap.encode) := by
  refine ⟨fun _ _ => SwapArgs.decode_eq_ok_iff, fun _ => SwapArgs.exists_encode_iff,
    fun _ _ => SwapArgs.decode_eq_error_iff, fun _ _ => decode_eq_ok_iff,
    fun _ => exists_encode_iff, fun _ _ => decode_eq_unknown_iff, ?_, ?_, ?_⟩
  · intro bytes f h
    cases bytes with
    | nil =>
      cases h
      exact .inr rfl
    | cons first rest =>
      rw [decode_cons] at h
      split at h
      · cases h
        exact .inl ⟨first, rfl⟩
      · split at h
        · cases h
          exact .inr rfl
        · cases h
  · intro t
    simp only [encode, SwapArgs.encode, tag, List.append_assoc, List.cons_append, List.nil_append]
  · intro t
    rw [drop_encode, List.take_of_length_le (Nat.le_of_eq (SwapArgs.length_encode _))]

end SwapTask

end DurableCalls
