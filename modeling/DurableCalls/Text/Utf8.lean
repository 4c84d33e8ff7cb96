/-
`Utf8.lean` -- reading bytes as text when they may not be text.

A byte sequence that is UTF-8 is read as the string that it encodes. In any other,
each maximal part that starts like a character and goes wrong is read as one
replacement character, and reading goes on behind it. So a damaged name has a text
of its own, and a sound name is read exactly (`ofUtf8Lossy_utf8`).
-/

set_option autoImplicit false

namespace DurableCalls.Text

def utf8 (s : String) : List UInt8 := s.toByteArray.data.toList

@[simp] theorem length_utf8 (s : String) : (utf8 s).length = s.utf8ByteSize := rfl

/-! ## 1. Sequences that may go wrong -/

/-- The ranges that the bytes behind a leading byte must lie in: one per byte, and
none for a byte that leads no longer sequence. The second byte's range excludes
overlong forms, surrogates and numbers above the last code point. -/
def continuations (lead : UInt8) : Option (List (UInt8 × UInt8)) :=
  if lead < 0x80 then some []
  else if lead < 0xC2 then none
  else if lead < 0xE0 then some [(0x80, 0xBF)]
  else if lead = 0xE0 then some [(0xA0, 0xBF), (0x80, 0xBF)]
  else if lead = 0xED then some [(0x80, 0x9F), (0x80, 0xBF)]
  else if lead < 0xF0 then some [(0x80, 0xBF), (0x80, 0xBF)]
  else if lead = 0xF0 then some [(0x90, 0xBF), (0x80, 0xBF), (0x80, 0xBF)]
  else if lead < 0xF4 then some [(0x80, 0xBF), (0x80, 0xBF), (0x80, 0xBF)]
  else if lead = 0xF4 then some [(0x80, 0x8F), (0x80, 0xBF), (0x80, 0xBF)]
  else none

/-- How many of the bytes lie in their ranges before the first that does not. -/
def matching : List (UInt8 × UInt8) → List UInt8 → Nat
  | (lo, hi) :: ranges, b :: rest => if lo ≤ b ∧ b ≤ hi then matching ranges rest + 1 else 0
  | _, _ => 0

/-- The payload bits of a leading byte with so many bytes behind it. -/
def leadBits (lead : UInt8) : (behind : Nat) → Nat
  | 0 => lead.toNat
  | 1 => lead.toNat % 32
  | 2 => lead.toNat % 16
  | _ => lead.toNat % 8

/-- The character that a complete sequence encodes. -/
def sequenceChar (lead : UInt8) (behind : List UInt8) : Char :=
  Char.ofNat (behind.foldl (fun n b => n * 64 + b.toNat % 64) (leadBits lead behind.length))

/-- Stands for a part that is no character. -/
def replacement : Char := Char.ofNat 0xFFFD

/-- The characters of a byte sequence, with the replacement character for each
maximal part that goes wrong. -/
def replacing : List UInt8 → List Char
  | [] => []
  | lead :: rest =>
    match continuations lead with
    | none => replacement :: replacing rest
    | some ranges =>
      -- a part that goes wrong ends before the byte that does not fit, which starts anew
      let n := matching ranges rest
      let char := if n = ranges.length then sequenceChar lead (rest.take n) else replacement
      char :: replacing (rest.drop n)
termination_by bytes => bytes.length
decreasing_by
  all_goals simp only [List.length_cons, List.length_drop]; omega

/-! ## 2. Reading -/

/-- The text of bytes that should be UTF-8 and may not be. -/
def ofUtf8Lossy (bytes : List UInt8) : String :=
  match String.fromUTF8? ⟨bytes.toArray⟩ with
  | some s => s
  | none => String.ofList (replacing bytes)

/-- What was written as text is read as that text. -/
@[simp] theorem ofUtf8Lossy_utf8 (s : String) : ofUtf8Lossy (utf8 s) = s := by
  simp [ofUtf8Lossy, utf8, String.fromUTF8?, s.isValidUTF8]
  rfl

end DurableCalls.Text
