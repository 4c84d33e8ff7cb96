/-
`Frame.lean` -- one stored call: a function name and its argument bytes.

A frame is written as

    [8 bytes answer][2 bytes length][name][2 bytes length][args][1 byte marker]

with little-endian lengths. So the answer slot is the start of the frame. Reading
takes the first frame of a byte sequence and ignores what follows it; a sequence
that ends early is refused with the length that it would have needed.
-/
import DurableCalls.Layout
import DurableCalls.Text.Utf8

set_option autoImplicit false

namespace DurableCalls

/-! ## 1. Answer slots -/

abbrev Slot := Vector UInt8 8

namespace Slot

/-- The slot that starts with `seed` and is unanswered behind it. -/
def seeded (seed : List UInt8) : Slot := Vector.ofFn fun i => seed[i.val]?.getD unanswered

/-- The slot of a call that has not been answered. -/
def cleared : Slot := seeded []

end Slot

/-- Refuses an answer that is empty or longer than a slot. -/
def checkAnswer (len : Nat) : Except Failure Unit :=
  if len = 0 ∨ slotSize < len then .error (.answerSize len) else .ok ()

/-! ## 2. Frames -/

/-- A call of a function by name. -/
structure Frame where
  name : String
  args : List UInt8
deriving DecidableEq, Repr

namespace Frame

/-- Bytes of a frame beside its name and arguments: slot, two lengths, marker. -/
def overhead : Nat := slotSize + 2 + 2 + 1

/-- Where the length of the name is stored in a frame. -/
def nameLengthAt : Nat := slotSize

def fieldLimit : Nat := 65535

/-- A frame whose fields fit their 16-bit lengths. -/
def make (name : String) (args : List UInt8) : Except Failure Frame :=
  if fieldLimit < name.utf8ByteSize then
    .error (.frameTooLarge "function name" name.utf8ByteSize)
  else if fieldLimit < args.length then .error (.frameTooLarge "args" args.length)
  else .ok { name, args }

def size (f : Frame) : Nat := overhead + f.name.utf8ByteSize + f.args.length

def encode (f : Frame) (answer : Slot) (marker : UInt8) : List UInt8 :=
  answer.toList ++ toBytes 2 f.name.utf8ByteSize ++ Text.utf8 f.name ++
    toBytes 2 f.args.length ++ f.args ++ [marker]

/-- The part of a stored frame that starts at `pos` and has `len` bytes. -/
def field (bytes : List UInt8) (pos len : Nat) : Except Failure (List UInt8) :=
  if pos + len ≤ bytes.length then .ok ((bytes.drop pos).take len)
  else .error (.malformedArgs "stack frame" (pos + len) bytes.length)

/-- The frame at the start of a byte sequence, and its marker, which may be any
byte. A name that is not text is read as `Text.ofUtf8Lossy` reads it. -/
def decode (bytes : List UInt8) : Except Failure (Frame × UInt8) := do
  let nameLength := ofBytes (← field bytes nameLengthAt 2)
  let name ← field bytes (nameLengthAt + 2) nameLength
  let argsAt := nameLengthAt + 2 + nameLength
  let argsLength := ofBytes (← field bytes argsAt 2)
  let args ← field bytes (argsAt + 2) argsLength
  let marker ← field bytes (argsAt + 2 + argsLength) 1
  return ({ name := Text.ofUtf8Lossy name, args }, marker.headD 0)

theorem overhead_le_size (f : Frame) : overhead ≤ f.size := by
  unfold size
  omega

@[simp] theorem length_encode (f : Frame) (answer : Slot) (marker : UInt8) :
    (f.encode answer marker).length = f.size := by
  have hslot : answer.toList.length = 8 := answer.length_toList
  simp only [encode, size, overhead, slotSize, List.length_append, length_toBytes,
    Text.length_utf8, List.length_singleton, hslot]
  omega

end Frame

/-! ## 3. Frames in place -/

structure Placed where
  frame : Frame
  position : Nat
deriving DecidableEq, Repr

namespace Placed

/-- One past the last byte. -/
def stop (p : Placed) : Except Halt Nat := addWord p.position p.frame.size

def slotAt (p : Placed) : Nat := p.position

def markerAt (p : Placed) : Except Halt Nat := do return (← p.stop) - 1

def next (p : Placed) : Except Halt Nat := do alignUp (← p.stop)

theorem position_lt_of_next {p : Placed} {n : Nat} (h : p.next = .ok n) : p.position < n := by
  unfold next at h
  cases hs : p.stop with
  | error e => simp [hs, bind, Except.bind] at h
  | ok s =>
    rw [hs] at h
    have := (addWord_eq_ok.1 hs).2
    have := le_of_alignUp (show alignUp s = .ok n from h)
    have := p.frame.overhead_le_size
    simp only [Frame.overhead] at this
    omega

end Placed

end DurableCalls
