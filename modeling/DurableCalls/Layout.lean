/-
`Layout.lean` -- the constants of the stored formats, and the cache-line grid.

A frame starts on a cache line, and its first eight bytes are the slot that takes
the answer of whatever it calls. The markers end a frame: one value for the last
frame of a stack, another for every frame that has a successor.
-/
import DurableCalls.Word

set_option autoImplicit false

namespace DurableCalls

def lineSize : Nat := 64

def slotSize : Nat := 8

/-- Ends the last frame of a stack. -/
def stackEnd : UInt8 := 0x53

/-- Ends every frame that has a successor. -/
def frameEnd : UInt8 := 0x46

/-- Fills the slot bytes that hold no answer. It is neither 0 nor 1, so a one-byte
yes or no is told apart from silence. -/
def unanswered : UInt8 := 0xFF

/-- Bytes of a stack file, unless configured otherwise. -/
def defaultStackSize : Nat := 2 * 1024

/-- Bytes of a heap file, unless configured otherwise. -/
def defaultHeapSize : Nat := 2 * 1024 * 1024

def rootFunction : String := "main_function"

def version : String := "0.1.0"

/-- The first cache-line boundary at or after an offset. The sum that rounds up is
a 64-bit sum. -/
def alignUp (offset : Nat) : Except Halt Nat := do
  let bumped ← addWord offset lineSize
  return (bumped - 1) / lineSize * lineSize

/-- Where rounding up succeeds, the result is the least multiple of the line size
that is not below the offset. -/
theorem alignUp_eq_ok {offset a : Nat} :
    alignUp offset = .ok a ↔ offset + lineSize < wordLimit ∧ a = (offset + 63) / 64 * 64 := by
  unfold alignUp addWord
  split
  next h =>
    have : offset + lineSize - 1 = offset + 63 := by simp only [lineSize]; omega
    simp only [bind, Except.bind, pure, Except.pure, Except.ok.injEq, this, h, true_and]
    simp only [lineSize, eq_comm]
  next h => simp [bind, Except.bind, h]

theorem le_of_alignUp {offset a : Nat} (h : alignUp offset = .ok a) : offset ≤ a := by
  have := (alignUp_eq_ok.1 h).2
  omega

end DurableCalls
