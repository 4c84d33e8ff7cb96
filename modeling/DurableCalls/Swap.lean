/-
`Swap.lean` -- a compare-and-swap that can tell, after a crash, whether it happened.

A swap replaces the expected value of a register by a new one. It is three atomic
steps on the heap: `observe` loads the register and compares, `announce` leaves the
overwritten value in its owner's row of the matrix, `exchange` replaces the register
if it is still what was observed. Run alone they are `attempt`; other threads may
come between them.

After a crash the same swap is recovered: it happened if the register still shows
it, or if somebody announced its value while overwriting it. Otherwise it is
attempted again. The value 0 cannot be told from a cell that nobody wrote, so a
recovered swap to 0 counts as done.
-/
import DurableCalls.Register

set_option autoImplicit false

namespace DurableCalls

structure Swap where
  register : Nat
  matrix : Matrix
  expected : UInt32
  new : UInt32
  thread : UInt32
deriving DecidableEq, Repr

namespace Swap

variable (s : Swap)

/-- What the register holds once the swap has happened. -/
def installed : Register := ⟨s.thread, s.new⟩

/-! ## 1. The steps -/

/-- Loads the register. Its contents count if they have the expected value. -/
def observe (heap : Region) : Except Failure (Option Register) := do
  let current ← Register.load heap s.register
  return if current.value = s.expected then some current else none

/-- Leaves the value that is about to be overwritten with the thread that wrote it. -/
def announce (current : Register) : Run Region Unit := do
  if current.owner ≠ Register.noOwner then
    s.matrix.commit current.owner s.thread current.value

def exchange (current : Register) : Run Region Bool := do
  if (← Register.load (← get) s.register) = current then
    Register.commit s.register s.installed
    return true
  else return false

/-! ## 2. The operations -/

/-- Swaps, and tells whether the swap happened. -/
def attempt : Run Region Bool := do
  checkThread s.thread s.matrix.threads
  match ← s.observe (← get) with
  | none => return false
  | some current =>
    -- the note is durable before the value that it is about can be gone
    s.announce current
    s.exchange current

/-- Whether a cell of the thread's row, from a column on, shows the new value. -/
def announcedFrom (heap : Region) : (col left : Nat) → Except Halt Bool
  | _, 0 => return false
  | col, left + 1 => do
    if (← s.matrix.load heap s.thread (UInt32.ofNat col)) = s.new then return true
    announcedFrom heap (col + 1) left

/-- Whether another thread announced the new value while overwriting it. -/
def announced (heap : Region) : Except Halt Bool :=
  s.announcedFrom heap 0 s.matrix.threads.toNat

/-- Finishes a swap that a crash may have cut off, and tells whether it happened. -/
def recover : Run Region Bool := do
  checkThread s.thread s.matrix.threads
  let heap ← get
  if (← Register.load heap s.register) = s.installed then return true
  if ← s.announced heap then return true
  -- no trace of the swap: it never happened, so it is safe to try again
  s.attempt

end Swap

end DurableCalls
