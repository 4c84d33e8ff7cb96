/-
`Task.lean` -- the work that a worker is given, and the bytes it travels as.

A swap task runs in a frame of its own, so its numbers are stored in that frame's
arguments, and those of the nested swap call in another's:

    swap call    [8 register][4 expected][4 new][8 matrix]
    swap task    [tag 0][8 answer][8 register][4 expected][4 new][8 matrix]

Both forms are canonical: each task has one, and each sequence of the right length
(and tag) is the form of one task.
-/
import DurableCalls.Word

set_option autoImplicit false

namespace DurableCalls

def swapFunction : String := "cas"

def taskFunction : String := "exec_task"

/-! ## 1. Swap calls -/

structure SwapArgs where
  register : UInt64
  expected : UInt32
  new : UInt32
  matrix : UInt64
deriving DecidableEq, Repr

namespace SwapArgs

def length : Nat := 24

def encode (a : SwapArgs) : List UInt8 :=
  toBytes 8 a.register.toNat ++ toBytes 4 a.expected.toNat ++ toBytes 4 a.new.toNat ++
    toBytes 8 a.matrix.toNat

/-- The number in `width` bytes from `pos` on. -/
def numberAt (bytes : List UInt8) (pos width : Nat) : Nat := ofBytes ((bytes.drop pos).take width)

/-- The arguments that a sequence of the right length holds. -/
def ofFields (bytes : List UInt8) : SwapArgs where
  register := UInt64.ofNat (numberAt bytes 0 8)
  expected := UInt32.ofNat (numberAt bytes 8 4)
  new := UInt32.ofNat (numberAt bytes 12 4)
  matrix := UInt64.ofNat (numberAt bytes 16 8)

def decode (bytes : List UInt8) : Except Failure SwapArgs :=
  if bytes.length = length then .ok (ofFields bytes)
  else .error (.malformedArgs swapFunction length bytes.length)

end SwapArgs

/-! ## 2. Tasks -/

/-- A swap whose result goes to a byte of the heap. -/
structure SwapTask where
  swap : SwapArgs
  answer : UInt64
deriving DecidableEq, Repr

namespace SwapTask

/-- The first byte of a written swap task. -/
def tag : UInt8 := 0x00

def length : Nat := 33

def encode (t : SwapTask) : List UInt8 :=
  tag :: (toBytes 8 t.answer.toNat ++ t.swap.encode)

def decode : List UInt8 → Except Failure SwapTask
  | [] => .error (.malformedArgs taskFunction length 0)
  | first :: rest =>
    if first ≠ tag then .error (.unknownTaskType first)
    else if rest.length + 1 ≠ length then
      .error (.malformedArgs taskFunction length (rest.length + 1))
    else .ok {
      swap := .ofFields (rest.drop 8)
      answer := UInt64.ofNat (SwapArgs.numberAt rest 0 8) }

end SwapTask

/-- A unit of work. -/
inductive Task
  | swap (task : SwapTask)
  /-- Read the register at an offset, without a frame. -/
  | read (register : UInt64)
deriving DecidableEq, Repr

end DurableCalls
