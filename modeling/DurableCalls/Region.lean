/-
`Region.lean` -- a durable region: the bytes of a mapped file, behind bounds checks.

A region is an array of bytes, and every accessor first checks that its range lies
inside. Numbers are stored little-endian. The atomic accessors also ask for an
offset that is a multiple of their width. A refused access changes nothing, and a
write changes the bytes of its own range only (`getElem?_overwrite`).

A region is shorter than half the range of a word, because no file and no memory is
longer. So an offset inside a region, and a frame's length behind it, are words.

Writes are durable once flushed. A flush has no visible effect here beyond its own
bounds check, so `persist`, the write with its flush, is the step of the protocols:
what a crash leaves is what a prefix of the `persist`s wrote.
-/
import DurableCalls.Layout
import DurableCalls.Path

set_option autoImplicit false

namespace DurableCalls

/-- The bytes of a file, mapped from its start. -/
structure Region where
  path : Path
  cells : Array UInt8
  size_lt : cells.size < sizeLimit
deriving DecidableEq, Repr

/-- The cells with `data` written over them from `offset` on. -/
def overwrite (cells : Array UInt8) (offset : Nat) : List UInt8 → Array UInt8
  | [] => cells
  | b :: rest => overwrite (cells.setIfInBounds offset b) (offset + 1) rest

@[simp] theorem size_overwrite (cells : Array UInt8) (offset : Nat) (data : List UInt8) :
    (overwrite cells offset data).size = cells.size := by
  induction data generalizing cells offset with
  | nil => rfl
  | cons b rest ih => simp [overwrite, ih]

/-- Overwriting changes the cells of its range to the data, and no other. -/
theorem getElem?_overwrite (cells : Array UInt8) (offset : Nat) (data : List UInt8)
    (h : offset + data.length ≤ cells.size) (i : Nat) :
    (overwrite cells offset data)[i]? =
      if offset ≤ i ∧ i < offset + data.length then data[i - offset]? else cells[i]? := by
  induction data generalizing cells offset with
  | nil =>
    have : ¬(offset ≤ i ∧ i < offset) := by omega
    simp [overwrite, this]
  | cons b rest ih =>
    simp only [List.length_cons] at h ⊢
    rw [overwrite, ih _ _ (by simp; omega)]
    by_cases hi : i = offset
    · subst hi
      have out : ¬(i + 1 ≤ i ∧ i < i + 1 + rest.length) := by omega
      have head : i ≤ i ∧ i < i + (rest.length + 1) := by omega
      rw [if_neg out, if_pos head, Nat.sub_self, List.getElem?_cons_zero,
        Array.getElem?_setIfInBounds_self_of_lt (by omega)]
    · by_cases tail : offset + 1 ≤ i ∧ i < offset + 1 + rest.length
      · have whole : offset ≤ i ∧ i < offset + (rest.length + 1) := by omega
        have step : i - offset = (i - (offset + 1)) + 1 := by omega
        rw [if_pos tail, if_pos whole, step, List.getElem?_cons_succ]
      · have whole : ¬(offset ≤ i ∧ i < offset + (rest.length + 1)) := by omega
        rw [if_neg tail, if_neg whole, Array.getElem?_setIfInBounds_ne (Ne.symm hi)]

namespace Region

def size (r : Region) : Nat := r.cells.size

def check (r : Region) (offset len : Nat) : Except Failure Unit :=
  if offset + len ≤ r.size then .ok () else .error (.outOfBounds offset len r.size)

/-! ## 1. Bytes -/

def read (r : Region) (offset len : Nat) : Except Failure (List UInt8) := do
  r.check offset len
  return (List.range' offset len).map (r.cells.getD · 0)

/-- The bytes of a range, in a buffer of their own. The buffer comes first, and one that
no memory holds is an abort whatever the region holds. -/
def copyOut (r : Region) (offset len : Nat) : Except Halt (List UInt8) := do
  if sizeLimit ≤ len then throw (.aborted .capacityOverflow)
  r.read offset len

/-- The region with bytes put from an offset on, as far as it reaches. -/
def put (r : Region) (offset : Nat) (data : List UInt8) : Region where
  path := r.path
  cells := overwrite r.cells offset data
  size_lt := by rw [size_overwrite]; exact r.size_lt

@[simp] theorem size_put (r : Region) (offset : Nat) (data : List UInt8) :
    (r.put offset data).size = r.size := size_overwrite r.cells offset data

def write (offset : Nat) (data : List UInt8) : Run Region Unit := do
  (← get).check offset data.length
  modify (·.put offset data)

/-- A write puts its bytes if its range is inside the region, and else fails and changes
nothing. -/
theorem write_apply (offset : Nat) (data : List UInt8) (r : Region) :
    write offset data r =
      if offset + data.length ≤ r.size then (.ok (), r.put offset data)
      else (.error (.failed (.outOfBounds offset data.length r.size)), r) := by
  simp only [write, Run.bind_apply, Run.get_apply, Run.lift_apply, check]
  by_cases h : offset + data.length ≤ r.size
  · simp only [if_pos h]
    rfl
  · simp only [if_neg h]
    rfl

def flush (r : Region) (offset len : Nat) : Except Failure Unit := r.check offset len

/-- A write that is durable when it returns. -/
def persist (offset : Nat) (data : List UInt8) : Run Region Unit := do
  write offset data
  (← get).flush offset data.length

/-- The flush of a write asks nothing that the write has not asked before. -/
theorem persist_eq_write (offset : Nat) (data : List UInt8) :
    persist offset data = write offset data := by
  funext r
  simp only [persist, Run.bind_apply, Run.get_apply, Run.lift_apply, write_apply]
  by_cases h : offset + data.length ≤ r.size
  · simp only [if_pos h, flush, check, size_put]
    rfl
  · simp only [if_neg h]

/-! ## 2. Numbers -/

def readNumber (r : Region) (width offset : Nat) : Except Failure Nat := do
  return ofBytes (← r.read offset width)

/-- Stores a number, truncated to `width` bytes. -/
def writeNumber (width offset value : Nat) : Run Region Unit :=
  write offset (toBytes width value)

def readByte (r : Region) (offset : Nat) : Except Failure UInt8 := do
  return UInt8.ofNat (← r.readNumber 1 offset)

/-! ## 3. Atomic words -/

/-- Refuses an atomic access outside the region, and then one off its alignment. -/
def checkAtomic (r : Region) (width offset : Nat) : Except Failure Unit := do
  r.check offset width
  if offset % width = 0 then return () else throw (.misalignedRegister offset width)

def load (r : Region) (width offset : Nat) : Except Failure Nat := do
  r.checkAtomic width offset
  r.readNumber width offset

/-- Stores a word atomically. -/
def store (width offset value : Nat) : Run Region Unit := do
  (← get).checkAtomic width offset
  writeNumber width offset value

/-- Stores a word atomically, durable when it returns. -/
def commit (width offset value : Nat) : Run Region Unit := do
  store width offset value
  (← get).flush offset width

/-! ## 4. Contents -/

/-- The maximal runs of bytes other than zero, each with its offset. The fold goes
from the last byte to the first, so a byte either extends the run behind it or
starts one. -/
def runs (r : Region) : List (Nat × List UInt8) :=
  (r.cells.foldr step ((([] : List (Nat × List UInt8))), r.size)).1
where
  step (b : UInt8) (acc : List (Nat × List UInt8) × Nat) : List (Nat × List UInt8) × Nat :=
    let offset := acc.2 - 1
    if b = 0 then (acc.1, offset)
    else match acc.1 with
      | (start, bytes) :: rest =>
        if start = acc.2 then ((offset, b :: bytes) :: rest, offset)
        else ((offset, [b]) :: acc.1, offset)
      | [] => ([(offset, [b])], offset)

end Region

end DurableCalls
