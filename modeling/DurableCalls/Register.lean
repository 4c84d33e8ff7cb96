/-
`Register.lean` -- the register that threads swap, and the matrix of notices.

The register is one 8-byte word on a cache line: the thread that wrote it and the
value. Before thread `j` overwrites a value of thread `i`, it notes the value in
cell `(i, j)` of the matrix. So row `i` keeps, for thread `i`, evidence of its
swaps that others have replaced, and each cell has one writer and one reader.
-/
import DurableCalls.Region

set_option autoImplicit false

namespace DurableCalls

def checkThread (thread threads : UInt32) : Except Failure Unit :=
  if thread < threads then .ok () else .error (.invalidThread thread threads)

/-! ## 1. The register -/

structure Register where
  /-- The thread that wrote the value, or `noOwner`. -/
  owner : UInt32
  value : UInt32
deriving DecidableEq, Repr

namespace Register

/-- The owner of a register that no thread has written. -/
def noOwner : UInt32 := 0xFFFFFFFF

/-- The register word: the owner in the low half and the value in the high half. -/
def pack (r : Register) : Nat := r.value.toNat * halfWordLimit + r.owner.toNat

def unpack (word : Nat) : Register :=
  ⟨UInt32.ofNat word, UInt32.ofNat (word / halfWordLimit)⟩

theorem unpack_pack (r : Register) : unpack r.pack = r := by
  have ho := r.owner.toNat_lt
  have hv := r.value.toNat_lt
  have hdiv : r.pack / halfWordLimit = r.value.toNat := by unfold pack halfWordLimit; omega
  have how : UInt32.ofNat r.pack = r.owner := by
    apply UInt32.toNat_inj.1
    rw [UInt32.toNat_ofNat']
    unfold pack halfWordLimit
    omega
  cases r
  simp only [unpack, hdiv, how, UInt32.ofNat_toNat]

theorem pack_lt (r : Register) : r.pack < byteRange 8 := by
  have ho := r.owner.toNat_lt
  have hv := r.value.toNat_lt
  rw [byteRange_eight]
  unfold pack halfWordLimit wordLimit
  omega

def checkLine (offset : Nat) : Except Failure Unit :=
  if offset % lineSize = 0 then .ok () else .error (.misalignedRegister offset lineSize)

def load (heap : Region) (offset : Nat) : Except Failure Register := do
  checkLine offset
  return unpack (← heap.load 8 offset)

def commit (offset : Nat) (r : Register) : Run Region Unit := do
  checkLine offset
  Region.commit 8 offset r.pack

/-- Gives a register its first value, which no thread owns. -/
def init (offset : Nat) (value : UInt32) : Run Region Unit := commit offset ⟨noOwner, value⟩

end Register

/-! ## 2. The matrix -/

/-- A square of 4-byte cells, one row and one column per thread. -/
structure Matrix where
  offset : Nat
  threads : UInt32
deriving DecidableEq, Repr

namespace Matrix

/-- Bytes of the matrix of so many threads. -/
def size (threads : UInt32) : Except Halt Nat := do
  mulWord (← mulWord 4 threads.toNat) threads.toNat

def cellAt (m : Matrix) (row col : UInt32) : Except Halt Nat := do
  checkThread row m.threads
  checkThread col m.threads
  let index ← addWord (← mulWord row.toNat m.threads.toNat) col.toNat
  addWord m.offset (← mulWord 4 index)

def load (m : Matrix) (heap : Region) (row col : UInt32) : Except Halt UInt32 := do
  return UInt32.ofNat (← heap.load 4 (← m.cellAt row col))

def store (m : Matrix) (row col value : UInt32) : Run Region Unit := do
  Region.store 4 (← m.cellAt row col) value.toNat

def commit (m : Matrix) (row col value : UInt32) : Run Region Unit := do
  Region.commit 4 (← m.cellAt row col) value.toNat

end Matrix

end DurableCalls
