/-
`Allocator.lean` -- blocks of one size in a heap, recoverable from a byte per block.

Block `n` takes `blockSize + 1` bytes: its payload, and a trailer that says whether
it is allocated, freed, or the border of the heap. Block 0 is reserved. Below the
border every trailer is `allocated` or `freed`, and the freed blocks are the free
set; so the trailers alone say what the allocator knows (`recover`).

Each operation is a short list of trailer writes in a fixed order. A new border is
durable before the old one is lowered, so some trailer is a border at every moment.
The operations take the way in which a trailer is written (`Marker`), so that what they
leave when a crash stops them at one of their trailers is told of the operations
themselves.
-/
import DurableCalls.Region

set_option autoImplicit false

namespace DurableCalls

/-! ## 1. Trailers -/

namespace Trailer

/-- A live block, and the reserved block once the heap has grown. -/
def allocated : UInt8 := 0x00

/-- The block at the border. -/
def border : UInt8 := 0x01

/-- A released block below the border. -/
def freed : UInt8 := 0x02

end Trailer

/-! ## 2. Sets of block numbers, in order -/

/-- An ascending list with a number added in its place. -/
def insertAscending (n : Nat) : List Nat → List Nat
  | [] => [n]
  | m :: rest =>
    if n < m then n :: m :: rest
    else if n = m then m :: rest
    else m :: insertAscending n rest

/-- Adding a number adds that one member. -/
theorem mem_insertAscending {n k : Nat} {ns : List Nat} :
    k ∈ insertAscending n ns ↔ k = n ∨ k ∈ ns := by
  induction ns with
  | nil => simp [insertAscending]
  | cons m rest ih =>
    unfold insertAscending
    split
    · simp
    · split
      next h => simp [h]
      next => simp only [List.mem_cons, ih, or_left_comm]

/-! ## 3. The allocator -/

/-- What an allocator knows about its heap. -/
structure Allocator where
  blockSize : Nat
  /-- The largest number that the border may have. -/
  maxBorder : Nat
  /-- The block whose trailer is the border. -/
  border : Nat := 0
  /-- The freed blocks below the border, in ascending order. -/
  free : List Nat := []
deriving DecidableEq, Repr

structure BlockHeap where
  allocator : Allocator
  heap : Region
deriving DecidableEq, Repr

namespace Allocator

def stride (a : Allocator) : Except Halt Nat := addWord a.blockSize 1

def blockAt (a : Allocator) (n : Nat) : Except Halt Nat := do mulWord n (← a.stride)

def trailerAt (a : Allocator) (n : Nat) : Except Halt Nat := do
  addWord (← a.blockAt n) a.blockSize

def trailer (a : Allocator) (heap : Region) (n : Nat) : Except Halt UInt8 := do
  heap.readByte (← a.trailerAt n)

def mark (a : Allocator) (n : Nat) (value : UInt8) : Run Region Unit := do
  Region.persist (← a.trailerAt n) [value]

/-! ### Construction -/

/-- Whether blocks 0 to `maxBorder` fit a heap. Their number and their bytes have to
be words. -/
def fits (blockSize maxBorder heapSize : Nat) : Except Halt Bool :=
  if maxBorder + 1 < wordLimit then do
    let stride ← addWord blockSize 1
    let span := (maxBorder + 1) * stride
    return span < wordLimit && span ≤ heapSize
  else return false

/-- The border and the free set that the trailers from block `n` on tell, with
`behind` blocks behind `n`, and with the freed blocks below `n` newest first. -/
def recoverFrom (a : Allocator) (heap : Region) (freed : List Nat) (n behind : Nat) :
    Except Halt Allocator := do
  let offset ← a.trailerAt n
  let value ← heap.readByte offset
  if value = Trailer.border then
    return { a with border := n, free := freed.reverse }
  if value ≠ Trailer.allocated ∧ value ≠ Trailer.freed then
    throw (.failed (.corruptedMarker offset value))
  match behind with
  | 0 => throw (.failed (.corruptedMarker offset value))
  | behind + 1 =>
    a.recoverFrom heap (if value = Trailer.freed then n :: freed else freed) (n + 1) behind

/-- The allocator that the trailers of a heap tell. Without a border among them there
is none. -/
def recover (a : Allocator) (heap : Region) : Except Halt Allocator :=
  a.recoverFrom heap [] 0 a.maxBorder

/-- An allocator over a heap. A fresh one formats the heap, so that block 0 is the
border; any other recovers what the heap tells. -/
def attach (blockSize maxBorder : Nat) (fresh : Bool) : Run Region Allocator := do
  if blockSize = 0 then Run.fail (.setup .emptyBlocks)
  let heap ← get
  if !(← fits blockSize maxBorder heap.size) then
    Run.fail (.setup (.blocksExceedHeap (saturate (maxBorder + 1)) blockSize heap.size))
  let a : Allocator := { blockSize, maxBorder }
  if fresh then
    a.mark 0 Trailer.border
    return a
  else a.recover heap

/-- Goes down from block `n` over freed blocks, and gives the block where that ends.
Block 0 and an allocated block are a good end. -/
def descend (a : Allocator) (heap : Region) : (n : Nat) → Except Halt Unit × Nat
  | 0 => (.ok (), 0)
  | n + 1 =>
    match a.trailer heap (n + 1) with
    | .error halt => (.error halt, n + 1)
    | .ok value =>
      if value = Trailer.freed then a.descend heap n
      else if value = Trailer.allocated then (.ok (), n + 1)
      else (do throw (.failed (.corruptedMarker (← a.trailerAt (n + 1)) value)), n + 1)

/-- Whether an offset lies in a block that is not free. -/
def isAllocated (a : Allocator) (heap : Region) (offset : Nat) : Except Halt Bool := do
  let n := offset / (← a.stride)
  if a.border < n then return false
  return (← a.trailer heap n) ≠ Trailer.freed

/-- The block at an offset, if it can be freed. -/
def resolve (a : Allocator) (offset : Nat) : Except Halt Nat := do
  let stride ← a.stride
  if offset % stride ≠ 0 then throw (.failed (.invalidBlock offset))
  let n := offset / stride
  if n = 0 ∨ a.border < n ∨ n ∈ a.free then throw (.failed (.invalidBlock offset))
  return n

end Allocator

/-! ## 4. Allocating and freeing -/

namespace BlockHeap

def onHeap {α : Type} (m : Run Region α) : Run BlockHeap α :=
  m.zoom fun ⟨allocator, heap⟩ => (heap, fun heap => ⟨allocator, heap⟩)

/-- How a block is given a trailer. -/
abbrev Marker := (n : Nat) → (value : UInt8) → Run BlockHeap Unit

/-- Writes the trailer durably. -/
def mark : Marker := fun n value => do
  let a := (← get).allocator
  onHeap (a.mark n value)

def note (f : Allocator → Allocator) : Run BlockHeap Unit :=
  modify fun s => { s with allocator := f s.allocator }

/-- Allocates a block and gives its offset: the first of the free set, or else a new
one behind the border. -/
def allocBy (mark : Marker) : Run BlockHeap Nat := do
  let a := (← get).allocator
  match a.free with
  | n :: rest =>
    note fun a => { a with free := rest }
    -- durable before it is handed out, so that no recovery takes the block for free
    mark n Trailer.allocated
    a.blockAt n
  | [] =>
    if a.border = a.maxBorder then Run.fail .heapExhausted
    let grown ← addWord a.border 1
    -- the new border first: for a moment there are two, and the lower one counts
    mark grown Trailer.border
    mark a.border Trailer.allocated
    note fun a => { a with border := grown }
    a.blockAt grown

def alloc : Run BlockHeap Nat := allocBy mark

/-- The border that is left when the block above `n` goes: the next one down that is
not freed. The freed blocks on the way leave the free set. -/
def lowerTo (n : Nat) : Run BlockHeap Nat := do
  let s ← get
  let (result, border) := s.allocator.descend s.heap n
  note fun a => { a with free := a.free.filter fun k => k ≤ border ∨ n < k }
  result
  return border

/-- Frees the block at an offset. A block below the border joins the free set; the
border block shrinks the heap over the freed blocks below it. -/
def freeBy (mark : Marker) (offset : Nat) : Run BlockHeap Unit := do
  let a := (← get).allocator
  let n ← a.resolve offset
  if n < a.border then
    -- below the border: the trailer alone says that the block is free
    mark n Trailer.freed
    note fun a => { a with free := insertAscending n a.free }
  else
    -- at the border: the old border trailer stays behind the new one, where nothing reads
    let border ← lowerTo (n - 1)
    mark border Trailer.border
    note fun a => { a with border }

def free (offset : Nat) : Run BlockHeap Unit := freeBy mark offset

end BlockHeap

end DurableCalls
