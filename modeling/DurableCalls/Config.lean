/-
`Config.lean` -- sizes and places: how many workers, how large the files, where the
register and the matrix lie in the heap.

A configuration that `check` finds no fault with separates the three users of the
heap: the allocator's blocks at its start, the register on a cache line behind them,
and the matrix beside it.
-/
import DurableCalls.LogLevel
import DurableCalls.Register

set_option autoImplicit false

namespace DurableCalls

/-- Sizes, places and worker settings. -/
structure Config where
  threads : Nat := 1
  /-- Tasks that wait for a worker before a submission waits too. -/
  queueCapacity : Nat := 64
  heapSize : Nat := defaultHeapSize
  blockSize : Nat := 1
  /-- The highest allocator block. -/
  maxBlocks : Nat := 1000
  registerAt : Nat := 2048
  matrixAt : Nat := 3008
  stackSize : Nat := defaultStackSize
  logLevel : LogLevel := .info
deriving DecidableEq, Repr

inductive ConfigFault
  | noThreads
  | tooManyThreads
  | noQueue
  | smallStack
  | emptyBlocks
  | registerUnaligned
  | matrixUnaligned
  | blocksExceedHeap
  | registerMisplaced
  | matrixMisplaced
  | matrixOverlapsRegister
deriving DecidableEq, Repr

namespace ConfigFault

def field : ConfigFault → String
  | noThreads | tooManyThreads => "workers.num_threads"
  | noQueue => "workers.queue_capacity"
  | smallStack => "stack.size"
  | emptyBlocks => "heap.block_size"
  | registerUnaligned | registerMisplaced => "heap.register_offset"
  | matrixUnaligned | matrixMisplaced | matrixOverlapsRegister => "heap.matrix_offset"
  | blocksExceedHeap => "heap.max_blocks"

/-- What is asked of the setting. -/
def rule : ConfigFault → String
  | noThreads | noQueue | emptyBlocks => "must be at least 1"
  | tooManyThreads => "must fit a 32-bit thread id"
  | smallStack => "must hold at least two cache lines"
  | registerUnaligned => "must be cache-line aligned"
  | matrixUnaligned => "must be 4-byte aligned"
  | blocksExceedHeap => "allocator blocks exceed the heap size"
  | registerMisplaced | matrixMisplaced => "must lie inside the heap, past the allocator blocks"
  | matrixOverlapsRegister => "overlaps the register"

def message (f : ConfigFault) : String :=
  "invalid configuration for '" ++ f.field ++ "': " ++ f.rule

end ConfigFault

namespace Config

/-- The largest thread count. The largest 32-bit number is no thread's id. -/
def maxThreads : Nat := halfWordLimit - 2

/-- Bytes that the allocator's blocks take, block 0 included. -/
def span (c : Config) : Nat := saturate (saturate (c.maxBlocks + 1) * saturate (c.blockSize + 1))

/-- The first thing wrong with a configuration, if there is one. Sums stay in the
word range by saturation; the size of the matrix does not, and may abort. -/
def check (c : Config) : Except Halt (Option ConfigFault) := do
  if c.threads = 0 then return some .noThreads
  if maxThreads < c.threads then return some .tooManyThreads
  if c.queueCapacity = 0 then return some .noQueue
  if c.stackSize < 2 * lineSize then return some .smallStack
  if c.blockSize = 0 then return some .emptyBlocks
  if c.registerAt % lineSize ≠ 0 then return some .registerUnaligned
  if c.matrixAt % 4 ≠ 0 then return some .matrixUnaligned
  -- the size of the matrix is computed here, so its abort comes before the faults below
  let registerEnd := saturate (c.registerAt + 8)
  let matrixEnd := saturate (c.matrixAt + (← Matrix.size (UInt32.ofNat c.threads)))
  if c.heapSize < c.span then return some .blocksExceedHeap
  if c.registerAt < c.span ∨ c.heapSize < registerEnd then return some .registerMisplaced
  if c.matrixAt < c.span ∨ c.heapSize < matrixEnd then return some .matrixMisplaced
  if c.matrixAt < registerEnd ∧ c.registerAt < matrixEnd then
    return some .matrixOverlapsRegister
  return none

end Config

end DurableCalls
