/-
`Environment.lean` -- a configuration out of environment variables.

A variable that is not set, or that is not a numeral, or that is zero where zero
makes no sense, leaves its setting at the default.
-/
import DurableCalls.Config
import DurableCalls.Text.Blank
import DurableCalls.Text.Numeral

set_option autoImplicit false

namespace DurableCalls.Config

/-- The variables that are looked at. -/
def variableNames : List String :=
  ["NVSTACK_NUM_THREADS", "NVSTACK_QUEUE_CAPACITY", "NVSTACK_HEAP_SIZE", "NVSTACK_BLOCK_SIZE",
    "NVSTACK_MAX_BLOCKS", "NVSTACK_REGISTER_OFFSET", "NVSTACK_MATRIX_OFFSET",
    "NVSTACK_STACK_SIZE", "NVSTACK_LOG_LEVEL"]

/-- The word in a variable, with white space around it or not. -/
def number? (env : String → Option String) (name : String) : Option Nat := do
  Text.word? (Text.trimBlank (← env name).toList)

/-- The positive word in a variable. -/
def positive? (env : String → Option String) (name : String) : Option Nat :=
  (number? env name).filter (0 < ·)

/-- The configuration that the environment asks for. -/
def ofEnvironment (env : String → Option String) : Config :=
  let c : Config := {}
  { threads := (positive? env "NVSTACK_NUM_THREADS").getD c.threads
    queueCapacity := (positive? env "NVSTACK_QUEUE_CAPACITY").getD c.queueCapacity
    heapSize := (number? env "NVSTACK_HEAP_SIZE").getD c.heapSize
    blockSize := (positive? env "NVSTACK_BLOCK_SIZE").getD c.blockSize
    maxBlocks := (number? env "NVSTACK_MAX_BLOCKS").getD c.maxBlocks
    registerAt := (number? env "NVSTACK_REGISTER_OFFSET").getD c.registerAt
    matrixAt := (number? env "NVSTACK_MATRIX_OFFSET").getD c.matrixAt
    stackSize := (number? env "NVSTACK_STACK_SIZE").getD c.stackSize
    logLevel := ((env "NVSTACK_LOG_LEVEL").bind LogLevel.ofText?).getD c.logLevel }

end DurableCalls.Config
