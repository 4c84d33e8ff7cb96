/-
`Workload.lean` -- a demonstration: swaps on one register, run and then restored.

`exec` runs a fixed list of swaps on the register of a heap, through a pool whose
workers have fresh stacks, and may be told to crash on the way. `restore` replays
the stacks that an earlier run left. Both open their files, work, and close them
whatever happens; what they did to the files up to a failure stays.
-/
import DurableCalls.Allocator
import DurableCalls.Config
import DurableCalls.Disk
import DurableCalls.History
import DurableCalls.Pool

set_option autoImplicit false

namespace DurableCalls

/-! ## 1. Troubles -/

/-- What went wrong at the bottom. -/
inductive Cause
  | failure (failure : Failure)
  | config (fault : ConfigFault)
  | refused (kind : IoKind)
  | words (text : String)
deriving DecidableEq, Repr

/-- What went wrong, and in the course of what, from the outside in. -/
structure Trouble where
  during : List String := []
  cause : Cause
deriving DecidableEq, Repr

namespace Trouble

/-- The wording of a trouble: one text per step from the outside in. A refusal of the
file system is a step of its own below the failure that names the file. -/
def chain (t : Trouble) : List String :=
  t.during ++ match t.cause with
    | .failure (.io path kind) => [(Failure.io path kind).message, kind.systemText]
    | .failure f => [f.message]
    | .config f => [f.message]
    | .refused kind => [kind.systemText]
    | .words text => [text]

end Trouble

/-- Why a workload stopped before its end. -/
inductive Stop
  | trouble (trouble : Trouble)
  | aborted (abort : Abort)
deriving DecidableEq, Repr

namespace Workload

/-! ## 2. Files and results -/

/-- Where the heap and the stacks are kept. -/
structure Files where
  heap : Path
  stackFolder : Path
deriving DecidableEq, Repr

def Files.stack (files : Files) (id : Nat) : Path := files.stackFolder.child s!"stack_{id}"

/-- Where every worker is to stop. -/
structure CrashPlan where
  point : FaultPoint
  function : String
deriving DecidableEq, Repr

def CrashPlan.hook (plan : CrashPlan) : FaultHook :=
  .whenever fun point function => point = plan.point ∧ function = plan.function

def initialValue : UInt32 := 42

/-- The swaps, as the values that they expect and install. -/
def transitions : List (UInt32 × UInt32) := [(42, 24), (42, 53), (24, 117), (53, 48)]

/-- How many reads follow the swaps. -/
def readCount : Nat := 2

structure ExecSummary where
  reports : List WorkerReport
  /-- The outcomes of the swaps that published a result. -/
  outcomes : List Outcome
  register : Register
deriving DecidableEq, Repr

def ExecSummary.crashed (s : ExecSummary) : Bool := s.reports.any (·.crashed)

/-- Checks the outcomes against one chain of values. The tasks come from a shared
queue, so each outcome is a history of its own. -/
def ExecSummary.checkHistory (s : ExecSummary) (init : UInt32) : Except Rejection Unit :=
  History.checkChain (s.outcomes.map fun o => [o]) init

structure RestoreSummary where
  recovered : List Nat
  register : Register
deriving DecidableEq, Repr

/-! ## 3. Runs over open files -/

/-- The files that are open, and the disk that has the others. -/
structure Bench where
  disk : Disk
  blocks : BlockHeap
  stackRegions : List Region := []

abbrev BenchRun := ExceptT Stop (StateM Bench)

/-- A halt is a trouble without more to say, unless it is an abort. -/
def stopOf (during : List String) : Halt → Stop
  | .failed f => .trouble { during, cause := .failure f }
  | .aborted a => .aborted a

def trouble {α : Type} (during : List String) (cause : Cause) : BenchRun α :=
  throw (.trouble { during, cause })

/-- A value that may be a halt. -/
def orStop {α : Type} (during : List String) : Except Halt α → Except Stop α
  | .ok a => .ok a
  | .error halt => .error (stopOf during halt)

def onBlocks {α : Type} (during : List String) (m : Run BlockHeap α) : BenchRun α := fun bench =>
  let (result, blocks) := m bench.blocks
  (orStop during result, { bench with blocks })

/-- A change of the heap. -/
def onHeap (m : Run Region Unit) : BenchRun Unit := onBlocks [] (BlockHeap.onHeap m)

/-- Opens a stack, which is closed with the others. -/
def openStack (during : List String) (acquire : Disk → Except Failure Region × Disk) :
    BenchRun Unit := do
  let bench ← get
  let (result, disk) := acquire bench.disk
  set { bench with disk }
  match result with
  | .error f => trouble during (.failure f)
  | .ok region => set { bench with disk, stackRegions := bench.stackRegions ++ [region] }

/-- Does something for each worker id from `id` on. -/
def forWorkers (action : Nat → BenchRun Unit) : (id count : Nat) → BenchRun Unit
  | _, 0 => return ()
  | id, count + 1 => do
    action id
    forWorkers action (id + 1) count

def Bench.close (bench : Bench) : Disk :=
  bench.stackRegions.foldl Disk.close (bench.disk.close bench.blocks.heap)

/-- Leaves heap and stacks as a pool left them, and gives its result. -/
def takeBack {α : Type} (during : List String) (r : Pool.Result α) : BenchRun α := do
  modify fun bench =>
    { bench with blocks.heap := r.heap, stackRegions := r.stackRegions }
  liftM (orStop during r.result)

/-- Opens the heap and its allocator, runs, and closes every file that is open. -/
def withHeap {α : Type} (config : Config) (files : Files) (fresh : Bool) (during : String)
    (body : BenchRun α) (disk : Disk) : Except Stop α × Disk :=
  match disk.openOrCreate files.heap config.heapSize fresh with
  | (.error f, disk) =>
    (.error (.trouble { during := ["failed to map heap " ++ files.heap.text],
                        cause := .failure f }), disk)
  | (.ok heap, disk) =>
    match Allocator.attach config.blockSize config.maxBlocks fresh heap with
    | (.error halt, heap) => (.error (stopOf [during] halt), disk.close heap)
    | (.ok allocator, heap) =>
      let (result, bench) := body { disk, blocks := { allocator, heap } }
      (result, bench.close)

/-- The host of a configuration without fault. -/
def hostOf (config : Config) (mode : Mode) : Except Stop Host :=
  match config.check with
  | .error halt => .error (stopOf [] halt)
  | .ok (some fault) =>
    .error (.trouble { during := ["invalid runtime configuration"], cause := .config fault })
  | .ok none => orStop [] (Host.withBuiltins mode (UInt32.ofNat config.threads))

/-! ## 4. Running -/

/-- The task of a transition, with a fresh block for its answer. -/
def prepare (config : Config) (t : UInt32 × UInt32) : BenchRun SwapTask := do
  let answer ← onBlocks ["no heap block for a task answer"] BlockHeap.alloc
  onHeap (Region.persist answer [unanswered])
  return {
    swap := {
      register := UInt64.ofNat config.registerAt
      expected := t.1
      new := t.2
      matrix := UInt64.ofNat config.matrixAt }
    answer := UInt64.ofNat answer }

/-- The outcome of a task that published a result; its block is free again. -/
def collect (t : SwapTask) : BenchRun (Option Outcome) := do
  let answer ← orStop [] ((← get).blocks.heap.readByte t.answer.toNat)
  if answer = unanswered then return none
  onBlocks [] (BlockHeap.free t.answer.toNat)
  return some { before := t.swap.expected, after := t.swap.new, succeeded := answer = 1 }

def currentRegister (config : Config) : BenchRun Register := do
  orStop [] (Register.load (← get).blocks.heap config.registerAt)

/-- Runs the demonstration over the open heap. -/
def execOver [Channels] (config : Config) (files : Files) (fresh : Bool) (crash : Option CrashPlan)
    (host : Host) : BenchRun ExecSummary := do
  if fresh then
    onHeap (Register.init config.registerAt initialValue)
  let bench ← get
  let (made, disk) := bench.disk.makeFolders files.stackFolder
  set { bench with disk }
  match made with
  | .error kind => trouble ["failed to create " ++ files.stackFolder.text] (.refused kind)
  | .ok () => pure ()
  forWorkers (fun id =>
    openStack ["failed to create stack " ++ (files.stack id).text] fun disk =>
      disk.create (files.stack id) config.stackSize) 0 config.threads
  let tasks ← transitions.mapM (prepare config)
  let reads := List.replicate readCount (Task.read (UInt64.ofNat config.registerAt))
  let bench ← get
  let reports ← takeBack [] <|
    Pool.run host (crash.map (·.hook)) config.queueCapacity (tasks.map .swap ++ reads)
      bench.blocks.heap bench.stackRegions
  let outcomes ← tasks.filterMapM collect
  return { reports, outcomes, register := ← currentRegister config }

/-- Runs the demonstration. A fresh heap is created and formatted, and its register
set; otherwise heap and allocator are taken as they are. The stacks are always
fresh. -/
def exec [Channels] (config : Config) (files : Files) (fresh : Bool) (crash : Option CrashPlan)
    (disk : Disk) : Except Stop ExecSummary × Disk :=
  match hostOf config .execution with
  | .error stop => (.error stop, disk)
  | .ok host =>
    withHeap config files fresh "failed to attach allocator"
      (execOver config files fresh crash host) disk

/-! ## 5. Restoring -/

/-- Restores the stacks over the open heap. -/
def restoreOver (config : Config) (files : Files) (host : Host) :
    BenchRun RestoreSummary := do
  forWorkers (fun id => do
    let path := files.stack id
    if !(← get).disk.has path then
      trouble [] (.words s!"missing stack {path.text} for thread {id}")
    openStack ["failed to open stack " ++ path.text] fun disk =>
      disk.openFile path config.stackSize) 0 config.threads
  let bench ← get
  let recovered ← takeBack ["restoration failed"] <|
    Pool.restoreAll host bench.blocks.heap bench.stackRegions
  return { recovered, register := ← currentRegister config }

/-- Restores the stacks that an earlier run left. -/
def restore (config : Config) (files : Files) (disk : Disk) : Except Stop RestoreSummary × Disk :=
  match hostOf config .recovery with
  | .error stop => (.error stop, disk)
  | .ok host =>
    withHeap config files false "failed to recover allocator"
      (restoreOver config files host) disk

end Workload

end DurableCalls
