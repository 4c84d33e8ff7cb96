/-
`Session.lean` -- a disk, and named things that work on it.

A session names regions, call stacks, allocators, hosts and contexts. A region can
be shared: an allocator and the heap of a context go on using a region whose name is
gone. A region is closed, and its file free again, when nothing refers to it any
more (`sweep`). A name is bound anew only after the new thing was built, so a file
whose region still has the name is held when it is to be created again.
-/
import DurableCalls.Workload

set_option autoImplicit false

namespace DurableCalls

/-- Why a session refuses. -/
inductive Refusal
  | halted (halt : Halt)
  /-- Nothing of the kind has this name. -/
  | unknown (name : String)
deriving DecidableEq, Repr

/-- Names an open region, whoever uses it. -/
abbrev Handle := Nat

/-- An allocator over an open region. -/
structure Holding where
  allocator : Allocator
  heap : Handle
deriving DecidableEq, Repr

/-- A context without the bytes of its regions. -/
structure Seat where
  host : Host
  thread : UInt32
  calls : CallStack
  stack : Handle
  heap : Option Handle
  hook : Option FaultHook := none

/-- A disk, its open regions, and what has a name. -/
structure Session where
  disk : Disk := {}
  /-- How the working directory is written in the text of paths. -/
  directory : String
  openRegions : Table Handle Region := {}
  nextHandle : Handle := 0
  regions : Table String Handle := {}
  callStacks : Table String CallStack := {}
  allocators : Table String Holding := {}
  hosts : Table String Host := {}
  contexts : Table String Seat := {}

abbrev SessionRun := ExceptT Refusal (StateM Session)

namespace Session

variable {α : Type}

/-! ## 1. Names and handles -/

/-- A value that may be a halt. -/
def orRefuse : Except Halt α → Except Refusal α
  | .ok a => .ok a
  | .error halt => .error (.halted halt)

/-- What has a name in a table. -/
def named (table : Session → Table String α) (name : String) : SessionRun α := do
  match (table (← get)).find? name with
  | some a => return a
  | none => throw (.unknown name)

/-- Every handle that something refers to. -/
def usedHandles (s : Session) : List Handle :=
  s.regions.values ++ s.allocators.values.map (·.heap) ++
    s.contexts.values.flatMap fun seat => seat.stack :: seat.heap.toList

/-- The session after closing every region that nothing refers to. -/
def sweep (s : Session) : Session :=
  let used := s.usedHandles
  let unused := s.openRegions.entries.filter fun e => !used.contains e.1
  { s with
    disk := unused.foldl (fun disk e => disk.close e.2) s.disk
    openRegions := unused.foldl (fun t e => t.erase e.1) s.openRegions }

/-- The region behind a handle. Handles that something refers to are open. -/
def regionAt (handle : Handle) : SessionRun Region := do
  match (← get).openRegions.find? handle with
  | some r => return r
  | none => throw (.unknown (toString handle))

def putRegion (handle : Handle) (r : Region) : SessionRun Unit :=
  modify fun s => { s with openRegions := s.openRegions.insert handle r }

/-- The handle of a region by name: a region of its own, or the stack of a context. -/
def handleOf (name : String) : SessionRun Handle := do
  let s ← get
  match s.regions.find? name, s.contexts.find? name with
  | some handle, _ => return handle
  | none, some seat => return seat.stack
  | none, none => throw (.unknown name)

/-- Runs on a state and puts the state back, whatever the result. -/
def runOn {σ : Type} (m : Run σ α) (state : σ) (put : σ → SessionRun Unit) :
    SessionRun α := do
  let (result, state) := m state
  put state
  orRefuse result

/-! ## 2. Regions -/

def openRegion (name file : String) (acquire : Disk → Path → Except Failure Region × Disk) :
    SessionRun Region := do
  let s ← get
  let (result, disk) := acquire s.disk (.under s.directory file)
  set { s with disk }
  match result with
  | .error f => throw (.halted (.failed f))
  | .ok region =>
    set { s with
      disk
      openRegions := s.openRegions.insert s.nextHandle region
      regions := s.regions.insert name s.nextHandle
      nextHandle := s.nextHandle + 1 }
    -- the region that had the name before is closed only now
    modify sweep
    return region

def onRegion (name : String) (m : Run Region α) : SessionRun α := do
  let handle ← handleOf name
  runOn m (← regionAt handle) (putRegion handle)

/-- Drops everything of a name, hosts apart, and tells whether there was anything. -/
def drop (name : String) : SessionRun Bool := do
  let s ← get
  modify fun s => { s with
    regions := s.regions.erase name
    callStacks := s.callStacks.erase name
    allocators := s.allocators.erase name
    contexts := s.contexts.erase name }
  modify sweep
  return s.regions.contains name || s.callStacks.contains name || s.allocators.contains name
    || s.contexts.contains name

/-! ## 3. Call stacks -/

def setCalls (name : String) (calls : CallStack) : SessionRun Unit :=
  modify fun s => { s with callStacks := s.callStacks.insert name calls }

def onCalls (name : String) (m : Run CallStack α) : SessionRun α := do
  runOn m (← named (·.callStacks) name) (setCalls name)

def onStack (name region : String) (m : Run DurableStack α) : SessionRun α := do
  let calls ← named (·.callStacks) name
  let handle ← handleOf region
  runOn m { calls, region := ← regionAt handle } fun stack => do
    setCalls name stack.calls
    putRegion handle stack.region

/-! ## 4. Allocators -/

/-- Attaches an allocator to a region and names it. -/
def attachAllocator (name region : String) (blockSize maxBorder : Nat) (fresh : Bool) :
    SessionRun BlockHeap := do
  let handle ← handleOf region
  let allocator ← runOn (Allocator.attach blockSize maxBorder fresh) (← regionAt handle)
    (putRegion handle)
  modify fun s => { s with allocators := s.allocators.insert name { allocator, heap := handle } }
  modify sweep
  return { allocator, heap := ← regionAt handle }

def onBlocks (name : String) (m : Run BlockHeap α) : SessionRun α := do
  let holding ← named (·.allocators) name
  runOn m { allocator := holding.allocator, heap := ← regionAt holding.heap } fun blocks => do
    putRegion holding.heap blocks.heap
    modify fun s => { s with
      allocators := s.allocators.insert name { holding with allocator := blocks.allocator } }

/-! ## 5. Hosts and contexts -/

def defineHost (name : String) (host : Except Failure Host) : SessionRun Host := do
  match host with
  | .error f => throw (.halted (.failed f))
  | .ok host =>
    modify fun s => { s with hosts := s.hosts.insert name host }
    return host

/-- Takes a region out of the names. Unless something refers to it, the next sweep
closes it. -/
def takeRegion (name : String) : SessionRun Handle := do
  let handle ← named (·.regions) name
  modify fun s => { s with regions := s.regions.erase name }
  return handle

/-- Makes a context that owns a region and shares a heap, and names it. The region is
gone even if there is no context then. -/
def openContext (name region host : String) (thread : UInt32) (heap : Option String)
    (build : Host → UInt32 → Region → Except Halt Context) : SessionRun CallStack := do
  let host ← named (·.hosts) host
  let heap ← heap.mapM handleOf
  let stack ← takeRegion region
  match build host thread (← regionAt stack) with
  | .error halt =>
    modify sweep
    throw (.halted halt)
  | .ok ctx =>
    let seat : Seat := { host, thread, calls := ctx.stack.calls, stack, heap }
    modify fun s => { s with contexts := s.contexts.insert name seat }
    modify sweep
    return ctx.stack.calls

def setHook (name : String) (hook : Option FaultHook) : SessionRun Unit := do
  let seat ← named (·.contexts) name
  modify fun s => { s with contexts := s.contexts.insert name { seat with hook } }

/-- A context with the bytes of its regions. -/
def contextOf (name : String) : SessionRun Context := do
  let seat ← named (·.contexts) name
  return {
    host := seat.host
    thread := seat.thread
    stack := { calls := seat.calls, region := ← regionAt seat.stack }
    heap := ← seat.heap.mapM regionAt
    hook := seat.hook }

/-- What a run on a context leaves behind. -/
structure ContextResult (α : Type) where
  result : Except Halt α
  calls : CallStack
  notes : List Note

def onContext (name : String) (m : Exec α) : SessionRun (ContextResult α) := do
  let seat ← named (·.contexts) name
  let (result, ctx) := m (← contextOf name)
  putRegion seat.stack ctx.stack.region
  match seat.heap, ctx.heap with
  | some handle, some heap => putRegion handle heap
  | _, _ => pure ()
  modify fun s => { s with
    contexts := s.contexts.insert name { seat with calls := ctx.stack.calls, hook := ctx.hook } }
  return { result, calls := ctx.stack.calls, notes := ctx.notes.reverse }

/-! ## 6. Pools and workloads -/

/-- Hands a heap and the stacks of some names to a pool. The stacks are gone
afterwards. -/
def withStacks (heap : String) (stackNames : List String)
    (run : Region → List Region → Pool.Result α) : SessionRun (Pool.Result α) := do
  let heapHandle ← handleOf heap
  let handles ← stackNames.mapM takeRegion
  -- the regions have no name any more but stay open until the sweep
  let r := run (← regionAt heapHandle) (← handles.mapM regionAt)
  putRegion heapHandle r.heap
  (handles.zip r.stackRegions).forM fun e => putRegion e.1 e.2
  modify sweep
  return r

/-- Runs something that works on files. -/
def onDisk {β : Type} (run : Disk → β × Disk) : SessionRun β := do
  let s ← get
  let (result, disk) := run s.disk
  set { s with disk }
  return result

def workloadFiles (s : Session) : Workload.Files where
  heap := .under s.directory "heap"
  stackFolder := .under s.directory "stacks"

end Session

end DurableCalls
