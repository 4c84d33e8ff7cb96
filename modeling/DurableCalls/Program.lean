/-
`Program.lean` -- registered functions: what they may do, and how they are found.

A function has two entry points: one runs it, one finishes it after a crash. An
entry point is either built in or a `Program`, a finite tree of actions on the
context of its call. A program ends with the first failure that it does not handle.
-/
import DurableCalls.Task
import DurableCalls.Table

set_option autoImplicit false

namespace DurableCalls

/-! ## 1. Programs -/

/-- What a call may set beside its name and arguments. -/
structure CallOptions where
  /-- Goes into the caller's own slot before the callee is pushed. Without it the
  whole slot is cleared. -/
  callerSeed : Option (List UInt8) := none
  calleeSeed : Option (List UInt8) := none
  recover : Bool := false
deriving DecidableEq, Repr

structure CallRequest where
  name : String
  args : List UInt8
  options : CallOptions := {}
deriving DecidableEq, Repr

inductive Action
  | note (text : String)
  | noteArgs
  | noteNames
  | answer (bytes : List UInt8)
  | answerArgs
  /-- Notes so many bytes of the answer to the last call. -/
  | noteAnswer (len : Nat)
  /-- Notes so many bytes of the answer given so far. -/
  | noteCurrent (len : Nat)
  /-- Answers with so many bytes of the answer to the last call. -/
  | passAnswer (len : Nat)
  /-- Calls a function, with these arguments or with its own but the first. -/
  | call (name : String) (args : Option (List UInt8)) (options : CallOptions)
  | fail (message : String)
  /-- Gives up the thread. -/
  | raise (message : String)
  | noteHeap (offset len : Nat)
  | writeHeap (offset : Nat) (bytes : List UInt8)
deriving DecidableEq, Repr

/-- A finite tree of actions. -/
inductive Program
  | done
  /-- An action, and then the rest. -/
  | act (action : Action) (rest : Program)
  /-- A body whose failure is noted, and then the rest. -/
  | attempt (body rest : Program)
  /-- One of two bodies, by whether there are arguments, and then the rest. -/
  | ifArgs (yes no rest : Program)
  /-- One of two bodies, by whether an answer was given, and then the rest. -/
  | ifAnswered (yes no rest : Program)
deriving DecidableEq, Repr

/-! ## 2. Entry points -/

/-- The entry points that every host may register. -/
inductive Builtin
  | swap
  | recoverSwap
  | task
  | recoverTask
deriving DecidableEq, Repr

/-- What runs when a function is called. -/
inductive EntryPoint
  | builtin (entry : Builtin)
  | program (body : Program)
deriving DecidableEq, Repr

/-- A function: how it runs, and how it is finished after a crash. -/
structure Function where
  execute : EntryPoint
  recover : EntryPoint
deriving DecidableEq, Repr

/-- The functions that can be called. A second registration of a name replaces the
first. -/
abbrev Registry := Table String Function

namespace Registry

/-- The swap and the task, with their recovery counterparts. -/
def addBuiltins (r : Registry) : Registry :=
  let r := r.insert taskFunction ⟨.builtin .task, .builtin .recoverTask⟩
  r.insert swapFunction ⟨.builtin .swap, .builtin .recoverSwap⟩

def entry (r : Registry) (name : String) (recover : Bool) : Except Failure EntryPoint :=
  match r.find? name with
  | none => .error (.unknownFunction name)
  | some f => .ok (if recover then f.recover else f.execute)

end Registry

/-! ## 3. Hosts -/

inductive Mode
  | execution
  | recovery
deriving DecidableEq, Repr

/-- What all threads of a process share. -/
structure Host where
  registry : Registry
  mode : Mode
  threads : UInt32
deriving DecidableEq, Repr

namespace Host

def make (registry : Registry) (mode : Mode) (threads : UInt32) : Except Failure Host :=
  if threads = 0 then .error (.setup .noThreads) else .ok { registry, mode, threads }

def withBuiltins (mode : Mode) (threads : UInt32) : Except Failure Host :=
  make (Registry.addBuiltins .empty) mode threads

end Host

end DurableCalls
