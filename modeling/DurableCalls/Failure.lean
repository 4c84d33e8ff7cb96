/-
`Failure.lean` -- the ways in which an operation stops before its end.

A `Failure` is a cause that the caller is told about: the operation did not do
what it was asked, and the caller may go on. An `Abort` ends the thread that met
it: a 64-bit sum or product left its range, or a rule that the code relies on was
broken. Both keep the changes made before them, so every operation below is a
state transformer whose state survives the exit (`Run`).

All wording is here. The rest of the library names causes.
-/
import DurableCalls.Text.Hex

set_option autoImplicit false

namespace DurableCalls

/-! ## 1. Where a run can be stopped -/

/-- The points of a call at which a fault hook is consulted. -/
inductive FaultPoint
  /-- The callee's frame is durable and the callee has not started. -/
  | afterFramePush
  /-- The callee has returned and its frame is still on the stack. -/
  | beforeFrameRemove
  /-- An answer is durable in the caller's slot. -/
  | afterAnswerWrite
deriving DecidableEq, Repr

namespace FaultPoint

def label : FaultPoint → String
  | afterFramePush => "AfterFramePush"
  | beforeFrameRemove => "BeforeFrameRemove"
  | afterAnswerWrite => "AfterAnswerWrite"

end FaultPoint

/-! ## 2. Causes -/

inductive IoKind
  | notFound
  | wouldBlock
  | alreadyExists
  | notADirectory
  | isADirectory
  | nameTooLong
  /-- A name with a NUL in it. -/
  | nulInName
  | fileTooLarge
  /-- A size beyond every offset of a file. -/
  | sizeOutOfRange
deriving DecidableEq, Repr

namespace IoKind

/-- The text for a refusal: the system's own, with its error number, or that of a check
in front of the system. -/
def systemText : IoKind → String
  | notFound => "No such file or directory (os error 2)"
  | wouldBlock => "Resource temporarily unavailable (os error 11)"
  | alreadyExists => "File exists (os error 17)"
  | notADirectory => "Not a directory (os error 20)"
  | isADirectory => "Is a directory (os error 21)"
  | nameTooLong => "File name too long (os error 36)"
  | nulInName => "file name contained an unexpected NUL byte"
  | fileTooLarge => "File too large (os error 27)"
  | sizeOutOfRange => "number too large to fit in target type"

end IoKind

/-- Parameters under which nothing can be built. -/
inductive SetupFault
  | emptyRegion (path : String)
  | shortFile (path : String) (actual expected : Nat)
  | noThreads
  | emptyBlocks
  | blocksExceedHeap (blocks blockSize heapSize : Nat)
  | rootPresent (thread : Nat)
  | stackCount (given threads : Nat)
  /-- Any other unusable parameter, in words. -/
  | other (text : String)
deriving DecidableEq, Repr

namespace SetupFault

def message : SetupFault → String
  | emptyRegion path => s!"region {path} must not be empty"
  | shortFile path actual expected =>
    s!"{path} holds {actual} bytes, expected at least {expected}"
  | noThreads => "thread count must be at least 1"
  | emptyBlocks => "block size must be at least 1 byte"
  | blocksExceedHeap blocks blockSize heapSize =>
    s!"{blocks} blocks of {blockSize} bytes do not fit a heap of {heapSize} bytes"
  | rootPresent thread => s!"thread {thread} already has a root frame"
  | stackCount given threads => s!"{given} stacks for {threads} threads"
  | other text => text

end SetupFault

/-- Why an operation did not do what it was asked. -/
inductive Failure
  /-- A marker byte holds no marker. -/
  | corruptedMarker (offset : Nat) (value : UInt8)
  | heapExhausted
  /-- An answer is neither absent nor 1 to 8 bytes long. -/
  | answerSize (len : Nat)
  /-- The root frame never returns. -/
  | firstFrameRemoval
  /-- A recovery entry point outside recovery mode. -/
  | illegalRecoveryCall
  | unknownFunction (name : String)
  /-- Nobody called the running function, so nobody takes its answer. -/
  | noCallerFrame
  | outOfBounds (offset len size : Nat)
  /-- An atomic access off its alignment. -/
  | misalignedRegister (offset align : Nat)
  | frameTooLarge (field : String) (len : Nat)
  /-- An offset that names no block that could be freed. -/
  | invalidBlock (offset : Nat)
  | invalidThread (thread threads : UInt32)
  | heapNotAttached
  | setup (fault : SetupFault)
  | unknownTaskType (tag : UInt8)
  | malformedArgs (function : String) (expected actual : Nat)
  /-- A fault hook stopped the run. -/
  | simulatedCrash (point : FaultPoint) (function : String)
  /-- A registered function failed for a reason of its own. -/
  | task (text : String)
  | io (path : String) (kind : IoKind)
deriving DecidableEq, Repr

namespace Failure

def message : Failure → String
  | corruptedMarker offset value =>
    s!"corrupted marker 0x{Text.hexByte value} at offset {offset}"
  | heapExhausted => "heap exhausted: all blocks are allocated"
  | answerSize len => s!"cannot use answer of size {len}, expected 1..=8 bytes"
  | firstFrameRemoval => "cannot remove the first frame of the stack"
  | illegalRecoveryCall => "recovery functions can only be called in recovery mode"
  | unknownFunction name => s!"unknown function `{name}`"
  | noCallerFrame => "cannot return a value from the first frame"
  | outOfBounds offset len size =>
    s!"access of {len} bytes at offset {offset} exceeds region size {size}"
  | misalignedRegister offset align =>
    s!"register at offset {offset} is not aligned to {align} bytes"
  | frameTooLarge field len => s!"frame {field} of {len} bytes exceeds 65535 bytes"
  | invalidBlock offset => s!"offset {offset} does not name an allocated block"
  | invalidThread thread threads =>
    s!"thread id {thread.toNat} is out of range for {threads.toNat} threads"
  | heapNotAttached => "no persistent heap is attached to this execution context"
  | setup fault => "invalid configuration: " ++ fault.message
  | unknownTaskType tag => s!"cannot execute task of type 0x{Text.hexByte tag}"
  | malformedArgs function expected actual =>
    s!"malformed arguments for `{function}`: expected {expected} bytes, got {actual}"
  | simulatedCrash point function => s!"simulated crash in `{function}` at {point.label}"
  | task text => "task failed: " ++ text
  | io path kind => s!"I/O error on {path}: {kind.systemText}"

/-- Whether a failure tells of a misuse, and not of damage, of the environment or
of a simulated crash. -/
def isMisuse : Failure → Bool
  | answerSize _ | firstFrameRemoval | illegalRecoveryCall | unknownFunction _ | noCallerFrame
  | misalignedRegister _ _ | invalidBlock _ | invalidThread _ _ => true
  | _ => false

def isCrash : Failure → Bool
  | simulatedCrash _ _ => true
  | _ => false

end Failure

/-! ## 3. Ends of a thread -/

/-- What ends the thread that meets it. -/
inductive Abort
  | addOverflow
  | mulOverflow
  /-- A frame was appended before the place where the next frame starts. -/
  | frameOrder
  /-- Calls were nested deeper than a stack has cache lines. -/
  | callDepth
  /-- More memory was asked for than can be addressed. -/
  | capacityOverflow
  /-- A registered function gave up, or something that is not modelled, with these words. -/
  | raised (text : String)
deriving DecidableEq, Repr

namespace Abort

def message : Abort → String
  | addOverflow => "attempt to add with overflow"
  | mulOverflow => "attempt to multiply with overflow"
  | frameOrder => "frames must be appended in increasing, aligned order"
  | callDepth => "calls are nested deeper than the stack has room for"
  | capacityOverflow => "capacity overflow"
  | raised text => text

end Abort

inductive Halt
  | failed (failure : Failure)
  | aborted (abort : Abort)
deriving DecidableEq, Repr

/-! ## 4. Runs -/

/-- A run over a state: it ends with a value or with a halt, and the state that it
reached is there in both cases. -/
abbrev Run (σ : Type) := ExceptT Halt (StateM σ)

/-- A failure where only a failure is possible is a failure of the run. -/
instance : MonadLift (Except Failure) (Except Halt) where
  monadLift
    | .ok a => .ok a
    | .error f => .error (.failed f)

/-- A computation that gave a result has got through each of its parts. -/
theorem exists_of_bind_eq_ok {ε α β : Type} {x : Except ε α} {f : α → Except ε β} {b : β}
    (h : (x >>= f) = .ok b) : ∃ a, x = .ok a ∧ f a = .ok b := by
  cases x with
  | error e => cases h
  | ok a => exact ⟨a, rfl, h⟩

/-- A computation that failed has failed in one of its parts. -/
theorem cases_of_bind_eq_error {ε α β : Type} {x : Except ε α} {f : α → Except ε β} {e : ε}
    (h : (x >>= f) = .error e) : x = .error e ∨ ∃ a, x = .ok a ∧ f a = .error e := by
  cases x with
  | error e' =>
    cases h
    exact .inl rfl
  | ok a => exact .inr ⟨a, rfl, h⟩

theorem eq_ok_of_lift {α : Type} {x : Except Failure α} {a : α}
    (h : (liftM x : Except Halt α) = .ok a) : x = .ok a := by
  cases x with
  | error failure => cases h
  | ok b =>
    cases h
    rfl

theorem exists_of_lift_eq_error {α : Type} {x : Except Failure α} {halt : Halt}
    (h : (liftM x : Except Halt α) = .error halt) : ∃ f, x = .error f ∧ halt = .failed f := by
  cases x with
  | error failure =>
    cases h
    exact ⟨failure, rfl, rfl⟩
  | ok a => cases h

namespace Run

variable {σ τ α : Type}

def fail (f : Failure) : Run σ α := throw (.failed f)

def abort (a : Abort) : Run σ α := throw (.aborted a)

/-- A run over a part of the state. A state is split into the part and what makes a
state of another part; so nobody else holds the part while the run changes it. -/
def zoom (split : σ → τ × (τ → σ)) (m : Run τ α) : Run σ α := fun s =>
  let (part, rebuild) := split s
  let (result, part) := m part
  (result, rebuild part)

/-- Replaces the state by what `f` makes of it, which may halt and then leaves it. -/
def update (f : σ → Except Halt σ) : Run σ Unit := do
  let s ← f (← get)
  set s

/-- A run goes on with the state that its first part reached. -/
theorem bind_apply {β : Type} (m : Run σ α) (f : α → Run σ β) (s : σ) :
    (m >>= f) s = match m s with
      | (.ok a, t) => f a t
      | (.error halt, t) => (.error halt, t) := by
  show StateT.bind m (ExceptT.bindCont f) s = _
  unfold StateT.bind
  rcases m s with ⟨_ | _, t⟩ <;> rfl

theorem bind_of_ok {β : Type} {m : Run σ α} {f : α → Run σ β} {s t : σ} {a : α}
    (h : m s = (.ok a, t)) : (m >>= f) s = f a t := by
  rw [bind_apply, h]

theorem bind_of_error {β : Type} {m : Run σ α} {f : α → Run σ β} {s t : σ} {halt : Halt}
    (h : m s = (.error halt, t)) : (m >>= f) s = (.error halt, t) := by
  rw [bind_apply, h]

/-- If both parts return, the second has begun where the first ended. -/
theorem exists_of_bind_ok {β : Type} {m : Run σ α} {f : α → Run σ β} {s t : σ} {b : β}
    (h : (m >>= f) s = (.ok b, t)) : ∃ a mid, m s = (.ok a, mid) ∧ f a mid = (.ok b, t) := by
  rcases hm : m s with ⟨halt | a, mid⟩
  · rw [bind_of_error hm] at h
    cases h
  · rw [bind_of_ok hm] at h
    exact ⟨a, mid, rfl, h⟩

/-- If the whole halts, then its first part does, or the second one from where the first
ended. -/
theorem cases_of_bind_error {β : Type} {m : Run σ α} {f : α → Run σ β} {s t : σ} {halt : Halt}
    (h : (m >>= f) s = (.error halt, t)) :
    m s = (.error halt, t) ∨ ∃ a mid, m s = (.ok a, mid) ∧ f a mid = (.error halt, t) := by
  rcases hm : m s with ⟨halt' | a, mid⟩
  · rw [bind_of_error hm] at h
    cases h
    exact .inl rfl
  · rw [bind_of_ok hm] at h
    exact .inr ⟨a, mid, rfl, h⟩

/-- A handler goes on where the run has halted. -/
theorem tryCatch_apply (m : Run σ α) (handle : Halt → Run σ α) (s : σ) :
    tryCatch m handle s = match m s with
      | (.ok a, t) => (.ok a, t)
      | (.error halt, t) => handle halt t := by
  show ExceptT.tryCatch m handle s = _
  unfold ExceptT.tryCatch ExceptT.mk
  show StateT.bind m _ s = _
  unfold StateT.bind
  rcases m s with ⟨_ | _, t⟩ <;> rfl

theorem discard_eq_bind (m : Run σ α) :
    (discard m : Run σ PUnit) = m >>= fun _ => Pure.pure PUnit.unit :=
  (bind_pure_comp (fun _ => PUnit.unit) m).symm

theorem discard_of_ok {m : Run σ α} {s t : σ} {a : α} (h : m s = (.ok a, t)) :
    (discard m : Run σ PUnit) s = (.ok (), t) := by
  rw [discard_eq_bind, bind_of_ok h]
  rfl

theorem discard_of_error {m : Run σ α} {s t : σ} {halt : Halt} (h : m s = (.error halt, t)) :
    (discard m : Run σ PUnit) s = (.error halt, t) := by
  rw [discard_eq_bind, bind_of_error h]

theorem get_apply (s : σ) : (get : Run σ σ) s = (.ok s, s) := rfl

theorem set_apply (s t : σ) : (set t : Run σ PUnit) s = (.ok (), t) := rfl

theorem modify_apply (f : σ → σ) (s : σ) : (modify f : Run σ PUnit) s = (.ok (), f s) := rfl

theorem pure_apply (a : α) (s : σ) : (pure a : Run σ α) s = (.ok a, s) := rfl

theorem mapError_ok {ε ε' : Type} (f : ε → ε') (a : α) :
    Except.mapError f (.ok a : Except ε α) = .ok a := rfl

theorem mapError_error {ε ε' : Type} (f : ε → ε') (e : ε) :
    Except.mapError f (.error e : Except ε α) = .error (f e) := rfl

theorem lift_apply (x : Except Failure α) (s : σ) :
    (liftM x : Run σ α) s = (x.mapError Halt.failed, s) := by
  cases x <;> rfl

theorem liftHalt_apply (x : Except Halt α) (s : σ) : (liftM x : Run σ α) s = (x, s) := by
  cases x <;> rfl

theorem update_apply (f : σ → Except Halt σ) (s : σ) :
    update f s = match f s with
      | .ok t => (.ok (), t)
      | .error halt => (.error halt, s) := by
  unfold update
  rw [bind_of_ok (get_apply s), bind_apply, liftHalt_apply]
  rcases f s with _ | _ <;> rfl

theorem zoom_apply (split : σ → τ × (τ → σ)) (m : Run τ α) (s : σ) :
    zoom split m s = ((m (split s).1).1, (split s).2 (m (split s).1).2) := rfl

end Run

end DurableCalls
