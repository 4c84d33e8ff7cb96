/-
`Aborts.lean` -- the halts that work on a heap can end with.

An access to a heap is refused or it is done, and on the way to it the arithmetic of a matrix
may leave its range. So a swap, first or as a recovery, ends with a value or with one of a few
halts (`Halt.OfHeap`), whatever the heap holds and whatever its arguments are. This is told of
each step, and goes through steps in a row (`Run.HaltsBy`).

Two aborts belong to the call engine alone: a frame that would start before its place, and
calls that nest deeper than a stack has room for. Whether they are ever met is a question
about frames. Nothing that reads or writes a heap meets them (`Run.Regular`), so they can be
followed through the frames without another look at what a swap does.
-/
import DurableCalls.Call
import DurableCalls.Proofs.Context.Ends
import DurableCalls.Proofs.Context.Finishes

set_option autoImplicit false

namespace DurableCalls

variable {σ α β : Type}

/-! ## Halts -/

/-- A failure ends a run as the halt that it is. -/
theorem EndsBy.mapError {allowed : Halt → Prop} {x : Except Failure α}
    (h : EndsBy (fun f => allowed (.failed f)) x) : EndsBy allowed (x.mapError Halt.failed) := by
  cases x with
  | error f => exact .error (h f rfl)
  | ok a => exact .ok a

theorem EndsBy.lift {allowed : Halt → Prop} {x : Except Failure α}
    (h : EndsBy (fun f => allowed (.failed f)) x) : EndsBy allowed (liftM x : Except Halt α) := by
  cases x with
  | error f => exact .error (h f rfl)
  | ok a => exact .ok a

/-- Any halt but the two aborts of the call engine. -/
def Halt.Regular : Halt → Prop
  | .aborted .frameOrder | .aborted .callDepth => False
  | _ => True

/-- A result that is no such abort. -/
def EndsRegularly (x : Except Halt α) : Prop := ∀ halt, x = .error halt → halt.Regular

theorem EndsRegularly.ok (a : α) : EndsRegularly (.ok a : Except Halt α) := EndsBy.ok a

theorem EndsRegularly.error {halt : Halt} (hregular : halt.Regular) :
    EndsRegularly (.error halt : Except Halt α) := EndsBy.error hregular

/-- How an access to a heap is refused. The call engine refuses for other reasons, so a failure of
this kind comes from the heap. -/
inductive Failure.OfHeap : Failure → Prop
  | outOfBounds (offset len size : Nat) : OfHeap (.outOfBounds offset len size)
  | misaligned (offset align : Nat) : OfHeap (.misalignedRegister offset align)
  | unknownThread (thread threads : UInt32) : OfHeap (.invalidThread thread threads)

/-- How work on a heap halts: an access is refused, or an offset is no word. The second is an abort,
as the sum or the product is computed before it is compared with anything. -/
inductive Halt.OfHeap : Halt → Prop
  | failed {f : Failure} (refused : f.OfHeap) : OfHeap (.failed f)
  | addOverflow : OfHeap (.aborted .addOverflow)
  | mulOverflow : OfHeap (.aborted .mulOverflow)

theorem Failure.OfHeap.calm {f : Failure} (h : f.OfHeap) : f.isCrash = false := by
  cases h <;> rfl

theorem Halt.OfHeap.regular {halt : Halt} (h : halt.OfHeap) : halt.Regular := by
  cases h <;> trivial

theorem addWord_ofHeap (a b : Nat) : EndsBy Halt.OfHeap (addWord a b) := by
  unfold addWord
  split
  · exact .ok _
  · exact .error .addOverflow

theorem mulWord_ofHeap (a b : Nat) : EndsBy Halt.OfHeap (mulWord a b) := by
  unfold mulWord
  split
  · exact .ok _
  · exact .error .mulOverflow

theorem addWord_regular (a b : Nat) : EndsRegularly (addWord a b) :=
  (addWord_ofHeap a b).mono fun _ h => h.regular

/-! ## Accesses -/

theorem checkThread_ofHeap (thread threads : UInt32) :
    EndsBy Failure.OfHeap (checkThread thread threads) := by
  unfold checkThread
  split
  · exact .ok ()
  · exact .error (.unknownThread _ _)

namespace Region

variable (r : Region)

theorem check_ofHeap (offset len : Nat) : EndsBy Failure.OfHeap (r.check offset len) := by
  unfold check
  split
  · exact .ok ()
  · exact .error (.outOfBounds _ _ _)

theorem checkAtomic_ofHeap (width offset : Nat) :
    EndsBy Failure.OfHeap (r.checkAtomic width offset) := by
  refine (r.check_ofHeap offset width).bind fun _ => ?_
  split
  · exact .ok ()
  · exact .error (.misaligned _ _)

theorem load_ofHeap (width offset : Nat) : EndsBy Failure.OfHeap (r.load width offset) := by
  have hread : EndsBy Failure.OfHeap (r.read offset width) :=
    (r.check_ofHeap offset width).bind fun _ => .ok _
  exact (r.checkAtomic_ofHeap width offset).bind fun _ => hread.bind fun _ => .ok _

theorem copyOut_regular (offset len : Nat) : EndsRegularly (r.copyOut offset len) := by
  unfold copyOut
  split
  · exact .error trivial
  · exact EndsBy.lift fun _ _ => trivial

end Region

namespace Register

theorem checkLine_ofHeap (offset : Nat) : EndsBy Failure.OfHeap (checkLine offset) := by
  unfold checkLine
  split
  · exact .ok ()
  · exact .error (.misaligned _ _)

theorem load_ofHeap (heap : Region) (offset : Nat) : EndsBy Failure.OfHeap (load heap offset) :=
  (checkLine_ofHeap offset).bind fun _ => (heap.load_ofHeap 8 offset).bind fun _ => .ok _

end Register

/-- What an access is refused with ends the run. -/
theorem EndsBy.halting {x : Except Failure α} (h : EndsBy Failure.OfHeap x) :
    EndsBy (fun f => Halt.OfHeap (.failed f)) x := h.mono fun _ => .failed

namespace Matrix

theorem cellAt_ofHeap (m : Matrix) (row col : UInt32) : EndsBy Halt.OfHeap (m.cellAt row col) := by
  have hthread := fun thread => EndsBy.lift (checkThread_ofHeap thread m.threads).halting
  refine (hthread row).bind fun _ => (hthread col).bind fun _ => ?_
  refine (mulWord_ofHeap _ _).bind fun before => (addWord_ofHeap _ _).bind fun index => ?_
  exact (mulWord_ofHeap _ _).bind fun _ => addWord_ofHeap _ _

theorem load_ofHeap (m : Matrix) (heap : Region) (row col : UInt32) :
    EndsBy Halt.OfHeap (m.load heap row col) :=
  (m.cellAt_ofHeap row col).bind fun cell =>
    (EndsBy.lift (heap.load_ofHeap 4 cell).halting).bind fun _ => .ok _

end Matrix

/-! ## Runs -/

namespace Run

variable {m : Run σ α} {f : α → Run σ β} {allowed : Halt → Prop}

/-- A run that ends so from every state. -/
def HaltsBy (allowed : Halt → Prop) (m : Run σ α) : Prop := ∀ s, EndsBy allowed (m s).1

theorem HaltsBy.pure (a : α) : HaltsBy allowed (Pure.pure a : Run σ α) := fun _ => .ok a

theorem HaltsBy.get : HaltsBy allowed (MonadState.get : Run σ σ) := fun s => .ok s

theorem HaltsBy.modify (g : σ → σ) : HaltsBy allowed (modify g : Run σ PUnit) := fun _ => .ok ()

theorem HaltsBy.lift {x : Except Failure α} (h : EndsBy (fun f => allowed (.failed f)) x) :
    HaltsBy allowed (liftM x : Run σ α) := by
  intro s
  rw [lift_apply]
  exact .mapError h

theorem HaltsBy.liftHalt {x : Except Halt α} (h : EndsBy allowed x) :
    HaltsBy allowed (liftM x : Run σ α) := by
  intro s
  rw [liftHalt_apply]
  exact h

theorem HaltsBy.bind (hm : HaltsBy allowed m) (hf : ∀ a, HaltsBy allowed (f a)) :
    HaltsBy allowed (m >>= f) := by
  intro s
  have hfirst := hm s
  rcases hrun : m s with ⟨halt | a, t⟩
  · rw [hrun] at hfirst
    rw [bind_of_error hrun]
    exact .error (hfirst halt rfl)
  · rw [bind_of_ok hrun]
    exact hf a t

/-- A run that meets no abort of the call engine, from any state. -/
def Regular (m : Run σ α) : Prop := ∀ s, EndsRegularly (m s).1

theorem HaltsBy.regular (h : HaltsBy Halt.OfHeap m) : Regular m :=
  fun s => (h s).mono fun _ => Halt.OfHeap.regular

theorem Regular.fail (failure : Failure) : Regular (fail failure : Run σ α) :=
  fun _ => .error trivial

theorem Regular.get : Regular (MonadState.get : Run σ σ) := HaltsBy.get

theorem Regular.modify (g : σ → σ) : Regular (modify g : Run σ PUnit) := HaltsBy.modify g

theorem Regular.lift (x : Except Failure α) : Regular (liftM x : Run σ α) :=
  HaltsBy.lift fun _ _ => trivial

theorem Regular.liftHalt {x : Except Halt α} (h : EndsRegularly x) :
    Regular (liftM x : Run σ α) := HaltsBy.liftHalt h

theorem Regular.bind (hm : Regular m) (hf : ∀ a, Regular (f a)) : Regular (m >>= f) :=
  HaltsBy.bind hm hf

end Run

open Run

namespace Region

theorem write_ofHeap (offset : Nat) (data : List UInt8) : HaltsBy Halt.OfHeap (write offset data) :=
  HaltsBy.get.bind fun r => (HaltsBy.lift (r.check_ofHeap _ _).halting).bind fun _ => .modify _

theorem persist_ofHeap (offset : Nat) (data : List UInt8) :
    HaltsBy Halt.OfHeap (persist offset data) := by
  rw [persist_eq_write]
  exact write_ofHeap offset data

theorem commit_ofHeap (width offset value : Nat) :
    HaltsBy Halt.OfHeap (commit width offset value) := by
  have hstore : HaltsBy Halt.OfHeap (store width offset value) :=
    HaltsBy.get.bind fun r => (HaltsBy.lift (r.checkAtomic_ofHeap _ _).halting).bind fun _ =>
      write_ofHeap _ _
  exact hstore.bind fun _ => HaltsBy.get.bind fun r => .lift (r.check_ofHeap _ _).halting

end Region

namespace Swap

variable (s : Swap)

theorem announce_ofHeap (current : Register) : HaltsBy Halt.OfHeap (s.announce current) := by
  unfold announce
  split
  · exact (HaltsBy.liftHalt (s.matrix.cellAt_ofHeap _ _)).bind fun _ => Region.commit_ofHeap _ _ _
  · exact .pure _

theorem exchange_ofHeap (current : Register) : HaltsBy Halt.OfHeap (s.exchange current) := by
  refine HaltsBy.get.bind fun heap =>
    (HaltsBy.lift (Register.load_ofHeap heap _).halting).bind fun register => ?_
  split
  · have hcommit : HaltsBy Halt.OfHeap (Register.commit s.register s.installed) :=
      (HaltsBy.lift (Register.checkLine_ofHeap _).halting).bind fun _ => Region.commit_ofHeap _ _ _
    exact hcommit.bind fun _ => .pure _
  · exact .pure _

theorem attempt_ofHeap : HaltsBy Halt.OfHeap s.attempt := by
  have hobserve := fun heap => (Register.load_ofHeap heap s.register).bind fun current =>
    .ok (if current.value = s.expected then some current else none)
  refine (HaltsBy.lift (checkThread_ofHeap _ _).halting).bind fun _ => ?_
  refine HaltsBy.get.bind fun heap => ?_
  refine (HaltsBy.lift (hobserve heap).halting).bind fun found => ?_
  cases found with
  | none => exact .pure _
  | some current => exact (s.announce_ofHeap current).bind fun _ => s.exchange_ofHeap current

theorem announcedFrom_ofHeap (heap : Region) (col left : Nat) :
    EndsBy Halt.OfHeap (s.announcedFrom heap col left) := by
  induction left generalizing col with
  | zero => exact .ok _
  | succ left ih =>
    refine (s.matrix.load_ofHeap heap _ _).bind fun cell => ?_
    by_cases hsame : cell = s.new
    · simp only [if_pos hsame]
      exact .ok _
    · simp only [if_neg hsame]
      exact ih _

theorem recover_ofHeap : HaltsBy Halt.OfHeap s.recover := by
  refine (HaltsBy.lift (checkThread_ofHeap _ _).halting).bind fun _ => ?_
  refine HaltsBy.get.bind fun heap => ?_
  refine (HaltsBy.lift (Register.load_ofHeap heap _).halting).bind fun r => ?_
  by_cases hshown : r = s.installed
  · simp only [if_pos hshown]
    exact .pure _
  · simp only [if_neg hshown]
    refine (HaltsBy.liftHalt (s.announcedFrom_ofHeap heap _ _)).bind fun yes => ?_
    cases yes with
    | true => exact .pure _
    | false => exact s.attempt_ofHeap

end Swap

/-! ## Runs on a context -/

namespace Context

theorem note_regular (n : Note) : Regular (note n) := Regular.modify _

theorem onHeap_regular {m : Run Region α} (hm : Regular m) : Regular (onHeap m) := by
  intro ctx
  rw [onHeap, zoom_apply]
  show EndsRegularly (ifAttached m ctx.heap).1
  cases ctx.heap with
  | none => exact .error trivial
  | some heap => exact hm heap

theorem consult_regular (point : FaultPoint) : Regular (consult point) := by
  intro ctx
  rcases consult_ends point ctx with ⟨_, _, hrun, -⟩ | ⟨_, _, _, hrun, -⟩
  · rw [hrun]
    exact .ok _
  · rw [hrun]
    exact .error trivial

theorem readSlot_regular (slot len : Nat) : Regular (readSlot slot len) :=
  Regular.get.bind fun _ => Regular.lift _

theorem readAnswer_regular (len : Nat) : Regular (readAnswer len) := by
  refine (Regular.lift _).bind fun _ => Regular.get.bind fun ctx => ?_
  cases ctx.stack.calls.top? with
  | none => exact Regular.fail _
  | some top => exact readSlot_regular _ _

theorem readCurrentAnswer_regular (len : Nat) : Regular (readCurrentAnswer len) := by
  refine (Regular.lift _).bind fun _ => Regular.get.bind fun ctx => ?_
  cases ctx.stack.calls.answerSlot? with
  | none => exact Regular.fail _
  | some slot => exact readSlot_regular _ _

end Context

end DurableCalls
