/-
`Trace.lean` -- runs of swaps by several threads that crash and recover.

A run is the list of its calls, newest first. A thread whose call was cut off calls the
recovery of the same swap until one such call returns; only then does it start another
swap, with a value that it has not installed before. So a thread and a value name an
*operation*: a first call and its recoveries.
-/
import DurableCalls.Proofs.Swap.Effect

set_option autoImplicit false

namespace DurableCalls

/-- A call of a swap or of its recovery, between the heap it found and the heap it left. If a crash
has cut it off, the heap is what some first part of its writes makes of it. -/
structure SwapCall where
  swap : Swap
  recovery : Bool
  before : Region
  after : Region
  /-- What the call returned, unless a crash cut it off. -/
  outcome : Option (Except Halt Bool)

namespace SwapCall

/-- The operation that a call is part of. -/
def operation (c : SwapCall) : UInt32 × UInt32 := (c.swap.thread, c.swap.new)

/-- The register holds something else after the call. -/
def Changed (c : SwapCall) : Prop :=
  Register.load c.after c.swap.register ≠ Register.load c.before c.swap.register

/-- The call did what it does, up to where it was cut off. -/
def Performed (c : SwapCall) : Prop :=
  match c.recovery, c.outcome with
  | false, some outcome => c.swap.attempt c.before = (outcome, c.after)
  | false, none => c.swap.CutOff c.before c.after
  | true, some outcome => c.swap.recover c.before = (outcome, c.after)
  | true, none => c.swap.RecoveryCutOff c.before c.after

/-- The swap that a thread has to recover: that of its last call, if it was cut off. -/
def pending (calls : List SwapCall) (thread : UInt32) : Option Swap :=
  match calls.find? (·.swap.thread = thread) with
  | some c => if c.outcome.isNone then some c.swap else none
  | none => none

/-- The calls that may come next: the recovery of the pending swap, or else the first
call of a new operation. -/
def Admissible (calls : List SwapCall) (c : SwapCall) : Prop :=
  match pending calls c.swap.thread with
  | some s => c.recovery = true ∧ c.swap = s
  | none => c.recovery = false ∧ c.swap.new ≠ 0 ∧ ∀ d ∈ calls, d.operation ≠ c.operation

/-- The runs at a site, and the heaps they lead to. The calls are listed newest first, and each of
them begins with the heap that the one before has left. -/
inductive Trace (site : Site) (start : Region) : List SwapCall → Region → Prop
  | start : Trace site start [] start
  | call {calls : List SwapCall} {heap : Region} (c : SwapCall) (run : Trace site start calls heap)
      (here : c.swap.site = site) (known : c.swap.thread < site.matrix.threads)
      (before : c.before = heap) (performed : c.Performed) (admissible : Admissible calls c) :
      Trace site start (c :: calls) c.after

/-- One of the calls of an operation has changed the register. -/
def Installed (calls : List SwapCall) (operation : UInt32 × UInt32) : Prop :=
  ∃ c ∈ calls, c.operation = operation ∧ c.Changed

/-! ## One more call -/

section Cons

variable {calls : List SwapCall} {c : SwapCall} {operation : UInt32 × UInt32} {thread : UInt32}
  {s : Swap}

theorem installed_cons :
    Installed (c :: calls) operation ↔
      (c.operation = operation ∧ c.Changed) ∨ Installed calls operation := by
  unfold Installed
  constructor
  · rintro ⟨d, hd, hop, hchanged⟩
    rcases List.mem_cons.1 hd with rfl | hd
    · exact .inl ⟨hop, hchanged⟩
    · exact .inr ⟨d, hd, hop, hchanged⟩
  · rintro (⟨hop, hchanged⟩ | ⟨d, hd, hop, hchanged⟩)
    · exact ⟨c, List.mem_cons_self, hop, hchanged⟩
    · exact ⟨d, List.mem_cons_of_mem c hd, hop, hchanged⟩

/-- A call that does not change the register installs nothing. -/
theorem installed_cons_of_not_changed (h : ¬c.Changed) :
    Installed (c :: calls) operation ↔ Installed calls operation := by
  rw [installed_cons]
  exact ⟨fun hor => hor.resolve_left fun hboth => h hboth.2, .inr⟩

/-- A call installs nothing for another operation. -/
theorem installed_cons_of_ne (h : c.operation ≠ operation) :
    Installed (c :: calls) operation ↔ Installed calls operation := by
  rw [installed_cons]
  exact ⟨fun hor => hor.resolve_left fun hboth => h hboth.1, .inr⟩

theorem pending_cons_self (h : pending (c :: calls) c.swap.thread = some s) :
    c.outcome = none ∧ c.swap = s := by
  -- the newest call of its thread is the call itself
  have hfind : (c :: calls).find? (·.swap.thread = c.swap.thread) = some c :=
    List.find?_cons_of_pos (by simp)
  simp only [pending, hfind] at h
  cases houtcome : c.outcome with
  | none =>
    simp only [houtcome, Option.isNone_none, if_true, Option.some.injEq] at h
    exact ⟨rfl, h⟩
  | some outcome => simp [houtcome] at h

theorem pending_cons_of_ne (h : c.swap.thread ≠ thread) :
    pending (c :: calls) thread = pending calls thread := by
  rw [pending, List.find?_cons_of_neg (by simpa using h), pending]

theorem pending_thread (h : pending calls thread = some s) : s.thread = thread := by
  cases hfind : calls.find? (·.swap.thread = thread) with
  | none => simp [pending, hfind] at h
  | some d =>
    have hthread : d.swap.thread = thread := by simpa using List.find?_some hfind
    simp only [pending, hfind] at h
    cases houtcome : d.outcome with
    | none =>
      simp only [houtcome, Option.isNone_none, if_true, Option.some.injEq] at h
      rw [← h, hthread]
    | some outcome => simp [houtcome] at h

/-- An admissible call starts a new operation or recovers the pending one. -/
theorem admissible_cases (h : Admissible calls c) :
    (c.recovery = false ∧ c.swap.new ≠ 0 ∧ ∀ d ∈ calls, d.operation ≠ c.operation) ∨
    (c.recovery = true ∧ pending calls c.swap.thread = some c.swap) := by
  rw [Admissible] at h
  cases hpending : pending calls c.swap.thread with
  | none =>
    rw [hpending] at h
    exact .inl h
  | some s =>
    rw [hpending] at h
    exact .inr ⟨h.1, by rw [h.2]⟩

end Cons

end SwapCall

/-! ## The start -/

/-- A register that was just initialized, and a matrix of zeros beside it. This is how a run begins;
the rest of the heap may hold anything. -/
structure Site.Ready (site : Site) (heap : Region) : Prop where
  initialized : ∃ base value, Register.init site.register value base = (.ok (), heap)
  matrix_in : site.matrix.offset + site.matrix.bytes ≤ heap.size
  apart : site.register + 8 ≤ site.matrix.offset ∨
    site.matrix.offset + site.matrix.bytes ≤ site.register
  blank : ∀ i, site.matrix.offset ≤ i → i < site.matrix.offset + site.matrix.bytes →
    heap.cells[i]? = some 0

theorem Register.init_of_fits {offset : Nat} {base : Region} (value : UInt32)
    (hline : offset % lineSize = 0) (hin : offset + 8 ≤ base.size) :
    Register.init offset value base
      = (.ok (), base.put offset (toBytes 8 (pack ⟨noOwner, value⟩))) :=
  commit_of_line hline hin ⟨noOwner, value⟩

/-- A register that could be initialized is in the heap, and holds its first value. -/
theorem Register.init_eq_ok {offset : Nat} {value : UInt32} {base heap : Region}
    (h : Register.init offset value base = (.ok (), heap)) :
    offset % lineSize = 0 ∧ offset + 8 ≤ heap.size ∧
      heap.readNumber 8 offset = .ok (pack ⟨noOwner, value⟩) := by
  -- off the line or outside the heap, the initialization fails
  by_cases hline : offset % lineSize = 0
  · by_cases hin : offset + 8 ≤ base.size
    · rw [init_of_fits value hline hin] at h
      cases h
      refine ⟨hline, by rw [Region.size_put]; exact hin, ?_⟩
      rw [Region.readNumber_put_self hin, Nat.mod_eq_of_lt (pack_lt _)]
    · have hcheck : checkLine offset = .ok () := if_pos hline
      rw [Register.init, Register.commit, hcheck, Run.bind_of_ok (Run.lift_apply _ _),
        Region.commit_of_outside (Nat.not_le.1 hin)] at h
      cases h
  · have hcheck : checkLine offset = .error (.misalignedRegister offset lineSize) := if_neg hline
    rw [Register.init, Register.commit, hcheck, Run.bind_of_error (Run.lift_apply _ _)] at h
    cases h

/-- At the start nobody owns the register, and no cell shows a value. -/
theorem Site.Ready.shows {site : Site} {heap : Region} (h : site.Ready heap) :
    ∃ value, site.Shows heap ⟨Register.noOwner, value⟩ fun _ _ => 0 := by
  obtain ⟨base, value, hinit⟩ := h.initialized
  obtain ⟨hline, hin, hregister⟩ := Register.init_eq_ok hinit
  refine ⟨value, ⟨hline, hin, h.matrix_in, h.apart⟩, hregister, ?_⟩
  -- a cell of zeros holds the number 0
  intro row col hrow hcol
  have hle := Matrix.cellOffset_add_le hrow hcol
  have hge : site.matrix.offset ≤ site.matrix.cellOffset row col := Nat.le_add_right _ _
  have hmatrix := h.matrix_in
  exact Region.readNumber_of_zeros (by omega) fun i hlo hhi => h.blank i (by omega) (by omega)

/-- A heap of zeros, and then 5 in a register at 0. -/
def blankHeap : Region where
  path := .ofText "heap"
  cells := Array.replicate 128 0
  size_lt := by rw [Array.size_replicate]; decide

def startHeap : Region := blankHeap.put 0 (toBytes 8 (Register.pack ⟨Register.noOwner, 5⟩))

@[simp] theorem size_blankHeap : blankHeap.size = 128 := Array.size_replicate

@[simp] theorem size_startHeap : startHeap.size = 128 := by
  rw [startHeap, Region.size_put, size_blankHeap]

theorem startHeap_init : Register.init 0 5 blankHeap = (.ok (), startHeap) :=
  Register.init_of_fits 5 rfl (by rw [size_blankHeap]; decide)

/-- It is ready for a small matrix on the second cache line. -/
theorem startHeap_ready {threads : UInt32} (h : (Matrix.mk 64 threads).bytes ≤ 64) :
    Site.Ready ⟨0, ⟨64, threads⟩⟩ startHeap where
  initialized := ⟨blankHeap, 5, startHeap_init⟩
  matrix_in := by
    rw [size_startHeap]
    exact Nat.add_le_add_left h 64
  apart := .inl (show 0 + 8 ≤ 64 by decide)
  blank i hlo hhi := by
    have hlt : i < 128 := Nat.lt_of_lt_of_le hhi (Nat.add_le_add_left h 64)
    have hkept : Region.Agree 64 128 blankHeap startHeap :=
      Region.agree_put (by rw [size_blankHeap]; decide) (by decide)
    rw [hkept.2 i hlo hlt]
    simp [blankHeap, hlt]

theorem startHeap_shows {threads : UInt32} (h : (Matrix.mk 64 threads).bytes ≤ 64) :
    Site.Shows ⟨0, ⟨64, threads⟩⟩ startHeap ⟨Register.noOwner, 5⟩ fun _ _ => 0 := by
  obtain ⟨value, hshows⟩ := (startHeap_ready h).shows
  exact ⟨hshows.fits, (Register.init_eq_ok startHeap_init).2.2, hshows.cell_eq⟩

end DurableCalls
