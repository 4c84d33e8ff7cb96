/-
`WrittenBlocks.lean` -- where a restoration writes among the blocks of the heap.

A run that was stopped has collected the answers that were published, and with each its block
went back to the allocator. A restoration writes the answer of the task that was stopped, so
its block must not have gone. It has not (`restore_writes_allocated`), with one exception: a
task that is stopped when its frame is to go has published its answer before, and the frame is
still there; the restoration publishes again, into a block that is free by then
(`publishedTask_writes_freed`).
-/
import DurableCalls.Proofs.Workload.Restored

set_option autoImplicit false

namespace DurableCalls

open Region Allocator BlockHeap

namespace Workload

variable {config : Config} {files : Files} {fresh : Bool} {crash : Option CrashPlan}
  {disk : Disk} {start : Bench} {i : Nat}

/-- The bytes of the heap file. -/
def heapBytes (files : Files) (disk : Disk) : Array UInt8 :=
  match disk.files.find? files.heap.place with
  | some file => file.cells
  | none => #[]

/-- A restoration writes a byte of the heap: there is a value that it does not leave there. -/
def RestoreWrites (config : Config) (files : Files) (disk : Disk) (i : Nat) : Prop :=
  ∃ value : UInt8,
    let before := disk.put files.heap { cells := (heapBytes files disk).setIfInBounds i value }
    (heapBytes files (restore config files before).2)[i]? ≠ some value

theorem heapBytes_of_stores {heap : Region} (h : disk.Stores heap)
    (hpath : heap.path = files.heap) :
    ∃ tail, heapBytes files disk = heap.cells ++ tail := by
  obtain ⟨tail, hfile⟩ := h
  rw [hpath] at hfile
  exact ⟨tail, by rw [heapBytes, hfile]⟩

/-- A byte that is written among the blocks is one that a restoration may write. The register, the
matrix and the stack lie behind the blocks or in another file. -/
theorem mem_of_restoreWrites {heap stack : Region} {bytes : List Nat}
    (h : Resting config files heap stack bytes disk) (hi : i < config.span)
    (hwrites : RestoreWrites config files disk i) : i ∈ bytes := by
  have hlayout : config.Layout := .of_check h.check_eq (h.heap_size ▸ heap.size_lt)
  have hin : i < heap.size := Nat.lt_of_lt_of_le hi (h.heap_size ▸ hlayout.span_in)
  obtain ⟨value, hvalue⟩ := hwrites
  obtain ⟨tail, hbytes⟩ := heapBytes_of_stores h.heap_stored h.heap_path
  rw [hbytes, Array.setIfInBounds_append_left hin] at hvalue
  -- the restoration begins with the other value in the heap
  have hresting : Resting config files (heap.put i [value]) stack bytes
      (disk.put files.heap { cells := (heap.put i [value]).cells ++ tail }) :=
    { h with
      heap_size := (size_put _ _ _).trans h.heap_size
      reaches := h.reaches.of_folders rfl
      heap_stored := ⟨tail, by rw [path_put, h.heap_path, Disk.find?_put, if_pos rfl]⟩
      stack_stored := h.stack_stored.put (h.stack_path ▸ h.apart.symm) _ }
  obtain ⟨left, hstores, -, hspares⟩ := restore_leaves hresting
  obtain ⟨tail', hafter⟩ :=
    heapBytes_of_stores hstores (hspares.path_eq.trans hresting.heap_path)
  have hleft : i < left.size := by
    rw [hspares.size_eq, size_put]
    exact hin
  by_contra hnot
  have hsame := hspares.same i ⟨.inl (Nat.le_trans hi hlayout.register_behind),
    .inl (Nat.le_trans hi hlayout.matrix_behind)⟩ hnot
  refine hvalue ((congrArg (·[i]?) hafter).trans ?_)
  rw [Array.getElem?_append_left hleft, hsame]
  exact Array.getElem?_setIfInBounds_self_of_lt hin

/-- **A restoration writes into allocated blocks only**, unless the plan was for the moment in
which the frame of a task is to go. It finds the allocator of the run, and leaves it. -/
theorem restore_writes_allocated [Channels] (h : Starts config files fresh disk start)
    (hplan : crash ≠ some ⟨.beforeFrameRemove, taskFunction⟩) (hi : i < config.span)
    (hwrites : RestoreWrites config files (exec config files fresh crash disk).2 i) :
    ∃ s left, heapOn config files (exec config files fresh crash disk).2 = some s ∧
      heapOn config files (restore config files (exec config files fresh crash disk).2).2
        = some ⟨s.allocator, left⟩ ∧
      s.allocator.InPayload i ∧ s.allocator.isAllocated s.heap i = .ok true := by
  obtain ⟨result, kept, stack, bytes, after, hrun, hafter⟩ := exec_aftermath h crash
  rw [hrun] at hwrites ⊢
  obtain ⟨left, hleft⟩ := hafter.heapOn_restore h
  obtain ⟨n, -, rfl, hkept⟩ := hafter.answers i (mem_of_restoreWrites (hafter.resting h) hi hwrites)
  have htaken : n ∈ after.blocks.allocator.taken :=
    hafter.taken_eq ▸ Finset.mem_union_right _ (hkept hplan)
  refine ⟨after.blocks, left, hafter.heapOn_eq h, hleft, ?_, ?_⟩
  · rw [InPayload, hafter.blockSize_eq, Nat.mul_mod_left]
    exact h.layout.payload
  · rw [hafter.recorded.scanned.isAllocated_eq, hafter.blockSize_eq,
      Nat.mul_div_cancel _ (Nat.succ_pos _), decide_eq_true (mem_taken.1 htaken)]

/-- A swap that is stopped when it was called is restored into its block. Its task has not answered,
so the run has kept the block, and it is allocated when the answer is written. -/
theorem calledSwap_writes_allocated :
    let plan : CrashPlan := ⟨.afterFramePush, swapFunction⟩
    let left := (@exec Pool.roomyChannels smallConfig smallFiles true (some plan) {}).2
    Starts smallConfig smallFiles true {} smallStart ∧
    some plan ≠ some ⟨.beforeFrameRemove, taskFunction⟩ ∧ 2 < smallConfig.span ∧
    RestoreWrites smallConfig smallFiles left 2 ∧
    ∃ s after, heapOn smallConfig smallFiles left = some s ∧
      heapOn smallConfig smallFiles (restore smallConfig smallFiles left).2
        = some ⟨s.allocator, after⟩ ∧
      s.allocator.InPayload 2 ∧ s.allocator.isAllocated s.heap 2 = .ok true := by
  let _ : Channels := Pool.roomyChannels
  have hplan : some (⟨.afterFramePush, swapFunction⟩ : CrashPlan)
      ≠ some ⟨.beforeFrameRemove, taskFunction⟩ := by decide
  have hi : 2 < smallConfig.span := by decide
  have hwrites : RestoreWrites smallConfig smallFiles
      (@exec Pool.roomyChannels smallConfig smallFiles true
        (some ⟨.afterFramePush, swapFunction⟩) {}).2 2 :=
    ⟨85, by decide +kernel⟩
  exact ⟨smallStart_starts, hplan, hi, hwrites,
    restore_writes_allocated smallStart_starts hplan hi hwrites⟩

/-- A task that is stopped when its frame is to go is restored into a block that is free. -/
theorem publishedTask_writes_freed :
    let plan : CrashPlan := ⟨.beforeFrameRemove, taskFunction⟩
    let left := (@exec Pool.roomyChannels smallConfig smallFiles true (some plan) {}).2
    Starts smallConfig smallFiles true {} smallStart ∧ 2 < smallConfig.span ∧
    RestoreWrites smallConfig smallFiles left 2 ∧
    ∃ s, heapOn smallConfig smallFiles left = some s ∧
      s.allocator.isAllocated s.heap 2 = .ok false := by
  refine ⟨smallStart_starts, by decide, ⟨85, by decide +kernel⟩, ?_⟩
  exact ⟨(heapOn smallConfig smallFiles (@exec Pool.roomyChannels smallConfig smallFiles true
    (some ⟨.beforeFrameRemove, taskFunction⟩) {}).2).get (by decide +kernel),
    (Option.some_get _).symm, by decide +kernel⟩

end Workload

end DurableCalls
