/-
`Restored.lean` -- what a restoration does to the heap file.

A restoration opens heap and stack as they were closed, and replays. It never asks the
allocator for a block, nor gives one back: whatever the heap file holds, and whether the
restoration gets to its end or not, nothing of the heap changes but the register, the matrix
and the byte that the stopped task answers to (`restore_leaves`).
-/
import DurableCalls.Proofs.Workload.Aftermath

set_option autoImplicit false

namespace DurableCalls

open Region Allocator BlockHeap

namespace Workload

variable {config : Config} {files : Files} {disk : Disk} {bench : Bench} {heap stack : Region}
  {bytes : List Nat}

/-- Heap and stack are closed, and a restoration may begin. Both paths lead to their files, these
are two different ones, and nobody holds them. -/
structure Resting (config : Config) (files : Files) (heap stack : Region) (bytes : List Nat)
    (disk : Disk) : Prop where
  check_eq : config.check = .ok none
  threads_eq : config.threads = 1
  heap_path : heap.path = files.heap
  heap_size : heap.size = config.heapSize
  stack_path : stack.path = files.stack 0
  stack_size : stack.size = config.stackSize
  apart : (files.stack 0).place ≠ files.heap.place
  reaches : disk.Reaches files.heap
  heap_stored : disk.Stores heap
  stack_stored : disk.Stores stack
  rests : Rests config stack bytes

/-- The heap is open, and nothing was written but what a restoration may write. This holds at each
point of a restoration, so wherever it fails the files are closed with it. -/
structure Intact (config : Config) (files : Files) (heap : Region) (bytes : List Nat)
    (bench : Bench) : Prop where
  reaches : bench.disk.Reaches files.heap
  spares : config.site.Spares bytes heap bench.blocks.heap
  apart : ∀ r ∈ bench.stackRegions, r.path.place ≠ files.heap.place

theorem attach_reads {blockSize maxBorder : Nat} (hpayload : 1 ≤ blockSize)
    (hspan : (maxBorder + 1) * (blockSize + 1) ≤ heap.size) :
    attach blockSize maxBorder false heap = ((unread blockSize maxBorder).recover heap, heap) := by
  rw [attach_of_fits hpayload hspan, if_neg Bool.false_ne_true, Run.liftHalt_apply]

/-- The register is only read. -/
theorem Intact.currentRegister (h : Intact config files heap bytes bench) :
    Finishes (Workload.currentRegister config) bench (fun _ => Intact config files heap bytes)
      (fun _ => Intact config files heap bytes) := by
  refine .step (a := bench) rfl ?_
  cases hload : Register.load bench.blocks.heap config.registerAt with
  | ok current => exact .of_ok rfl h
  | error f => exact .of_error rfl h

/-- **A stack that rests is restored within its bounds.** Either nothing is under way, and nothing
is written, or there are the frames of one task, and then it is that task's register, cells and
answer. -/
theorem Rests.restoreAll (h : Rests config stack bytes) (hsize : heap.size = config.heapSize) :
    config.site.Spares bytes heap (Pool.restoreAll (soleHost .recovery) heap [stack]).heap ∧
      ∃ left, (Pool.restoreAll (soleHost .recovery) heap [stack]).stackRegions = [left] ∧
        left.path = stack.path := by
  have hmode : (soleHost .recovery).mode = .recovery := rfl
  have hone : (soleHost .recovery).threads = 1 := rfl
  cases h with
  | idle scan_eq short =>
    obtain ⟨hheap, hregions⟩ :=
      Pool.restoreAll_of_short heap hmode hone scan_eq short
    rw [hheap, hregions]
    exact ⟨.refl, stack, rfl, rfl⟩
  | suspended written suspends site_eq suits =>
    rw [← hsize] at suits
    obtain ⟨hspares, left, hregions, hpath, -⟩ :=
      Pool.restoreAll_spares serves_of_addBuiltins hmode hone suits written suspends
    rw [site_eq] at hspares
    exact ⟨hspares, left, hregions, hpath⟩

/-- A stack is opened, or nothing happens. -/
theorem openStack_finishes (during : List String) (path : Path) (size : Nat) (bench : Bench) :
    Finishes (openStack during fun d => d.openFile path size) bench
      (fun _ after => ∃ r d, bench.disk.openFile path size = (.ok r, d) ∧
        after = { bench with disk := d, stackRegions := bench.stackRegions ++ [r] })
      (fun _ after => after = bench) := by
  refine .step (a := bench) rfl ?_
  rcases Disk.openFile_cases bench.disk path size with ⟨f, hopen⟩
    | ⟨file, r, -, -, -, -, -, -, hopen⟩
  · simp only [hopen]
    exact .step (t := bench) rfl (.of_error rfl rfl)
  · simp only [hopen]
    exact .step rfl (.of_ok rfl ⟨r, _, rfl, rfl⟩)

/-- The stacks of a single worker are opened, or nothing happens. -/
theorem openStacks_finishes (hone : config.threads = 1) (bench : Bench) :
    Finishes (forWorkers (fun id => do
        let path := files.stack id
        if !(← get).disk.has path then
          trouble [] (.words s!"missing stack {path.text} for thread {id}")
        openStack ["failed to open stack " ++ path.text] fun disk =>
          disk.openFile path config.stackSize) 0 config.threads : BenchRun Unit) bench
      (fun _ after => ∃ r d, bench.disk.openFile (files.stack 0) config.stackSize = (.ok r, d) ∧
        after = { bench with disk := d, stackRegions := bench.stackRegions ++ [r] })
      (fun _ after => after = bench) := by
  rw [hone, forWorkers, forWorkers]
  refine .bind (.step (a := bench) rfl ?_) fun _ after h => .of_ok rfl h
  cases hthere : bench.disk.has (files.stack 0) with
  | false => exact .of_error rfl rfl
  | true => exact openStack_finishes _ _ _ _

/-- **However a restoration over open files ends**, it has kept to its bounds. It opens the stack,
replays it and reads the register. If one of these fails, what came before it has still kept to
them. -/
theorem restoreOver_intact (h : Resting config files heap stack bytes disk) (a : Allocator)
    (file : File) :
    Finishes (restoreOver config files (soleHost .recovery))
      ⟨disk.put files.heap file, ⟨a, heap⟩, []⟩
      (fun _ => Intact config files heap bytes) (fun _ => Intact config files heap bytes) := by
  have hreaches : (disk.put files.heap file).Reaches files.heap := h.reaches.of_folders rfl
  have hstored : (disk.put files.heap file).Stores stack :=
    h.stack_stored.put (h.stack_path ▸ h.apart.symm) _
  have hstart : Intact config files heap bytes ⟨disk.put files.heap file, ⟨a, heap⟩, []⟩ :=
    ⟨hreaches, .refl, fun _ hr => absurd hr List.not_mem_nil⟩
  -- the stack comes first, and what is replayed is the stack that was stored
  refine .bind ((openStacks_finishes h.threads_eq _).mono (fun _ _ => id)
    fun _ _ hnone => hnone ▸ hstart) ?_
  rintro _ _ ⟨r, d, hopen, rfl⟩
  rw [← h.stack_path, ← h.stack_size] at hopen
  obtain ⟨rfl, tail, rfl⟩ := hstored.eq_of_open hopen
  obtain ⟨hspares, left, hregions, hleft⟩ := h.rests.restoreAll h.heap_size
  have hintact : Intact config files heap bytes
      ⟨(disk.put files.heap file).put r.path { cells := r.cells ++ tail, held := true },
        ⟨a, (Pool.restoreAll (soleHost .recovery) heap [r]).heap⟩, [left]⟩ := by
    refine ⟨hreaches.of_folders rfl, hspares, fun r' hr' => ?_⟩
    rw [List.mem_singleton.1 hr', hleft, h.stack_path]
    exact h.apart
  let opened : Bench :=
    ⟨(disk.put files.heap file).put r.path { cells := r.cells ++ tail, held := true },
      ⟨a, heap⟩, [r]⟩
  have hback : ∀ {result}, (Pool.restoreAll (soleHost .recovery) heap [r]).result = result →
      takeBack ["restoration failed"] (Pool.restoreAll (soleHost .recovery) heap [r]) opened
        = (orStop ["restoration failed"] result,
          { opened with
            blocks.heap := (Pool.restoreAll (soleHost .recovery) heap [r]).heap
            stackRegions := [left] }) := by
    rintro _ rfl
    rw [← hregions]
    exact takeBack_of_eq _ opened rfl
  refine .step (a := opened) rfl ?_
  cases hresult : (Pool.restoreAll (soleHost .recovery) heap [r]).result with
  | error halt => exact .of_error (bindState_of_error (hback hresult)) hintact
  | ok recovered =>
    exact .step (hback hresult) (.bind hintact.currentRegister fun _ _ h => .of_ok rfl h)

/-- **A restoration leaves the heap**, but for the register, the matrix and one answer. The files
are closed at its end, so this tells what is on the disk for the next run, also if the restoration
has failed. -/
theorem restore_leaves (h : Resting config files heap stack bytes disk) :
    ∃ after, (restore config files disk).2.Stores after ∧
      (restore config files disk).2.Reaches files.heap ∧ config.site.Spares bytes heap after := by
  have hlayout : config.Layout := .of_check h.check_eq (h.heap_size ▸ heap.size_lt)
  have hspan : (config.maxBlocks + 1) * (config.blockSize + 1) ≤ heap.size := by
    rw [h.heap_size, ← hlayout.span_eq]
    exact hlayout.span_in
  obtain ⟨tail, hopen⟩ := h.heap_stored.open_eq (h.heap_path ▸ h.reaches)
  rw [h.heap_path, h.heap_size] at hopen
  rw [restore, hostOf_one h.check_eq h.threads_eq]
  simp only [withHeap, Disk.openOrCreate, Bool.false_eq_true, if_false, hopen,
    attach_reads hlayout.payload hspan]
  -- the allocator is read before the stacks, and a heap that it refuses is closed at once
  cases hrecover : (unread config.blockSize config.maxBlocks).recover heap with
  | error halt =>
    exact ⟨heap, Disk.close_stores _ _, (h.reaches.of_folders rfl).of_folders rfl, .refl⟩
  | ok a =>
    have hend : ∀ {after : Bench}, Intact config files heap bytes after →
        ∃ left, after.close.Stores left ∧ after.close.Reaches files.heap ∧
          config.site.Spares bytes heap left := fun hintact =>
      ⟨_, stores_close (by
          rw [hintact.spares.path_eq, h.heap_path]
          exact hintact.apart), reaches_close hintact.reaches, hintact.spares⟩
    rcases restoreOver_intact h a { cells := heap.cells ++ tail, held := true } with
      ⟨summary, after, hrun, hintact⟩ | ⟨stop, after, hrun, hintact⟩
    · simp only [hrun]
      exact hend hintact
    · simp only [hrun]
      exact hend hintact

/-! ## After a run -/

section After

variable {fresh : Bool} {crash : Option CrashPlan} {before : Disk} {start after : Bench}
  {result : Except Stop ExecSummary} {kept : Finset Nat}

/-- The files of a run are ready for a restoration. -/
theorem Aftermath.resting (h : Starts config files fresh before start)
    (hafter : Aftermath config files crash start result kept stack bytes after) :
    Resting config files after.blocks.heap stack bytes after.close := by
  obtain ⟨hreaches, hplaces⟩ := h.places
  refine ⟨h.check_eq, h.threads_eq, hafter.path_eq, hafter.size_eq, hafter.stack_path,
    hafter.stack_size, hplaces, reaches_close (hafter.disk_eq ▸ hreaches), stores_close ?_, ?_,
    hafter.rests⟩
  · rw [hafter.regions_eq, hafter.path_eq]
    intro r hr
    rw [List.mem_singleton.1 hr, hafter.stack_path]
    exact hplaces
  · rw [close_one hafter.regions_eq]
    exact Disk.close_stores _ _

/-- The next run finds heap and allocator as they were. -/
theorem Aftermath.heapOn_eq (h : Starts config files fresh before start)
    (hafter : Aftermath config files crash start result kept stack bytes after) :
    heapOn config files after.close = some after.blocks :=
  heapOn_of_stores (hafter.resting h).reaches (hafter.resting h).heap_stored hafter.path_eq
    hafter.size_eq hafter.blockSize_eq hafter.maxBorder_eq hafter.recorded

/-- **A restoration leaves the allocator.** It never writes a trailer: the register and the matrix
lie behind the blocks, and the answer goes to the payload of one of them. So nothing is freed by it.
-/
theorem Aftermath.heapOn_restore (h : Starts config files fresh before start)
    (hafter : Aftermath config files crash start result kept stack bytes after) :
    ∃ left, heapOn config files (restore config files after.close).2
      = some ⟨after.blocks.allocator, left⟩ := by
  obtain ⟨left, hstores, hreaches, hspares⟩ := restore_leaves (hafter.resting h)
  have hrecorded : after.blocks.allocator.Recorded left := by
    refine recorded_of_spares h.layout hafter.recorded hafter.blockSize_eq hafter.maxBorder_eq
      hspares fun i hi => ?_
    obtain ⟨n, -, hn, -⟩ := hafter.answers i hi
    exact ⟨n, hn⟩
  exact ⟨left, heapOn_of_stores (s := ⟨after.blocks.allocator, left⟩) hreaches hstores
    (hspares.path_eq.trans hafter.path_eq) (hspares.size_eq.trans hafter.size_eq)
    hafter.blockSize_eq hafter.maxBorder_eq hrecorded⟩

end After

end Workload

end DurableCalls
