/-
`Aftermath.lean` -- what a run of the demonstration leaves in its files.

However a run ends, the blocks that are taken are those that were taken at its start, and with
them the blocks that its tasks keep (`Aftermath`): all of them where no task has run, and else
those of the tasks without an answer. The stack tells of the one task that was stopped
(`Rests`), if there is one, and that task answers to a kept block -- unless it was stopped when
its frame was to go, for then its answer has been collected. Heap and stack are closed, and the
next run finds them (`heapOn`).
-/
import DurableCalls.Proofs.Workload.Served

set_option autoImplicit false

namespace DurableCalls

open CallStack Region Allocator BlockHeap

namespace Workload

variable {config : Config} {files : Files} {fresh : Bool} {crash : Option CrashPlan}
  {disk : Disk} {start bench : Bench} {es : List Entry} {heap next stack : Region}
  {s t : BlockHeap} {written bytes : List Nat} {result : Except Stop ExecSummary}

/-! ## Closing -/

theorem close_one (h : bench.stackRegions = [stack]) :
    bench.close = (bench.disk.close bench.blocks.heap).close stack := by
  rw [Bench.close, h]
  rfl

/-- A path leads to its file whatever is closed. -/
theorem reaches_close {p : Path} (h : bench.disk.Reaches p) : bench.close.Reaches p := by
  refine h.of_folders ?_
  have hfold : ∀ (regions : List Region) (d : Disk),
      (regions.foldl Disk.close d).folders = d.folders := by
    intro regions
    induction regions with
    | nil => exact fun _ => rfl
    | cons r rest ih => exact fun d => ih (d.close r)
  exact hfold _ _

/-- The heap is stored, as long as no stack lies over it. -/
theorem stores_close (h : ∀ r ∈ bench.stackRegions, r.path.place ≠ bench.blocks.heap.path.place) :
    bench.close.Stores bench.blocks.heap := by
  have hfold : ∀ (regions : List Region) (d : Disk), d.Stores bench.blocks.heap →
      (∀ r ∈ regions, r.path.place ≠ bench.blocks.heap.path.place) →
      (regions.foldl Disk.close d).Stores bench.blocks.heap := by
    intro regions
    induction regions with
    | nil => exact fun _ hd _ => hd
    | cons r rest ih =>
      exact fun d hd hne => ih _ (hd.close (hne r List.mem_cons_self))
        fun r' hr' => hne r' (List.mem_cons_of_mem _ hr')
  exact hfold _ _ (Disk.close_stores _ _) h

/-! ## The next run -/

/-- The heap and its allocator, as the next run opens them. -/
def heapOn (config : Config) (files : Files) (disk : Disk) : Option BlockHeap :=
  match (disk.openFile files.heap config.heapSize).1 with
  | .error _ => none
  | .ok heap =>
    match Allocator.attach config.blockSize config.maxBlocks false heap with
    | (.error _, _) => none
    | (.ok allocator, heap) => some { allocator, heap }

theorem heapOn_of_stores (hreaches : disk.Reaches files.heap) (hstores : disk.Stores s.heap)
    (hpath : s.heap.path = files.heap) (hsize : s.heap.size = config.heapSize)
    (hblock : s.allocator.blockSize = config.blockSize)
    (hmax : s.allocator.maxBorder = config.maxBlocks) (h : s.allocator.Recorded s.heap) :
    heapOn config files disk = some s := by
  obtain ⟨tail, hopen⟩ := hstores.open_eq (hpath ▸ hreaches)
  rw [hpath, hsize] at hopen
  have hattach := attach_of_recorded h
  rw [hblock, hmax] at hattach
  rw [heapOn, hopen]
  simp only [hattach]

/-! ## The stack -/

/-- What a restoration of a stack may write to the heap, beside the register and the matrix:
nothing, or the answer of the one task whose frames are on the stack. -/
inductive Rests (config : Config) (stack : Region) : List Nat → Prop
  | idle {calls : CallStack} (scan_eq : scan stack = .ok calls) (short : calls.frames.length ≤ 1) :
      Rests config stack []
  | suspended {task : SwapTask} {frames : List Placed}
      (written : stack.Written stackEnd frames) (suspends : task.Suspends frames)
      (site_eq : task.site 1 = config.site) (suits : task.Suits 1 0 config.heapSize) :
      Rests config stack [task.answer.toNat]

/-- A stack of zeros has no calls. -/
theorem rests_of_blank (h : stack.Blank) (hroom : 13 ≤ stack.size) : Rests config stack [] :=
  .idle (scan_of_blankStart (h.blankStart hroom)) (Nat.zero_le _)

/-! ## What is kept -/

section Kept

variable {first : BlockHeap} {e : Entry} {frames : List Placed} {left : Region}

namespace Taking

theorem disjoint (h : Taking config first es s) : Disjoint first.allocator.taken (blocks es) := by
  refine Finset.disjoint_right.2 fun n hn => ?_
  obtain ⟨e, he, rfl⟩ := List.mem_map.1 (List.mem_toFinset.1 hn)
  exact (h.new e he).2

theorem card_blocks (h : Taking config first es s) : (blocks es).card = es.length := by
  rw [blocks, List.toFinset_card_of_nodup h.nodup, List.length_map]

theorem card_taken (h : Taking config first es s) :
    s.allocator.taken.card = first.allocator.taken.card + es.length := by
  rw [h.taken_eq, Finset.card_union_of_disjoint h.disjoint, h.card_blocks]

theorem card_answered (h : Taking config first es s) (heap : Region) :
    (blocks (answered config heap es)).card
      = (es.filterMap (Entry.outcome? config heap)).length := by
  have hnodup : ((answered config heap es).map Entry.block).Nodup :=
    h.nodup.sublist (List.filter_sublist.map _)
  rw [blocks, List.toFinset_card_of_nodup hnodup, List.length_map, answered,
    ← List.countP_eq_length_filter, List.length_filterMap_eq_countP]

/-- A task whose answer is not written has none. -/
theorem not_answered (h : Taking config first es s) (hlayout : config.Layout)
    (hleft : Pool.Leftover crash config.site (queue config es) s.heap stack written frames next
      left) (hnot : e.start config ∉ written) :
    e.block ∉ blocks (answered config next es) := by
  intro hmem
  obtain ⟨e', hanswered, hblock⟩ := List.mem_map.1 (List.mem_toFinset.1 hmem)
  obtain ⟨he', hsome⟩ := List.mem_filter.1 hanswered
  have hstart : e'.start config = e.start config := by rw [Entry.start, Entry.start, hblock]
  have hlt := h.start_lt hlayout he'
  have hsame := hleft.spares.same (e'.start config)
    ⟨.inl (Nat.le_trans hlt hlayout.register_behind),
      .inl (Nat.le_trans hlt hlayout.matrix_behind)⟩ (hstart ▸ hnot)
  rw [Entry.outcome?_of_unanswered (hsame.trans (h.blank e' he'))] at hsome
  cases hsome

end Taking

end Kept

/-! ## The aftermath -/

/-- **What a run leaves**, in its open files: which blocks are taken now and by whom, how many of
them are kept without an outcome, and which byte a restoration would still write. -/
structure Aftermath (config : Config) (files : Files) (crash : Option CrashPlan) (start : Bench)
    (result : Except Stop ExecSummary) (kept : Finset Nat) (stack : Region) (bytes : List Nat)
    (after : Bench) : Prop where
  recorded : after.blocks.allocator.Recorded after.blocks.heap
  blockSize_eq : after.blocks.allocator.blockSize = config.blockSize
  maxBorder_eq : after.blocks.allocator.maxBorder = config.maxBlocks
  path_eq : after.blocks.heap.path = files.heap
  size_eq : after.blocks.heap.size = config.heapSize
  taken_eq : after.blocks.allocator.taken = start.blocks.allocator.taken ∪ kept
  disjoint : Disjoint start.blocks.allocator.taken kept
  /-- Four blocks are asked for. -/
  exhausted_iff : result = .error exhausted ↔
    config.maxBlocks + 1 < start.blocks.allocator.taken.card + transitions.length
  kept_le : kept.card ≤ transitions.length
  kept_eq : ∀ summary, result = .ok summary →
    kept.card + summary.outcomes.length = transitions.length
  disk_eq : after.disk = start.disk
  regions_eq : after.stackRegions = [stack]
  stack_path : stack.path = files.stack 0
  stack_size : stack.size = config.stackSize
  rests : Rests config stack bytes
  /-- A restoration answers to a block, and to a kept one but for a single plan. -/
  answers : ∀ i ∈ bytes, ∃ n, n ≤ config.maxBlocks ∧ i = n * (config.blockSize + 1) ∧
    (crash ≠ some ⟨.beforeFrameRemove, taskFunction⟩ → n ∈ kept)

/-- Where no task has run, all the blocks are kept. The blocks have run out before, or the pool was
refused its queue. -/
theorem aftermath_of_idle (hstack : 13 ≤ config.stackSize)
    (h : Beginning config files start stack) (htaken : Taking config start.blocks es s)
    (hrecorded : s.allocator.Recorded s.heap) (hfew : es.length ≤ transitions.length)
    (hexhausted : result = .error exhausted ↔
      config.maxBlocks + 1 < start.blocks.allocator.taken.card + transitions.length)
    (hresult : ∀ summary, result ≠ .ok summary) :
    Aftermath config files crash start result (blocks es) stack [] { start with blocks := s } where
  recorded := hrecorded
  blockSize_eq := htaken.blockSize_eq
  maxBorder_eq := htaken.maxBorder_eq
  path_eq := htaken.path_eq.trans h.path_eq
  size_eq := htaken.size_eq.trans h.size_eq
  taken_eq := htaken.taken_eq
  disjoint := htaken.disjoint
  exhausted_iff := hexhausted
  kept_le := htaken.card_blocks ▸ hfew
  kept_eq summary hok := absurd hok (hresult summary)
  disk_eq := rfl
  regions_eq := h.regions_eq
  stack_path := h.stack_path
  stack_size := h.stack_size
  rests := rests_of_blank h.blank (h.stack_size ▸ hstack)
  answers _ hi := absurd hi List.not_mem_nil

theorem mem_queue {task : SwapTask} (h : .swap task ∈ queue config es) :
    ∃ e ∈ es, task = e.task config := by
  rcases List.mem_append.1 h with h | h
  · rw [List.map_map] at h
    obtain ⟨e, he, heq⟩ := List.mem_map.1 h
    cases heq
    exact ⟨e, he, rfl⟩
  · cases List.eq_of_mem_replicate h

/-- The stack that the tasks leave. A restoration of it writes the answer of the stopped task at
most, and the block of that answer is kept unless the plan is for the end of the task. -/
theorem rests_of_leftover {frames : List Placed} {left : Region} {given : Finset Nat}
    (hlayout : config.Layout) (hone : config.threads = 1)
    (htaken : Taking config start.blocks es s) (hsize : s.heap.size = config.heapSize)
    (hleft : Pool.Leftover crash config.site (queue config es) s.heap stack written frames next
      left) (hgiven : given ⊆ blocks (answered config next es)) :
    ∃ bytes, Rests config left bytes ∧ ∀ i ∈ bytes, ∃ n, n ≤ config.maxBlocks ∧
      i = n * (config.blockSize + 1) ∧
      (crash ≠ some ⟨.beforeFrameRemove, taskFunction⟩ → n ∈ blocks es \ given) := by
  rcases hleft.frames_cases with rfl | ⟨task, htask, hsuspends, hplan⟩
  · exact ⟨[], .idle (scan_of_written (List.cons_ne_nil _ _) hleft.stands) (Nat.le_refl _),
      fun _ hi => absurd hi List.not_mem_nil⟩
  · obtain ⟨e, he, rfl⟩ := mem_queue htask
    obtain ⟨hsite, hsuits⟩ : (e.task config).site 1 = config.site ∧
        (e.task config).Suits 1 0 config.heapSize := by
      cases htaken.queue_at hlayout hone hsize _ htask with
      | swap site_eq suits => exact ⟨site_eq, hsize ▸ suits⟩
    rw [htaken.answer_toNat he] at hplan
    refine ⟨_, .suspended hleft.stands hsuspends hsite hsuits, fun i hi => ?_⟩
    rw [List.mem_singleton.1 hi, htaken.answer_toNat he]
    refine ⟨e.block, (htaken.new e he).1, rfl, fun hne => Finset.mem_sdiff.2 ⟨mem_blocks he, ?_⟩⟩
    exact fun hmem => htaken.not_answered hlayout hleft (fun hwritten => hne (hplan hwritten))
      (hgiven hmem)

/-- Where tasks have run, the blocks of those without an answer are kept. Those of the others were
given back, and they are as many as the outcomes that were returned. -/
theorem aftermath_of_tasks {frames : List Placed} {left : Region} {given : Finset Nat}
    (hlayout : config.Layout) (hone : config.threads = 1)
    (h : Beginning config files start stack) (htaken : Taking config start.blocks es s)
    (hes : es.map Entry.transition = transitions)
    (hleft : Pool.Leftover crash config.site (queue config es) s.heap stack written frames next
      left) (hgiven : given ⊆ blocks (answered config next es))
    (hshifted : Shifted ⟨s.allocator, next⟩ t (s.allocator.taken \ given))
    (hexhausted : result = .error exhausted ↔
      config.maxBlocks + 1 < start.blocks.allocator.taken.card + transitions.length)
    (hresult : ∀ summary, result = .ok summary →
      (blocks es \ given).card + summary.outcomes.length = transitions.length) :
    ∃ bytes, Aftermath config files crash start result (blocks es \ given) left bytes
      { start with blocks := t, stackRegions := [left] } := by
  have hsize : s.heap.size = config.heapSize := htaken.size_eq.trans h.size_eq
  obtain ⟨bytes, hrests, hanswers⟩ := rests_of_leftover hlayout hone htaken hsize hleft hgiven
  have hlength : es.length = transitions.length := hes ▸ (List.length_map _).symm
  refine ⟨bytes, hshifted.recorded, hshifted.blockSize_eq.trans htaken.blockSize_eq,
    hshifted.maxBorder_eq.trans htaken.maxBorder_eq,
    hshifted.trailers.path_eq.trans (hleft.spares.path_eq.trans (htaken.path_eq.trans h.path_eq)),
    hshifted.trailers.size_eq.trans (hleft.spares.size_eq.trans hsize), ?_,
    htaken.disjoint.mono_right Finset.sdiff_subset, hexhausted, ?_, hresult, rfl, rfl,
    hleft.path_eq.trans h.stack_path, hleft.size_eq.trans h.stack_size, hrests, hanswers⟩
  · have hapart : Disjoint start.blocks.allocator.taken given :=
      htaken.disjoint.mono_right (hgiven.trans (blocks_answered_subset _ _ _))
    rw [hshifted.taken_eq, htaken.taken_eq, Finset.union_sdiff_distrib,
      Finset.sdiff_eq_self_of_disjoint hapart]
  · rw [← hlength, ← htaken.card_blocks]
    exact Finset.card_le_card Finset.sdiff_subset

/-- Where every block is taken, the reserved one is. -/
theorem recorded_of_full (h : s.allocator.Scanned s.heap)
    (hfull : s.allocator.taken.card = s.allocator.maxBorder + 1) :
    s.allocator.Recorded s.heap := by
  have hall : s.allocator.taken = Finset.range (s.allocator.maxBorder + 1) :=
    Finset.eq_of_subset_of_card_le (taken_subset h) (by rw [Finset.card_range, hfull])
  have hzero : 0 ∈ s.allocator.taken := hall ▸ Finset.mem_range.2 (Nat.succ_pos _)
  exact h.recorded (mem_taken.1 hzero).2

/-- Tasks that are prepared have found their blocks. -/
theorem Taking.not_exhausted (h : Taking config start.blocks es s)
    (hes : es.map Entry.transition = transitions) :
    ¬config.maxBlocks + 1 < start.blocks.allocator.taken.card + transitions.length := by
  have hcard := Finset.card_le_card (taken_subset h.scanned)
  rw [Finset.card_range, h.card_taken, h.maxBorder_eq] at hcard
  rw [← hes, List.length_map]
  exact Nat.not_lt.2 hcard

/-- **Every end of a run is told by what it keeps.** There are not enough blocks for all tasks, or
the queue is refused, or the tasks run and their answers are collected, up to a block that cannot be
given back. In each of them the kept blocks are some that the run itself has taken. -/
theorem Served.aftermath [Channels] {after : Bench} (hlayout : config.Layout)
    (hone : config.threads = 1) (hstack : 128 ≤ config.stackSize)
    (h : Beginning config files start stack)
    (hserved : Served config crash start stack result after) :
    ∃ kept left bytes, Aftermath config files crash start result kept left bytes after := by
  cases hserved with
  | @exhausted es s taking few full =>
    have hcard := taking.card_taken
    -- all blocks are taken, the reserved one as well, so that one is not on offer
    have hrecorded := recorded_of_full taking.scanned (full.trans (by rw [taking.maxBorder_eq]))
    refine ⟨_, _, _, aftermath_of_idle (by omega) h taking hrecorded (Nat.le_of_lt few) ?_ ?_⟩
    · exact ⟨fun _ => by omega, fun _ => rfl⟩
    · exact fun _ => nofun
  | @refused es s abort taking prepared capacity =>
    have hne : es ≠ [] := by
      rintro rfl
      cases prepared
    have hlength : es.length = transitions.length := prepared ▸ (List.length_map _).symm
    refine ⟨_, _, _, aftermath_of_idle (by omega) h taking (taking.recorded hne)
      (Nat.le_of_eq hlength) ?_ ?_⟩
    · exact ⟨nofun, fun hfull => absurd hfull (taking.not_exhausted prepared)⟩
    · exact fun _ => nofun
  | @stuck es s t written frames next left given taking prepared leftover reserved answered
      shifted =>
    refine ⟨_, _, aftermath_of_tasks hlayout hone h taking prepared leftover answered shifted
      ?_ ?_⟩
    · -- it stops in the collection, and all tasks had their blocks by then
      have hne : notGiven ≠ Workload.exhausted := by decide
      exact ⟨fun heq => absurd (Except.error.inj heq) hne,
        fun hfull => absurd hfull (taking.not_exhausted prepared)⟩
    · exact fun _ => nofun
  | @returned es s t written frames next left report current notes taking prepared run leftover
      shifted register =>
    refine ⟨_, _, aftermath_of_tasks hlayout hone h taking prepared leftover subset_rfl shifted
      ?_ ?_⟩
    · exact ⟨nofun, fun hfull => absurd hfull (taking.not_exhausted prepared)⟩
    · intro summary hok
      rw [← Except.ok.inj hok]
      -- the blocks that are kept and those that have an answer are all of them
      have hlength : es.length = transitions.length := prepared ▸ (List.length_map _).symm
      have hadd := Finset.card_sdiff_add_card_eq_card (blocks_answered_subset config next es)
      rw [taking.card_answered, taking.card_blocks, hlength] at hadd
      exact hadd

/-- **What a run leaves on the disk**, under any crash plan. The run ends in one of its ways and
closes its files, and the aftermath tells which blocks are then allocated and what a restoration may
write. -/
theorem exec_aftermath [Channels] (h : Starts config files fresh disk start)
    (crash : Option CrashPlan) :
    ∃ result kept stack bytes after, exec config files fresh crash disk = (result, after.close) ∧
      Aftermath config files crash start result kept stack bytes after := by
  obtain ⟨stack, hbegin⟩ := h.beginning
  obtain ⟨result, after, hrun, hserved⟩ :=
    serve_served h.check_eq h.layout h.threads_eq hbegin crash
  obtain ⟨kept, left, bytes, haftermath⟩ :=
    hserved.aftermath h.layout h.threads_eq (Config.stackSize_of_check h.check_eq) hbegin
  refine ⟨result, kept, left, bytes, after, ?_, haftermath⟩
  rw [exec_of_starts h crash, hrun]

/-! ## The files of a run -/

/-- The path to the heap leads there until the end, and no stack lies over it. -/
theorem Starts.places (h : Starts config files fresh disk start) :
    start.disk.Reaches files.heap ∧ (files.stack 0).place ≠ files.heap.place := by
  obtain ⟨heap, mid, hopen, -, wide, stack, hfolders, hcreate, -⟩ := h.opened
  obtain ⟨hreaches, -, -, tail, rfl⟩ := Disk.openOrCreate_eq_ok hopen
  obtain ⟨-, hfree, -, -, hdisk⟩ := Disk.create_eq_ok hcreate
  have hgrows := Disk.makeFolders_grows
    (disk.put files.heap { cells := heap.cells ++ tail, held := true }) files.stackFolder
  rw [hfolders] at hgrows
  have hfile : wide.files.find? files.heap.place
      = some { cells := heap.cells ++ tail, held := true } := by
    rw [hgrows.files_eq, Disk.find?_put, if_pos rfl]
  refine ⟨?_, fun hsame => ?_⟩
  · have hcontains : (disk.put files.heap
        { cells := heap.cells ++ tail, held := true }).files.contains files.heap.place = true := by
      rw [Table.contains, ← hgrows.files_eq, hfile]
      rfl
    rw [hdisk]
    exact (hgrows.reaches (hreaches.of_folders rfl) hcontains).of_folders rfl
  · -- the heap is held when the stack is made
    have hheld := hfree _ (hsame ▸ hfile)
    cases hheld

end Workload

end DurableCalls
