/-
`Served.lean` -- a run of the demonstration from the moment in which its files are open.

The run has opened its files (`Starts`); what it does then is `serve`, and closing comes last
(`exec_of_starts`). Four things may happen (`Served`): the blocks for the tasks run out; the
pool is refused its queue; a task has answered to the reserved block, which cannot be given
back; or there is a summary. Whatever a plan did to the tasks, the pool gives a report.
-/
import DurableCalls.Proofs.Config.Separation
import DurableCalls.Proofs.Disk.Reopening
import DurableCalls.Proofs.Pool.Leftover
import DurableCalls.Proofs.Workload.Answers

set_option autoImplicit false

namespace DurableCalls

open Region Allocator BlockHeap

/-- A stack of a configuration without fault has room for a root frame. -/
theorem Config.stackSize_of_check {c : Config} (h : c.check = .ok none) : 128 ≤ c.stackSize := by
  unfold check at h
  obtain ⟨-, h⟩ := passed h
  obtain ⟨-, h⟩ := passed h
  obtain ⟨-, h⟩ := passed h
  exact Nat.le_of_not_lt (passed h).1

namespace Workload

variable {config : Config} {files : Files} {fresh : Bool} {crash : Option CrashPlan}
  {disk : Disk} {start : Bench} {es : List Entry} {a : Allocator} {heap next stack : Region}
  {s : BlockHeap} {written : List Nat}

/-! ## The beginning -/

/-- Opens the files of a run with a single worker: heap and allocator, the register where they
are fresh, and an empty stack. -/
def setUp (config : Config) (files : Files) (fresh : Bool) (disk : Disk) : Option Bench :=
  match disk.openOrCreate files.heap config.heapSize fresh with
  | (.error _, _) => none
  | (.ok heap, disk) =>
    match attach config.blockSize config.maxBlocks fresh heap with
    | (.error _, _) => none
    | (.ok allocator, heap) =>
      match (if fresh then Register.init config.registerAt initialValue else pure ()) heap with
      | (.error _, _) => none
      | (.ok (), heap) =>
        match disk.makeFolders files.stackFolder with
        | (.error _, _) => none
        | (.ok (), disk) =>
          match disk.create (files.stack 0) config.stackSize with
          | (.error _, _) => none
          | (.ok stack, disk) =>
            some { disk, blocks := { allocator, heap }, stackRegions := [stack] }

/-- A run of a single worker has opened its files, and begins with the tasks. What it begins with is
computed by the workload itself (`setUp`). -/
structure Starts (config : Config) (files : Files) (fresh : Bool) (disk : Disk) (start : Bench) :
    Prop where
  check_eq : config.check = .ok none
  threads_eq : config.threads = 1
  setUp_eq : setUp config files fresh disk = some start

/-- What was opened: the heap first, on which the allocator is made and the register is put, and
then the folder and the file of the stack. -/
theorem Starts.opened (h : Starts config files fresh disk start) :
    ∃ heap mid, disk.openOrCreate files.heap config.heapSize fresh = (.ok heap, mid) ∧
      (∃ formatted,
        attach config.blockSize config.maxBlocks fresh heap
          = (.ok start.blocks.allocator, formatted) ∧
        (if fresh then Register.init config.registerAt initialValue else pure ()) formatted
          = (.ok (), start.blocks.heap)) ∧
      ∃ wide stack, mid.makeFolders files.stackFolder = (.ok (), wide) ∧
        wide.create (files.stack 0) config.stackSize = (.ok stack, start.disk) ∧
        start.stackRegions = [stack] := by
  have hrun := h.setUp_eq
  rw [setUp] at hrun
  rcases hopen : disk.openOrCreate files.heap config.heapSize fresh with ⟨_ | heap, mid⟩ <;>
    rw [hopen] at hrun <;> simp only at hrun
  · cases hrun
  rcases hattach : attach config.blockSize config.maxBlocks fresh heap with ⟨_ | a, formatted⟩ <;>
    rw [hattach] at hrun <;> simp only at hrun
  · cases hrun
  rcases hinit : (if fresh then Register.init config.registerAt initialValue else pure () :
      Run Region Unit) formatted with ⟨_ | _, ready⟩ <;>
    rw [hinit] at hrun <;> simp only at hrun
  · cases hrun
  rcases hfolders : mid.makeFolders files.stackFolder with ⟨_ | _, wide⟩ <;>
    rw [hfolders] at hrun <;> simp only at hrun
  · cases hrun
  rcases hcreate : wide.create (files.stack 0) config.stackSize with ⟨_ | stack, last⟩ <;>
    rw [hcreate] at hrun <;> simp only at hrun
  · cases hrun
  cases hrun
  exact ⟨heap, mid, rfl, ⟨formatted, hattach, hinit⟩, wide, stack, hfolders, hcreate, rfl⟩

/-- A small configuration, with blocks for four tasks. -/
def smallConfig : Config :=
  { heapSize := 128, maxBlocks := 4, registerAt := 64, matrixAt := 72, stackSize := 192 }

def smallFiles : Files := ⟨.ofText "heap", .ofText "stacks"⟩

theorem smallStart_isSome : (setUp smallConfig smallFiles true {}).isSome = true := by
  decide +kernel

/-- A run on an empty disk. -/
def smallStart : Bench := (setUp smallConfig smallFiles true {}).get smallStart_isSome

theorem smallStart_starts : Starts smallConfig smallFiles true {} smallStart :=
  ⟨rfl, rfl, (Option.some_get _).symm⟩

/-- What a run does with its tasks. -/
def settle [Channels] (config : Config) (crash : Option CrashPlan) (host : Host)
    (tasks : List SwapTask) : BenchRun ExecSummary := do
  let reads := List.replicate readCount (Task.read (UInt64.ofNat config.registerAt))
  let bench ← get
  let reports ← takeBack [] <|
    Pool.run host (crash.map (·.hook)) config.queueCapacity (tasks.map .swap ++ reads)
      bench.blocks.heap bench.stackRegions
  let outcomes ← tasks.filterMapM collect
  return { reports, outcomes, register := ← currentRegister config }

/-- What a run does over open files. -/
def serve [Channels] (config : Config) (crash : Option CrashPlan) (host : Host) :
    BenchRun ExecSummary := do
  settle config crash host (← transitions.mapM (prepare config))

theorem hostOf_one (hcheck : config.check = .ok none) (hone : config.threads = 1) (mode : Mode) :
    hostOf config mode = .ok (soleHost mode) := by
  rw [hostOf, hcheck, hone]
  exact congrArg (orStop []) (congrArg _ (withBuiltins_one mode))

/-- **A run that has started serves, and closes its files.** What comes before is opening them, and
`Starts` says what is open then. So the rest is told of the open files alone. -/
theorem exec_of_starts [Channels] (h : Starts config files fresh disk start)
    (crash : Option CrashPlan) :
    exec config files fresh crash disk
      = ((serve config crash (soleHost .execution) start).1,
        (serve config crash (soleHost .execution) start).2.close) := by
  obtain ⟨heap, mid, hopen, ⟨formatted, hattach, hinit⟩, wide, stack, hfolders, hcreate,
    hregions⟩ := h.opened
  -- the heap is open, and then the folder of the stacks is there as well
  let mapped : Bench := ⟨mid, start.blocks, []⟩
  let ready : Bench := ⟨wide, start.blocks, []⟩
  have hone : (openStack ["failed to create stack " ++ (files.stack 0).text] fun disk =>
        disk.create (files.stack 0) config.stackSize) ready = (.ok (), start) := by
    refine (bindState_of_ok (a := ready) rfl).trans ?_
    simp only [ready, hcreate]
    refine (bindState_of_ok rfl).trans ?_
    cases start
    cases hregions
    rfl
  have hstack : (forWorkers (fun id =>
        openStack ["failed to create stack " ++ (files.stack id).text] fun disk =>
          disk.create (files.stack id) config.stackSize) 0 config.threads : BenchRun Unit)
      ready = (.ok (), start) := by
    rw [h.threads_eq, forWorkers, bindState_of_ok hone]
    rfl
  have hover : execOver config files fresh crash (soleHost .execution)
      ⟨mid, ⟨start.blocks.allocator, formatted⟩, []⟩
      = serve config crash (soleHost .execution) start := by
    -- only a new heap gets its register
    cases fresh
    case' false =>
      have hheap : formatted = start.blocks.heap := congrArg Prod.snd hinit
      rw [execOver, if_neg Bool.false_ne_true, hheap]
    case' true => rw [execOver, if_pos rfl, bindState_of_ok (onHeap_of_ok hinit)]
    all_goals
      refine (bindState_of_ok (a := mapped) rfl).trans ?_
      simp only [mapped, hfolders]
      exact (bindState_of_ok rfl).trans (bindState_of_ok hstack)
  rw [exec, hostOf_one h.check_eq h.threads_eq]
  simp only [withHeap, hopen, hattach]
  rw [hover]
  rfl

/-- The blocks and the places of the swaps lie apart, for a run that has started. -/
theorem Starts.layout (h : Starts config files fresh disk start) : config.Layout := by
  obtain ⟨heap, mid, hopen, -⟩ := h.opened
  obtain ⟨-, -, hsize, -⟩ := Disk.openOrCreate_eq_ok hopen
  exact .of_check h.check_eq (hsize ▸ heap.size_lt)

/-- A register gets its first value, and the bytes before it stay. -/
theorem init_leaves {formatted : Region} {value : UInt32} (hlayout : config.Layout)
    (hsize : formatted.size = config.heapSize)
    (h : Register.init config.registerAt value formatted = (.ok (), heap)) :
    heap.path = formatted.path ∧ Agree 0 config.registerAt formatted heap := by
  have hline : config.registerAt % lineSize = 0 := hlayout.fits.line
  have hin : config.registerAt + 8 ≤ formatted.size := hsize ▸ hlayout.fits.register_in
  rw [Register.init_of_fits _ hline hin] at h
  obtain ⟨-, rfl⟩ := Prod.mk.inj h
  refine ⟨path_put _ _ _, agree_put ?_ (.inl (Nat.le_refl _))⟩
  rw [length_toBytes]
  exact hin

/-- The trailers are among the blocks. -/
theorem trailerStart_lt_span {n : Nat} (hlayout : config.Layout)
    (hblock : a.blockSize = config.blockSize) (hmax : a.maxBorder = config.maxBlocks)
    (hn : n ≤ a.maxBorder) : a.trailerStart n < config.span := by
  refine Nat.lt_of_lt_of_le (a.trailerStart_lt_blockStart (Nat.lt_succ_of_le hn)) ?_
  rw [blockStart, hblock, hmax, hlayout.span_eq]

/-- What a run begins with: the open heap with its allocator, and one new stack of zeros. The
trailers of the heap may still be what any program has left there. -/
structure Beginning (config : Config) (files : Files) (start : Bench) (stack : Region) : Prop where
  scanned : start.blocks.allocator.Scanned start.blocks.heap
  blockSize_eq : start.blocks.allocator.blockSize = config.blockSize
  maxBorder_eq : start.blocks.allocator.maxBorder = config.maxBlocks
  path_eq : start.blocks.heap.path = files.heap
  size_eq : start.blocks.heap.size = config.heapSize
  regions_eq : start.stackRegions = [stack]
  stack_path : stack.path = files.stack 0
  stack_size : stack.size = config.stackSize
  blank : stack.Blank

/-- **How a run begins.** The heap that was opened is read by the allocator or formatted for it, the
register lies behind the blocks, and the stack is new and empty. -/
theorem Starts.beginning (h : Starts config files fresh disk start) :
    ∃ stack, Beginning config files start stack := by
  have hlayout := h.layout
  obtain ⟨heap, mid, hopen, ⟨formatted, hattach, hinit⟩, wide, stack, -, hcreate, hregions⟩ :=
    h.opened
  obtain ⟨-, hpath, hsize, -⟩ := Disk.openOrCreate_eq_ok hopen
  obtain ⟨-, -, hstackPath, hcells, -⟩ := Disk.create_eq_ok hcreate
  have hblank : stack.Blank := fun i hi => by
    rw [Region.size, hcells, Array.size_replicate] at hi
    rw [hcells, Array.getElem?_replicate, if_pos hi]
  have hstackSize : stack.size = config.stackSize := by
    rw [Region.size, hcells, Array.size_replicate]
  cases fresh with
  | false =>
    obtain ⟨hsame, hblock, hmax, hscanned⟩ := attach_scanned hattach
    have hheap : formatted = start.blocks.heap := congrArg Prod.snd hinit
    rw [← hsame, hheap] at hpath hsize
    rw [← hsame, hheap] at hscanned
    exact ⟨stack, hscanned, hblock, hmax, hpath, hsize, hregions, hstackPath, hstackSize, hblank⟩
  | true =>
    have htracks := tracks_of_attach hattach
    obtain ⟨hpayload, hspan⟩ := fits_of_attach hattach
    rw [attach_empties hpayload hspan] at hattach
    obtain ⟨-, rfl⟩ := Prod.mk.inj hattach
    rw [← size_put heap _ _] at hsize
    -- the register is written behind the blocks, so the trailers stay
    obtain ⟨hpath', hagree⟩ := init_leaves hlayout hsize hinit
    have hrecorded := htracks.recorded.of_trailers hagree.1 fun n hn =>
      hagree.2 _ (Nat.zero_le _) ((trailerStart_lt_span hlayout htracks.blockSize_eq
        htracks.maxBorder_eq (hn.trans htracks.recorded.border_le)).trans_le
          hlayout.register_behind)
    exact ⟨stack, hrecorded.scanned, htracks.blockSize_eq, htracks.maxBorder_eq,
      hpath'.trans hpath, hagree.1.trans hsize, hregions, hstackPath, hstackSize, hblank⟩

/-! ## The tasks -/

/-- The tasks of entries, and the reads behind them. -/
def queue (config : Config) (es : List Entry) : List Task :=
  (es.map (Entry.task config)).map .swap
    ++ List.replicate readCount (.read (UInt64.ofNat config.registerAt))

theorem toNat_ofNat_of_le {n : Nat} (h : n ≤ heap.size) : (UInt64.ofNat n).toNat = n :=
  UInt64.toNat_ofNat_of_lt' (by
    have hlt := heap.size_lt
    rw [← Region.size] at hlt
    simp only [sizeLimit, UInt64.size] at *
    omega)

/-- The register of the configuration, as the tasks name it. -/
theorem register_toNat (hlayout : config.Layout) (hsize : heap.size = config.heapSize) :
    (UInt64.ofNat config.registerAt).toNat = config.site.register :=
  toNat_ofNat_of_le (Nat.le_of_add_right_le (hsize ▸ hlayout.fits.register_in))

/-- A task swaps where the configuration says. -/
theorem Entry.site_eq (hlayout : config.Layout) (hone : config.threads = 1)
    (hsize : heap.size = config.heapSize) (e : Entry) : (e.task config).site 1 = config.site := by
  have hmatrix : (UInt64.ofNat config.matrixAt).toNat = config.matrixAt :=
    toNat_ofNat_of_le (Nat.le_of_add_right_le (hsize ▸ hlayout.fits.matrix_in))
  rw [SwapTask.site, Config.site, hone]
  exact congrArg₂ Site.mk (register_toNat hlayout hsize) (congrArg (Matrix.mk · 1) hmatrix)

namespace Taking

variable {first : BlockHeap} {e : Entry}

theorem answer_toNat (h : Taking config first es s) (he : e ∈ es) :
    (e.task config).answer.toNat = e.start config :=
  Entry.answer_toNat h.scanned.fits h.blockSize_eq (h.maxBorder_eq ▸ (h.new e he).1)

theorem size_eq (h : Taking config first es s) : s.heap.size = first.heap.size :=
  (h.behind _ 0 (Nat.le_refl _)).1

/-- A block is among the blocks of the heap. -/
theorem start_lt (h : Taking config first es s) (hlayout : config.Layout) (he : e ∈ es) :
    e.start config < config.span := by
  rw [Entry.start_eq h.blockSize_eq]
  exact Nat.lt_of_le_of_lt (s.allocator.blockStart_le_trailerStart e.block)
    (trailerStart_lt_span hlayout h.blockSize_eq h.maxBorder_eq
      (h.maxBorder_eq ▸ (h.new e he).1))

/-- Each task answers to the start of its block. -/
theorem queue_answers (h : Taking config first es s) :
    (queue config es).flatMap Task.answers = es.map (Entry.start config) := by
  have hreads : (List.replicate readCount (Task.read (UInt64.ofNat config.registerAt))).flatMap
      Task.answers = [] := rfl
  rw [queue, List.flatMap_append, hreads, List.append_nil, List.map_map, List.flatMap_map,
    List.map_eq_flatMap]
  exact List.flatMap_congr fun e he => congrArg (fun n => [n]) (h.answer_toNat he)

theorem starts_nodup (h : Taking config first es s) : (es.map (Entry.start config)).Nodup := by
  have hstarts : es.map (Entry.start config)
      = (es.map Entry.block).map fun n => n * (config.blockSize + 1) := by
    rw [List.map_map]
    rfl
  rw [hstarts]
  exact h.nodup.map fun n k heq => Nat.eq_of_mul_eq_mul_right (Nat.succ_pos _) heq

/-- Every task is one at the register and the matrix of the configuration. -/
theorem queue_at (h : Taking config first es s) (hlayout : config.Layout)
    (hone : config.threads = 1) (hsize : s.heap.size = config.heapSize) :
    ∀ task ∈ queue config es, task.At config.site 1 0 s.heap.size := by
  have hfits : config.site.FitsIn s.heap.size := hsize ▸ hlayout.fits
  intro task htask
  rcases List.mem_append.1 htask with htask | htask
  · rw [List.map_map] at htask
    obtain ⟨e, he, rfl⟩ := List.mem_map.1 htask
    have hsite := e.site_eq hlayout hone hsize
    refine .swap hsite ⟨hsite ▸ hfits, hsite ▸ hlayout.aligned, by decide, ?_⟩
    rw [h.answer_toNat he, hsize]
    exact Nat.le_trans (h.start_lt hlayout he) hlayout.span_in
  · rw [List.eq_of_mem_replicate htask]
    exact .read (register_toNat hlayout hsize) hfits

end Taking

/-! ## The ends of a run -/

/-- **How a run over open files ends, and where.** The ends are in the order in which a run can come
to them, each with what was done up to there; together they are all ends (`serve_served`). -/
inductive Served [Channels] (config : Config) (crash : Option CrashPlan) (start : Bench)
    (stack : Region) : Except Stop ExecSummary → Bench → Prop
  /-- There is no block for a task. -/
  | exhausted {es : List Entry} {s : BlockHeap} (taking : Taking config start.blocks es s)
      (few : es.length < transitions.length)
      (full : s.allocator.taken.card = config.maxBlocks + 1) :
      Served config crash start stack (.error exhausted) { start with blocks := s }
  /-- The queue of the pool cannot be made. -/
  | refused {es : List Entry} {s : BlockHeap} {abort : Abort}
      (taking : Taking config start.blocks es s) (prepared : es.map Entry.transition = transitions)
      (capacity : Channels.bounded config.queueCapacity = .error abort) :
      Served config crash start stack (.error (.aborted abort)) { start with blocks := s }
  /-- The tasks have run, and the block of an answer cannot be given back. -/
  | stuck {es : List Entry} {s t : BlockHeap} {written : List Nat} {frames : List Placed}
      {next left : Region} {given : Finset Nat} (taking : Taking config start.blocks es s)
      (prepared : es.map Entry.transition = transitions)
      (leftover : Pool.Leftover crash config.site (queue config es) s.heap stack written frames
        next left)
      (reserved : 0 ∈ blocks es)
      (answered : given ⊆ blocks (answered config next es))
      (shifted : Shifted ⟨s.allocator, next⟩ t (s.allocator.taken \ given)) :
      Served config crash start stack (.error notGiven)
        { start with blocks := t, stackRegions := [left] }
  | returned {es : List Entry} {s t : BlockHeap} {written : List Nat} {frames : List Placed}
      {next left : Region} {report : WorkerReport} {current : Register} {notes : List Note}
      (taking : Taking config start.blocks es s)
      (prepared : es.map Entry.transition = transitions)
      (run : Pool.run (soleHost .execution) (crash.map (·.hook)) config.queueCapacity
          (queue config es) s.heap [stack]
        = { result := .ok [report], heap := next, stackRegions := [left], notes })
      (leftover : Pool.Leftover crash config.site (queue config es) s.heap stack written frames
        next left)
      (shifted : Shifted ⟨s.allocator, next⟩ t
        (s.allocator.taken \ blocks (Workload.answered config next es)))
      (register : Register.load t.heap config.registerAt = .ok current) :
      Served config crash start stack
        (.ok ⟨[report], es.filterMap (Entry.outcome? config next), current⟩)
        { start with blocks := t, stackRegions := [left] }

/-- Writes to the register, to the matrix and to the starts of blocks leave the trailers. -/
theorem recorded_of_spares (hlayout : config.Layout) (h : a.Recorded heap)
    (hblock : a.blockSize = config.blockSize) (hmax : a.maxBorder = config.maxBlocks)
    (hspares : config.site.Spares written heap next)
    (hstarts : ∀ i ∈ written, ∃ n, i = n * (config.blockSize + 1)) : a.Recorded next := by
  refine h.of_trailers hspares.size_eq fun n hn => ?_
  have hlt : a.trailerStart n < config.span :=
    trailerStart_lt_span hlayout hblock hmax (hn.trans h.border_le)
  refine hspares.same _ ⟨.inl (Nat.le_trans hlt hlayout.register_behind),
    .inl (Nat.le_trans hlt hlayout.matrix_behind)⟩ fun hmem => ?_
  -- a block has a payload before its trailer
  obtain ⟨k, hk⟩ := hstarts _ hmem
  have hpayload := h.fits.payload
  have hmod : a.trailerStart n % (a.blockSize + 1) = a.blockSize := by
    rw [trailerStart, blockStart, Nat.mul_add_mod', Nat.mod_eq_of_lt (Nat.lt_succ_self _)]
  rw [hk, ← hblock, Nat.mul_mod_left] at hmod
  omega

theorem takeBack_of_eq {α : Type} {r : Pool.Result α} {result : Except Halt α}
    {regions : List Region} {notes : List Note} (during : List String) (bench : Bench)
    (h : r = ⟨result, heap, regions, notes⟩) :
    takeBack during r bench = (orStop during result,
      { bench with blocks.heap := heap, stackRegions := regions }) := by
  rw [h]
  cases result <;> rfl

theorem currentRegister_of_load {bench : Bench} {current : Register}
    (h : Register.load bench.blocks.heap config.registerAt = .ok current) :
    currentRegister config bench = (.ok current, bench) := by
  refine (bindState_of_ok (a := bench) rfl).trans ?_
  rw [h]
  rfl

/-- The heap that the tasks leave has the allocator that it had before them. -/
theorem recorded_of_leftover {frames : List Placed} {left : Region} (hlayout : config.Layout)
    (htaken : Taking config start.blocks es s) (hes : es.map Entry.transition = transitions)
    (hleft : Pool.Leftover crash config.site (queue config es) s.heap stack written frames next
      left) : s.allocator.Recorded next := by
  have hne : es ≠ [] := by
    rintro rfl
    cases hes
  refine recorded_of_spares hlayout (htaken.recorded hne) htaken.blockSize_eq htaken.maxBorder_eq
    hleft.spares fun i hi => ?_
  obtain ⟨e, -, rfl⟩ := List.mem_map.1 (htaken.queue_answers ▸ hleft.written_subset hi)
  exact ⟨e.block, rfl⟩

/-- **The tasks run, and the answers are collected**, unless the queue of the pool is refused. What
the pool leaves is told by `Pool.run_leaves`; the allocator is still recorded in it, as no answer
lies on a trailer. -/
theorem settle_served [Channels] (hcheck : config.check = .ok none) (hlayout : config.Layout)
    (hone : config.threads = 1) (h : Beginning config files start stack)
    (htaken : Taking config start.blocks es s) (hes : es.map Entry.transition = transitions)
    (crash : Option CrashPlan) :
    ∃ result after, settle config crash (soleHost .execution) (es.map (Entry.task config))
        { start with blocks := s } = (result, after) ∧
      Served config crash start stack result after := by
  have hsize : s.heap.size = config.heapSize := htaken.size_eq.trans h.size_eq
  have hnodup : ((queue config es).flatMap Task.answers).Nodup :=
    htaken.queue_answers ▸ htaken.starts_nodup
  have hroom : 128 ≤ stack.size := h.stack_size ▸ Config.stackSize_of_check hcheck
  have hserves : (soleHost .execution).Serves := serves_of_addBuiltins
  rcases Pool.run_leaves hserves rfl hroom (htaken.queue_at hlayout hone hsize)
    hnodup crash config.queueCapacity with ⟨abort, hcapacity, hrun⟩
      | ⟨hcapacity, report, written, frames, next, left, notes, hrun, hleft⟩
  · -- no queue, no pool: the run ends with the reason
    refine ⟨_, _, ?_, .refused htaken hes hcapacity⟩
    rw [← h.regions_eq] at hrun
    refine (bindState_of_ok (a := { start with blocks := s }) rfl).trans ?_
    exact bindState_of_error (takeBack_of_eq [] { start with blocks := s } hrun)
  · have hrun' := hrun
    rw [← h.regions_eq] at hrun'
    have hback := takeBack_of_eq [] { start with blocks := s } hrun'
    -- the tasks have written to the register, the matrix and the starts of blocks
    have hrecorded : s.allocator.Recorded next := recorded_of_leftover hlayout htaken hes hleft
    let ran : Bench := { start with blocks := ⟨s.allocator, next⟩, stackRegions := [left] }
    have hran : Shifted ⟨s.allocator, next⟩ ran.blocks s.allocator.taken :=
      shifted_of_recorded hrecorded
    have hblock : (BlockHeap.mk s.allocator next).allocator.blockSize = config.blockSize :=
      htaken.blockSize_eq
    rcases collectAll_finishes hlayout.payload hblock es hran htaken.nodup
        (fun e he => htaken.taken_eq ▸ Finset.mem_union_right _ (mem_blocks he)) with
      ⟨outcomes, last, hcollect, rfl, t, rfl, hshifted⟩
      | ⟨stop, last, hcollect, hzero, rfl, t, given, hgiven, rfl, hshifted⟩
    · have hsize' : t.heap.size = config.heapSize :=
        hshifted.trailers.size_eq.trans (hleft.spares.size_eq.trans hsize)
      have hfits : config.site.FitsIn t.heap.size := hsize' ▸ hlayout.fits
      obtain ⟨current, cells, hshows⟩ := hfits.exists_shows
      refine ⟨_, _, ?_, .returned htaken hes hrun hleft hshifted hshows.load_register⟩
      refine (bindState_of_ok (a := { start with blocks := s }) rfl).trans ?_
      refine (bindState_of_ok hback).trans ((bindState_of_ok hcollect).trans ?_)
      exact bindState_of_ok (currentRegister_of_load hshows.load_register)
    · -- the reserved block was among those that were handed out
      refine ⟨_, _, ?_, .stuck htaken hes hleft hzero hgiven hshifted⟩
      refine (bindState_of_ok (a := { start with blocks := s }) rfl).trans ?_
      exact (bindState_of_ok hback).trans (bindState_of_error hcollect)

theorem serve_served [Channels] (hcheck : config.check = .ok none) (hlayout : config.Layout)
    (hone : config.threads = 1) (h : Beginning config files start stack)
    (crash : Option CrashPlan) :
    ∃ result after, serve config crash (soleHost .execution) start = (result, after) ∧
      Served config crash start stack result after := by
  have htaking := taking_nil h.scanned h.blockSize_eq h.maxBorder_eq
  rcases prepareAll_finishes transitions htaking with ⟨tasks, mid, hprepare, es, s, hes, rfl, rfl,
      htaken⟩ | ⟨stop, mid, hprepare, rfl, es, s, hfew, rfl, htaken, hfull⟩
  · rw [List.nil_append] at htaken
    obtain ⟨result, after, hrun, hserved⟩ :=
      settle_served hcheck hlayout hone h htaken hes crash
    exact ⟨result, after, (bindState_of_ok hprepare).trans hrun, hserved⟩
  · rw [List.nil_append] at htaken
    exact ⟨_, _, bindState_of_error hprepare, .exhausted htaken hfew hfull⟩

end Workload

end DurableCalls
