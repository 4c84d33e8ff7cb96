/-
`Sequential.lean` -- a run that nothing stops.

Its tasks run one after the other. Each swaps the register if the register has the value that
it expects, and answers whether it has (`Calm.swap`); so all of them together do what the
swaps do to a value, one after the other (`drain_calm`). Then every task has its answer, every
block goes back, and the allocator is the one with which the run began
(`exec_sequential`).
-/
import DurableCalls.Proofs.Workload.Restored

set_option autoImplicit false

namespace DurableCalls

open Region Allocator BlockHeap Context

namespace Workload

/-! ## Swaps of a value -/

/-- The outcomes of swaps that are applied to a value, one after the other. -/
def outcomesFrom : (value : UInt32) → List (UInt32 × UInt32) → List Outcome
  | _, [] => []
  | value, (expected, new) :: rest =>
    if value = expected then ⟨expected, new, true⟩ :: outcomesFrom new rest
    else ⟨expected, new, false⟩ :: outcomesFrom value rest

/-- The value that they leave. -/
def valueAfter : (value : UInt32) → List (UInt32 × UInt32) → UInt32
  | value, [] => value
  | value, (expected, new) :: rest => valueAfter (if value = expected then new else value) rest

theorem outcomesFrom_cons (value expected new : UInt32) (rest : List (UInt32 × UInt32)) :
    outcomesFrom value ((expected, new) :: rest)
      = ⟨expected, new, decide (value = expected)⟩
        :: outcomesFrom (if value = expected then new else value) rest := by
  by_cases h : value = expected
  · rw [outcomesFrom, if_pos h, if_pos h, decide_eq_true h]
  · rw [outcomesFrom, if_neg h, if_neg h, decide_eq_false h]

theorem length_outcomesFrom : ∀ (ts : List (UInt32 × UInt32)) (value : UInt32),
    (outcomesFrom value ts).length = ts.length
  | [], _ => rfl
  | (expected, new) :: rest, value => by
    rw [outcomesFrom]
    split
    · rw [List.length_cons, length_outcomesFrom rest new, List.length_cons]
    · rw [List.length_cons, length_outcomesFrom rest value, List.length_cons]

variable {config : Config} {files : Files} {fresh : Bool} {disk : Disk} {start : Bench}
  {site : Site} {heap : Region} {current : Register} {ctx : Context} {t : SwapTask}

/-! ## One task -/

/-- The only worker, between two tasks, with nothing to stop it; and what the register holds,
which nobody else has written. -/
structure Calm (site : Site) (heap : Region) (current : Register) (ctx : Context) : Prop where
  idle : Idle (soleHost .execution) 0 heap ctx
  hook_eq : ctx.hook = none
  shows : ∃ cells, site.Shows heap current cells
  owner : current.owner = Register.noOwner ∨ current.owner = 0

namespace Calm

/-- What a swap of this worker leaves in the register. -/
def next (current : Register) (t : SwapTask) : Register :=
  if current.value = t.swap.expected then ⟨0, t.swap.new⟩ else current

/-- What the swap alone leaves. -/
theorem attempt (h : Calm site heap current ctx) (hal : site.Aligned) (hsite : t.site 1 = site) :
    ∃ swapped, (t.swapBy 1 0).attempt heap
        = (.ok (decide (current.value = t.swap.expected)), swapped) ∧
      (∃ cells, site.Shows swapped (next current t) cells) ∧
      ∀ bytes, site.Spares bytes heap swapped := by
  obtain ⟨cells, hshows⟩ := h.shows
  have hswap : (t.swapBy 1 0).site = site := hsite
  rw [← hswap] at hshows hal ⊢
  have hthread : (t.swapBy 1 0).thread < (t.swapBy 1 0).matrix.threads :=
    show (0 : UInt32) < 1 by decide
  have howned : (t.swapBy 1 0).Owned current := h.owner.imp_right fun hzero => by
    rw [hzero]
    exact hthread
  have hrun := Swap.attempt_apply hshows hthread howned (.inr hal)
  refine ⟨_, hrun, ?_, fun _ => Swap.spares_writes hshows.fits hthread howned⟩
  rcases Swap.attempt_cases hshows hthread howned with ⟨hvalue, hrun'⟩
    | ⟨hvalue, -, after, hrun', hafter, -⟩ | ⟨-, hnote, -⟩
  · obtain ⟨-, hsame⟩ := Prod.mk.inj (hrun.symm.trans hrun')
    rw [hsame, next, if_neg (show ¬current.value = t.swap.expected from hvalue)]
    exact ⟨cells, hshows⟩
  · obtain ⟨-, hsame⟩ := Prod.mk.inj (hrun.symm.trans hrun')
    rw [hsame, next, if_pos (show current.value = t.swap.expected from hvalue)]
    exact ⟨_, hafter⟩
  · exact absurd (.inr hal) hnote

/-- **A task swaps and answers**, and touches nothing else. Nobody stops it, and nobody else has
written the register, so its answer tells whether the register held what it expects. -/
theorem swap (h : Calm site heap current ctx) (hal : site.Aligned) (hsite : t.site 1 = site)
    (hin : t.answer.toNat + 1 ≤ heap.size)
    (hbeside : site.Beside t.answer.toNat (t.answer.toNat + 1)) :
    ∃ after settled, Context.dispatch (.swap t) ctx = (.ok (), after) ∧
      Calm site settled (next current t) after ∧ site.Spares [t.answer.toNat] heap settled ∧
      settled.cells[t.answer.toNat]?
        = some (answerOf (decide (current.value = t.swap.expected))) := by
  obtain ⟨swapped, hattempt, ⟨cells, hshows⟩, hspares⟩ := h.attempt hal hsite
  rw [← (hspares []).size_eq] at hin
  have hsettles : t.Settles 1 0 false heap swapped (decide (current.value = t.swap.expected)) :=
    ⟨hattempt, hin⟩
  -- nothing stops the task, because there is no plan
  obtain ⟨⟨⟩, after, hrun, hnone, hidle⟩ | ⟨-, -, -, -, hsome, -⟩ := h.idle.dispatch hsettles
  case inr => exact absurd h.hook_eq hsome
  have hcell := getElem?_overwrite swapped.cells t.answer.toNat
    (Builtin.verdict (decide (current.value = t.swap.expected))) hin t.answer.toNat
  rw [if_pos ⟨Nat.le_refl _, Nat.lt_succ_self _⟩, Nat.sub_self] at hcell
  refine ⟨after, _, hrun, ⟨hidle, hnone h.hook_eq, ⟨cells, ?_⟩, ?_⟩, ?_, hcell⟩
  · exact hshows.put_beside hin hbeside.register hbeside.matrix
  · rw [next]
    split
    · exact .inr rfl
    · exact h.owner
  · have hput := (hspares []).put ((hspares []).size_eq ▸ hin)
      (answerOf (decide (current.value = t.swap.expected)))
    exact hput

/-- A task that reads leaves everything. -/
theorem read {register : UInt64} (h : Calm site heap current ctx)
    (hregister : register.toNat = site.register) :
    ∃ after, Context.dispatch (.read register) ctx = (.ok (), after) ∧
      Calm site heap current after := by
  obtain ⟨cells, hshows⟩ := h.shows
  have hworking : Working (soleHost .execution) 0 none ctx.stack.region [rootFrame] heap ctx :=
    ⟨h.idle.stands, h.hook_eq, rfl, rfl⟩
  obtain ⟨after, hrun, hafter⟩ := hworking.dispatch_read hregister hshows.fits
  refine ⟨after, hrun, ⟨h.idle.serves, hafter.stands, ?_⟩, hafter.hook_eq, ⟨cells, hshows⟩, h.owner⟩
  rw [hafter.size_eq]
  exact h.idle.room

end Calm

/-! ## All tasks -/

theorem outcome?_of_answer {e : Entry} {yes : Bool}
    (h : heap.cells[e.start config]? = some (answerOf yes)) :
    e.outcome? config heap = some ⟨e.transition.1, e.transition.2, yes⟩ := by
  rw [Entry.outcome?, h]
  cases yes <;> rfl

theorem value_next (current : Register) (e : Entry) :
    (Calm.next current (e.task config)).value
      = if current.value = e.transition.1 then e.transition.2 else current.value := by
  rw [Calm.next]
  exact apply_ite Register.value _ _ _

/-- A task whose answer is a byte of its own, beside the register and the matrix. -/
structure Entry.At (config : Config) (site : Site) (size : Nat) (e : Entry) : Prop where
  site_eq : (e.task config).site 1 = site
  answer_eq : (e.task config).answer.toNat = e.start config
  answer_in : e.start config + 1 ≤ size
  beside : site.Beside (e.start config) (e.start config + 1)

/-- **All swaps, and then the rest.** The induction is on the tasks: each finds in the register what
the one before has left, and the answers of those before it lie beside what it writes. -/
theorem drain_calm (hal : site.Aligned) : ∀ (es : List Entry) {before : Region} {current : Register}
    {ctx : Context} {report : WorkerReport}, Calm site before current ctx →
    (∀ e ∈ es, e.At config site before.size) → (es.map (Entry.start config)).Nodup →
    report.crashed = false → ∀ rest : List Task, ∃ after final last,
      Worker.drain ctx report ((es.map (Entry.task config)).map .swap ++ rest)
        = Worker.drain after { report with completed := report.completed + es.length } rest ∧
      Calm site final last after ∧
      last.value = valueAfter current.value (es.map Entry.transition) ∧
      site.Spares (es.map (Entry.start config)) before final ∧
      es.filterMap (Entry.outcome? config final)
        = outcomesFrom current.value (es.map Entry.transition)
  | [], before, current, ctx, report, h, _, _, _, rest =>
    ⟨ctx, before, current, rfl, h, rfl, .refl, rfl⟩
  | e :: es, before, current, ctx, report, h, hat, hnodup, hreport, rest => by
    obtain ⟨hnotin, hnodup'⟩ := List.nodup_cons.1 hnodup
    have he := hat e List.mem_cons_self
    obtain ⟨mid, settled, hrun, hcalm, hspares, hcell⟩ := h.swap hal he.site_eq
      (he.answer_eq.symm ▸ he.answer_in) (he.answer_eq.symm ▸ he.beside)
    rw [he.answer_eq] at hspares hcell
    have hat' : ∀ e' ∈ es, e'.At config site settled.size := fun e' he' =>
      hspares.size_eq.symm ▸ hat e' (List.mem_cons_of_mem _ he')
    have hreport' : { report with completed := report.completed + 1 }.crashed = false := hreport
    obtain ⟨after, final, last, hdrain, hlast, hvalue, hspares', houtcomes⟩ :=
      drain_calm hal es hcalm hat' hnodup' hreport' rest
    -- the answer stays while the other tasks run
    have hanswer := outcome?_of_answer ((hspares'.same _ he.beside hnotin).trans hcell)
    refine ⟨after, final, last, ?_, hlast, ?_, ?_, ?_⟩
    · rw [List.map_cons, List.map_cons, List.cons_append, Worker.drain_cons_of_ok hreport hrun,
        hdrain, List.length_cons]
      simp only [Nat.add_assoc, Nat.add_comm 1]
    · rw [hvalue, value_next]
      rfl
    · rw [List.map_cons]
      exact (hspares.mono (List.cons_subset_cons _ (List.nil_subset _))).trans
        (hspares'.mono (List.subset_cons_self _ _))
    · rw [List.filterMap_cons, hanswer, houtcomes, value_next]
      exact (outcomesFrom_cons _ _ _ _).symm

/-- **The reads**, which leave everything. They come behind the swaps in the queue, so the heap at
the end of the run is the one that the swaps have left. -/
theorem drain_reads {register : UInt64} (hregister : register.toNat = site.register) :
    ∀ (n : Nat) {ctx : Context} {report : WorkerReport}, Calm site heap current ctx →
    report.crashed = false → ∃ after,
      Worker.drain ctx report (List.replicate n (.read register))
        = ⟨.ok { report with completed := report.completed + n }, after, []⟩ ∧
      Calm site heap current after
  | 0, ctx, report, h, _ => ⟨ctx, rfl, h⟩
  | n + 1, ctx, report, h, hreport => by
    obtain ⟨mid, hrun, hmid⟩ := h.read hregister
    have hreport' : { report with completed := report.completed + 1 }.crashed = false := hreport
    obtain ⟨after, hdrain, hafter⟩ := drain_reads hregister n hmid hreport'
    refine ⟨after, ?_, hafter⟩
    rw [List.replicate_succ, Worker.drain_cons_of_ok hreport hrun, hdrain]
    simp only [Nat.add_assoc, Nat.add_comm 1]

/-! ## The pool -/

section Run

variable {first s : BlockHeap} {es : List Entry} {stack : Region} {capacity : Nat}

/-- The blocks that are taken lie beside the register and the matrix. -/
theorem Taking.entry_at (h : Taking config first es s) (hlayout : config.Layout)
    (hone : config.threads = 1) (hsize : s.heap.size = config.heapSize) {e : Entry} (he : e ∈ es) :
    e.At config config.site s.heap.size where
  site_eq := e.site_eq hlayout hone hsize
  answer_eq := h.answer_toNat he
  answer_in := hsize ▸ Nat.le_trans (h.start_lt hlayout he) hlayout.span_in
  beside := ⟨.inl (Nat.le_trans (h.start_lt hlayout he) hlayout.register_behind),
    .inl (Nat.le_trans (h.start_lt hlayout he) hlayout.matrix_behind)⟩

/-- **A pool of one worker that nothing stops.** Every task is completed, and the tasks have the
outcomes of swaps in turn. -/
theorem run_calm [Channels] (htaking : Taking config first es s) (hlayout : config.Layout)
    (hone : config.threads = 1) (hsize : s.heap.size = config.heapSize)
    (hload : Register.load s.heap config.registerAt = .ok current)
    (howner : current.owner = Register.noOwner ∨ current.owner = 0) (hroom : 168 ≤ stack.size)
    (hcapacity : Channels.Grants capacity) :
    ∃ final last left notes,
      Pool.run (soleHost .execution) none capacity (queue config es) s.heap [stack]
        = { result := .ok [{ thread := 0, completed := es.length + readCount }], heap := final
            stackRegions := [left], notes } ∧
      (∃ cells, config.site.Shows final last cells) ∧
      last.value = valueAfter current.value (es.map Entry.transition) ∧
      es.filterMap (Entry.outcome? config final)
        = outcomesFrom current.value (es.map Entry.transition) := by
  have hfits : config.site.FitsIn s.heap.size := hsize ▸ hlayout.fits
  -- what the matrix holds does not matter to tasks that are not stopped
  obtain ⟨before, cells, hshows⟩ := hfits.exists_shows
  obtain rfl : before = current := Except.ok.inj (hshows.load_register.symm.trans hload)
  obtain ⟨idle, hidle, hhook, hstart⟩ := Worker.run_sole none s.heap hroom
  have hcalm : Calm config.site s.heap before idle := ⟨hidle, hhook, ⟨cells, hshows⟩, howner⟩
  have hreport : ({ thread := 0 } : WorkerReport).crashed = false := rfl
  obtain ⟨mid, final, last, hswaps, hlast, hvalue, -, houtcomes⟩ :=
    drain_calm hlayout.aligned es hcalm (fun e => htaking.entry_at hlayout hone hsize)
      htaking.starts_nodup hreport
      (List.replicate readCount (.read (UInt64.ofNat config.registerAt)))
  have hreport' : ({ thread := 0, completed := 0 + es.length } : WorkerReport).crashed = false :=
    rfl
  obtain ⟨after, hreads, hafter⟩ :=
    drain_reads (register_toNat hlayout hsize) readCount hlast hreport'
  have hworker : Worker.run (Worker.sole none stack s.heap) (queue config es)
      = ⟨.ok { thread := 0, completed := 0 + es.length + readCount }, after, []⟩ := by
    rw [hstart, queue, hswaps]
    exact hreads
  rw [Nat.zero_add] at hworker
  have hrun := Pool.run_of_worker rfl hcapacity hafter.idle.stands.heap_eq hworker
  exact ⟨final, last, _, _, hrun, hafter.shows, hvalue, houtcomes⟩

end Run

/-! ## The beginning -/

/-- The files of a run with a single worker can be opened, or made, and are not held. That is what a
run asks of the disk; what the heap file holds is asked for separately (`Ready`). -/
structure Opens (config : Config) (files : Files) (fresh : Bool) (disk : Disk) (heap : Region) :
    Prop where
  check_eq : config.check = .ok none
  threads_eq : config.threads = 1
  opens : ∃ mid wide stack last,
    disk.openOrCreate files.heap config.heapSize fresh = (.ok heap, mid) ∧
    mid.makeFolders files.stackFolder = (.ok (), wide) ∧
    wide.create (files.stack 0) config.stackSize = (.ok stack, last)

/-- There are blocks for the tasks in a heap, and the register may be swapped by the only
worker. A heap that is not fresh is one on which an allocator has been working. -/
inductive Ready (config : Config) (heap : Region) : (fresh : Bool) → Prop
  | fresh (blocks : transitions.length ≤ config.maxBlocks) : Ready config heap true
  | reopened {base formatted : Region} {a : Allocator} {live : Finset Nat} {s : BlockHeap}
      {current : Register}
      (formats : attach config.blockSize config.maxBlocks true base = (.ok a, formatted))
      (reached : Reachable ⟨a, formatted⟩ live s)
      (recovers : attach config.blockSize config.maxBlocks false heap = (.ok s.allocator, heap))
      (blocks : live.card + transitions.length ≤ config.maxBlocks)
      (register : Register.load heap config.registerAt = .ok current)
      (owner : current.owner = Register.noOwner ∨ current.owner = 0) : Ready config heap false

theorem Opens.layout (h : Opens config files fresh disk heap) : config.Layout := by
  obtain ⟨mid, wide, stack, last, hopen, -⟩ := h.opens
  obtain ⟨-, -, hsize, -⟩ := Disk.openOrCreate_eq_ok hopen
  exact .of_check h.check_eq (hsize ▸ heap.size_lt)

/-- A run whose files can be opened starts, on a heap with an allocator. -/
theorem Opens.starts {a : Allocator} {formatted ready : Region}
    (h : Opens config files fresh disk heap)
    (hattach : attach config.blockSize config.maxBlocks fresh heap = (.ok a, formatted))
    (hinit : (if fresh then Register.init config.registerAt initialValue else pure () :
      Run Region Unit) formatted = (.ok (), ready)) :
    ∃ start, Starts config files fresh disk start ∧ start.blocks.allocator = a ∧
      start.blocks.heap = ready := by
  obtain ⟨mid, wide, stack, last, hopen, hfolders, hcreate⟩ := h.opens
  refine ⟨⟨last, ⟨a, ready⟩, [stack]⟩, ⟨h.check_eq, h.threads_eq, ?_⟩, rfl, rfl⟩
  simp only [setUp, hopen, hattach, hinit, hfolders, hcreate]

/-- What keeps a run without a plan from stopping: a recorded allocator with a block for each task,
and a register that no other thread has written. -/
structure Provided (config : Config) (start : Bench) (current : Register) : Prop where
  recorded : start.blocks.allocator.Recorded start.blocks.heap
  blocks : start.blocks.allocator.taken.card + transitions.length ≤ config.maxBlocks + 1
  register : Register.load start.blocks.heap config.registerAt = .ok current
  owner : current.owner = Register.noOwner ∨ current.owner = 0

/-- The heap has the allocator of a run on a formatted heap. -/
theorem provided_of_tracks {live : Finset Nat} {s : BlockHeap} {stack : Region}
    (hbegin : Beginning config files start stack)
    (htracks : Tracks config.blockSize config.maxBlocks live s)
    (hsame : start.blocks.allocator = s.allocator)
    (hblocks : live.card + transitions.length ≤ config.maxBlocks)
    (hregister : Register.load start.blocks.heap config.registerAt = .ok current)
    (howner : current.owner = Register.noOwner ∨ current.owner = 0) :
    Provided config start current := by
  refine ⟨hbegin.scanned.recorded fun hzero => ?_, ?_, hregister, howner⟩
  · rw [hsame] at hzero
    exact Nat.lt_irrefl 0 (htracks.recorded.free_pos 0 hzero)
  · have hcard := Finset.card_insert_le 0 live
    rw [← htracks.taken_eq, ← hsame] at hcard
    omega

/-- The register is behind the blocks that are taken. -/
theorem Taking.load_eq {first s : BlockHeap} {es : List Entry} (h : Taking config first es s)
    (hlayout : config.Layout) (hsize : first.heap.size = config.heapSize) :
    Register.load s.heap config.registerAt = Register.load first.heap config.registerAt := by
  have hfits : config.site.FitsIn first.heap.size := hsize ▸ hlayout.fits
  exact hfits.load_of_agree (h.behind _ _ (hlayout.span_eq ▸ hlayout.register_behind))

/-- It is behind those that are given back. -/
theorem load_of_shifted {s t : BlockHeap} {now : Finset Nat} (h : Shifted s t now)
    (hlayout : config.Layout) (hblock : s.allocator.blockSize = config.blockSize)
    (hmax : s.allocator.maxBorder = config.maxBlocks)
    (hfits : config.site.FitsIn s.heap.size) :
    Register.load t.heap config.registerAt = Register.load s.heap config.registerAt := by
  have hbehind : (s.allocator.maxBorder + 1) * (s.allocator.blockSize + 1) ≤ config.registerAt := by
    rw [hblock, hmax, ← hlayout.span_eq]
    exact hlayout.register_behind
  exact hfits.load_of_agree (h.trailers.behind hbehind)

/-- A register that was made holds its first value. -/
theorem load_of_init {formatted ready : Region} {value : UInt32}
    (hinit : Register.init site.register value formatted = (.ok (), ready))
    (hfits : site.FitsIn ready.size) :
    Register.load ready site.register = .ok ⟨Register.noOwner, value⟩ := by
  obtain ⟨current, cells, hshows⟩ := hfits.exists_shows
  have hpack := hshows.register_eq.symm.trans (Register.init_eq_ok hinit).2.2
  rw [hshows.load_register, Register.pack_injective (Except.ok.inj hpack)]

/-- **A run that is ready begins**, on its own heap or on a new one. A new heap has no block taken
and holds the initial value; an old one is taken as it is. -/
theorem Opens.provided (h : Opens config files fresh disk heap) (hready : Ready config heap fresh) :
    ∃ start current, Starts config files fresh disk start ∧ Provided config start current ∧
      (fresh = true → current.value = initialValue) ∧
      (fresh = false → start.blocks.heap = heap) := by
  have hlayout := h.layout
  cases hready with
  | fresh blocks =>
    -- nothing is asked of the bytes of a heap that is formatted
    obtain ⟨mid, wide, stack, last, hopen, -⟩ := h.opens
    obtain ⟨-, -, hsize, -⟩ := Disk.openOrCreate_eq_ok hopen
    have hspan : (config.maxBlocks + 1) * (config.blockSize + 1) ≤ heap.size := by
      rw [hsize, ← hlayout.span_eq]
      exact hlayout.span_in
    have hattach := attach_empties hlayout.payload hspan
    have hfits : config.site.FitsIn (heap.put
        ((unread config.blockSize config.maxBlocks).trailerStart 0) [Trailer.border]).size := by
      rw [size_put, hsize]
      exact hlayout.fits
    have hinit := Register.init_of_fits initialValue hfits.line hfits.register_in
    have hload := load_of_init hinit (by rw [size_put]; exact hfits)
    obtain ⟨start, hstarts, hallocator, hheap⟩ := h.starts hattach hinit
    obtain ⟨stack, hbegin⟩ := hstarts.beginning
    rw [← hheap] at hload
    exact ⟨start, _, hstarts, provided_of_tracks hbegin (tracks_of_attach hattach) hallocator
      (by rw [Finset.card_empty, Nat.zero_add]; exact blocks) hload (.inl rfl), fun _ => rfl, nofun⟩
  | reopened formats reached recovers blocks register owner =>
    obtain ⟨start, hstarts, hallocator, hheap⟩ := h.starts recovers rfl
    obtain ⟨stack, hbegin⟩ := hstarts.beginning
    rw [← hheap] at register
    exact ⟨start, _, hstarts, provided_of_tracks hbegin (reached.tracks (tracks_of_attach formats))
      hallocator blocks register owner, nofun, fun _ => hheap⟩

/-! ## The run -/

/-- A run that keeps no block ends with the allocator with which it began. -/
theorem Aftermath.allocator_eq {crash : Option CrashPlan} {result : Except Stop ExecSummary}
    {bytes : List Nat} {stack left : Region} {after : Bench}
    (h : Aftermath config files crash start result ∅ left bytes after)
    (hbegin : Beginning config files start stack)
    (hrecorded : start.blocks.allocator.Recorded start.blocks.heap) :
    after.blocks.allocator = start.blocks.allocator := by
  refine hrecorded.eq_of_taken h.recorded (h.blockSize_eq.trans hbegin.blockSize_eq.symm)
    (h.maxBorder_eq.trans hbegin.maxBorder_eq.symm) fun n => ?_
  rw [← mem_taken, ← mem_taken, h.taken_eq, Finset.union_empty]

/-- Such a run returns, with the outcomes of swaps in turn. -/
theorem Served.calm [Channels] {result : Except Stop ExecSummary} {stack : Region} {after : Bench}
    (hserved : Served config none start stack result after)
    (hlayout : config.Layout) (hone : config.threads = 1)
    (hbegin : Beginning config files start stack) (hprovided : Provided config start current)
    (hroom : 168 ≤ config.stackSize)
    (hcapacity : Channels.Grants config.queueCapacity)
    (hblocks : result ≠ .error Workload.exhausted) :
    ∃ register, result = .ok
      { reports := [{ thread := 0, completed := transitions.length + readCount }]
        outcomes := outcomesFrom current.value transitions
        register } ∧
      register.value = valueAfter current.value transitions ∧
      Register.load after.blocks.heap config.registerAt = .ok register := by
  cases hserved with
  | exhausted => exact absurd rfl hblocks
  | refused taking prepared capacity =>
    cases hcapacity.symm.trans capacity
  | stuck taking prepared leftover reserved =>
    -- the reserved block is taken from the start, so it was not handed out
    have hzero := mem_taken.2 (hprovided.recorded.taken_iff.2 (.inl rfl))
    exact absurd reserved (Finset.disjoint_left.1 taking.disjoint hzero)
  | @returned es s t written frames next left report last notes taking prepared run leftover
      shifted register =>
    have hload := (taking.load_eq hlayout hbegin.size_eq).trans hprovided.register
    obtain ⟨final, value, left', notes', hcalm, ⟨cells, hshows⟩, hvalue, houtcomes⟩ :=
      run_calm taking hlayout hone (taking.size_eq.trans hbegin.size_eq) hload hprovided.owner
        (hbegin.stack_size.symm ▸ hroom) hcapacity
    cases run.symm.trans hcalm
    have hback := load_of_shifted shifted hlayout taking.blockSize_eq taking.maxBorder_eq
      hshows.fits
    obtain rfl : last = value :=
      Except.ok.inj (register.symm.trans (hback.trans hshows.load_register))
    rw [prepared] at hvalue houtcomes
    refine ⟨last, ?_, hvalue, register⟩
    rw [houtcomes, ← prepared, List.length_map]

/-- A run whose pool is refused its queue ends with the refusal. It has taken its blocks by then,
and gives none of them back. -/
theorem Served.of_refused [Channels] {result : Except Stop ExecSummary} {stack : Region}
    {after : Bench} {crash : Option CrashPlan} {abort : Abort}
    (hserved : Served config crash start stack result after)
    (hprovided : Provided config start current)
    (hrefused : Channels.bounded config.queueCapacity = .error abort)
    (hblocks : result ≠ .error Workload.exhausted) : result = .error (.aborted abort) := by
  cases hserved with
  | exhausted => exact absurd rfl hblocks
  | refused taking prepared capacity =>
    cases hrefused.symm.trans capacity
    rfl
  | stuck taking prepared leftover reserved =>
    have hzero := mem_taken.2 (hprovided.recorded.taken_iff.2 (.inl rfl))
    exact absurd reserved (Finset.disjoint_left.1 taking.disjoint hzero)
  | returned taking prepared run leftover shifted register =>
    cases run.symm.trans (Pool.run_of_refused rfl hrefused stack)

/-- Where there are four blocks to spare, no task goes without one. What the run starts with is told
by the heap that was opened, or it is the empty heap that was formatted. -/
theorem Opens.served [Channels] (hopens : Opens config files fresh disk heap)
    (hready : Ready config heap fresh) (crash : Option CrashPlan) :
    ∃ start current stack result after,
      Starts config files fresh disk start ∧ Provided config start current ∧
      (fresh = true → current.value = initialValue) ∧
      (fresh = false → start.blocks.heap = heap) ∧
      Beginning config files start stack ∧
      exec config files fresh crash disk = (result, after.close) ∧
      Served config crash start stack result after ∧ result ≠ .error exhausted := by
  obtain ⟨start, current, h, hprovided, hfresh, hheap⟩ := hopens.provided hready
  obtain ⟨stack, hbegin⟩ := h.beginning
  obtain ⟨result, after, hrun, hserved⟩ :=
    serve_served h.check_eq h.layout h.threads_eq hbegin crash
  obtain ⟨kept, left, bytes, hafter⟩ :=
    hserved.aftermath h.layout h.threads_eq (Config.stackSize_of_check h.check_eq) hbegin
  refine ⟨start, current, stack, result, after, h, hprovided, hfresh, hheap, hbegin, ?_, hserved,
    ?_⟩
  · rw [exec_of_starts h, hrun]
  · intro hexhausted
    exact Nat.not_lt.2 hprovided.blocks (hafter.exhausted_iff.1 hexhausted)

/-- **A run that nothing stops swaps in turn, and keeps no block.** There are four blocks to
spare, the register belongs to nobody else, and the queue of the pool is granted; then the outcomes
are those of the swaps on the first value, and the allocator is at the end what it was when the
files were open. -/
theorem exec_sequential [Channels] (hopens : Opens config files fresh disk heap)
    (hready : Ready config heap fresh) (hroom : 168 ≤ config.stackSize)
    (hcapacity : Channels.Grants config.queueCapacity) :
    ∃ start current summary after left,
      setUp config files fresh disk = some start ∧
      Register.load start.blocks.heap config.registerAt = .ok current ∧
      (fresh = true → current.value = initialValue) ∧
      (fresh = false → start.blocks.heap = heap) ∧
      exec config files fresh none disk = (.ok summary, after) ∧
      summary.reports = [{ thread := 0, completed := transitions.length + readCount
                           failed := 0, crashed := false }] ∧
      summary.outcomes = outcomesFrom current.value transitions ∧
      summary.register.value = valueAfter current.value transitions ∧
      heapOn config files after = some ⟨start.blocks.allocator, left⟩ ∧
      Register.load left config.registerAt = .ok summary.register := by
  obtain ⟨start, current, stack, result, after, h, hprovided, hfresh, hheap, hbegin, hexec,
    hserved, hblocks⟩ := hopens.served hready none
  have hlayout := h.layout
  obtain ⟨kept, left, bytes, hafter⟩ :=
    hserved.aftermath hlayout h.threads_eq (Config.stackSize_of_check h.check_eq) hbegin
  obtain ⟨register, rfl, hvalue, hload⟩ :=
    hserved.calm hlayout h.threads_eq hbegin hprovided hroom hcapacity hblocks
  -- each task has its outcome, so no block is kept
  obtain rfl : kept = ∅ := by
    have hcard := hafter.kept_eq _ rfl
    rw [length_outcomesFrom] at hcard
    exact Finset.card_eq_zero.1 (Nat.add_eq_right.1 hcard)
  refine ⟨start, current, ⟨_, outcomesFrom current.value transitions, register⟩, after.close,
    after.blocks.heap, h.setUp_eq, hprovided.register, hfresh, hheap, hexec, rfl, rfl, hvalue, ?_,
    hload⟩
  rw [hafter.heapOn_eq h, ← hafter.allocator_eq hbegin hprovided.recorded]

/-- **Without its queue such a run ends**, whatever else is as it should be: with the abort of
whoever was to make the queue. -/
theorem exec_refused [Channels] {abort : Abort} (hopens : Opens config files fresh disk heap)
    (hready : Ready config heap fresh) (crash : Option CrashPlan)
    (hrefused : Channels.bounded config.queueCapacity = .error abort) :
    (exec config files fresh crash disk).1 = .error (.aborted abort) := by
  obtain ⟨start, current, stack, result, after, -, hprovided, -, -, -, hexec, hserved, hblocks⟩ :=
    hopens.served hready crash
  rw [hexec]
  exact hserved.of_refused hprovided hrefused hblocks

/-- A run that has started can open its files. -/
theorem Starts.opens (h : Starts config files fresh disk start) :
    ∃ heap, Opens config files fresh disk heap ∧
      (fresh = false → start.blocks.heap = heap) := by
  obtain ⟨heap, mid, hopen, ⟨formatted, hattach, hinit⟩, wide, stack, hfolders, hcreate, -⟩ :=
    h.opened
  refine ⟨heap, ⟨h.check_eq, h.threads_eq, mid, wide, stack, _, hopen, hfolders, hcreate⟩, ?_⟩
  rintro rfl
  exact (congrArg Prod.snd hinit).symm.trans (attach_scanned hattach).1

theorem reopenedStart_isSome :
    (setUp smallConfig smallFiles false smallStart.close).isSome = true := by
  decide +kernel

/-- A run on the files of `smallStart`, in which no task has run. -/
def reopenedStart : Bench :=
  (setUp smallConfig smallFiles false smallStart.close).get reopenedStart_isSome

theorem reopenedStart_starts : Starts smallConfig smallFiles false smallStart.close reopenedStart :=
  ⟨rfl, rfl, (Option.some_get _).symm⟩

/-- Its heap has the allocator and the register of a new one. -/
theorem reopenedStart_ready : Ready smallConfig reopenedStart.blocks.heap false := by
  obtain ⟨base, -, -, ⟨formatted, hformat, -⟩, -⟩ := smallStart_starts.opened
  obtain ⟨stack, hbegin⟩ := reopenedStart_starts.beginning
  have hregister : Register.load reopenedStart.blocks.heap smallConfig.registerAt
      = .ok ⟨Register.noOwner, 42⟩ := by decide +kernel
  have hreserved : 0 ∉ reopenedStart.blocks.allocator.free := by decide +kernel
  have hsame : smallStart.blocks.allocator = reopenedStart.blocks.allocator := by decide +kernel
  have hrecovers := attach_of_recorded (hbegin.scanned.recorded hreserved)
  rw [hbegin.blockSize_eq, hbegin.maxBorder_eq] at hrecovers
  -- the name keeps the set-up from being evaluated
  generalize reopenedStart.blocks.allocator = a at hsame hrecovers
  rw [hsame] at hformat
  exact .reopened hformat .start hrecovers (by decide) hregister (.inl rfl)

/-- The first swap and the third one find their value, on a new heap and on one that is there. On
the first the values are those of the transitions, and the register ends with 117. -/
theorem smallConfig_sequential :
    168 ≤ smallConfig.stackSize ∧ @Channels.Grants Pool.roomyChannels smallConfig.queueCapacity ∧
    (∃ heap, Opens smallConfig smallFiles true {} heap ∧ Ready smallConfig heap true ∧
      ∃ summary after left,
        @exec Pool.roomyChannels smallConfig smallFiles true none {} = (.ok summary, after) ∧
        summary.outcomes = [⟨42, 24, true⟩, ⟨42, 53, false⟩, ⟨24, 117, true⟩, ⟨53, 48, false⟩] ∧
        summary.register.value = 117 ∧
        heapOn smallConfig smallFiles after = some ⟨smallStart.blocks.allocator, left⟩) ∧
    ∃ heap, Opens smallConfig smallFiles false smallStart.close heap ∧
      Ready smallConfig heap false ∧
      ∃ summary after left,
        @exec Pool.roomyChannels smallConfig smallFiles false none smallStart.close
          = (.ok summary, after) ∧
        heapOn smallConfig smallFiles after = some ⟨reopenedStart.blocks.allocator, left⟩ := by
  have hroom : 168 ≤ smallConfig.stackSize := by decide
  let _ : Channels := Pool.roomyChannels
  have hcapacity : Channels.Grants smallConfig.queueCapacity := by rfl
  refine ⟨hroom, hcapacity, ?_, ?_⟩
  · obtain ⟨heap, hopens, -⟩ := smallStart_starts.opens
    have hready : Ready smallConfig heap true := .fresh (by decide)
    obtain ⟨start, current, summary, after, left, hstart, -, hcurrent, -, hexec, -, houtcomes,
      hvalue, hheap, -⟩ := exec_sequential hopens hready hroom hcapacity
    have hsame : start = smallStart :=
      Option.some.inj (hstart.symm.trans smallStart_starts.setUp_eq)
    rw [hsame] at hheap
    rw [hcurrent rfl] at houtcomes hvalue
    exact ⟨heap, hopens, hready, summary, after, left, hexec, houtcomes, hvalue, hheap⟩
  · obtain ⟨heap, hopens, hheap⟩ := reopenedStart_starts.opens
    have hready : Ready smallConfig heap false := hheap rfl ▸ reopenedStart_ready
    obtain ⟨start, current, summary, after, left, hstart, -, -, -, hexec, -, -, -, hend, -⟩ :=
      exec_sequential hopens hready hroom hcapacity
    have hsame : start = reopenedStart :=
      Option.some.inj (hstart.symm.trans reopenedStart_starts.setUp_eq)
    rw [hsame] at hend
    exact ⟨heap, hopens, hready, summary, after, left, hexec, hend⟩

/-- The small configuration, with a queue that cannot be made. -/
def hugeConfig : Config := { smallConfig with queueCapacity := 4611686018427387904 }

theorem hugeStart_isSome : (setUp hugeConfig smallFiles true {}).isSome = true := by
  decide +kernel

/-- A configuration passes its check with any capacity. Whoever makes the queues may refuse this
one, and then there is no summary. -/
theorem hugeQueue_aborts :
    ∃ heap, Opens hugeConfig smallFiles true {} heap ∧ Ready hugeConfig heap true ∧
      168 ≤ hugeConfig.stackSize ∧
      (∀ (channels : Channels) (abort : Abort),
        channels.bounded hugeConfig.queueCapacity = .error abort →
          (@exec channels hugeConfig smallFiles true none {}).1 = .error (.aborted abort)) ∧
      (@exec Pool.roomyChannels hugeConfig smallFiles true none {}).1
        = .error (.aborted (.raised "bounded channel capacity is too large")) := by
  have hstarts : Starts hugeConfig smallFiles true {}
      ((setUp hugeConfig smallFiles true {}).get hugeStart_isSome) :=
    ⟨rfl, rfl, (Option.some_get _).symm⟩
  obtain ⟨heap, hopens, -⟩ := hstarts.opens
  have hready : Ready hugeConfig heap true := .fresh (by decide)
  have hrefused : ∀ (channels : Channels) (abort : Abort),
      channels.bounded hugeConfig.queueCapacity = .error abort →
        (@exec channels hugeConfig smallFiles true none {}).1 = .error (.aborted abort) := by
    intro channels abort hrefused
    exact exec_refused hopens hready none hrefused
  exact ⟨heap, hopens, hready, by decide, hrefused, hrefused Pool.roomyChannels _ rfl⟩

end Workload

end DurableCalls
