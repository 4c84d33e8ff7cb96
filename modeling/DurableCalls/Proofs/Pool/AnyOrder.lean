/-
`AnyOrder.lean` -- stopped stacks are restored in any order.

Several workers were stopped, each in a swap task of its own, and all of their stacks are
restored on the heap that is left. A replay writes at most two things for the swap, the note and
the new value, and then the answer (`Parked.changes`). Which ones it writes depends on its own
register alone: no note that another replay leaves can be taken for its trace, because notes tell
of values that were installed before, and its own was not (`Arena.recoverSteps_performs`). So a
replay changes nothing that another one looks at, and no byte that another one writes, and the
changes can be made in any order.

The threads of a pool that restores all stacks do not run one after the other. Their steps on the
heap come in the order of a schedule, and each thread meets what the steps of the others have left.
A replay plays a role there (`Role`): it relies on what it looks at and makes its changes, whatever
else happens to the heap between two of its steps. The roles of different replays are compatible,
so the run of a schedule and the replays in any order leave the same heap.

All of that needs answers that lie beside the registers of the other tasks. An answer inside the
register of another task is a write to that register, and then the order is seen.
-/
import DurableCalls.Proofs.Pool.Crew
import DurableCalls.Proofs.Call.ReplayAmid
import DurableCalls.Proofs.Call.Resume
import DurableCalls.Proofs.Swap.Arena

set_option autoImplicit false

namespace DurableCalls

open CallStack Context Region

/-! ## Stacks in a row -/

namespace Pool

/-- Restores stacks one after the other: what the replays return, and the heap behind the last
one. -/
def restoreEach (host : Host) : Region → List (Region × Nat) → List (Except Halt Nat) × Region
  | heap, [] => ([], heap)
  | heap, stack :: rest =>
    let (outcome, ctx) := Context.restore (restorer host heap stack)
    let (outcomes, last) := restoreEach host (ctx.heap.getD heap) rest
    (outcome :: outcomes, last)

theorem joinAll_ok {α : Type} (aborted : Failure) (values : List α) :
    joinAll aborted (values.map .ok) = .ok values := by
  induction values with
  | nil => rfl
  | cons a values ih =>
    simp only [List.map_cons, joinAll, ih, bind, Except.bind, pure, Except.pure]

end Pool

/-! ## Stopped workers -/

/-- A worker that was stopped in a swap task: as it was when it took the task, and as it was
left. -/
structure Parked where
  thread : Nat
  task : SwapTask
  worker : Context
  left : Context
  point : FaultPoint
  function : String

namespace Parked

/-- The stack that it leaves, and its thread. -/
def stack (p : Parked) : Region × Nat := (p.left.stack.region, p.thread)

/-- The frames above the root. -/
def count (p : Parked) : Nat := p.left.stack.calls.depth - 1

def register (p : Parked) : Nat := p.task.swap.register.toNat

def swap (p : Parked) (a : Arena) : Swap :=
  p.task.swapBy a.matrix.threads (UInt32.ofNat p.thread)

/-- The worker stood on its root frame, in a process with the built-in functions and on some heap
that the arena may have been in. Its task names a register of the arena and the matrix, and a
place for the answer beside the matrix. A hook stopped the call of the task. -/
structure StoppedIn (a : Arena) (p : Parked) : Prop where
  known : p.thread < a.matrix.threads.toNat
  serves : p.worker.host.Serves
  threads_eq : p.worker.host.threads = a.matrix.threads
  thread_eq : p.worker.thread = UInt32.ofNat p.thread
  stack_used : ∃ start : DurableStack, start.calls = .empty ∧ start.Used p.worker.stack
  frames_eq : p.worker.stack.calls.frames = [rootFrame]
  room : 168 ≤ p.worker.stack.region.size
  past : ∃ met installed found, p.worker.heap = some met ∧ a.Past met installed found
  register_mem : p.register ∈ a.registers
  matrix_eq : p.task.swap.matrix.toNat = a.matrix.offset
  answer_in : p.task.answer.toNat < a.size
  answer_matrix : p.task.answer.toNat < a.matrix.offset ∨
    a.matrix.offset + a.matrix.bytes ≤ p.task.answer.toNat
  halted : Context.dispatch (.swap p.task) p.worker
    = (.error (.failed (.simulatedCrash p.point p.function)), p.left)

variable {a : Arena} {p q : Parked} {host : Host} {heap : Region} {installed found : List Register}
  {contents : Nat → Register} {cells : Cells}

theorem StoppedIn.thread_lt (h : p.StoppedIn a) : UInt32.ofNat p.thread < a.matrix.threads := by
  have hlt := h.known
  have hthreads := a.matrix.threads.toNat_lt
  rw [UInt32.lt_iff_toNat_lt, UInt32.toNat_ofNat', Nat.mod_eq_of_lt (by omega)]
  exact hlt

theorem StoppedIn.swap_matrix (h : p.StoppedIn a) : (p.swap a).matrix = a.matrix := by
  rw [swap, SwapTask.swapBy, h.matrix_eq]

/-- Before it took the task it was idle. -/
theorem StoppedIn.idle (h : p.StoppedIn a) {met : Region} (hheap : p.worker.heap = some met) :
    Idle p.worker.host (UInt32.ofNat p.thread) met p.worker := by
  obtain ⟨start, hempty, hused⟩ := h.stack_used
  have hmirrored : p.worker.stack.Mirrored := by
    rcases hused.faithful_or hempty with hfaithful | hstart
    · exact hfaithful.mirrored
    · -- a stack that was never used has no frames
      have hframes := h.frames_eq
      rw [hstart, hempty] at hframes
      cases hframes
  exact ⟨h.serves, ⟨rfl, h.thread_eq, hheap, h.frames_eq, hmirrored⟩, h.room⟩

/-- **It was stopped at one of the places of its task.** Its task runs on a heap of which the arena
knows everything that is seen, so the swap of the task answers there; then all ends of the dispatch
are known, and the only one with this halt is a stop. -/
theorem StoppedIn.stopped (h : p.StoppedIn a) :
    ∃ met swapped yes, Stopped p.worker.host (UInt32.ofNat p.thread) p.task met swapped yes p.point
      p.left := by
  obtain ⟨met, installed, found, hheap, hpast⟩ := h.past
  obtain ⟨contents, cells, htraced⟩ := hpast.traced
  have hmatrix := h.swap_matrix
  have hthread : (p.swap a).thread < (p.swap a).matrix.threads := by
    rw [hmatrix]
    exact h.thread_lt
  have hshows := htraced.holds.shows p.register h.register_mem
  have hsite : (p.swap a).site = a.site p.register := Arena.site_eq hmatrix
  rw [← hsite] at hshows
  -- whatever others had done by then, the arena shows what the swap has met
  have hattempt := Swap.attempt_apply hshows hthread
    ((htraced.known p.register h.register_mem).owned hmatrix) (.inr (Arena.aligned_of hmatrix))
  rw [swap, ← h.threads_eq] at hattempt
  have hsettles : p.task.Settles p.worker.host.threads (UInt32.ofNat p.thread) false met _ _ :=
    ⟨hattempt, by rw [size_putAll, htraced.holds.size_eq]; exact h.answer_in⟩
  have hends := (h.idle hheap).dispatch hsettles
  have hhalted := h.halted
  rcases hends with ⟨⟨⟩, after, hrun, -⟩ | ⟨point, function, after, hrun, -, hstopped⟩
  · rw [hhalted] at hrun
    cases hrun
  · rw [hhalted] at hrun
    cases hrun
    exact ⟨_, _, _, hstopped⟩

/-! ## Replays -/

/-- Its replay finishes the task amid others, and takes down the frames above the root. The swap
may have answered before the stop. If not, that is left to its recovery. -/
def Replays (p : Parked) (a : Arena) (host : Host) (given : Option Bool) : Prop :=
  ∀ heap look plan swapped yes,
    (given = none →
      p.task.Swapping a.matrix.threads (UInt32.ofNat p.thread) look plan swapped yes) →
    (∀ answer, given = some answer → swapped = [] ∧ yes = answer) →
    p.task.Answers look plan yes →
      Performs look plan (fun n _ all => n = p.count ∧ all = swapped ++ [p.task.publication yes])
        restoreSteps (Pool.restorer host heap p.stack) []

/-- **A stopped task is replayed.** It has an answer unless it was stopped where a call was
entered. -/
theorem StoppedIn.replays (h : p.StoppedIn a) (hserves : host.Serves)
    (hmode : host.mode = .recovery) (hthreads : host.threads = a.matrix.threads) :
    ∃ given, (given = none → p.point = .afterFramePush) ∧ p.Replays a host given := by
  obtain ⟨met, settled, answer, frames, slot, heap₀, hsuspended, hleft⟩ := h.stopped
  have hcount : p.count = frames.length - 1 := by
    rw [count, CallStack.depth, hleft.stands.frames_eq]
  refine ⟨if p.point = .afterFramePush then none else some answer, ?_, ?_⟩
  · intro hnone
    by_contra hpoint
    rw [if_neg hpoint] at hnone
    cases hnone
  · intro heap look plan swapped yes hopen hclosed hanswers
    rw [hcount]
    have hhost : (Pool.restorer host heap p.stack).host = host := rfl
    apply hleft.restoreSteps_performs hserves hmode hhost rfl rfl rfl hsuspended _ _ hanswers
    · intro hpoint
      rw [hthreads]
      exact hopen (if_pos hpoint)
    · intro hpoint
      exact hclosed answer (if_neg hpoint)

/-- All that a replay writes where it finds these contents: the writes of the swap unless it has
answered, and then the answer. -/
def changes (a : Arena) (given : Parked → Option Bool) (contents : Nat → Register) (p : Parked) :
    List Write :=
  (if given p = none then (p.swap a).writes (contents p.register) else []) ++
    [p.task.publication
      ((given p).getD (decide ((contents p.register).value = (p.swap a).expected)))]

variable {given : Parked → Option Bool}

/-- Behind its replay the answer is there. -/
theorem StoppedIn.read_answer (h : p.StoppedIn a) (hsize : heap.size = a.size) :
    ∃ yes, (heap.putAll (p.changes a given contents)).read p.task.answer.toNat 1
      = .ok [answerOf yes] := by
  have hin : p.task.answer.toNat < a.size := h.answer_in
  refine ⟨(given p).getD (decide ((contents p.register).value = (p.swap a).expected)), ?_⟩
  rw [changes, putAll_append, putAll_cons, putAll_nil, SwapTask.publication, verdict_eq]
  apply read_put_self
  rw [List.length_singleton, size_putAll, hsize]
  exact hin

/-- A stopped task with what is known of it: what it was given, and what is in its register. Nobody
else has a stopped task at this register, so its contents stay until the task itself is replayed. -/
structure Ready (a : Arena) (host : Host) (installed : List Register)
    (given : Parked → Option Bool) (contents : Nat → Register) (p : Parked) : Prop where
  stopped : p.StoppedIn a
  replays : p.Replays a host (given p)
  fresh : given p = none → (p.swap a).new ≠ 0 ∧ (p.swap a).installed ∉ installed
  known : a.Known installed (contents p.register)

/-- A replay relies on its own register, and on what is known of the cells. -/
def role (a : Arena) (installed : List Register) (given : Parked → Option Bool)
    (contents : Nat → Register) (p : Parked) : Role Nat where
  look := a.Looks installed [p.register] contents
  plan := p.changes a given contents
  value := p.count

/-- The thread that replays the stack. -/
def replayer (host : Host) (heap : Region) (p : Parked) : Thread Nat :=
  ⟨.ok restoreSteps, Pool.restorer host heap p.stack⟩

/-- **A replay plays its role.** It relies on its own register and on what is known of the cells;
and its plan is what it writes if it is alone. Where the swap has answered, the plan is the answer
only. -/
theorem Ready.plays (h : p.Ready a host installed given contents) (heap : Region) :
    (p.role a installed given contents).Plays (p.replayer host heap) [] := by
  refine ⟨List.nil_subset _, restoreSteps, rfl, ?_⟩
  apply h.replays
  · intro hgiven
    obtain ⟨hnew, hnot⟩ := h.fresh hgiven
    rw [hgiven, if_pos rfl]
    intro here
    apply Arena.recoverSteps_performs h.stopped.swap_matrix h.stopped.thread_lt h.known hnew hnot
    show _ ⊆ p.changes a given contents
    rw [changes, hgiven, if_pos rfl]
    exact List.subset_append_left _ _
  · intro answer hgiven
    rw [hgiven, if_neg (Option.some_ne_none answer)]
    exact ⟨rfl, rfl⟩
  · constructor
    · rintro heap ⟨cells, hholds, -⟩
      rw [hholds.size_eq]
      exact h.stopped.answer_in
    · exact List.mem_append_right _ List.mem_cons_self

/-- Alone, a replay is its writes. -/
theorem Ready.restore (h : p.Ready a host installed given contents)
    (hlook : (p.role a installed given contents).look heap) :
    ∃ after, Context.restore (Pool.restorer host heap p.stack) = (.ok p.count, after) ∧
      after.heap = some (heap.putAll (p.changes a given contents)) := by
  obtain ⟨after, hfinish, hafter⟩ := (h.plays heap).finish hlook
  refine ⟨after, ?_, hafter⟩
  rw [← run_restoreSteps]
  exact hfinish

/-- The answer has its place beside the register of another task. -/
def AnswersBeside (p q : Parked) : Prop :=
  p.task.answer.toNat < q.register ∨ q.register + 8 ≤ p.task.answer.toNat

/-- **No write of a replay changes what another one looks at.** Its note goes to a cell and adds
nothing there that is not known, its new value goes to a register of its own, and its answer lies
beside the register of the other one. -/
theorem Ready.keeps (h : p.Ready a host installed given contents)
    (hq : q.Ready a host installed given contents) (hregister : p.register ≠ q.register)
    (hbeside : p.AnswersBeside q) {w : Write} (hw : w ∈ p.changes a given contents)
    (hlook : (q.role a installed given contents).look heap) :
    (q.role a installed given contents).look (heap.put w.offset w.data) := by
  have hlook' : a.Looks installed [q.register] contents heap := hlook
  have hsub : [q.register] ⊆ a.registers :=
    List.cons_subset.2 ⟨hq.stopped.register_mem, List.nil_subset _⟩
  rcases List.mem_append.1 hw with hw | hw
  · split at hw
    · have hthread : (p.swap a).thread < (p.swap a).matrix.threads := by
        rw [h.stopped.swap_matrix]
        exact h.stopped.thread_lt
      exact hlook'.put_of_mem hsub h.stopped.register_mem
        (fun hmem => hregister (List.mem_singleton.1 hmem)) h.stopped.swap_matrix hthread h.known hw
    · cases hw
  · rw [List.mem_singleton.1 hw]
    apply hlook'.put_beside
    · exact h.stopped.answer_in
    · intro r hmem
      rw [List.mem_singleton.1 hmem]
      exact ⟨hbeside, h.stopped.answer_matrix⟩

/-- **Replays one after the other are their writes.** The induction is on the stacks that are
left, and each replay leaves what they look at. -/
theorem restoreEach_apply (todo : List Parked) : ∀ {heap : Region},
    (∀ p ∈ todo, p.Ready a host installed given contents) →
      Role.Compatible heap (todo.map (role a installed given contents)) →
        Pool.restoreEach host heap (todo.map stack)
          = (todo.map fun p => .ok p.count,
            heap.putAll (todo.flatMap (changes a given contents))) := by
  induction todo with
  | nil =>
    intro heap _ _
    rfl
  | cons p todo ih =>
    intro heap hready hroles
    obtain ⟨after, hrun, hafter⟩ :=
      (hready p List.mem_cons_self).restore (hroles.look _ List.mem_cons_self)
    have hrest := ih (fun q hq => hready q (List.mem_cons_of_mem p hq)) hroles.tail
    simp only [List.map_cons, Pool.restoreEach, hrun, hafter, Option.getD_some, List.flatMap_cons,
      putAll_append]
    exact congrArg (fun rest => (_ :: rest.1, rest.2)) hrest

/-! ## What different replays write -/

/-- Where a replay may write: to a cell in the column of its thread, to its register, and to the
place of its answer. -/
inductive Touches (p : Parked) (a : Arena) : Write → Prop
  | note {row : UInt32} {value : Nat} (known : row < a.matrix.threads) :
      Touches p a ⟨a.matrix.cellOffset row (UInt32.ofNat p.thread), toBytes 4 value⟩
  | swap {word : Nat} : Touches p a ⟨p.register, toBytes 8 word⟩
  | answer {yes : Bool} : Touches p a ⟨p.task.answer.toNat, Builtin.verdict yes⟩

theorem Ready.touches (h : p.Ready a host installed given contents) {w : Write}
    (hw : w ∈ p.changes a given contents) : p.Touches a w := by
  rcases List.mem_append.1 hw with hw | hw
  · -- a swap that writes has found what it expects, and notes it unless nobody owns it
    unfold Swap.writes Swap.noteWrites at hw
    split at hw
    · split at hw
      · rcases List.mem_append.1 hw with hw | hw
        · split at hw
          · cases hw
          · next hsome =>
            rw [List.mem_singleton.1 hw, h.stopped.swap_matrix]
            exact .note (h.known.resolve_left hsome).1
        · rw [List.mem_singleton.1 hw]
          exact .swap
      · cases hw
    · cases hw
  · rw [List.mem_singleton.1 hw]
    exact .answer

theorem Touches.stop_le {w : Write} (hw : p.Touches a w) (h : p.StoppedIn a) : w.stop ≤ a.size := by
  have hfits := a.fits p.register h.register_mem
  cases hw with
  | note known =>
    rw [Write.stop, length_toBytes]
    exact hfits.cell_in known h.thread_lt
  | swap =>
    rw [Write.stop, length_toBytes]
    exact hfits.register_in
  | answer =>
    rw [Write.stop, verdict_eq, List.length_singleton]
    exact h.answer_in

theorem StoppedIn.column_ne (hp : p.StoppedIn a) (hq : q.StoppedIn a) (hne : p.thread ≠ q.thread) :
    UInt32.ofNat p.thread ≠ UInt32.ofNat q.thread := by
  have hthreads := a.matrix.threads.toNat_lt
  have hlt := hp.known
  have hlt' := hq.known
  intro hsame
  have hnat : (UInt32.ofNat p.thread).toNat = (UInt32.ofNat q.thread).toNat := by rw [hsame]
  rw [UInt32.toNat_ofNat', UInt32.toNat_ofNat'] at hnat
  omega

/-- A cell is apart from registers and answers. -/
theorem StoppedIn.note_apart (hp : p.StoppedIn a) (hq : q.StoppedIn a) {row : UInt32} {value : Nat}
    (hrow : row < a.matrix.threads) {w : Write} (hw : q.Touches a w)
    (hcolumn : UInt32.ofNat p.thread ≠ UInt32.ofNat q.thread) :
    Write.Apart ⟨a.matrix.cellOffset row (UInt32.ofNat p.thread), toBytes 4 value⟩ w := by
  cases hw with
  | note known =>
    rw [Write.apart_iff, length_toBytes, length_toBytes]
    exact Matrix.cellOffset_apart hq.thread_lt hp.thread_lt fun hsame => hcolumn hsame.2
  | swap =>
    rw [Write.apart_iff, length_toBytes, length_toBytes]
    exact ((a.fits q.register hq.register_mem).cell_apart hrow hp.thread_lt).symm
  | answer =>
    have hanswer := hq.answer_matrix
    have hge : a.matrix.offset ≤ a.matrix.cellOffset row (UInt32.ofNat p.thread) :=
      Nat.le_add_right _ _
    have hle := Matrix.cellOffset_add_le hrow hp.thread_lt
    rw [Write.apart_iff, length_toBytes, verdict_eq, List.length_singleton]
    omega

/-- **No byte is written by two replays** of tasks of different threads, with different registers
and answers, and answers beside the registers. -/
theorem Touches.apart {v w : Write} (hv : p.Touches a v) (hw : q.Touches a w) (hp : p.StoppedIn a)
    (hq : q.StoppedIn a) (hthread : p.thread ≠ q.thread) (hregister : p.register ≠ q.register)
    (hanswer : p.task.answer.toNat ≠ q.task.answer.toNat) (hpq : p.AnswersBeside q)
    (hqp : q.AnswersBeside p) : v.Apart w := by
  have hcolumn := hp.column_ne hq hthread
  unfold AnswersBeside at hpq hqp
  -- a note is apart from everything, and the other cases are of registers and answers
  cases hv with
  | note known => exact hp.note_apart hq known hw hcolumn
  | swap =>
    cases hw with
    | note known => exact (hq.note_apart hp known .swap (Ne.symm hcolumn)).symm
    | swap =>
      rw [Write.apart_iff, length_toBytes, length_toBytes]
      exact Arena.registers_apart hp.register_mem hq.register_mem hregister
    | answer =>
      rw [Write.apart_iff, length_toBytes, verdict_eq, List.length_singleton]
      omega
  | answer =>
    cases hw with
    | note known => exact (hq.note_apart hp known .answer (Ne.symm hcolumn)).symm
    | swap =>
      rw [Write.apart_iff, length_toBytes, verdict_eq, List.length_singleton]
      omega
    | answer =>
      rw [Write.apart_iff, verdict_eq, verdict_eq, List.length_singleton, List.length_singleton]
      omega

end Parked

/-! ## Any order -/

/-- Stack after stack belongs to thread after thread, and each of them was stopped in a task. The
tasks have registers and answers of their own. A swap that has not answered is about to install a
value other than 0 that its thread has never installed. -/
structure Arena.Suspends (a : Arena) (installed : List Register) (ps : List Parked) : Prop where
  stopped : ∀ p ∈ ps, p.StoppedIn a
  threads_eq : ps.map Parked.thread = List.range ps.length
  fresh : ∀ p ∈ ps, p.point = .afterFramePush →
    (p.swap a).new ≠ 0 ∧ (p.swap a).installed ∉ installed
  registers : (ps.map Parked.register).Nodup
  answers : (ps.map fun p => p.task.answer.toNat).Nodup

namespace Arena

variable {a : Arena} {heap : Region} {installed found : List Register} {ps : List Parked}
  {host : Host}

theorem Suspends.stacks_eq (h : a.Suspends installed ps) :
    (ps.map fun p => p.left.stack.region).zipIdx = ps.map Parked.stack := by
  rw [List.zipIdx_eq_zip_range', List.length_map, ← List.range_eq_range', ← h.threads_eq,
    List.zip_map']
  rfl

/-- There are no more stacks than threads. -/
theorem Suspends.length_le (h : a.Suspends installed ps) : ps.length ≤ a.matrix.threads.toNat := by
  rcases hlast : ps.length with _ | n
  · exact Nat.zero_le _
  · have hmem : n ∈ ps.map Parked.thread := by
      rw [h.threads_eq, List.mem_range]
      omega
    obtain ⟨p, hp, rfl⟩ := List.mem_map.1 hmem
    exact (h.stopped p hp).known

/-- What stops a replay from being its writes is excluded. Each stopped task has an answer, or it
has a new value that nobody has installed yet, so its replay cannot be misled by an old note. -/
theorem Suspends.ready (h : a.Suspends installed ps) (hpast : a.Past heap installed found)
    (hserves : host.Serves) (hmode : host.mode = .recovery)
    (hthreads : host.threads = a.matrix.threads) :
    ∃ given contents, (∀ p ∈ ps, p.Ready a host installed given contents) ∧
      a.Looks installed a.registers contents heap := by
  obtain ⟨contents, cells, htraced⟩ := hpast.traced
  have hreplays : ∀ p : Parked, ∃ given : Option Bool, p ∈ ps →
      (given = none → p.point = .afterFramePush) ∧ p.Replays a host given := by
    intro p
    by_cases hp : p ∈ ps
    · obtain ⟨given, hgiven, hreplay⟩ := (h.stopped p hp).replays hserves hmode hthreads
      exact ⟨given, fun _ => ⟨hgiven, hreplay⟩⟩
    · exact ⟨none, fun hin => absurd hin hp⟩
  choose given hgiven using hreplays
  refine ⟨given, contents, fun p hp => ?_, cells, htraced.holds, htraced.cells_known⟩
  obtain ⟨hopen, hreplay⟩ := hgiven p hp
  exact ⟨h.stopped p hp, hreplay, fun hnone => h.fresh p hp (hopen hnone),
    htraced.known p.register (h.stopped p hp).register_mem⟩

section Ready

variable {given : Parked → Option Bool} {contents : Nat → Register} {order : List Parked}

/-- Two of the stopped tasks have nothing in common. Neither writes a byte that the other one
writes, and what one of them writes does not change what the other one has to see. -/
theorem Suspends.beside (h : a.Suspends installed ps)
    (hready : ∀ p ∈ ps, p.Ready a host installed given contents)
    (hbeside : ∀ p ∈ ps, ∀ q ∈ ps, p.register ≠ q.register → p.AnswersBeside q) {p q : Parked}
    (hp : p ∈ ps) (hq : q ∈ ps) (hregister : p.register ≠ q.register) :
    (p.role a installed given contents).Beside (q.role a installed given contents) := by
  have hne : p ≠ q := fun hsame => hregister (congrArg Parked.register hsame)
  have hthreads : (ps.map Parked.thread).Nodup := by
    rw [h.threads_eq]
    exact List.nodup_range
  have hthread : p.thread ≠ q.thread := fun hsame =>
    hne (List.inj_on_of_nodup_map hthreads hp hq hsame)
  have hanswer : p.task.answer.toNat ≠ q.task.answer.toNat := fun hsame =>
    hne (List.inj_on_of_nodup_map h.answers hp hq hsame)
  have hpq := hbeside p hp q hq hregister
  have hqp := hbeside q hq p hp (Ne.symm hregister)
  constructor
  · intro v hv w hw
    exact ((hready p hp).touches hv).apart ((hready q hq).touches hw) (h.stopped p hp)
      (h.stopped q hq) hthread hregister hanswer hpq hqp
  · intro w hw heap
    exact (hready q hq).keeps (hready p hp) (Ne.symm hregister) hqp hw
  · intro w hw heap
    exact (hready p hp).keeps (hready q hq) hregister hpq hw

/-- **All of them can be replayed at the same time.** Their registers, their columns of the matrix
and the places of their answers are different ones, so no two of them write the same byte, and none
of them sees what another one does. -/
theorem Suspends.compatible (h : a.Suspends installed ps)
    (hready : ∀ p ∈ ps, p.Ready a host installed given contents)
    (hbeside : ∀ p ∈ ps, ∀ q ∈ ps, p.register ≠ q.register → p.AnswersBeside q)
    (hlook : a.Looks installed a.registers contents heap) :
    Role.Compatible heap (ps.map (Parked.role a installed given contents)) := by
  obtain ⟨cells, hholds, hcells⟩ := hlook
  constructor
  · refine List.pairwise_map.2 ((List.pairwise_map.1 h.registers).imp_of_mem ?_)
    intro p q hp hq hregister
    exact h.beside hready hbeside hp hq hregister
  · intro r hr
    obtain ⟨p, hp, rfl⟩ := List.mem_map.1 hr
    have hsub : [p.register] ⊆ a.registers :=
      List.cons_subset.2 ⟨(h.stopped p hp).register_mem, List.nil_subset _⟩
    exact ⟨cells, hholds.mono hsub, hcells⟩
  · intro r hr w hw
    obtain ⟨p, hp, rfl⟩ := List.mem_map.1 hr
    rw [hholds.size_eq]
    exact ((hready p hp).touches hw).stop_le (h.stopped p hp)

/-- The changes of all of them do not depend on the order. -/
theorem putAll_changes
    (hroles : Role.Compatible heap (ps.map (Parked.role a installed given contents)))
    (hperm : order.Perm ps) :
    heap.putAll (order.flatMap (Parked.changes a given contents))
      = heap.putAll (ps.flatMap (Parked.changes a given contents)) := by
  have hplans := hroles.putAll_eq (hperm.map (Parked.role a installed given contents)).symm
  rw [List.flatMap_map, List.flatMap_map] at hplans
  exact hplans.symm

/-- **Each order makes the same changes.** Taken one after the other, the replays are their writes,
and these can be exchanged as long as they share no byte. -/
theorem restoreEach_eq (hready : ∀ p ∈ ps, p.Ready a host installed given contents)
    (hroles : Role.Compatible heap (ps.map (Parked.role a installed given contents)))
    (hperm : order.Perm ps) :
    Pool.restoreEach host heap (order.map Parked.stack)
      = (order.map fun p => .ok p.count,
        heap.putAll (ps.flatMap (Parked.changes a given contents))) := by
  rw [← putAll_changes hroles hperm]
  apply Parked.restoreEach_apply
  · intro p hp
    exact hready p (hperm.mem_iff.1 hp)
  · exact hroles.perm (hperm.map _).symm

/-- **Each schedule makes the same changes.** The pool starts a thread for each stack, and each of
them plays its role from its first step on. So every thread returns its count and carries out its
plan, whichever of them the schedule lets go on. -/
theorem Suspends.restoreBy_eq (h : a.Suspends installed ps)
    (hready : ∀ p ∈ ps, p.Ready a host installed given contents)
    (hroles : Role.Compatible heap (ps.map (Parked.role a installed given contents)))
    (hthreads : host.threads = a.matrix.threads) (schedule : List Nat) :
    (Pool.restoreBy host schedule heap (ps.map fun p => p.left.stack.region)).result
        = .ok (ps.map Parked.count) ∧
      (Pool.restoreBy host schedule heap (ps.map fun p => p.left.stack.region)).heap
        = heap.putAll (ps.flatMap (Parked.changes a given contents)) := by
  have hlength : (ps.map fun p => p.left.stack.region).length ≤ host.threads.toNat := by
    rw [List.length_map, hthreads]
    exact h.length_le
  have hcrew : Pool.restorers host heap (ps.map fun p => p.left.stack.region)
      = ps.map (Parked.replayer host heap) := by
    rw [Pool.restorers, h.stacks_eq, List.map_map]
    rfl
  have hplaying : Crew.Playing heap (ps.map (Parked.role a installed given contents))
      ⟨heap, ps.map (Parked.replayer host heap)⟩ :=
    .start fun p hp => (hready p hp).plays heap
  obtain ⟨houtcomes, hheap⟩ := Crew.finish_run hroles hplaying schedule
  rw [List.map_map] at houtcomes
  rw [List.flatMap_map] at hheap
  simp only [Pool.restoreBy, List.take_of_length_le hlength, List.drop_of_length_le hlength, hcrew,
    List.isEmpty_nil, if_true, houtcomes, hheap]
  refine ⟨?_, rfl⟩
  have hjoined := Pool.joinAll_ok (.task "restore thread panicked") (ps.map Parked.count)
  rw [List.map_map] at hjoined
  exact congrArg (liftM : Except Failure (List Nat) → Except Halt (List Nat)) hjoined

/-- In the heap that is left every task has an answer: in an order in which the task is the last
one, its answer is the last write. -/
theorem Suspends.read_answer (h : a.Suspends installed ps)
    (hroles : Role.Compatible heap (ps.map (Parked.role a installed given contents)))
    (hsize : heap.size = a.size) {p : Parked} (hp : p ∈ ps) :
    ∃ yes, (heap.putAll (ps.flatMap (Parked.changes a given contents))).read p.task.answer.toNat 1
      = .ok [answerOf yes] := by
  obtain ⟨before, behind, hsplit⟩ := List.append_of_mem hp
  have hperm : ((before ++ behind) ++ [p]).Perm ps := by
    rw [hsplit]
    exact (List.perm_append_singleton p (before ++ behind)).trans List.perm_middle.symm
  rw [← putAll_changes hroles hperm, List.flatMap_append, List.flatMap_singleton, putAll_append]
  apply (h.stopped p hp).read_answer
  rw [size_putAll]
  exact hsize

end Ready

end Arena

/-- **Stopped stacks can be restored in any order.** Threads have swapped registers of an arena,
whatever their steps were, and some of them were stopped in tasks with registers and answers of
their own, with values that they have not installed before. No answer has its place in the
register of another task.

Then there is one heap that every order leads to, and each replay counts the frames that were
above the root. In that heap every task has an answer. A pool that restores all of the stacks, each
in a thread of its own, returns the counts in the order of the stacks and leaves the same heap,
in whatever order the threads take their steps. -/
theorem restored_in_any_order {a : Arena} {heap : Region} {installed found : List Register}
    {ps : List Parked} {host : Host} (hpast : a.Past heap installed found)
    (hleft : a.Suspends installed ps)
    (hbeside : ∀ p ∈ ps, ∀ q ∈ ps, p.register ≠ q.register → p.AnswersBeside q)
    (hserves : host.Serves) (hmode : host.mode = .recovery)
    (hthreads : host.threads = a.matrix.threads) :
    ∃ last,
      (∀ order : List Parked, order.Perm ps →
        Pool.restoreEach host heap (order.map Parked.stack)
          = (order.map fun p => .ok p.count, last)) ∧
      (∀ p ∈ ps, ∃ yes, last.read p.task.answer.toNat 1 = .ok [answerOf yes]) ∧
      ∀ schedule : List Nat,
        (Pool.restoreBy host schedule heap (ps.map fun p => p.left.stack.region)).result
          = .ok (ps.map Parked.count) ∧
        (Pool.restoreBy host schedule heap (ps.map fun p => p.left.stack.region)).heap
          = last := by
  obtain ⟨given, contents, hready, hlook⟩ := hleft.ready hpast hserves hmode hthreads
  have hroles := hleft.compatible hready hbeside hlook
  refine ⟨heap.putAll (ps.flatMap (Parked.changes a given contents)), ?_, ?_, ?_⟩
  · intro order hperm
    exact Arena.restoreEach_eq hready hroles hperm
  · intro p hp
    obtain ⟨cells, hholds, -⟩ := hlook
    exact hleft.read_answer hroles hholds.size_eq hp
  · intro schedule
    exact hleft.restoreBy_eq hready hroles hthreads schedule

/-! ## Two workers -/

/-- Two registers, a matrix for two threads, and some bytes behind it. -/
def twoRegisters : Arena where
  size := 152
  registers := [0, 64]
  matrix := ⟨128, 2⟩
  fits register hmem := by
    rcases List.mem_cons.1 hmem with rfl | hmem
    · exact ⟨rfl, by decide, by decide, .inl (by decide)⟩
    · rw [List.mem_singleton.1 hmem]
      exact ⟨rfl, by decide, by decide, .inl (by decide)⟩
  aligned := rfl

/-- Zeros, as many as asked for. -/
def zeroRegion (name : String) (size : Nat) (hsize : size < sizeLimit) : Region where
  path := .ofText name
  cells := Array.replicate size 0
  size_lt := by
    rw [Array.size_replicate]
    exact hsize

/-- The registers are initialized with 5 and 9. -/
def fiveAndNine : Region :=
  ((zeroRegion "heap" 152 (by decide)).put 0
    (toBytes 8 (Register.pack ⟨Register.noOwner, 5⟩))).put 64
      (toBytes 8 (Register.pack ⟨Register.noOwner, 9⟩))

theorem fiveAndNine_past : twoRegisters.Past fiveAndNine [] [] := by
  have hsize : (zeroRegion "heap" 152 (by decide)).size = 152 := Array.size_replicate
  have hzeros : twoRegisters.Past (zeroRegion "heap" 152 (by decide)) [] [] := by
    refine .of_zeros hsize ?_ (by decide) ?_
    · intro i hi
      rw [hsize] at hi
      simp [zeroRegion, hi]
    · rw [hsize]
      decide
  have hfive : Register.init 0 5 (zeroRegion "heap" 152 (by decide)) = (.ok (), _) :=
    Register.init_of_fits 5 rfl (by rw [hsize]; decide)
  have hnine : Register.init 64 9 _ = (.ok (), fiveAndNine) :=
    Register.init_of_fits 9 rfl (by rw [Region.size_put, hsize]; decide)
  exact .init (.init hzeros (by decide) hfive) (by decide) hnine

/-- A process of two threads with the built-in functions. -/
def pairHost (mode : Mode) : Host := ⟨Registry.addBuiltins .empty, mode, 2⟩

/-- Room for a task. -/
def taskRoom : DurableStack := ⟨.empty, zeroRegion "stack" 168 (by decide)⟩

/-- The same with a root frame. -/
@[irreducible]
def rootedRoom : DurableStack := (DurableStack.push ⟨rootFunction, []⟩ none taskRoom).2

theorem rootedRoom_frames : rootedRoom.calls.frames = [rootFrame] := by decide +kernel

theorem size_rootedRoom : rootedRoom.region.size = 168 := by decide +kernel

theorem rootedRoom_used : taskRoom.Used rootedRoom := by
  have hstart : taskRoom.Used taskRoom := .start
  have hmade : Frame.make rootFunction [] = .ok ⟨rootFunction, []⟩ := rfl
  unfold rootedRoom
  exact hstart.push rootFunction [] hmade none

/-- A worker of two threads on its root frame, which will be stopped at a point of a function. -/
def rootedWorker (thread : Nat) (point : FaultPoint) (function : String) : Context where
  host := pairHost .execution
  thread := UInt32.ofNat thread
  stack := rootedRoom
  heap := some fiveAndNine
  hook := some (.whenever fun place name => place = point ∧ name = function)

/-- The same worker behind a task that was stopped there. -/
def parkedAt (thread : Nat) (task : SwapTask) (point : FaultPoint) (function : String) :
    Parked where
  thread
  task
  worker := rootedWorker thread point function
  left := (Context.dispatch (.swap task) (rootedWorker thread point function)).2
  point
  function

section Parked

variable {thread : Nat} {task first second : SwapTask} {point point' : FaultPoint}
  {function function' : String}

theorem parkedAt_stoppedIn (hthread : thread < 2) (hregister : task.swap.register.toNat ∈ [0, 64])
    (hmatrix : task.swap.matrix.toNat = 128) (hin : task.answer.toNat < 152)
    (hanswer : task.answer.toNat < 128 ∨ 144 ≤ task.answer.toNat)
    (hhalted : (Context.dispatch (.swap task) (rootedWorker thread point function)).1
      = .error (.failed (.simulatedCrash point function))) :
    (parkedAt thread task point function).StoppedIn twoRegisters where
  known := hthread
  serves := serves_of_addBuiltins
  threads_eq := rfl
  thread_eq := rfl
  stack_used := ⟨taskRoom, rfl, rootedRoom_used⟩
  frames_eq := rootedRoom_frames
  room := Nat.le_of_eq size_rootedRoom.symm
  past := ⟨fiveAndNine, [], [], rfl, fiveAndNine_past⟩
  register_mem := hregister
  matrix_eq := hmatrix
  answer_in := hin
  answer_matrix := hanswer
  halted := by
    have hrun := (Prod.eta (dispatch (.swap task) (rootedWorker thread point function))).symm
    rw [hhalted] at hrun
    exact hrun

/-- Two such workers, with tasks for different registers. -/
theorem parkedAt_suspends
    (hfirst : (parkedAt 0 first point function).StoppedIn twoRegisters)
    (hsecond : (parkedAt 1 second point' function').StoppedIn twoRegisters)
    (hnew : first.swap.new ≠ 0 ∧ second.swap.new ≠ 0)
    (hregisters : first.swap.register.toNat ≠ second.swap.register.toNat)
    (hanswers : first.answer.toNat ≠ second.answer.toNat) :
    twoRegisters.Suspends []
      [parkedAt 0 first point function, parkedAt 1 second point' function'] where
  stopped := by
    intro p hp
    rcases List.mem_cons.1 hp with rfl | hp
    · exact hfirst
    · rw [List.mem_singleton.1 hp]
      exact hsecond
  threads_eq := rfl
  fresh := by
    intro p hp _
    rcases List.mem_cons.1 hp with rfl | hp
    · exact ⟨hnew.1, List.not_mem_nil⟩
    · rw [List.mem_singleton.1 hp]
      exact ⟨hnew.2, List.not_mem_nil⟩
  registers := List.nodup_cons.2 ⟨fun hmem => hregisters (List.mem_singleton.1 hmem),
    List.nodup_singleton _⟩
  answers := List.nodup_cons.2 ⟨fun hmem => hanswers (List.mem_singleton.1 hmem),
    List.nodup_singleton _⟩

end Parked

/-- One worker is stopped when its task is entered. The other has found another value than it
expects, and is stopped when it has answered. -/
def stoppedPair : List Parked :=
  [parkedAt 0 ⟨⟨0, 5, 7, 128⟩, 144⟩ .afterFramePush taskFunction,
    parkedAt 1 ⟨⟨64, 1, 11, 128⟩, 145⟩ .afterAnswerWrite swapFunction]

/-- Both orders leave the same heap, with both answers in it, and so does a pool that restores the
two stacks at the same time, in whatever order its threads take their steps. -/
theorem stoppedPair_restored_in_any_order :
    twoRegisters.Past fiveAndNine [] [] ∧ twoRegisters.Suspends [] stoppedPair ∧
    ∃ last,
      (∀ order : List Parked, order.Perm stoppedPair →
        Pool.restoreEach (pairHost .recovery) fiveAndNine (order.map Parked.stack)
          = (order.map fun p => .ok p.count, last)) ∧
      (∀ p ∈ stoppedPair, ∃ yes, last.read p.task.answer.toNat 1 = .ok [answerOf yes]) ∧
      ∀ schedule : List Nat,
        (Pool.restoreBy (pairHost .recovery) schedule fiveAndNine
          (stoppedPair.map fun p => p.left.stack.region)).result
            = .ok (stoppedPair.map Parked.count) ∧
        (Pool.restoreBy (pairHost .recovery) schedule fiveAndNine
          (stoppedPair.map fun p => p.left.stack.region)).heap = last := by
  have hfirst : (parkedAt 0 ⟨⟨0, 5, 7, 128⟩, 144⟩ .afterFramePush taskFunction).StoppedIn
      twoRegisters :=
    parkedAt_stoppedIn (by decide) (by decide) rfl (by decide) (by decide) (by decide +kernel)
  have hsecond : (parkedAt 1 ⟨⟨64, 1, 11, 128⟩, 145⟩ .afterAnswerWrite swapFunction).StoppedIn
      twoRegisters :=
    parkedAt_stoppedIn (by decide) (by decide) rfl (by decide) (by decide) (by decide +kernel)
  have hleft : twoRegisters.Suspends [] stoppedPair :=
    parkedAt_suspends hfirst hsecond (by decide) (by decide) (by decide)
  have hbeside : ∀ p ∈ stoppedPair, ∀ q ∈ stoppedPair, p.register ≠ q.register →
      p.AnswersBeside q := by
    intro p hp q hq _
    -- both answers lie behind both registers
    have hregister : q.register + 8 ≤ 128 := by
      rcases List.mem_cons.1 hq with rfl | hq
      · decide
      · rw [List.mem_singleton.1 hq]
        decide
    have hanswer : 128 ≤ p.task.answer.toNat := by
      rcases List.mem_cons.1 hp with rfl | hp
      · decide
      · rw [List.mem_singleton.1 hp]
        decide
    exact .inr (Nat.le_trans hregister hanswer)
  exact ⟨fiveAndNine_past, hleft, restored_in_any_order fiveAndNine_past hleft hbeside
    serves_of_addBuiltins rfl rfl⟩

/-- Both workers are stopped when their tasks are entered, and the answer of the first one has its
place in the register of the second. -/
def answerInRegister : Parked := parkedAt 0 ⟨⟨0, 5, 7, 128⟩, 68⟩ .afterFramePush taskFunction

def registerOfAnswer : Parked := parkedAt 1 ⟨⟨64, 9, 11, 128⟩, 144⟩ .afterFramePush taskFunction

/-- **Then the order is seen**: the second swap finds the answer of the first one in its register,
or it does not, and says so. -/
theorem answerInRegister_order_seen :
    twoRegisters.Past fiveAndNine [] [] ∧
    twoRegisters.Suspends [] [answerInRegister, registerOfAnswer] ∧
    (pairHost .recovery).Serves ∧
    (Pool.restoreEach (pairHost .recovery) fiveAndNine
      ([answerInRegister, registerOfAnswer].map Parked.stack)).2.read 144 1
        = .ok [answerOf false] ∧
    (Pool.restoreEach (pairHost .recovery) fiveAndNine
      ([registerOfAnswer, answerInRegister].map Parked.stack)).2.read 144 1
        = .ok [answerOf true] := by
  have hfirst : answerInRegister.StoppedIn twoRegisters :=
    parkedAt_stoppedIn (by decide) (by decide) rfl (by decide) (by decide) (by decide +kernel)
  have hsecond : registerOfAnswer.StoppedIn twoRegisters :=
    parkedAt_stoppedIn (by decide) (by decide) rfl (by decide) (by decide) (by decide +kernel)
  have hleft : twoRegisters.Suspends [] [answerInRegister, registerOfAnswer] :=
    parkedAt_suspends hfirst hsecond (by decide) (by decide) (by decide)
  exact ⟨fiveAndNine_past, hleft, serves_of_addBuiltins, by decide +kernel, by decide +kernel⟩

end DurableCalls
