/-
`Concurrent.lean` -- swaps of several threads whose steps come in any order.

Between the three atomic steps of a swap other threads may take steps of theirs, so what a
thread has observed and announced may be gone when it comes to the exchange. The exchange
compares the whole register again, and nothing else ever changes the register.

So the successes form a chain in the order of their exchanges, and the register holds the last
value of the chain (`Linked`). That is all that the check of degrees asks for. The check of fresh
histories also asks that no swap failed on the first value if none succeeded: as long as the chain
is empty, the register is what it was at the start, and so is all that a thread has observed
(`Linked.untouched`).

The register and the cells are beside each other, and apart from that the heap may hold anything:
what stands in the cells plays no part as long as nothing is recovered.
-/
import DurableCalls.Proofs.Region.Stages
import DurableCalls.Proofs.Swap.Trace
import DurableCalls.Proofs.History.Explained

set_option autoImplicit false

namespace DurableCalls

open Site History

namespace Swap

/-! ## The steps of a call -/

/-- How far a call is: it has done nothing, has observed the register, or has also left the note
about what it observed. -/
inductive Stage
  | entered
  | observed (current : Register)
  | announced (current : Register)
deriving DecidableEq, Repr

/-- What a call has observed. -/
def Stage.found : Stage → Option Register
  | entered => none
  | observed current => some current
  | announced current => some current

/-- The next atomic step of a call, which goes on at another stage or returns. The stages are cut
where the heap is read or written: the load, the note, and the exchange. -/
def advance (s : Swap) : Stage → Run Region (Stage ⊕ Bool)
  | .entered => do
    checkThread s.thread s.matrix.threads
    match ← s.observe (← get) with
    | none => return .inr false
    | some current => return .inl (.observed current)
  | .observed current => do
    s.announce current
    return .inl (.announced current)
  | .announced current => do
    return .inr (← s.exchange current)

/-- What a call has left to do. -/
def remaining (s : Swap) : Stage → Run Region Bool
  | .entered => s.attempt
  | .observed current => do
    s.announce current
    s.exchange current
  | .announced current => s.exchange current

/-- **The steps are the swap**, cut where other threads may come between. What is left of it at a
stage is one step, and then what is left at the next stage, or the answer. -/
theorem remaining_eq_advance (s : Swap) (stage : Stage) :
    s.remaining stage = s.advance stage >>= Sum.elim s.remaining pure := by
  cases stage with
  | entered =>
    simp only [remaining, advance, attempt, bind_assoc]
    refine bind_congr fun _ => bind_congr fun heap => bind_congr fun observed => ?_
    cases observed with
    | none => simp
    | some current => rfl
  | observed current => simp [remaining, advance]
  | announced current => simp [remaining, advance]

/-- How many steps of a call are still to come behind the next one. -/
def Stage.rank : Stage → Nat × Nat
  | entered => (2, 0)
  | observed _ => (1, 0)
  | announced _ => (0, 0)

theorem staged (s : Swap) : Staged s.advance s.remaining Stage.rank where
  apart := s.remaining_eq_advance
  nearer stage := by
    cases stage with
    | entered =>
      apply Run.Returns.behind
      intro _
      apply Run.Returns.behind
      intro _
      apply Run.Returns.behind
      intro found
      cases found with
      | none => exact .pure trivial
      | some current => exact .pure (.left _ _ (by decide))
    | observed current =>
      apply Run.Returns.behind
      intro _
      exact .pure (.left _ _ (by decide))
    | announced current =>
      apply Run.Returns.behind
      intro _
      exact .pure trivial

/-- **A call that nobody interrupts is the swap**: its steps come to an end, with the answer and the
heap of `attempt`. -/
theorem leads_iff_attempt {s : Swap} {heap after : Region} {result : Except Halt Bool} :
    Leads s.advance .entered heap result after ↔ s.attempt heap = (result, after) :=
  s.staged.leads_iff

/-! ## Threads and their programs -/

/-- A value that a thread wants to replace, and what by. -/
structure Request where
  expected : UInt32
  new : UInt32
deriving DecidableEq, Repr

def Request.swap (r : Request) (site : Site) (thread : UInt32) : Swap :=
  ⟨site.register, site.matrix, r.expected, r.new, thread⟩

def Request.outcome (r : Request) (succeeded : Bool) : Outcome := ⟨r.expected, r.new, succeeded⟩

/-- What an outcome is the outcome of. -/
def requestOf (o : Outcome) : Request := ⟨o.before, o.after⟩

/-- A thread somewhere in its program. -/
structure Client where
  /-- What it still has to ask for. Its current call is that of the first request. -/
  program : List Request
  stage : Stage
  /-- The answers it got, in the order of its program. -/
  outcomes : List Outcome

/-- The client takes its next step. A call that halts ends without an answer, and the client goes on
with its next request. -/
def Client.step (c : Client) (site : Site) (thread : UInt32) (heap : Region) : Client × Region :=
  match c.program with
  | [] => (c, heap)
  | request :: rest =>
    match (request.swap site thread).advance c.stage heap with
    | (.ok (.inl stage), heap) => ({ c with stage }, heap)
    | (.ok (.inr answer), heap) => (⟨rest, .entered, c.outcomes ++ [request.outcome answer]⟩, heap)
    | (.error _, heap) => (⟨rest, .entered, c.outcomes⟩, heap)

/-- One heap and the threads on it, which are numbered from 0. -/
structure Shared where
  heap : Region
  clients : List Client

def Shared.start (heap : Region) (programs : List (List Request)) : Shared :=
  ⟨heap, programs.map fun program => ⟨program, .entered, []⟩⟩

/-- The thread of this number takes a step. -/
def Shared.step (s : Shared) (site : Site) (thread : Nat) : Shared :=
  match s.clients[thread]? with
  | none => s
  | some client =>
    let (client, heap) := client.step site (UInt32.ofNat thread) s.heap
    ⟨heap, s.clients.set thread client⟩

/-- The threads take their steps in the order of a schedule. -/
def Shared.run (s : Shared) (site : Site) (schedule : List Nat) : Shared :=
  schedule.foldl (·.step site ·) s

/-- The answers so far, by threads. -/
def Shared.outcomes (s : Shared) : List (List Outcome) := s.clients.map (·.outcomes)

section Step

variable {site : Site} {thread : UInt32} {heap : Region} {current found : Register} {cells : Cells}
  {c c' : Client} {s : Swap}

/-! ## What a step does -/

/-- A register that nobody owns, or a thread with a row. -/
def KnownOwner (site : Site) (r : Register) : Prop :=
  r.owner = Register.noOwner ∨ r.owner < site.matrix.threads

theorem cellAt_of_not_lt {m : Matrix} {row col : UInt32}
    (h : ¬(row < m.threads ∧ col < m.threads)) : ∃ halt, m.cellAt row col = .error halt := by
  by_cases hrow : row < m.threads
  · have hcol := fun hcol => h ⟨hrow, hcol⟩
    refine ⟨.failed (.invalidThread col m.threads), ?_⟩
    simp only [Matrix.cellAt, checkThread, if_pos hrow, if_neg hcol, bind, Except.bind, liftM,
      monadLift, MonadLift.monadLift]
  · refine ⟨.failed (.invalidThread row m.threads), ?_⟩
    simp only [Matrix.cellAt, checkThread, if_neg hrow, bind, Except.bind, liftM, monadLift,
      MonadLift.monadLift]

/-- A note of whatever was found leaves the register as it is, and it can be left in aligned cells
by a known thread for a known owner. -/
theorem announce_cases (hshows : s.site.Shows heap current cells) (found : Register) :
    ∃ after cells', s.site.Shows after current cells' ∧
      (s.announce found heap = (.ok (), after) ∨
        (KnownOwner s.site found → ¬(s.site.Aligned ∧ s.thread < s.matrix.threads)) ∧
          ∃ halt, s.announce found heap = (.error halt, after)) := by
  by_cases hnone : found.owner = Register.noOwner
  · rw [announce, if_neg fun hsome => hsome hnone]
    exact ⟨heap, cells, hshows, .inl rfl⟩
  rw [announce, if_pos hnone]
  by_cases hknown : found.owner < s.matrix.threads ∧ s.thread < s.matrix.threads
  · by_cases hal : s.site.Aligned
    · obtain ⟨after, hcommit, hafter, -⟩ := hshows.commit_cell hal hknown.1 hknown.2 found.value
      exact ⟨after, _, hafter, .inl hcommit⟩
    · obtain ⟨halt, hcommit⟩ :=
        hshows.commit_cell_of_misaligned hal hknown.1 hknown.2 found.value
      exact ⟨heap, cells, hshows, .inr ⟨fun _ h => hal h.1, halt, hcommit⟩⟩
  · obtain ⟨halt, hcell⟩ := cellAt_of_not_lt hknown
    refine ⟨heap, cells, hshows, .inr ⟨fun howner h => ?_, halt, ?_⟩⟩
    · exact hknown ⟨howner.resolve_left hnone, h.2⟩
    · rw [Matrix.commit, Run.bind_of_error (by rw [Run.liftHalt_apply, hcell])]

theorem advance_entered_cases (hshows : s.site.Shows heap current cells) :
    (¬s.thread < s.matrix.threads ∧ ∃ halt, s.advance .entered heap = (.error halt, heap)) ∨
    (s.thread < s.matrix.threads ∧ current.value = s.expected ∧
      s.advance .entered heap = (.ok (.inl (.observed current)), heap)) ∨
    (current.value ≠ s.expected ∧ s.advance .entered heap = (.ok (.inr false), heap)) := by
  by_cases hthread : s.thread < s.matrix.threads
  · have hobserve := observe_of_shows hshows
    by_cases hvalue : current.value = s.expected
    · rw [if_pos hvalue] at hobserve
      refine .inr (.inl ⟨hthread, hvalue, ?_⟩)
      simp only [advance, Run.bind_apply, Run.lift_apply, Run.get_apply,
        checkThread_of_lt hthread, hobserve, Run.mapError_ok, Run.pure_apply]
    · rw [if_neg hvalue] at hobserve
      refine .inr (.inr ⟨hvalue, ?_⟩)
      simp only [advance, Run.bind_apply, Run.lift_apply, Run.get_apply,
        checkThread_of_lt hthread, hobserve, Run.mapError_ok, Run.pure_apply]
  · have hcheck : checkThread s.thread s.matrix.threads
      = .error (.invalidThread s.thread s.matrix.threads) := if_neg hthread
    refine .inl ⟨hthread, .failed (.invalidThread s.thread s.matrix.threads), ?_⟩
    simp only [advance, Run.bind_apply, Run.lift_apply, hcheck, Run.mapError_error]

theorem advance_observed_cases (hshows : s.site.Shows heap current cells) (found : Register) :
    ∃ after cells', s.site.Shows after current cells' ∧
      (s.advance (.observed found) heap = (.ok (.inl (.announced found)), after) ∨
        (KnownOwner s.site found → ¬(s.site.Aligned ∧ s.thread < s.matrix.threads)) ∧
          ∃ halt, s.advance (.observed found) heap = (.error halt, after)) := by
  obtain ⟨after, cells', hafter, hannounce | ⟨hreason, halt, hannounce⟩⟩ :=
    announce_cases hshows found
  · refine ⟨after, cells', hafter, .inl ?_⟩
    rw [advance, Run.bind_of_ok hannounce]
    rfl
  · exact ⟨after, cells', hafter, .inr ⟨hreason, halt, Run.bind_of_error hannounce⟩⟩

/-- A note that can be left is left. -/
theorem advance_observed_apply (hshows : s.site.Shows heap current cells)
    (hthread : s.thread < s.matrix.threads) (howner : s.Owned found) (hnote : s.CanNote found) :
    s.advance (.observed found) heap
      = (.ok (.inl (.announced found)), heap.putAll (s.noteWrites found)) := by
  rw [advance, Run.bind_of_ok (announce_apply hshows.fits hthread howner hnote)]
  rfl

/-- An exchange replaces what was found exactly if it is still there. -/
theorem advance_announced_cases (hshows : s.site.Shows heap current cells) (found : Register) :
    (current = found ∧
      s.advance (.announced found) heap = (.ok (.inr true), heap.putAll [s.installWrite])) ∨
    (current ≠ found ∧ s.advance (.announced found) heap = (.ok (.inr false), heap)) := by
  have hexchange := exchange_apply hshows found
  by_cases hsame : current = found
  · rw [if_pos hsame] at hexchange
    refine .inl ⟨hsame, ?_⟩
    rw [advance, Run.bind_of_ok hexchange]
    rfl
  · rw [if_neg hsame] at hexchange
    refine .inr ⟨hsame, ?_⟩
    rw [advance, Run.bind_of_ok hexchange]
    rfl

/-- What a call relies on from its first step until it returns: it has a request, which expects
the value that was found. -/
structure Client.Holds (c : Client) (site : Site) (thread : UInt32) (found : Register) : Prop where
  thread_known : thread < site.matrix.threads
  owner_known : KnownOwner site found
  expected : ∃ request rest, c.program = request :: rest ∧ found.value = request.expected

/-- What one step of a client may do to itself and to the register. Every move but the last leaves
the register; the notes in the matrix are not told, as no answer of a swap depends on them. -/
inductive Client.Moves (c : Client) (site : Site) (thread : UInt32) (current : Register) :
    Client → Register → Prop
  | rests (program : c.program = []) : Moves c site thread current c current
  | observes {request : Request} {rest : List Request} (program : c.program = request :: rest)
      (known : thread < site.matrix.threads) (value : current.value = request.expected) :
      Moves c site thread current { c with stage := .observed current } current
  | announces {found : Register} (stage : c.stage = .observed found) :
      Moves c site thread current { c with stage := .announced found } current
  | halts {request : Request} {rest : List Request} (program : c.program = request :: rest)
      (reason : ¬(site.Aligned ∧ thread < site.matrix.threads)) :
      Moves c site thread current ⟨rest, .entered, c.outcomes⟩ current
  | fails {request : Request} {rest : List Request} (program : c.program = request :: rest)
      (value : current.value ≠ request.expected ∨
        ∃ found, c.stage.found = some found ∧ current ≠ found) :
      Moves c site thread current ⟨rest, .entered, c.outcomes ++ [request.outcome false]⟩ current
  | succeeds {request : Request} {rest : List Request} (program : c.program = request :: rest)
      (known : thread < site.matrix.threads) (value : current.value = request.expected) :
      Moves c site thread current ⟨rest, .entered, c.outcomes ++ [request.outcome true]⟩
        ⟨thread, request.new⟩

/-- **Every step is one of these moves.** The cells may change with a note, and no move depends on
them; so the moves tell all that the chain of the successes needs to know of a step. -/
theorem Client.step_moves (hshows : site.Shows heap current cells)
    (hholds : ∀ found, c.stage.found = some found → c.Holds site thread found) :
    ∃ current' cells', site.Shows (c.step site thread heap).2 current' cells' ∧
      c.Moves site thread current (c.step site thread heap).1 current' := by
  cases hprogram : c.program with
  | nil =>
    rw [step, hprogram]
    exact ⟨current, cells, hshows, .rests hprogram⟩
  | cons request rest =>
    have hsite : (request.swap site thread).site.Shows heap current cells := hshows
    rw [step, hprogram]
    cases hstage : c.stage with
    | entered =>
      rcases advance_entered_cases hsite with ⟨hthread, halt, hstep⟩ | ⟨hthread, hvalue, hstep⟩
        | ⟨hvalue, hstep⟩
      · simp only [hstep]
        exact ⟨current, cells, hshows, .halts hprogram fun h => hthread h.2⟩
      · simp only [hstep]
        exact ⟨current, cells, hshows, hprogram ▸ .observes hprogram hthread hvalue⟩
      · simp only [hstep]
        exact ⟨current, cells, hshows, .fails hprogram (.inl hvalue)⟩
    | observed found =>
      have hfound := hholds found (by rw [hstage]; rfl)
      obtain ⟨after, cells', hafter, hstep | ⟨hreason, halt, hstep⟩⟩ :=
        advance_observed_cases hsite found
      · simp only [hstep]
        exact ⟨current, cells', hafter, hprogram ▸ .announces hstage⟩
      · simp only [hstep]
        exact ⟨current, cells', hafter, .halts hprogram (hreason hfound.owner_known)⟩
    | announced found =>
      have hfound := hholds found (by rw [hstage]; rfl)
      rcases advance_announced_cases hsite found with ⟨rfl, hstep⟩ | ⟨hne, hstep⟩
      · simp only [hstep]
        have hafter := hsite.put_register (request.swap site thread).installed
        -- what was observed is still there, so it has the value that the request expects
        obtain ⟨_, _, hagain, hvalue⟩ := hfound.expected
        rw [hprogram] at hagain
        cases hagain
        exact ⟨_, cells, hafter, .succeeds hprogram hfound.thread_known hvalue⟩
      · simp only [hstep]
        exact ⟨current, cells, hshows, .fails hprogram (.inr ⟨found, by rw [hstage]; rfl, hne⟩)⟩

/-- What a client was asked for is what it has answers for and what it still has to do. -/
def Client.asked (c : Client) : List Request := c.outcomes.map requestOf ++ c.program

/-- Calls that cannot halt leave no request without an answer. -/
theorem Client.Moves.asked_eq {current' : Register} (h : c.Moves site thread current c' current')
    (hal : site.Aligned) (hthread : thread < site.matrix.threads) : c'.asked = c.asked := by
  cases h with
  | rests | observes | announces => rfl
  | halts _ reason => exact absurd ⟨hal, hthread⟩ reason
  | fails program | succeeds program =>
    simp only [asked, program, List.map_append, List.append_assoc]
    rfl

end Step

/-! ## The chain -/

section Linked

variable {site : Site} {init : UInt32} {s : Shared} {current current' : Register}
  {chain new : List Outcome} {c c' : Client} {k : Nat} {heap : Region} {cells : Cells}

/-- The successes so far, in the order of their exchanges, are a chain from the first value to the
one in the register. -/
structure Linked (site : Site) (init : UInt32) (s : Shared) (current : Register)
    (chain : List Outcome) : Prop where
  shows : ∃ cells, site.Shows s.heap current cells
  owner_known : KnownOwner site current
  value : current.value = lastValue init chain
  path : PathFrom init chain
  perm : chain.Perm (successes s.outcomes.flatten)
  order : ∀ outcomes ∈ s.outcomes, (successes outcomes).Sublist chain
  holds : ∀ (k : Nat) (c : Client) (found : Register), s.clients[k]? = some c →
    c.stage.found = some found → c.Holds site (UInt32.ofNat k) found
  /-- As long as nothing has succeeded, what was found is still there. -/
  untouched : chain = [] →
    (∀ c ∈ s.clients, ∀ found, c.stage.found = some found → found = current) ∧
      ∀ o ∈ s.outcomes.flatten, o.before ≠ init

theorem flatten_set_append_perm {lists : List (List Outcome)} {old : List Outcome}
    (hold : lists[k]? = some old) :
    (lists.set k (old ++ new)).flatten.Perm (lists.flatten ++ new) := by
  have hswap : (lists.flatten ++ (old ++ new)).Perm (lists.flatten ++ (new ++ old)) :=
    List.perm_append_comm.append_left _
  have hset := (flatten_set_perm hold).trans hswap
  rw [← List.append_assoc] at hset
  exact (List.perm_append_right_iff old).1 hset

/-- One client has got these answers. -/
theorem Shared.outcomes_set (heap : Region) (hclient : s.clients[k]? = some c)
    (houtcomes : c'.outcomes = c.outcomes ++ new) :
    s.outcomes[k]? = some c.outcomes ∧
      (Shared.mk heap (s.clients.set k c')).outcomes = s.outcomes.set k (c.outcomes ++ new) := by
  constructor
  · rw [outcomes, List.getElem?_map, hclient]
    rfl
  · rw [← houtcomes]
    exact List.map_set

/-- One client has moved on and got these answers. What its step has to bring is said here once, for
all kinds of steps: the register it leaves, the edges it adds, and that the others' notes still
stand. -/
theorem Linked.set (h : Linked site init s current chain) (hclient : s.clients[k]? = some c)
    (houtcomes : c'.outcomes = c.outcomes ++ new) (hshows : site.Shows heap current' cells)
    (howner : KnownOwner site current') (hpath : PathFrom current.value (successes new))
    (hvalue : current'.value = lastValue current.value (successes new))
    (hholds : ∀ found, c'.stage.found = some found → c'.Holds site (UInt32.ofNat k) found)
    (huntouched : chain = [] → successes new = [] → current' = current ∧
      (∀ found, c'.stage.found = some found → found = current) ∧ ∀ o ∈ new, o.before ≠ init) :
    Linked site init ⟨heap, s.clients.set k c'⟩ current' (chain ++ successes new) := by
  obtain ⟨hold, hset⟩ := Shared.outcomes_set heap hclient houtcomes
  have hperm : (Shared.mk heap (s.clients.set k c')).outcomes.flatten.Perm
      (s.outcomes.flatten ++ new) := hset ▸ flatten_set_append_perm hold
  refine ⟨⟨cells, hshows⟩, howner, ?_, ?_, ?_, ?_, ?_, ?_⟩
  · rw [lastValue_append, ← h.value, hvalue]
  · rw [pathFrom_append, ← h.value]
    exact ⟨h.path, hpath⟩
  · refine List.Perm.trans ?_ (successes_perm hperm).symm
    rw [successes_append]
    exact h.perm.append_right _
  · intro outcomes hmem
    rw [hset] at hmem
    rcases List.mem_or_eq_of_mem_set hmem with hother | rfl
    · exact (h.order outcomes hother).trans (List.sublist_append_left _ _)
    · rw [successes_append]
      exact (h.order _ (List.mem_of_getElem? hold)).append (List.Sublist.refl _)
  · intro j d found hd hfound
    -- the other clients have not moved
    by_cases hsame : k = j
    · subst hsame
      have hlt := (List.getElem?_eq_some_iff.1 hclient).1
      obtain rfl : c' = d := by simpa [hlt] using hd
      exact hholds found hfound
    · rw [List.getElem?_set_ne hsame] at hd
      exact h.holds j d found hd hfound
  · intro hnil
    obtain ⟨hchain, hnew⟩ := List.append_eq_nil_iff.1 hnil
    obtain ⟨rfl, hfound, hbefore⟩ := huntouched hchain hnew
    obtain ⟨hseen, hmissed⟩ := h.untouched hchain
    refine ⟨fun d hd => ?_, fun o ho => ?_⟩
    · rcases List.mem_or_eq_of_mem_set hd with hother | rfl
      · exact hseen d hother
      · exact hfound
    · rcases List.mem_append.1 (hperm.mem_iff.1 ho) with hother | hhere
      · exact hmissed o hother
      · exact hbefore o hhere

/-- One client has moved on without changing the register. -/
theorem Linked.set_of_failed (h : Linked site init s current chain)
    (hclient : s.clients[k]? = some c) (houtcomes : c'.outcomes = c.outcomes ++ new)
    (hfailed : successes new = []) (hshows : site.Shows heap current cells)
    (hholds : ∀ found, c'.stage.found = some found → c'.Holds site (UInt32.ofNat k) found)
    (huntouched : chain = [] →
      (∀ found, c'.stage.found = some found → found = current) ∧ ∀ o ∈ new, o.before ≠ init) :
    Linked site init ⟨heap, s.clients.set k c'⟩ current chain := by
  have hset := h.set hclient houtcomes hshows h.owner_known (hfailed ▸ trivial)
    (by rw [hfailed]; rfl) hholds fun hchain _ => ⟨rfl, huntouched hchain⟩
  rwa [hfailed, List.append_nil] at hset

/-- **One move keeps the chain**, and goes on with it if it succeeds. A success replaces the value
that the chain has come to. A failure changes nothing, and as long as nothing has succeeded it
cannot have expected the initial value. -/
theorem Linked.of_moves (h : Linked site init s current chain) (hclient : s.clients[k]? = some c)
    (hshows : site.Shows heap current' cells)
    (hmoves : c.Moves site (UInt32.ofNat k) current c' current') :
    ∃ chain', Linked site init ⟨heap, s.clients.set k c'⟩ current' chain' := by
  have hmem := List.mem_of_getElem? hclient
  cases hmoves with
  | rests _ =>
    exact ⟨chain, h.set_of_failed hclient (List.append_nil _).symm rfl hshows
      (fun found => h.holds k c found hclient)
      fun hchain => ⟨(h.untouched hchain).1 c hmem, nofun⟩⟩
  | observes program known value =>
    refine ⟨chain, h.set_of_failed hclient (List.append_nil _).symm rfl hshows ?_ ?_⟩
    · rintro found ⟨⟩
      exact ⟨known, h.owner_known, _, _, program, value⟩
    · refine fun hchain => ⟨?_, nofun⟩
      rintro found ⟨⟩
      rfl
  | @announces found stage =>
    have hfound : c.stage.found = some found := by
      rw [stage]
      rfl
    refine ⟨chain, h.set_of_failed hclient (List.append_nil _).symm rfl hshows ?_ ?_⟩
    · rintro found ⟨⟩
      obtain ⟨hthread, howner, hexpected⟩ := h.holds k c found hclient hfound
      exact ⟨hthread, howner, hexpected⟩
    · refine fun hchain => ⟨?_, nofun⟩
      rintro found ⟨⟩
      exact (h.untouched hchain).1 c hmem found hfound
  | halts _ _ =>
    exact ⟨chain, h.set_of_failed hclient (List.append_nil _).symm rfl hshows nofun
      fun _ => ⟨nofun, nofun⟩⟩
  | @fails request rest program value =>
    refine ⟨chain, h.set_of_failed hclient rfl rfl hshows nofun fun hchain => ⟨nofun, ?_⟩⟩
    intro o ho
    obtain rfl := List.mem_singleton.1 ho
    -- nothing has succeeded, so the register shows the first value to everyone
    rcases value with hother | ⟨found, hfound, hgone⟩
    · rw [h.value, hchain] at hother
      exact hother.symm
    · exact absurd ((h.untouched hchain).1 c hmem found hfound).symm hgone
  | @succeeds request rest program known value =>
    have hnew : successes [request.outcome true] = [request.outcome true] := rfl
    refine ⟨_, h.set hclient rfl hshows (.inr known) ⟨value.symm, trivial⟩ rfl nofun ?_⟩
    rw [hnew]
    exact nofun

/-- **One step of any thread keeps the chain.** A thread that is not there takes none. At an aligned
matrix with a column for every thread, no request is lost by it: the answers and what is still to be
done are what was asked. -/
theorem Linked.step (h : Linked site init s current chain) (k : Nat) :
    ∃ current' chain', Linked site init (s.step site k) current' chain' ∧
      (site.Aligned → s.clients.length ≤ site.matrix.threads.toNat →
        (s.step site k).clients.map (·.asked) = s.clients.map (·.asked)) := by
  rw [Shared.step]
  cases hclient : s.clients[k]? with
  | none => exact ⟨current, chain, h, fun _ _ => rfl⟩
  | some c =>
    obtain ⟨cells, hshows⟩ := h.shows
    obtain ⟨current', cells', hafter, hmoves⟩ :=
      Client.step_moves hshows fun found => h.holds k c found hclient
    obtain ⟨chain', hlinked⟩ := h.of_moves hclient hafter hmoves
    refine ⟨current', chain', hlinked, fun hal hlength => ?_⟩
    obtain ⟨hlt, rfl⟩ := List.getElem?_eq_some_iff.1 hclient
    have hthread : UInt32.ofNat k < site.matrix.threads := by
      have hrange := site.matrix.threads.toNat_lt
      rw [UInt32.lt_iff_toNat_lt, UInt32.toNat_ofNat', Nat.mod_eq_of_lt (by omega)]
      omega
    show (s.clients.set k _).map _ = _
    rw [List.map_set, hmoves.asked_eq hal hthread, ← List.map_set, List.set_getElem_self]

/-! ## Whole runs -/

/-- **Every run keeps the chain**, whatever its schedule, by induction on it. So the successes of a
run are one path from the initial value, in which each thread finds its own in their order. -/
theorem Linked.run (h : Linked site init s current chain) (schedule : List Nat) :
    ∃ current' chain', Linked site init (s.run site schedule) current' chain' ∧
      (site.Aligned → s.clients.length ≤ site.matrix.threads.toNat →
        (s.run site schedule).clients.map (·.asked) = s.clients.map (·.asked)) := by
  induction schedule generalizing s current chain with
  | nil => exact ⟨current, chain, h, fun _ _ => rfl⟩
  | cons k schedule ih =>
    obtain ⟨between, middle, hstep, hasked⟩ := h.step k
    obtain ⟨current', chain', hrun, hasked'⟩ := ih hstep
    refine ⟨current', chain', hrun, fun hal hlength => ?_⟩
    have hfirst := hasked hal hlength
    have hsame : (s.step site k).clients.length = s.clients.length := by
      rw [← List.length_map (·.asked), hfirst, List.length_map]
    exact (hasked' hal (hsame ▸ hlength)).trans hfirst

/-- What the bytes of a heap stand for in the cells. -/
def cellsIn (site : Site) (heap : Region) : Cells := fun row col =>
  match heap.readNumber 4 (site.matrix.cellOffset row col) with
  | .ok number => UInt32.ofNat number
  | .error _ => 0

/-- A heap in which a register was initialized shows it, with whatever stands in the cells. -/
theorem shows_cellsIn {base start : Region}
    (hinit : Register.init site.register init base = (.ok (), start))
    (hin : site.matrix.offset + site.matrix.bytes ≤ start.size)
    (hapart : site.register + 8 ≤ site.matrix.offset ∨
      site.matrix.offset + site.matrix.bytes ≤ site.register) :
    site.Shows start ⟨Register.noOwner, init⟩ (cellsIn site start) := by
  obtain ⟨hline, hregister_in, hregister⟩ := Register.init_eq_ok hinit
  refine ⟨⟨hline, hregister_in, hin, hapart⟩, hregister, fun row col hrow hcol => ?_⟩
  have hcell := Nat.le_trans (Matrix.cellOffset_add_le hrow hcol) hin
  obtain ⟨bytes, hbytes⟩ := Region.exists_read hcell
  have hlt := ofBytes_lt bytes
  rw [(Region.read_eq_ok_iff.1 hbytes).2.1] at hlt
  rw [cellsIn, Region.readNumber_of_read hbytes]
  show Except.ok _ = Except.ok (UInt32.ofNat (ofBytes bytes)).toNat
  rw [UInt32.toNat_ofNat', Nat.mod_eq_of_lt (show ofBytes bytes < 2 ^ 32 from hlt)]

/-- At the start the chain is empty. -/
theorem linked_start {start : Region} {programs : List (List Request)}
    (hshows : site.Shows start ⟨Register.noOwner, init⟩ cells) :
    Linked site init (.start start programs) ⟨Register.noOwner, init⟩ [] := by
  -- nobody has begun a call or got an answer
  have hclients : ∀ c ∈ (Shared.start start programs).clients,
      c.stage = .entered ∧ c.outcomes = [] := by
    intro c hc
    obtain ⟨program, -, rfl⟩ := List.mem_map.1 hc
    exact ⟨rfl, rfl⟩
  have hnone : ∀ c ∈ (Shared.start start programs).clients, ∀ found,
      c.stage.found ≠ some found := by
    intro c hc found hfound
    rw [(hclients c hc).1] at hfound
    cases hfound
  have houtcomes : ∀ outcomes ∈ (Shared.start start programs).outcomes, outcomes = [] := by
    intro outcomes hmem
    obtain ⟨c, hc, rfl⟩ := List.mem_map.1 hmem
    exact (hclients c hc).2
  have hflatten := List.flatten_eq_nil_iff.2 houtcomes
  refine ⟨⟨cells, hshows⟩, .inl rfl, rfl, trivial, ?_, ?_, ?_, fun _ => ⟨?_, ?_⟩⟩
  · rw [hflatten]
    rfl
  · intro outcomes hmem
    rw [houtcomes outcomes hmem]
    exact List.Sublist.refl _
  · exact fun k c found hc hfound =>
      absurd hfound (hnone c (List.mem_of_getElem? hc) found)
  · exact fun c hc found hfound => absurd hfound (hnone c hc found)
  · rw [hflatten]
    exact nofun

/-- The check of degrees accepts the outcomes of a chain in any order. -/
theorem Linked.checkPath_ok (h : Linked site init s current chain) {history : List Outcome}
    (hhistory : history.Perm s.outcomes.flatten) : checkPath history init = .ok () := by
  have hperm : chain.Perm (successes history) := h.perm.trans (successes_perm hhistory).symm
  exact checkPath_eq_ok_iff.2 ⟨_, h.path.spans.perm hperm⟩

/-- The check of fresh histories accepts the outcomes of a chain, thread by thread. -/
theorem Linked.checkChain_ok (h : Linked site init s current chain)
    (hfresh : Fresh init s.outcomes.flatten) : checkChain s.outcomes init = .ok () := by
  obtain ⟨run, hperm, hsuccesses, hrun⟩ :=
    exists_explained_of_path hfresh h.perm h.path fun hnil => (h.untouched hnil).2
  refine checkChain_eq_ok_iff_explained.2 ⟨hfresh, run, hperm, fun outcomes hmem => ?_, hrun⟩
  exact (hsuccesses ▸ h.order outcomes hmem).trans List.filter_sublist

/-- **Concurrent swaps pass both checks.** Threads of any number run programs of any requests on
a register that was just initialized, with their steps in any order. At every moment the answers
so far pass the check of degrees, in any order; and if the values to be installed are new, each of
them, then the answers pass the check of fresh histories thread by thread. With aligned cells
and a row for each thread, the answers of a thread are those to the first requests of its
program. -/
theorem concurrent_accepted (site : Site) (init : UInt32) (programs : List (List Request))
    (schedule : List Nat) {base start : Region}
    (hinit : Register.init site.register init base = (.ok (), start))
    (hin : site.matrix.offset + site.matrix.bytes ≤ start.size)
    (hapart : site.register + 8 ≤ site.matrix.offset ∨
      site.matrix.offset + site.matrix.bytes ≤ site.register) :
    let s := (Shared.start start programs).run site schedule
    (∀ history, history.Perm s.outcomes.flatten → checkPath history init = .ok ()) ∧
    ((∀ o ∈ s.outcomes.flatten, o.before ≠ o.after ∧ o.after ≠ init) →
      (s.outcomes.flatten.map (·.after)).Nodup → checkChain s.outcomes init = .ok ()) ∧
    (site.Aligned → programs.length ≤ site.matrix.threads.toNat →
      s.clients.map (fun c => c.outcomes.map requestOf ++ c.program) = programs) := by
  have hstart : Linked site init (.start start programs) ⟨Register.noOwner, init⟩ [] :=
    linked_start (shows_cellsIn hinit hin hapart)
  obtain ⟨current, chain, hlinked, hasked⟩ := hstart.run schedule
  refine ⟨fun history => hlinked.checkPath_ok, fun hmoves honce => ?_, fun hal hlength => ?_⟩
  · exact hlinked.checkChain_ok ⟨fun o ho => (hmoves o ho).1, fun o ho => (hmoves o ho).2, honce⟩
  · refine (hasked hal (by rw [Shared.start, List.length_map]; exact hlength)).trans ?_
    rw [Shared.start, List.map_map]
    exact List.map_id programs

/-- Two threads that want to replace the same value, and whose steps take turns. -/
def twoPrograms : List (List Request) := [[⟨5, 7⟩], [⟨5, 8⟩]]

/-- Both have observed 5 before the first of them replaces it; the second one comes too late, and
the checks accept that it failed. -/
theorem overtaken_accepted :
    let s := (Shared.start startHeap twoPrograms).run ⟨0, ⟨64, 2⟩⟩ [0, 1, 0, 1, 0, 1]
    s.outcomes = [[⟨5, 7, true⟩], [⟨5, 8, false⟩]] ∧
    checkPath s.outcomes.flatten 5 = .ok () ∧ checkChain s.outcomes 5 = .ok () := by
  have houtcomes : ((Shared.start startHeap twoPrograms).run ⟨0, ⟨64, 2⟩⟩
      [0, 1, 0, 1, 0, 1]).outcomes = [[⟨5, 7, true⟩], [⟨5, 8, false⟩]] := by decide +kernel
  obtain ⟨hpath, hchain, -⟩ := concurrent_accepted ⟨0, ⟨64, 2⟩⟩ 5 twoPrograms [0, 1, 0, 1, 0, 1]
    startHeap_init (by rw [size_startHeap]; decide) (by decide)
  refine ⟨houtcomes, hpath _ (.refl _), hchain ?_ ?_⟩
  · rw [houtcomes]
    decide
  · rw [houtcomes]
    decide

end Linked

end Swap

end DurableCalls
