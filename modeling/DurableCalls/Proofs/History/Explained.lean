/-
`Explained.lean` -- which accepted histories one register explains, failures included.

A register *explains* a sequence of outcomes if it answers the same swaps, one after the
other, in the way that was reported. An explained sequence has its successes on one path, and
its failures where the path shows another value than the one they expected.

The check of fresh histories looks at failures only where nothing has succeeded. That is just
enough for an explained order that keeps each thread's successes in order
(`checkChain_eq_ok_iff_explained`): a failure that did not expect the initial value can go to
the front, and any other one to the end. It is not enough for an order that keeps each thread's
whole program. A thread that fails on the initial value and then replaces it itself is accepted,
and nothing explains it.

Whether there is such an order is a question to each thread alone (`Along`). Its failures need
moments along the chain, in its order and between its own successes. If every thread finds
them, then all threads can go along the chain together: whatever can fail now fails now, and
else the next success of the chain is due.
-/
import DurableCalls.Proofs.History.Chains

set_option autoImplicit false

namespace DurableCalls

namespace History

variable {init value : UInt32} {o : Outcome} {run path rest outcomes thread chain : List Outcome}
  {threads : List (List Outcome)}

/-! ## Explained sequences -/

/-- The answers of a register that holds a value to the swaps of these outcomes, one after the
other: a swap succeeds if the register holds what it expects, and then installs its value. -/
def replay : (value : UInt32) → List Outcome → List Bool
  | _, [] => []
  | value, o :: rest =>
    if o.before = value then true :: replay o.after rest else false :: replay value rest

/-- The register gives the answers that were reported. -/
def Explained (value : UInt32) (run : List Outcome) : Prop :=
  replay value run = run.map (·.succeeded)

instance (value : UInt32) (run : List Outcome) : Decidable (Explained value run) :=
  inferInstanceAs (Decidable (_ = _))

theorem explained_cons_of_success (hsucceeded : o.succeeded = true) :
    Explained value (o :: run) ↔ o.before = value ∧ Explained o.after run := by
  by_cases hbefore : o.before = value
  · simp [Explained, replay, hbefore, hsucceeded]
  · simp [Explained, replay, hbefore, hsucceeded]

theorem explained_cons_of_failure (hfailed : o.succeeded = false) :
    Explained value (o :: run) ↔ o.before ≠ value ∧ Explained value run := by
  by_cases hbefore : o.before = value
  · simp [Explained, replay, hbefore, hfailed]
  · simp [Explained, replay, hbefore, hfailed]

theorem successes_cons_of_success (hsucceeded : o.succeeded = true) :
    successes (o :: run) = o :: successes run :=
  List.filter_cons_of_pos hsucceeded

theorem successes_cons_of_failure (hfailed : o.succeeded = false) :
    successes (o :: run) = successes run :=
  List.filter_cons_of_neg (by simp [hfailed])

theorem successes_of_forall (h : ∀ o ∈ run, o.succeeded = true) : successes run = run :=
  List.filter_eq_self.2 h

theorem successes_eq_nil (h : ∀ o ∈ run, o.succeeded = false) : successes run = [] :=
  List.filter_eq_nil_iff.2 fun o ho => by simp [h o ho]

theorem successes_append (front back : List Outcome) :
    successes (front ++ back) = successes front ++ successes back := List.filter_append ..

theorem successes_perm (h : run.Perm outcomes) : (successes run).Perm (successes outcomes) :=
  h.filter _

/-- The successes of an explained sequence are a path. -/
theorem Explained.pathFrom (h : Explained value run) : PathFrom value (successes run) := by
  induction run generalizing value with
  | nil => trivial
  | cons o run ih =>
    cases hsucceeded : o.succeeded with
    | true =>
      obtain ⟨hbefore, hrest⟩ := (explained_cons_of_success hsucceeded).1 h
      rw [successes_cons_of_success hsucceeded]
      exact ⟨hbefore, ih hrest⟩
    | false =>
      obtain ⟨-, hrest⟩ := (explained_cons_of_failure hsucceeded).1 h
      rw [successes_cons_of_failure hsucceeded]
      exact ih hrest

/-- Failures that expected another value change nothing. -/
theorem explained_failures_append (hfailed : ∀ o ∈ outcomes, o.succeeded = false) :
    Explained value (outcomes ++ rest) ↔
      (∀ o ∈ outcomes, o.before ≠ value) ∧ Explained value rest := by
  induction outcomes with
  | nil => simp
  | cons o outcomes ih =>
    obtain ⟨ho, houtcomes⟩ := List.forall_mem_cons.1 hfailed
    rw [List.cons_append, explained_cons_of_failure ho, ih houtcomes, List.forall_mem_cons,
      and_assoc]

/-- Behind a path of successes the register holds its last value. -/
theorem PathFrom.explained_append (h : PathFrom value path)
    (hsucceeded : ∀ o ∈ path, o.succeeded = true) (hrest : Explained (lastValue value path) rest) :
    Explained value (path ++ rest) := by
  induction path generalizing value with
  | nil => exact hrest
  | cons o path ih =>
    obtain ⟨hbefore, hpath⟩ := h
    obtain ⟨ho, hothers⟩ := List.forall_mem_cons.1 hsucceeded
    exact (explained_cons_of_success ho).2 ⟨hbefore, ih hpath hothers hrest⟩

/-! ## What the check promises -/

/-- A path that installs the initial value nowhere ends at another value. -/
theorem lastValue_ne (hne : path ≠ []) (haway : ∀ o ∈ path, o.after ≠ init) (value : UInt32) :
    lastValue value path ≠ init := by
  induction path generalizing value with
  | nil => exact absurd rfl hne
  | cons o path ih =>
    obtain ⟨ho, hothers⟩ := List.forall_mem_cons.1 haway
    by_cases hpath : path = []
    · subst hpath
      exact ho
    · exact ih hpath hothers o.after

/-- **Failures find a place around a chain**: in front of it, unless they expected the initial
value, and then behind it. -/
theorem exists_explained_of_path (hfresh : Fresh init outcomes)
    (hperm : path.Perm (successes outcomes)) (hpath : PathFrom init path)
    (hinit : path = [] → ∀ o ∈ outcomes, o.before ≠ init) :
    ∃ run, run.Perm outcomes ∧ successes run = path ∧ Explained init run := by
  have hmem : ∀ o ∈ path, o ∈ outcomes ∧ o.succeeded = true := fun o ho =>
    mem_successes.1 (hperm.mem_iff.1 ho)
  -- a failure that expected the initial value comes last, where that value is gone
  let failures := outcomes.filter (!·.succeeded)
  let early := failures.filter fun o => decide (o.before ≠ init)
  let late := failures.filter fun o => !decide (o.before ≠ init)
  have hfailures : ∀ o ∈ failures, o ∈ outcomes ∧ o.succeeded = false := fun o ho => by
    simpa [failures] using ho
  have hearly : ∀ o ∈ early, o.succeeded = false := fun o ho =>
    (hfailures o (List.mem_of_mem_filter ho)).2
  have hlate : ∀ o ∈ late, o.succeeded = false := fun o ho =>
    (hfailures o (List.mem_of_mem_filter ho)).2
  refine ⟨early ++ (path ++ late), ?_, ?_, ?_⟩
  · have hmiddle : (early ++ (path ++ late)).Perm (path ++ failures) :=
      (List.perm_append_comm_assoc _ _ _).trans
        ((List.filter_append_perm _ failures).append_left path)
    refine hmiddle.trans ((hperm.append_right _).trans ?_)
    exact List.filter_append_perm (·.succeeded) outcomes
  · rw [successes_append, successes_append, successes_eq_nil hearly, successes_eq_nil hlate,
      successes_of_forall fun o ho => (hmem o ho).2, List.nil_append, List.append_nil]
  · refine (explained_failures_append hearly).2 ⟨fun o ho => ?_, ?_⟩
    · simpa using (List.mem_filter.1 ho).2
    · refine hpath.explained_append (fun o ho => (hmem o ho).2) ?_
      have hend : ∀ o ∈ late, o.before ≠ lastValue init path := by
        intro o ho
        obtain ⟨hfailed, hbefore⟩ := List.mem_filter.1 ho
        have hexpected : o.before = init := by simpa using hbefore
        by_cases hnil : path = []
        · -- without a success the value is the initial one to the end
          exact absurd hexpected (hinit hnil o (hfailures o hfailed).1)
        · rw [hexpected]
          exact (lastValue_ne hnil (fun p hp => hfresh.away p (hmem p hp).1) init).symm
      rw [← List.append_nil late]
      exact (explained_failures_append hlate).2 ⟨hend, rfl⟩

/-- The check of a history without a success. -/
theorem checkChain_eq_ok_iff_explained_of_nil (hnone : successes threads.flatten = []) :
    checkChain threads init = .ok () ↔
      Fresh init threads.flatten ∧ ∃ run, run.Perm threads.flatten ∧
        (∀ thread ∈ threads, (successes thread).Sublist run) ∧ Explained init run := by
  rw [checkChain_eq_ok_iff_of_nil hnone, checkFresh_eq_ok_iff, hnone]
  constructor
  · rintro ⟨⟨hfresh, -⟩, hinit⟩
    have hchain : List.Perm [] (successes threads.flatten) := hnone ▸ .refl []
    obtain ⟨run, hperm, -, hrun⟩ := exists_explained_of_path hfresh hchain trivial fun _ => hinit
    refine ⟨hfresh, run, hperm, fun thread hthread => ?_, hrun⟩
    rw [successes_thread_eq_nil hnone hthread]
    exact List.nil_sublist _
  · rintro ⟨hfresh, run, hperm, -, hrun⟩
    have hfailed : ∀ o ∈ run, o.succeeded = false := by
      intro o ho
      by_contra hsucceeded
      have hmem := mem_successes.2 ⟨hperm.mem_iff.1 ho, by simpa using hsucceeded⟩
      rw [hnone] at hmem
      cases hmem
    rw [← List.append_nil run, explained_failures_append hfailed] at hrun
    exact ⟨⟨hfresh, List.nodup_nil⟩, fun o ho => hrun.1 o (hperm.mem_iff.2 ho)⟩

/-- The check of a history with a success, which the chain begins with. The failures can then be
placed between the successes, each where its value is not the one that it expected. -/
theorem checkChain_eq_ok_iff_explained_of_ne (hsome : successes threads.flatten ≠ []) :
    checkChain threads init = .ok () ↔
      Fresh init threads.flatten ∧ ∃ run, run.Perm threads.flatten ∧
        (∀ thread ∈ threads, (successes thread).Sublist run) ∧ Explained init run := by
  rw [checkChain_eq_ok_iff_of_ne hsome, checkFresh_eq_ok_iff]
  constructor
  · rintro ⟨⟨hfresh, hnodup⟩, hlength, horder⟩
    obtain ⟨path, hpath_perm, hpath⟩ := exists_path_of_length hfresh hlength
    have hne : path ≠ [] := fun h => hsome (hpath_perm.symm.trans (h ▸ .refl _)).eq_nil
    obtain ⟨run, hperm, hsuccesses, hrun⟩ :=
      exists_explained_of_path hfresh hpath_perm hpath fun h => absurd h hne
    refine ⟨hfresh, run, hperm, fun thread hthread => ?_, hrun⟩
    have hsublist := (checkThreads_path_iff hnodup hpath_perm hpath).1 horder thread hthread
    exact (hsuccesses ▸ hsublist).trans List.filter_sublist
  · rintro ⟨hfresh, run, hperm, horder, hrun⟩
    have hpath_perm := successes_perm hperm
    have hnodup := hfresh.nodup_befores hpath_perm hrun.pathFrom
    refine ⟨⟨hfresh, hnodup⟩, ?_, (checkThreads_path_iff hnodup hpath_perm hrun.pathFrom).2 ?_⟩
    · rw [chainFrom_of_pathFrom hnodup hpath_perm hrun.pathFrom, List.length_map,
        hpath_perm.length_eq]
    · intro thread hthread
      have hsublist := (horder thread hthread).filter (·.succeeded)
      rwa [show (successes thread).filter (·.succeeded) = successes thread from
        successes_of_forall fun o ho => (mem_successes.1 ho).2] at hsublist

/-- **What the check accepts, told by explained sequences**: fresh histories whose outcomes are
explained in an order that keeps each thread's successes in order. -/
theorem checkChain_eq_ok_iff_explained : checkChain threads init = .ok () ↔
    Fresh init threads.flatten ∧ ∃ run, run.Perm threads.flatten ∧
      (∀ thread ∈ threads, (successes thread).Sublist run) ∧ Explained init run := by
  by_cases hnone : successes threads.flatten = []
  · exact checkChain_eq_ok_iff_explained_of_nil hnone
  · exact checkChain_eq_ok_iff_explained_of_ne hnone

/-! ## Interleavings -/

/-- A sequence that takes the threads' outcomes one at a time, each thread's in its order. It is a
full interleaving: at its end no thread has an outcome left. -/
inductive Interleaves : (threads : List (List Outcome)) → (run : List Outcome) → Prop
  | done {threads : List (List Outcome)} (hdone : ∀ thread ∈ threads, thread = []) :
      Interleaves threads []
  | step {threads : List (List Outcome)} {k : Nat} {o : Outcome} {rest run : List Outcome}
      (hthread : threads[k]? = some (o :: rest)) (hrun : Interleaves (threads.set k rest) run) :
      Interleaves threads (o :: run)

/-- Replacing the outcomes of one thread replaces them among all outcomes. -/
theorem flatten_set_perm {k : Nat} {old new : List Outcome} (hold : threads[k]? = some old) :
    ((threads.set k new).flatten ++ old).Perm (threads.flatten ++ new) := by
  induction threads generalizing k with
  | nil => cases hold
  | cons first threads ih =>
    cases k with
    | zero =>
      obtain rfl : first = old := by simpa using hold
      rw [List.set_cons_zero, List.flatten_cons, List.flatten_cons, List.append_assoc]
      have hswap : (threads.flatten ++ first).Perm (first ++ threads.flatten) :=
        List.perm_append_comm
      exact (hswap.append_left new).trans List.perm_append_comm
    | succ k =>
      rw [List.getElem?_cons_succ] at hold
      rw [List.set_cons_succ, List.flatten_cons, List.flatten_cons, List.append_assoc,
        List.append_assoc]
      exact (ih hold).append_left first

/-- Taking one outcome off its thread takes it off all outcomes. -/
theorem flatten_perm_cons_set {k : Nat} (hthread : threads[k]? = some (o :: rest)) :
    threads.flatten.Perm (o :: (threads.set k rest).flatten) := by
  have hset : (threads.flatten ++ rest).Perm ((o :: (threads.set k rest).flatten) ++ rest) :=
    (flatten_set_perm hthread).symm.trans List.perm_middle
  exact (List.perm_append_right_iff rest).1 hset

/-- The other threads keep what they have. -/
theorem eq_or_mem_set {k : Nat} {old : List Outcome} (hold : threads[k]? = some old)
    (hthread : thread ∈ threads) : thread = old ∨ thread ∈ threads.set k rest := by
  obtain ⟨j, hj⟩ := List.mem_iff_getElem?.1 hthread
  by_cases heq : k = j
  · exact .inl (Option.some.inj (hj.symm.trans (heq ▸ hold)))
  · exact .inr (List.mem_iff_getElem?.2 ⟨j, by rw [List.getElem?_set_ne heq, hj]⟩)

theorem Interleaves.perm (h : Interleaves threads run) : run.Perm threads.flatten := by
  induction h with
  | done hdone => rw [List.flatten_eq_nil_iff.2 hdone]
  | step hthread _ ih => exact (ih.cons _).trans (flatten_perm_cons_set hthread).symm

/-! ## One thread along the chain -/

/-- A thread finds a moment for each of its outcomes, in its order, while the register goes along
a chain: it fails where the register does not hold what it expected, and a success of its own is
where the chain has it. -/
inductive Along : (value : UInt32) → (chain thread : List Outcome) → Prop
  | done {value : UInt32} : Along value [] []
  | miss {value : UInt32} {o : Outcome} {chain thread : List Outcome}
      (hfailed : o.succeeded = false) (hbefore : o.before ≠ value)
      (hrest : Along value chain thread) : Along value chain (o :: thread)
  | own {value : UInt32} {o : Outcome} {chain thread : List Outcome}
      (hsucceeded : o.succeeded = true) (hrest : Along o.after chain thread) :
      Along value (o :: chain) (o :: thread)
  | pass {value : UInt32} {o : Outcome} {chain thread : List Outcome}
      (hrest : Along o.after chain thread) : Along value (o :: chain) thread

theorem Along.sublist (h : Along value chain thread) : (successes thread).Sublist chain := by
  induction h with
  | done => exact List.Sublist.refl _
  | miss hfailed _ _ ih => rwa [successes_cons_of_failure hfailed]
  | own hsucceeded _ ih =>
    rw [successes_cons_of_success hsucceeded]
    exact ih.cons_cons _
  | pass _ ih => exact ih.cons _

/-- A thread that has its next failure behind it goes on from there. -/
theorem Along.of_failure_cons (hfailed : o.succeeded = false)
    (h : Along value chain (o :: thread)) : Along value chain thread := by
  generalize hrow : o :: thread = row at h
  induction h with
  | done => cases hrow
  | miss _ _ hrest _ =>
    obtain ⟨-, rfl⟩ := List.cons.inj hrow
    exact hrest
  | own hsucceeded _ _ =>
    obtain ⟨rfl, -⟩ := List.cons.inj hrow
    rw [hfailed] at hsucceeded
    cases hsucceeded
  | pass _ ih => exact .pass (ih hrow)

/-- **An explained interleaving shows each thread the moments of its outcomes.** A success of a
thread is a step of the chain, and a failure falls between two steps, while the register held
another value than the failed swap expected. -/
theorem Interleaves.along (h : Interleaves threads run) (hrun : Explained value run)
    (hthread : thread ∈ threads) : Along value (successes run) thread := by
  induction h generalizing value thread with
  | done hdone =>
    rw [hdone thread hthread]
    exact .done
  | @step threads k o rest run hold _ ih =>
    have hrest : rest ∈ threads.set k rest :=
      List.mem_set (List.getElem?_eq_some_iff.1 hold).1 rest
    cases hsucceeded : o.succeeded with
    | true =>
      obtain ⟨-, hrun⟩ := (explained_cons_of_success hsucceeded).1 hrun
      rw [successes_cons_of_success hsucceeded]
      obtain rfl | hother := eq_or_mem_set hold hthread
      · exact .own hsucceeded (ih hrun hrest)
      · exact .pass (ih hrun hother)
    | false =>
      obtain ⟨hbefore, hrun⟩ := (explained_cons_of_failure hsucceeded).1 hrun
      rw [successes_cons_of_failure hsucceeded]
      obtain rfl | hother := eq_or_mem_set hold hthread
      · exact .miss hsucceeded hbefore (ih hrun hrest)
      · exact ih hrun hother

/-! ## All threads along the chain -/

/-- No thread has a failure in front that the register can answer now. -/
def Stuck (value : UInt32) (threads : List (List Outcome)) : Prop :=
  ∀ o rest, o :: rest ∈ threads → o.succeeded = false → o.before = value

/-- Each thread can go along the chain, which has each of their successes once. This is the
invariant of the construction of an interleaving: taking one outcome away leaves it true of the
rest. -/
structure Leads (value : UInt32) (chain : List Outcome) (threads : List (List Outcome)) :
    Prop where
  path : PathFrom value chain
  nodup : chain.Nodup
  perm : chain.Perm (successes threads.flatten)
  along : ∀ thread ∈ threads, Along value chain thread

/-- A failure that the register can answer now may be taken now. -/
theorem Leads.fail {k : Nat} (h : Leads value chain threads)
    (hthread : threads[k]? = some (o :: rest)) (hfailed : o.succeeded = false) :
    Leads value chain (threads.set k rest) where
  path := h.path
  nodup := h.nodup
  perm := by
    have hsuccesses := successes_perm (flatten_perm_cons_set hthread)
    rw [successes_cons_of_failure hfailed] at hsuccesses
    exact h.perm.trans hsuccesses
  along := by
    intro thread hmem
    rcases List.mem_or_eq_of_mem_set hmem with hold | rfl
    · exact h.along thread hold
    · exact (h.along _ (List.mem_of_getElem? hthread)).of_failure_cons hfailed

/-- A stuck thread whose success is due has it in front. -/
theorem Leads.exists_due {due : Outcome} (h : Leads value (due :: chain) threads)
    (hstuck : Stuck value threads) : ∃ (k : Nat) (rest : List Outcome),
      threads[k]? = some (due :: rest) ∧ Along due.after chain rest := by
  obtain ⟨hflat, hsucceeded⟩ := mem_successes.1 (h.perm.mem_iff.1 List.mem_cons_self)
  obtain ⟨thread, hthread, hdue⟩ := List.mem_flatten.1 hflat
  obtain ⟨k, hk⟩ := List.mem_iff_getElem?.1 hthread
  cases h.along thread hthread with
  | miss hfailed hbefore _ => exact absurd (hstuck _ _ hthread hfailed) hbefore
  | own _ hrest => exact ⟨k, _, hk, hrest⟩
  | pass hrest =>
    have hlater := hrest.sublist.subset (mem_successes.2 ⟨hdue, hsucceeded⟩)
    exact absurd hlater (List.nodup_cons.1 h.nodup).1

/-- If nothing can fail now, the next success of the chain can be taken. Otherwise it would be
behind a failure of its own thread, and that one expects the value that is there now. -/
theorem Leads.succeed {due : Outcome} (h : Leads value (due :: chain) threads)
    (hstuck : Stuck value threads) : ∃ (k : Nat) (rest : List Outcome),
      threads[k]? = some (due :: rest) ∧ Leads due.after chain (threads.set k rest) := by
  obtain ⟨k, rest, hk, hrest⟩ := h.exists_due hstuck
  have hsucceeded := (mem_successes.1 (h.perm.mem_iff.1 List.mem_cons_self)).2
  have hperm : chain.Perm (successes (threads.set k rest).flatten) := by
    have htrans := h.perm.trans (successes_perm (flatten_perm_cons_set hk))
    rwa [successes_cons_of_success hsucceeded, List.perm_cons] at htrans
  refine ⟨k, rest, hk, h.path.2, (List.nodup_cons.1 h.nodup).2, hperm, fun thread hmem => ?_⟩
  rcases List.mem_or_eq_of_mem_set hmem with hold | rfl
  · cases h.along thread hold with
    | miss hfailed hbefore _ => exact absurd (hstuck _ _ hold hfailed) hbefore
    | own =>
      -- the chain has its next success only once, so it is in no other thread
      have hagain := mem_successes.2 ⟨List.mem_flatten_of_mem hmem List.mem_cons_self, hsucceeded⟩
      exact absurd (hperm.mem_iff.2 hagain) (List.nodup_cons.1 h.nodup).1
    | pass hothers => exact hothers
  · exact hrest

/-- At the end of the chain only failures are left, and they can be taken. -/
theorem Leads.eq_nil (h : Leads value [] threads) (hstuck : Stuck value threads) :
    ∀ thread ∈ threads, thread = [] := by
  intro thread hthread
  cases h.along thread hthread with
  | done => rfl
  | miss hfailed hbefore _ => exact absurd (hstuck _ _ hthread hfailed) hbefore

/-- **Threads that go along the chain one by one go along it together.** The induction is on the
number of outcomes that are left. A failure that the register can answer now is taken first. If
there is none, then the thread whose success is due has it in front. -/
theorem Leads.exists_interleaves (h : Leads value chain threads) :
    ∃ run, Interleaves threads run ∧ Explained value run := by
  induction hn : threads.flatten.length generalizing threads value chain with
  | zero => exact ⟨[], .done (List.flatten_eq_nil_iff.1 (List.length_eq_zero_iff.1 hn)), rfl⟩
  | succ n ih =>
    -- whatever is taken, one outcome less is left
    have hleft : ∀ {k : Nat} {o : Outcome} {rest : List Outcome},
        threads[k]? = some (o :: rest) → (threads.set k rest).flatten.length = n := by
      intro k o rest hthread
      have hcount := (flatten_perm_cons_set hthread).length_eq
      rw [hn, List.length_cons] at hcount
      omega
    by_cases hstuck : Stuck value threads
    · cases chain with
      | nil =>
        rw [List.flatten_eq_nil_iff.2 (h.eq_nil hstuck)] at hn
        cases hn
      | cons due chain =>
        obtain ⟨k, rest, hk, hrest⟩ := h.succeed hstuck
        have hsucceeded := (mem_successes.1 (h.perm.mem_iff.1 List.mem_cons_self)).2
        obtain ⟨run, hrun, hexplained⟩ := ih hrest (hleft hk)
        exact ⟨due :: run, .step hk hrun,
          (explained_cons_of_success hsucceeded).2 ⟨h.path.1, hexplained⟩⟩
    · simp only [Stuck, not_forall] at hstuck
      obtain ⟨o, rest, hmem, hfailed, hbefore⟩ := hstuck
      obtain ⟨k, hk⟩ := List.mem_iff_getElem?.1 hmem
      obtain ⟨run, hrun, hexplained⟩ := ih (h.fail hk hfailed) (hleft hk)
      exact ⟨o :: run, .step hk hrun,
        (explained_cons_of_failure hfailed).2 ⟨hbefore, hexplained⟩⟩

/-! ## Whole programs -/

/-- There is one chain only. -/
theorem eq_of_pathFrom {path' : List Outcome} (hfresh : Fresh init outcomes)
    (hperm : path.Perm (successes outcomes)) (hpath : PathFrom init path)
    (hperm' : path'.Perm (successes outcomes)) (hpath' : PathFrom init path') : path' = path := by
  have hnodup := hfresh.nodup_befores hperm hpath
  have hedges : path'.map edgeOf = path.map edgeOf :=
    (chainFrom_of_pathFrom hnodup hperm' hpath').symm.trans
      (chainFrom_of_pathFrom hnodup hperm hpath)
  have hback : ∀ {row : List Outcome}, row.Perm (successes outcomes) →
      (row.map edgeOf).map successOf = row := by
    intro row hrow
    have hid : row.map (successOf ∘ edgeOf) = row.map id :=
      List.map_congr_left fun o ho => successOf_edgeOf (hrow.mem_iff.1 ho)
    rw [List.map_map, hid, List.map_id]
  rw [← hback hperm', hedges, hback hperm]

/-- **What an accepted history has as its explanation.** The outcomes of all threads can be put
in one sequence that a register explains, failures included, and that keeps each thread's
successes in order. The successes are one chain. There is such a sequence that keeps the order
of each thread's whole program exactly if each thread alone finds moments for its outcomes along
that chain. -/
theorem accepted_explained (threads : List (List Outcome)) (init : UInt32)
    (haccepted : checkChain threads init = .ok ()) :
    (∃ run, run.Perm threads.flatten ∧ (∀ thread ∈ threads, (successes thread).Sublist run) ∧
      Explained init run) ∧
    ∃ chain, chain.Perm (successes threads.flatten) ∧ PathFrom init chain ∧
      ((∃ run, Interleaves threads run ∧ Explained init run) ↔
        ∀ thread ∈ threads, Along init chain thread) := by
  obtain ⟨hfresh, run, hperm, horder, hrun⟩ := checkChain_eq_ok_iff_explained.1 haccepted
  refine ⟨⟨run, hperm, horder, hrun⟩, successes run, successes_perm hperm, hrun.pathFrom, ?_⟩
  constructor
  · rintro ⟨run', hinterleaves, hrun'⟩ thread hthread
    have hsame := eq_of_pathFrom hfresh (successes_perm hperm) hrun.pathFrom
      (successes_perm hinterleaves.perm) hrun'.pathFrom
    exact hsame ▸ hinterleaves.along hrun' hthread
  · intro halong
    refine Leads.exists_interleaves ⟨hrun.pathFrom, ?_, successes_perm hperm, halong⟩
    have hafters : (run.map (·.after)).Nodup := (hperm.map _).nodup_iff.2 hfresh.once
    exact hafters.of_map.sublist List.filter_sublist

/-- Two threads whose failures have their moments: the first one expects a value that never
comes, and the second one fails behind its own success. -/
theorem accepted_explained_parallel :
    let threads : List (List Outcome) :=
      [[⟨3, 5, false⟩, ⟨1, 2, true⟩, ⟨7, 9, true⟩], [⟨2, 7, true⟩, ⟨7, 8, false⟩, ⟨9, 10, true⟩]]
    checkChain threads 1 = .ok () ∧
    (∃ run, run.Perm threads.flatten ∧ (∀ thread ∈ threads, (successes thread).Sublist run) ∧
      Explained 1 run) ∧
    ∃ chain, chain.Perm (successes threads.flatten) ∧ PathFrom 1 chain ∧
      ((∃ run, Interleaves threads run ∧ Explained 1 run) ↔
        ∀ thread ∈ threads, Along 1 chain thread) :=
  ⟨by decide, accepted_explained _ 1 (by decide)⟩

/-- **Failures are not looked at behind a success**: a thread that fails on the initial value,
which it then replaces itself, is accepted, and no register answers like that. -/
theorem earlyFailure_unexplained :
    checkChain [[⟨1, 2, false⟩, ⟨1, 3, true⟩]] 1 = .ok () ∧
      ¬∃ run, Interleaves [[⟨1, 2, false⟩, ⟨1, 3, true⟩]] run ∧ Explained 1 run := by
  refine ⟨by decide, ?_⟩
  rintro ⟨run, hinterleaves, hrun⟩
  have halong := hinterleaves.along hrun List.mem_cons_self
  have hchain : successes run = [⟨1, 3, true⟩] :=
    List.perm_singleton.1 (successes_perm hinterleaves.perm)
  rw [hchain] at halong
  cases halong with
  | miss _ hbefore _ => exact hbefore rfl
  | pass hbehind =>
    -- behind its own success the thread still has that success to come
    cases hbehind with
    | miss _ _ hrest =>
      cases hrest with
      | miss hfailed _ _ => cases hfailed

end History

end DurableCalls
