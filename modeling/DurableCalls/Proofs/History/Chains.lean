/-
`Chains.lean` -- which histories of fresh values are one chain.

If no value is installed twice and the initial one never, a path from the initial value
comes by no value twice: going back from two equal values, the steps before them would be
equal as well, down to a step that installs the initial value (`PathFrom.nodup_afters`). So
the chain that the check walks has no step twice, and it is long enough exactly if it has
them all. Conversely, of a path through all successes the walk finds each next step, since
no other success replaces the same value.

On a chain without repetitions, a thread's successes lie in order exactly if they are a
sublist of it. The check compares neighbours, which is enough, as the order is transitive.
-/
import DurableCalls.Proofs.History.Paths
import Mathlib.Data.List.Sort

set_option autoImplicit false

namespace DurableCalls

namespace History

/-! ## Checks in a row -/

section Checks

variable {ε α : Type}

/-- A check that refuses in one case goes on in the other. -/
theorem refuse_eq_ok_iff {cond : Prop} [Decidable cond] {reason : ε} {next : Unit → Except ε α}
    {a : α} : (if cond then throw reason >>= next else next ()) = .ok a ↔
      ¬cond ∧ next () = .ok a := by
  by_cases h : cond
  · rw [if_pos h]
    exact ⟨fun hok => (by cases hok), fun hok => absurd h hok.1⟩
  · rw [if_neg h]
    exact ⟨fun hok => ⟨h, hok⟩, fun hok => hok.2⟩

theorem seq_eq_ok_iff {first : Except ε Unit} {next : Unit → Except ε α} {a : α} :
    first >>= next = .ok a ↔ first = .ok () ∧ next () = .ok a := by
  cases first with
  | error reason => exact ⟨fun h => (by cases h), fun h => (by cases h.1)⟩
  | ok => exact ⟨fun h => ⟨rfl, h⟩, fun h => h.2⟩

end Checks

variable {init start : UInt32} {path outcomes : List Outcome} {edges chain : List Edge}

/-! ## Edges -/

/-- The success that took an edge. -/
def successOf (edge : Edge) : Outcome := ⟨edge.1, edge.2, true⟩

theorem mem_successes {o : Outcome} : o ∈ successes outcomes ↔ o ∈ outcomes ∧ o.succeeded = true :=
  List.mem_filter

theorem successOf_edgeOf {o : Outcome} (h : o ∈ successes outcomes) : successOf (edgeOf o) = o := by
  obtain ⟨before, after, succeeded⟩ := o
  obtain rfl : succeeded = true := (mem_successes.1 h).2
  rfl

theorem mem_successes_of_edge {edge : Edge} (h : edge ∈ (successes outcomes).map edgeOf) :
    successOf edge ∈ successes outcomes := by
  obtain ⟨o, ho, rfl⟩ := List.mem_map.1 h
  rw [successOf_edgeOf ho]
  exact ho

/-! ## Paths through fresh values -/

theorem PathFrom.visits_before (h : PathFrom start path) {o : Outcome} (hmem : o ∈ path) :
    Visits start path o.before := by
  induction path generalizing start with
  | nil => cases hmem
  | cons first path ih =>
    obtain ⟨hbefore, hrest⟩ := h
    rcases List.mem_cons.1 hmem with rfl | hmem
    · exact .inl hbefore
    · rcases ih hrest hmem with hfirst | ⟨p, hp, hafter⟩
      · exact .inr ⟨first, List.mem_cons_self, hfirst.symm⟩
      · exact .inr ⟨p, List.mem_cons_of_mem _ hp, hafter⟩

/-- **A path comes by no value twice** if its values tell its steps apart and none of them is
the first one. -/
theorem PathFrom.nodup_afters (h : PathFrom start path)
    (honce : ∀ o ∈ path, ∀ p ∈ path, o.after = p.after → o = p)
    (hstart : ∀ o ∈ path, o.after ≠ start) : (path.map (·.after)).Nodup := by
  induction path generalizing start with
  | nil => exact List.nodup_nil
  | cons first path ih =>
    obtain ⟨rfl, hrest⟩ := h
    have hfresh : ∀ o ∈ path, o.after ≠ first.after := by
      intro o ho hafter
      -- then the first step comes again, and something installs what it replaces
      obtain rfl := honce o (List.mem_cons_of_mem _ ho) first List.mem_cons_self hafter
      rcases hrest.visits_before ho with hbefore | ⟨p, hp, hbefore⟩
      · exact hstart o List.mem_cons_self hbefore.symm
      · exact hstart p (List.mem_cons_of_mem _ hp) hbefore
    rw [List.map_cons, List.nodup_cons]
    refine ⟨fun hmem => ?_, ih hrest (fun o ho p hp => honce o (List.mem_cons_of_mem _ ho) p
      (List.mem_cons_of_mem _ hp)) hfresh⟩
    obtain ⟨o, ho, hafter⟩ := List.mem_map.1 hmem
    exact hfresh o ho hafter

/-- What a path replaces is what it installs, with the first value in front and without the
last one. -/
theorem PathFrom.befores_sublist (h : PathFrom start path) :
    (path.map (·.before)).Sublist (start :: path.map (·.after)) := by
  induction path generalizing start with
  | nil => exact List.nil_sublist _
  | cons first path ih =>
    obtain ⟨rfl, hrest⟩ := h
    exact (ih hrest).cons_cons first.before

/-- So nothing is replaced twice. -/
theorem PathFrom.nodup_befores (h : PathFrom start path) (hnodup : (path.map (·.after)).Nodup)
    (hstart : ∀ o ∈ path, o.after ≠ start) : (path.map (·.before)).Nodup := by
  refine h.befores_sublist.nodup (List.nodup_cons.2 ⟨fun hmem => ?_, hnodup⟩)
  obtain ⟨o, ho, hafter⟩ := List.mem_map.1 hmem
  exact hstart o ho hafter

/-! ## The walk along the chain -/

theorem mem_of_mem_chainWithin {edge : Edge} {steps : Nat} {value : UInt32}
    (h : edge ∈ chainWithin edges steps value) : edge ∈ edges := by
  induction steps generalizing value with
  | zero => cases h
  | succ steps ih =>
    rw [chainWithin] at h
    cases hfind : edges.find? (·.1 = value) with
    | none =>
      rw [hfind] at h
      cases h
    | some next =>
      rw [hfind] at h
      rcases List.mem_cons.1 h with rfl | hmem
      · exact List.mem_of_find?_eq_some hfind
      · exact ih hmem

theorem pathFrom_chainWithin (edges : List Edge) (steps : Nat) (value : UInt32) :
    PathFrom value ((chainWithin edges steps value).map successOf) := by
  induction steps generalizing value with
  | zero => trivial
  | succ steps ih =>
    rw [chainWithin]
    cases hfind : edges.find? (·.1 = value) with
    | none => trivial
    | some next =>
      have hbefore := List.find?_some hfind
      exact ⟨of_decide_eq_true hbefore, ih next.2⟩

/-- Among edges that replace different values, each is found by the value that it replaces. -/
theorem find?_of_nodup (hnodup : (edges.map (·.1)).Nodup) {edge : Edge} (hmem : edge ∈ edges) :
    edges.find? (·.1 = edge.1) = some edge := by
  induction edges with
  | nil => cases hmem
  | cons first edges ih =>
    rw [List.map_cons, List.nodup_cons] at hnodup
    rcases List.mem_cons.1 hmem with rfl | hmem
    · exact List.find?_cons_of_pos (by simp)
    · have hne : first.1 ≠ edge.1 := by
        intro heq
        exact hnodup.1 (heq ▸ List.mem_map_of_mem hmem)
      rw [List.find?_cons_of_neg (by simpa using hne)]
      exact ih hnodup.2 hmem

/-- **The walk finds each step of a path** whose edges replace different values: there is only one
edge to be found from each value. The induction is on the path, and the walk takes as many steps as
it has. -/
theorem chainWithin_of_pathFrom (hnodup : (edges.map (·.1)).Nodup) (h : PathFrom start path)
    (hmem : ∀ o ∈ path, edgeOf o ∈ edges) :
    chainWithin edges path.length start = path.map edgeOf := by
  induction path generalizing start with
  | nil => rfl
  | cons first path ih =>
    obtain ⟨rfl, hrest⟩ := h
    have hfind : edges.find? (·.1 = first.before) = some (edgeOf first) :=
      find?_of_nodup hnodup (hmem first List.mem_cons_self)
    rw [List.length_cons, chainWithin, hfind, List.map_cons]
    exact congrArg _ (ih hrest fun o ho => hmem o (List.mem_cons_of_mem _ ho))

/-! ## The checks -/

/-- Each outcome moves the register, no two of them install one value, and none installs the
initial one. -/
structure Fresh (init : UInt32) (outcomes : List Outcome) : Prop where
  moves : ∀ o ∈ outcomes, o.before ≠ o.after
  away : ∀ o ∈ outcomes, o.after ≠ init
  once : (outcomes.map (·.after)).Nodup

theorem checkFresh_cons_eq_ok_iff {installed : List UInt32} {o : Outcome} :
    checkFresh init installed edges (o :: outcomes) = .ok () ↔
      o.before ≠ o.after ∧ o.after ≠ init ∧ o.after ∉ installed ∧
      (o.succeeded = true → o.before ∉ edges.map (·.1)) ∧
      checkFresh init (o.after :: installed) (if o.succeeded then edgeOf o :: edges else edges)
        outcomes = .ok () := by
  rw [checkFresh]
  simp only [refuse_eq_ok_iff]
  by_cases hsucceeded : o.succeeded = true
  · rw [if_pos hsucceeded, if_pos hsucceeded, refuse_eq_ok_iff, imp_iff_right hsucceeded]
  · rw [if_neg hsucceeded, if_neg hsucceeded, iff_true_intro (absurd · hsucceeded), true_and]

theorem successes_cons (o : Outcome) (outcomes : List Outcome) :
    successes (o :: outcomes)
      = if o.succeeded then o :: successes outcomes else successes outcomes :=
  List.filter_cons

theorem fresh_cons {o : Outcome} : Fresh init (o :: outcomes) ↔
    (o.before ≠ o.after ∧ o.after ≠ init ∧ ∀ p ∈ outcomes, p.after ≠ o.after) ∧
      Fresh init outcomes := by
  constructor
  · rintro ⟨hmoves, haway, honce⟩
    rw [List.map_cons, List.nodup_cons] at honce
    refine ⟨⟨hmoves o List.mem_cons_self, haway o List.mem_cons_self, fun p hp hafter => ?_⟩,
      fun p hp => hmoves p (List.mem_cons_of_mem _ hp),
      fun p hp => haway p (List.mem_cons_of_mem _ hp), honce.2⟩
    exact honce.1 (hafter ▸ List.mem_map_of_mem hp)
  · rintro ⟨⟨hmoves, haway, hother⟩, hfresh⟩
    refine ⟨List.forall_mem_cons.2 ⟨hmoves, hfresh.moves⟩,
      List.forall_mem_cons.2 ⟨haway, hfresh.away⟩, List.nodup_cons.2 ⟨fun hmem => ?_, hfresh.once⟩⟩
    obtain ⟨p, hp, hafter⟩ := List.mem_map.1 hmem
    exact hother p hp hafter

/-- What is accepted behind other outcomes: their values and their edges must not come again. With
nothing before them this is the check of a history. -/
theorem checkFresh_eq_ok_iff_of {installed : List UInt32} :
    checkFresh init installed edges outcomes = .ok () ↔
      Fresh init outcomes ∧ ((successes outcomes).map (·.before)).Nodup ∧
      (∀ o ∈ outcomes, o.after ∉ installed) ∧
      ∀ o ∈ successes outcomes, o.before ∉ edges.map (·.1) := by
  induction outcomes generalizing installed edges with
  | nil => simp [checkFresh, successes, show Fresh init [] from ⟨by simp, by simp, by simp⟩]
  | cons o outcomes ih =>
    rw [checkFresh_cons_eq_ok_iff, ih, successes_cons, fresh_cons]
    have hinstalled : (∀ p ∈ outcomes, p.after ∉ o.after :: installed) ↔
        (∀ p ∈ outcomes, p.after ≠ o.after) ∧ ∀ p ∈ outcomes, p.after ∉ installed := by
      simp only [List.mem_cons, not_or, forall_and]
    by_cases hsucceeded : o.succeeded = true
    · have hedges : (∀ p ∈ successes outcomes, p.before ∉ (edgeOf o :: edges).map (·.1)) ↔
          o.before ∉ (successes outcomes).map (·.before) ∧
            ∀ p ∈ successes outcomes, p.before ∉ edges.map (·.1) := by
        simp only [List.map_cons, List.mem_cons, not_or, forall_and, edgeOf, List.mem_map,
          not_exists, not_and]
      simp only [hsucceeded, if_true, true_implies]
      rw [hinstalled, hedges, List.map_cons, List.nodup_cons, List.forall_mem_cons,
        List.forall_mem_cons]
      tauto
    · simp only [hsucceeded, hinstalled, List.forall_mem_cons]
      tauto

theorem checkFresh_eq_ok_iff : checkFresh init [] [] outcomes = .ok () ↔
    Fresh init outcomes ∧ ((successes outcomes).map (·.before)).Nodup := by
  rw [checkFresh_eq_ok_iff_of]
  simp

/-- One success lies in front of another one on the chain. -/
def Precedes (chain : List Edge) (o p : Outcome) : Prop :=
  chain.idxOf (edgeOf o) < chain.idxOf (edgeOf p)

instance (chain : List Edge) : Trans (Precedes chain) (Precedes chain) (Precedes chain) where
  trans := Nat.lt_trans

instance (chain : List Edge) : Std.Antisymm (Precedes chain) where
  antisymm _ _ h h' := absurd (Nat.lt_trans h h') (Nat.lt_irrefl _)

/-- Neighbours in order are all in order. -/
theorem checkOrder_eq_ok_iff {thread : Nat} :
    checkOrder chain thread outcomes = .ok () ↔ outcomes.Pairwise (Precedes chain) := by
  rw [← List.isChain_iff_pairwise]
  induction outcomes with
  | nil => simp [checkOrder]
  | cons first outcomes ih =>
    cases outcomes with
    | nil => simp [checkOrder]
    | cons second outcomes =>
      rw [checkOrder, refuse_eq_ok_iff, List.isChain_cons_cons, ih, Nat.not_le]
      rfl

theorem checkThreads_eq_ok_iff {thread : Nat} {threads : List (List Outcome)} :
    checkThreads chain thread threads = .ok () ↔
      ∀ outcomes ∈ threads, (successes outcomes).Pairwise (Precedes chain) := by
  induction threads generalizing thread with
  | nil => exact ⟨fun _ _ hmem => (by cases hmem), fun _ => rfl⟩
  | cons outcomes threads ih =>
    rw [checkThreads, seq_eq_ok_iff, checkOrder_eq_ok_iff, ih, List.forall_mem_cons]

/-! ## Order along a chain -/

/-- A path lies in order on its own chain. -/
theorem pairwise_precedes (hnodup : (path.map edgeOf).Nodup) :
    path.Pairwise (Precedes (path.map edgeOf)) := by
  have hedges : (path.map edgeOf).Pairwise fun e f =>
      (path.map edgeOf).idxOf e < (path.map edgeOf).idxOf f := by
    rw [List.pairwise_iff_getElem]
    intro i j hi hj hlt
    rw [hnodup.idxOf_getElem, hnodup.idxOf_getElem]
    exact hlt
  rw [List.pairwise_map] at hedges
  exact hedges

/-- **Outcomes of a path lie in order on it exactly if they are a sublist of it.** The check
compares two outcomes by their places on the chain; a list without repetitions that keeps this order
leaves some outcomes of the path out, and no more. -/
theorem pairwise_precedes_iff (hnodup : (path.map edgeOf).Nodup)
    (hsub : ∀ o ∈ outcomes, o ∈ path) :
    outcomes.Pairwise (Precedes (path.map edgeOf)) ↔ outcomes.Sublist path := by
  refine ⟨fun hpairwise => ?_, fun hsublist => (pairwise_precedes hnodup).sublist hsublist⟩
  have hne : outcomes.Nodup := hpairwise.imp fun hlt heq => absurd (heq ▸ hlt) (Nat.lt_irrefl _)
  exact List.sublist_of_subperm_of_pairwise (List.subperm_of_subset hne hsub) hpairwise
    (pairwise_precedes hnodup)

/-! ## What the check accepts -/

variable {threads : List (List Outcome)}

/-- Without a success there is no chain to walk. -/
theorem checkChain_eq_ok_iff_of_nil (hnone : successes threads.flatten = []) :
    checkChain threads init = .ok () ↔
      checkFresh init [] [] threads.flatten = .ok () ∧ ∀ o ∈ threads.flatten, o.before ≠ init := by
  unfold checkChain
  simp only [seq_eq_ok_iff, hnone, List.map_nil, List.isEmpty_nil, if_true, refuse_eq_ok_iff,
    List.any_eq_true, decide_eq_true_eq, not_exists, not_and]
  exact and_congr_right fun _ => and_iff_left rfl

theorem checkChain_eq_ok_iff_of_ne (hne : successes threads.flatten ≠ []) :
    checkChain threads init = .ok () ↔
      checkFresh init [] [] threads.flatten = .ok () ∧
      (chainFrom init ((successes threads.flatten).map edgeOf)).length
        = (successes threads.flatten).length ∧
      checkThreads (chainFrom init ((successes threads.flatten).map edgeOf)) 0 threads
        = .ok () := by
  have hedges : ¬((successes threads.flatten).map edgeOf).isEmpty = true := by
    simpa using hne
  unfold checkChain
  rw [seq_eq_ok_iff, if_neg hedges, refuse_eq_ok_iff, not_not, List.length_map]

/-- **A chain as long as there are successes holds them all.** It comes by no value twice, so it has
no success twice, and each of its edges belongs to one. -/
theorem exists_path_of_length (hfresh : Fresh init outcomes)
    (hlength : (chainFrom init ((successes outcomes).map edgeOf)).length
      = (successes outcomes).length) :
    ∃ path, path.Perm (successes outcomes) ∧ PathFrom init path := by
  have hpath := pathFrom_chainWithin ((successes outcomes).map edgeOf)
    ((successes outcomes).map edgeOf).length init
  rw [← chainFrom] at hpath
  refine ⟨_, ?_, hpath⟩
  have hsub : ∀ o ∈ (chainFrom init ((successes outcomes).map edgeOf)).map successOf,
      o ∈ successes outcomes := by
    intro o ho
    obtain ⟨edge, hedge, rfl⟩ := List.mem_map.1 ho
    exact mem_successes_of_edge (mem_of_mem_chainWithin hedge)
  have hmem := fun o ho => (mem_successes.1 (hsub o ho)).1
  have honce := List.inj_on_of_nodup_map hfresh.once
  have hnodup := hpath.nodup_afters (fun o ho p hp => honce (hmem o ho) (hmem p hp))
    fun o ho => hfresh.away o (hmem o ho)
  refine (List.subperm_of_subset hnodup.of_map hsub).perm_of_length_le ?_
  rw [List.length_map, hlength]

/-- **The walk takes the path** if there is one that has each success once. So a history that is one
chain is found to be one, in whatever order its successes are listed. -/
theorem chainFrom_of_pathFrom (hnodup : ((successes outcomes).map (·.before)).Nodup)
    (hperm : path.Perm (successes outcomes)) (h : PathFrom init path) :
    chainFrom init ((successes outcomes).map edgeOf) = path.map edgeOf := by
  have hedges : (((successes outcomes).map edgeOf).map (·.1)).Nodup := by
    rw [List.map_map]
    exact hnodup
  rw [chainFrom, List.length_map, ← hperm.length_eq]
  exact chainWithin_of_pathFrom hedges h fun o ho => List.mem_map_of_mem (hperm.mem_iff.1 ho)

/-- The successes of a fresh history replace different values if they are a path. -/
theorem Fresh.nodup_befores (hfresh : Fresh init outcomes) (hperm : path.Perm (successes outcomes))
    (h : PathFrom init path) : ((successes outcomes).map (·.before)).Nodup := by
  have hmem : ∀ o ∈ path, o ∈ outcomes := fun o ho =>
    (mem_successes.1 (hperm.mem_iff.1 ho)).1
  have hafters : (path.map (·.after)).Nodup := by
    refine (hperm.map _).nodup_iff.2 ?_
    exact hfresh.once.sublist (List.filter_sublist.map _)
  exact (hperm.map _).nodup_iff.1 (h.nodup_befores hafters fun o ho => hfresh.away o (hmem o ho))

theorem mem_successes_flatten {thread : List Outcome} (hthread : thread ∈ threads) {o : Outcome}
    (ho : o ∈ successes thread) : o ∈ successes threads.flatten := by
  obtain ⟨hmem, hsucceeded⟩ := mem_successes.1 ho
  exact mem_successes.2 ⟨List.mem_flatten_of_mem hthread hmem, hsucceeded⟩

/-- Without a success in the history there is none in any thread. -/
theorem successes_thread_eq_nil (hnone : successes threads.flatten = []) {thread : List Outcome}
    (hthread : thread ∈ threads) : successes thread = [] := by
  refine List.eq_nil_iff_forall_not_mem.2 fun o ho => ?_
  have hmem := mem_successes_flatten hthread ho
  rw [hnone] at hmem
  cases hmem

/-- The orders of the threads, told along the path that the walk takes. -/
theorem checkThreads_path_iff
    (hnodup : ((successes threads.flatten).map (·.before)).Nodup)
    (hperm : path.Perm (successes threads.flatten)) (h : PathFrom init path) :
    checkThreads (chainFrom init ((successes threads.flatten).map edgeOf)) 0 threads = .ok () ↔
      ∀ thread ∈ threads, (successes thread).Sublist path := by
  have hedges : (path.map edgeOf).Nodup := by
    refine List.Nodup.of_map (·.1) ?_
    rw [List.map_map]
    exact (hperm.map _).nodup_iff.2 hnodup
  rw [chainFrom_of_pathFrom hnodup hperm h, checkThreads_eq_ok_iff]
  refine forall₂_congr fun thread hthread => pairwise_precedes_iff hedges fun o ho => ?_
  exact hperm.mem_iff.2 (mem_successes_flatten hthread ho)

/-- **What the check of fresh histories accepts.** Each outcome moves the register, installs a
value of its own and not the initial one; the successes are one chain from the initial value,
and those of each thread lie along it in the thread's order; and if there are none, no outcome
expected the initial value. -/
theorem checkChain_eq_ok_iff (threads : List (List Outcome)) (init : UInt32) :
    checkChain threads init = .ok () ↔
      (∀ o ∈ threads.flatten, o.before ≠ o.after ∧ o.after ≠ init) ∧
      (threads.flatten.map (·.after)).Nodup ∧
      (∃ chain, chain.Perm (successes threads.flatten) ∧ PathFrom init chain ∧
        ∀ thread ∈ threads, (successes thread).Sublist chain) ∧
      (successes threads.flatten = [] → ∀ o ∈ threads.flatten, o.before ≠ init) := by
  have hfresh_iff : Fresh init threads.flatten ↔
      (∀ o ∈ threads.flatten, o.before ≠ o.after ∧ o.after ≠ init) ∧
        (threads.flatten.map (·.after)).Nodup :=
    ⟨fun h => ⟨fun o ho => ⟨h.moves o ho, h.away o ho⟩, h.once⟩,
      fun h => ⟨fun o ho => (h.1 o ho).1, fun o ho => (h.1 o ho).2, h.2⟩⟩
  rw [← and_assoc, ← hfresh_iff]
  -- what the failures have expected is looked at only if there is no success
  by_cases hnone : successes threads.flatten = []
  · rw [checkChain_eq_ok_iff_of_nil hnone, checkFresh_eq_ok_iff, hnone]
    constructor
    · rintro ⟨⟨hfresh, -⟩, hinit⟩
      refine ⟨hfresh, ⟨[], .refl _, trivial, fun thread hthread => ?_⟩, fun _ => hinit⟩
      rw [successes_thread_eq_nil hnone hthread]
    · rintro ⟨hfresh, -, hinit⟩
      exact ⟨⟨hfresh, List.nodup_nil⟩, hinit rfl⟩
  · rw [checkChain_eq_ok_iff_of_ne hnone, checkFresh_eq_ok_iff]
    constructor
    · rintro ⟨⟨hfresh, hnodup⟩, hlength, horder⟩
      obtain ⟨path, hperm, hpath⟩ := exists_path_of_length hfresh hlength
      exact ⟨hfresh, ⟨path, hperm, hpath, (checkThreads_path_iff hnodup hperm hpath).1 horder⟩,
        fun h => absurd h hnone⟩
    · rintro ⟨hfresh, ⟨path, hperm, hpath, horder⟩, -⟩
      have hnodup := hfresh.nodup_befores hperm hpath
      refine ⟨⟨hfresh, hnodup⟩, ?_, (checkThreads_path_iff hnodup hperm hpath).2 horder⟩
      rw [chainFrom_of_pathFrom hnodup hperm hpath, List.length_map, hperm.length_eq]

end History

end DurableCalls
