/-
`Paths.lean` -- which successes can be put in one row.

The successes that took one register from value to value form a *path*: each of them
replaces the value that the one before it has installed. Along a path every value is left
as often as it is reached, but for the first and the last one, so the degrees say where a
walk ends that goes on for as long as it can (`Spans.walk`). A walk through successes that
are even everywhere comes back to where it began.

Even degrees do not make a path: a circuit elsewhere has them too, and nothing leads
there. If all successes can be reached from the initial value, each circuit that a path
has left over begins at a value of the path and is put in there (`PathFrom.absorb`). The
induction is on the number of successes that are left over.
-/
import DurableCalls.History
import Mathlib.Data.List.Perm.Subperm

set_option autoImplicit false

namespace DurableCalls

namespace History

variable {start value finish init : UInt32} {path front back left rest : List Outcome}
  {outcomes : List Outcome}

/-! ## Paths -/

/-- Each outcome replaces the value that the one before it has installed, and the first one
replaces `value`. -/
def PathFrom : (value : UInt32) → List Outcome → Prop
  | _, [] => True
  | value, o :: rest => o.before = value ∧ PathFrom o.after rest

/-- What is installed behind all these outcomes. -/
def lastValue : (value : UInt32) → List Outcome → UInt32
  | value, [] => value
  | _, o :: rest => lastValue o.after rest

theorem lastValue_append (value : UInt32) (front back : List Outcome) :
    lastValue value (front ++ back) = lastValue (lastValue value front) back := by
  induction front generalizing value with
  | nil => rfl
  | cons o front ih => exact ih o.after

theorem pathFrom_append (value : UInt32) (front back : List Outcome) :
    PathFrom value (front ++ back) ↔
      PathFrom value front ∧ PathFrom (lastValue value front) back := by
  induction front generalizing value with
  | nil => simp only [List.nil_append, PathFrom, lastValue, true_and]
  | cons o front ih => simp only [List.cons_append, PathFrom, lastValue, ih, and_assoc]

/-- The values that a path comes by. -/
def Visits (start : UInt32) (path : List Outcome) (value : UInt32) : Prop :=
  value = start ∨ ∃ o ∈ path, o.after = value

/-- A path can be cut at each value that it comes by. -/
theorem Visits.split (h : Visits start path value) :
    ∃ front back, path = front ++ back ∧ lastValue start front = value := by
  induction path generalizing start with
  | nil =>
    obtain rfl | ⟨o, hmem, -⟩ := h
    · exact ⟨[], [], rfl, rfl⟩
    · cases hmem
  | cons first path ih =>
    have hrest : value = start ∨ Visits first.after path value := by
      obtain hstart | ⟨o, hmem, ho⟩ := h
      · exact .inl hstart
      · rcases List.mem_cons.1 hmem with rfl | hmem
        · exact .inr (.inl ho.symm)
        · exact .inr (.inr ⟨o, hmem, ho⟩)
    rcases hrest with rfl | hrest
    · exact ⟨[], first :: path, rfl, rfl⟩
    · obtain ⟨front, back, rfl, hlast⟩ := ih hrest
      exact ⟨first :: front, back, rfl, hlast⟩

/-! ## Degrees -/

/-- How many more of these outcomes replace a value than install it. -/
def net (outcomes : List Outcome) (value : UInt32) : Int :=
  outcomes.countP (·.before = value) - outcomes.countP (·.after = value)

theorem balance_eq_net (outcomes : List Outcome) (value : UInt32) :
    balance outcomes value = net (successes outcomes) value := rfl

/-- One at one value, and nothing at the others. -/
def pointAt (point value : UInt32) : Int := if point = value then 1 else 0

@[simp] theorem pointAt_self (point : UInt32) : pointAt point point = 1 := if_pos rfl

theorem pointAt_of_ne {point value : UInt32} (h : point ≠ value) : pointAt point value = 0 :=
  if_neg h

theorem net_cons (o : Outcome) (outcomes : List Outcome) (value : UInt32) :
    net (o :: outcomes) value
      = pointAt o.before value - pointAt o.after value + net outcomes value := by
  simp only [net, pointAt, List.countP_cons, decide_eq_true_eq]
  split <;> split <;> omega

theorem net_append (front back : List Outcome) (value : UInt32) :
    net (front ++ back) value = net front value + net back value := by
  simp only [net, List.countP_append]
  omega

theorem net_of_perm (h : front.Perm back) (value : UInt32) : net front value = net back value := by
  simp only [net, h.countP_eq]

/-- A value that no outcome replaces is not left more often than it is reached. -/
theorem net_nonpos (h : ∀ o ∈ outcomes, o.before ≠ value) : net outcomes value ≤ 0 := by
  have hnone : outcomes.countP (·.before = value) = 0 := by
    rw [List.countP_eq_zero]
    intro o hmem
    simpa using h o hmem
  simp only [net, hnone]
  omega

/-- The degrees are those of a path between two values, which are one for a circuit. -/
def Spans (outcomes : List Outcome) (start finish : UInt32) : Prop :=
  ∀ value, net outcomes value = pointAt start value - pointAt finish value

theorem spans_self_iff : Spans outcomes start start ↔ ∀ value, net outcomes value = 0 := by
  simp only [Spans, Int.sub_self]

theorem Spans.perm (h : Spans front start finish) (hperm : front.Perm back) :
    Spans back start finish := fun value => (net_of_perm hperm value).symm.trans (h value)

theorem PathFrom.spans (h : PathFrom start path) : Spans path start (lastValue start path) := by
  intro value
  induction path generalizing start with
  | nil =>
    show net [] value = pointAt start value - pointAt start value
    rw [Int.sub_self]
    rfl
  | cons o path ih =>
    obtain ⟨rfl, hrest⟩ := h
    rw [net_cons, ih hrest, lastValue]
    omega

/-! ## Walks -/

/-- A walk goes on until no outcome that is left replaces the value it has come to. The induction is
on the number of outcomes that are left. -/
theorem exists_walk (left : List Outcome) (value : UInt32) : ∃ path rest,
    (path ++ rest).Perm left ∧ PathFrom value path ∧
      ∀ o ∈ rest, o.before ≠ lastValue value path := by
  induction hn : left.length generalizing left value with
  | zero =>
    obtain rfl := List.length_eq_zero_iff.1 hn
    exact ⟨[], [], .refl _, trivial, fun _ hmem => by cases hmem⟩
  | succ n ih =>
    by_cases hon : ∃ o ∈ left, o.before = value
    · obtain ⟨o, hmem, hbefore⟩ := hon
      have hlength : (left.erase o).length = n := by
        rw [List.length_erase_of_mem hmem, hn]
        rfl
      obtain ⟨path, rest, hperm, hpath, hstuck⟩ := ih (left.erase o) o.after hlength
      exact ⟨o :: path, rest, (hperm.cons o).trans (List.perm_cons_erase hmem).symm,
        ⟨hbefore, hpath⟩, hstuck⟩
    · exact ⟨[], left, .refl _, trivial, fun o hmem hbefore => hon ⟨o, hmem, hbefore⟩⟩

/-- **The degrees say where a walk ends**, and what it has left over is even everywhere. A walk that
cannot go on has reached its last value more often than it has left it, which the degrees allow at
the finish alone. -/
theorem Spans.walk (h : Spans left start finish) : ∃ path rest,
    (path ++ rest).Perm left ∧ PathFrom start path ∧ lastValue start path = finish ∧
      (∀ value, net rest value = 0) ∧ ∀ o ∈ rest, o.before ≠ finish := by
  obtain ⟨path, rest, hperm, hpath, hstuck⟩ := exists_walk left start
  have hsplit : ∀ value, net path value + net rest value = net left value := by
    intro value
    rw [← net_append]
    exact net_of_perm hperm value
  have hlast : lastValue start path = finish := by
    -- the walk has reached its last value once more than it has left it
    have hpoint := hsplit (lastValue start path)
    have hrest := net_nonpos hstuck
    rw [hpath.spans, h, pointAt_self] at hpoint
    by_contra hne
    rw [pointAt_of_ne (Ne.symm hne)] at hpoint
    omega
  refine ⟨path, rest, hperm, hpath, hlast, fun value => ?_, hlast ▸ hstuck⟩
  have hvalue := hsplit value
  rw [hpath.spans, h, hlast] at hvalue
  omega

/-- A circuit can be put in where a path comes by. -/
theorem PathFrom.insert {loop : List Outcome} (h : PathFrom start (front ++ back))
    (hloop : PathFrom (lastValue start front) loop)
    (hclosed : lastValue (lastValue start front) loop = lastValue start front) :
    PathFrom start (front ++ loop ++ back) := by
  obtain ⟨hfront, hback⟩ := (pathFrom_append _ _ _).1 h
  refine (pathFrom_append _ _ _).2 ⟨(pathFrom_append _ _ _).2 ⟨hfront, hloop⟩, ?_⟩
  rw [lastValue_append, hclosed]
  exact hback

/-! ## What can be reached -/

/-- Some of these outcomes lead from one value to another, each as often as need be. -/
def Reached (outcomes : List Outcome) (start value : UInt32) : Prop :=
  ∃ path, (∀ o ∈ path, o ∈ outcomes) ∧ PathFrom start path ∧ lastValue start path = value

theorem Reached.of_subset (h : Reached front start value) (hsub : ∀ o ∈ front, o ∈ back) :
    Reached back start value := by
  obtain ⟨path, hmem, hpath, hlast⟩ := h
  exact ⟨path, fun o ho => hsub o (hmem o ho), hpath, hlast⟩

theorem PathFrom.reached (h : PathFrom start path) {o : Outcome} (hmem : o ∈ path) :
    Reached path start o.before := by
  obtain ⟨front, back, rfl⟩ := List.append_of_mem hmem
  obtain ⟨hfront, hbefore, -⟩ := (pathFrom_append _ _ _).1 h
  exact ⟨front, fun o ho => List.mem_append_left _ ho, hfront, hbefore.symm⟩

/-- Nothing leads away from a path but an outcome that it has left over. -/
theorem Visits.lastValue {walk : List Outcome} (h : Visits start path value)
    (hstuck : ∀ o ∈ left, ¬Visits start path o.before) (hmem : ∀ o ∈ walk, o ∈ path ++ left)
    (hwalk : PathFrom value walk) : Visits start path (lastValue value walk) := by
  induction walk generalizing value with
  | nil => exact h
  | cons o walk ih =>
    obtain ⟨hbefore, hrest⟩ := hwalk
    have hpath : o ∈ path := by
      rcases List.mem_append.1 (hmem o List.mem_cons_self) with ho | ho
      · exact ho
      · exact absurd (hbefore ▸ h) (hstuck o ho)
    exact ih (.inr ⟨o, hpath, rfl⟩) (fun o ho => hmem o (List.mem_cons_of_mem _ ho)) hrest

/-- If all outcomes can be reached, one of those that a path has left over begins on it. -/
theorem exists_visits (hleft : left ≠ [])
    (hreached : ∀ o ∈ path ++ left, Reached (path ++ left) start o.before) :
    ∃ o ∈ left, Visits start path o.before := by
  by_contra hnone
  have hstuck : ∀ o ∈ left, ¬Visits start path o.before := fun o ho hvisits =>
    hnone ⟨o, ho, hvisits⟩
  obtain ⟨o, ho⟩ := List.exists_mem_of_ne_nil left hleft
  obtain ⟨walk, hmem, hwalk, hlast⟩ := hreached o (List.mem_append_right _ ho)
  have hvisits : Visits start path start := .inl rfl
  exact hstuck o ho (hlast ▸ hvisits.lastValue hstuck hmem hwalk)

/-- **A path takes up what it has left over**, circuit by circuit, if that is even everywhere
and all of it can be reached. -/
theorem PathFrom.absorb (h : PathFrom start path) (heven : ∀ value, net left value = 0)
    (hreached : ∀ o ∈ path ++ left, Reached (path ++ left) start o.before) :
    ∃ whole, whole.Perm (path ++ left) ∧ PathFrom start whole := by
  induction hn : left.length using Nat.strongRecOn generalizing path left with
  | ind n ih =>
    by_cases hleft : left = []
    · subst hleft
      exact ⟨path, by rw [List.append_nil], h⟩
    · -- a circuit through what is left over begins on the path
      obtain ⟨o, ho, hvisits⟩ := exists_visits hleft hreached
      obtain ⟨front, back, rfl, hfront⟩ := hvisits.split
      have hself : Spans left o.before o.before := spans_self_iff.2 heven
      obtain ⟨loop, rest, hperm, hloop, hclosed, hrest, hstuck⟩ := hself.walk
      have hne : loop ≠ [] := by
        rintro rfl
        exact hstuck o (hperm.mem_iff.2 ho) rfl
      have hlonger : PathFrom start (front ++ loop ++ back) := by
        rw [← hfront] at hloop hclosed
        exact h.insert hloop hclosed
      have hsame : (front ++ loop ++ back ++ rest).Perm (front ++ back ++ left) := by
        have hswap : (loop ++ (back ++ rest)).Perm (back ++ left) := by
          rw [← List.append_assoc]
          refine (List.perm_append_comm.append_right rest).trans ?_
          rw [List.append_assoc]
          exact hperm.append_left back
        simp only [List.append_assoc]
        exact hswap.append_left front
      have hfewer : rest.length < n := by
        have hlength := hperm.length_eq
        have hpos := List.length_pos_of_ne_nil hne
        rw [List.length_append] at hlength
        omega
      obtain ⟨whole, hwhole, hpath⟩ := ih rest.length hfewer hlonger hrest
        (fun o ho => (hreached o (hsame.mem_iff.1 ho)).of_subset fun o ho => hsame.mem_iff.2 ho) rfl
      exact ⟨whole, hwhole.trans hsame, hpath⟩

/-- **The outcomes can be put in one row** exactly if their degrees are those of a path from
the initial value and each of them can be reached from there. -/
theorem exists_path_iff :
    (∃ path, path.Perm outcomes ∧ PathFrom init path) ↔
      (∃ finish, Spans outcomes init finish) ∧ ∀ o ∈ outcomes, Reached outcomes init o.before := by
  constructor
  · rintro ⟨path, hperm, hpath⟩
    refine ⟨⟨_, hpath.spans.perm hperm⟩, fun o ho => ?_⟩
    exact (hpath.reached (hperm.mem_iff.2 ho)).of_subset fun o ho => hperm.mem_iff.1 ho
  · rintro ⟨⟨finish, hspans⟩, hreached⟩
    obtain ⟨path, rest, hperm, hpath, -, hrest, -⟩ := hspans.walk
    obtain ⟨whole, hwhole, hall⟩ := hpath.absorb hrest fun o ho =>
      (hreached o (hperm.mem_iff.1 ho)).of_subset fun o ho => hperm.mem_iff.2 ho
    exact ⟨whole, hwhole.trans hperm, hall⟩

/-! ## The check -/

/-- The values without their repetitions. -/
theorem eraseDups_spec (values : List UInt32) :
    values.eraseDups.Nodup ∧ ∀ value, value ∈ values.eraseDups ↔ value ∈ values := by
  induction hn : values.length using Nat.strongRecOn generalizing values with
  | ind n ih =>
    cases values with
    | nil => exact ⟨List.nodup_nil, fun _ => Iff.rfl⟩
    | cons first values =>
      have hfewer : (values.filter fun v => !v == first).length < n := by
        have hle := List.length_filter_le (fun v => !v == first) values
        rw [List.length_cons] at hn
        omega
      obtain ⟨hnodup, hmem⟩ := ih _ hfewer _ rfl
      rw [List.eraseDups_cons]
      refine ⟨List.nodup_cons.2 ⟨fun hfirst => ?_, hnodup⟩, fun value => ?_⟩
      · simp [hmem] at hfirst
      · rw [List.mem_cons, hmem, List.mem_cons, List.mem_filter]
        by_cases hfirst : value = first <;> simp [hfirst]

theorem net_eq_zero (h : ∀ o ∈ outcomes, o.before ≠ value ∧ o.after ≠ value) :
    net outcomes value = 0 := by
  have hbefore : outcomes.countP (·.before = value) = 0 :=
    List.countP_eq_zero.2 fun o ho => by simpa using (h o ho).1
  have hafter : outcomes.countP (·.after = value) = 0 :=
    List.countP_eq_zero.2 fun o ho => by simpa using (h o ho).2
  rw [net, hbefore, hafter]
  rfl

/-- The values that are not left as often as they are reached. -/
def uneven (outcomes : List Outcome) : List UInt32 :=
  (values outcomes).filter (balance outcomes · ≠ 0)

theorem nodup_uneven (outcomes : List Outcome) : (uneven outcomes).Nodup :=
  (eraseDups_spec _).1.filter _

theorem mem_uneven : value ∈ uneven outcomes ↔ net (successes outcomes) value ≠ 0 := by
  rw [uneven, List.mem_filter, decide_eq_true_eq, balance_eq_net, and_iff_right_iff_imp]
  intro hne
  by_contra hnone
  rw [values, (eraseDups_spec _).2, List.mem_flatMap] at hnone
  -- a value that no success replaces or installs is even
  refine hne (net_eq_zero fun o ho => ⟨fun hbefore => hnone ⟨o, ho, ?_⟩, fun hafter =>
    hnone ⟨o, ho, ?_⟩⟩)
  · simp [hbefore]
  · simp [hafter]

/-- A path that is no circuit has two uneven values. -/
theorem Spans.uneven_perm (h : Spans (successes outcomes) init finish) (hne : init ≠ finish) :
    (uneven outcomes).Perm [init, finish] := by
  have hpair : [init, finish].Nodup := by simpa using hne
  refine (List.perm_ext_iff_of_nodup (nodup_uneven outcomes) hpair).2 fun value => ?_
  rw [mem_uneven, h, List.mem_cons, List.mem_singleton]
  by_cases hinit : init = value
  · subst hinit
    simp [pointAt_of_ne (Ne.symm hne)]
  · by_cases hfinish : finish = value
    · subst hfinish
      simp [pointAt_of_ne hne]
    · simp [pointAt_of_ne hinit, pointAt_of_ne hfinish, Ne.symm hinit, Ne.symm hfinish]

/-- Two uneven values, one up and one down, are the ends of a path. The net of every other value is
zero, which is what the degrees of a path are. -/
theorem spans_of_uneven (hlength : (uneven outcomes).length = 2)
    (hinit : net (successes outcomes) init = 1) (hfinish : net (successes outcomes) finish = -1) :
    Spans (successes outcomes) init finish := by
  have hne : init ≠ finish := by
    rintro rfl
    omega
  have hpair : [init, finish].Nodup := by simpa using hne
  have hsub : [init, finish] ⊆ uneven outcomes := by
    simp only [List.cons_subset, mem_uneven, hinit, hfinish, List.nil_subset]
    decide
  have hperm : [init, finish].Perm (uneven outcomes) :=
    (hpair.subperm hsub).perm_of_length_le (by rw [hlength]; exact Nat.le_refl 2)
  intro value
  by_cases hvalue : net (successes outcomes) value = 0
  · have hnone : init ≠ value ∧ finish ≠ value := by
      refine ⟨?_, ?_⟩ <;> rintro rfl <;> omega
    rw [hvalue, pointAt_of_ne hnone.1, pointAt_of_ne hnone.2]
    rfl
  · have hmem := hperm.mem_iff.2 (mem_uneven.2 hvalue)
    rcases List.mem_cons.1 hmem with rfl | hmem
    · rw [hinit, pointAt_self, pointAt_of_ne (Ne.symm hne)]
      rfl
    · obtain rfl := List.mem_singleton.1 hmem
      rw [hfinish, pointAt_self, pointAt_of_ne hne]
      rfl

/-- **The check accepts the degrees of a path** from the initial value, and nothing else. It accepts
if all values are even, or if two of them are not and these can be the ends of a path. Whether the
successes can all be reached from the initial value is not asked. -/
theorem checkPath_eq_ok_iff :
    checkPath outcomes init = .ok () ↔ ∃ finish, Spans (successes outcomes) init finish := by
  constructor
  · intro h
    unfold checkPath at h
    dsimp only at h
    split at h
    next _ _ heven =>
      -- nothing is uneven, so the path is a circuit
      refine ⟨init, spans_self_iff.2 fun value => ?_⟩
      by_contra hne
      have hmem := mem_uneven.2 hne
      rw [uneven, List.length_eq_zero_iff.1 heven] at hmem
      cases hmem
    next start finish hstarts hends hlength =>
      split at h
      next hinit =>
        obtain ⟨rfl, -⟩ := hinit
        have hstart : start ∈ (uneven outcomes).filter (balance outcomes · = 1) := by
          rw [uneven, hstarts]
          exact List.mem_singleton_self start
        have hfinish : finish ∈ (uneven outcomes).filter (balance outcomes · = -1) := by
          rw [uneven, hends]
          exact List.mem_singleton_self finish
        rw [List.mem_filter, decide_eq_true_eq] at hstart hfinish
        exact ⟨finish, spans_of_uneven hlength hstart.2 hfinish.2⟩
      next => cases h
    next => cases h
  · rintro ⟨finish, hspans⟩
    unfold checkPath
    dsimp only
    rw [← uneven]
    by_cases hne : init = finish
    · subst hne
      have hnone : uneven outcomes = [] := by
        refine List.eq_nil_iff_forall_not_mem.2 fun value hmem => ?_
        exact mem_uneven.1 hmem (spans_self_iff.1 hspans value)
      rw [hnone]
      rfl
    · have hperm := hspans.uneven_perm hne
      have hup : balance outcomes init = 1 := by
        rw [balance_eq_net, hspans, pointAt_self, pointAt_of_ne (Ne.symm hne)]
        rfl
      have hdown : balance outcomes finish = -1 := by
        rw [balance_eq_net, hspans, pointAt_self, pointAt_of_ne hne]
        rfl
      have hstarts : (uneven outcomes).filter (balance outcomes · = 1) = [init] := by
        refine List.perm_singleton.1 ((hperm.filter _).trans ?_)
        simp [hup, hdown]
      have hends : (uneven outcomes).filter (balance outcomes · = -1) = [finish] := by
        refine List.perm_singleton.1 ((hperm.filter _).trans ?_)
        simp [hup, hdown]
      rw [hstarts, hends, hperm.length_eq]
      exact if_pos ⟨rfl, Ne.symm hne⟩

/-- **What the check says.** The successes can be put in one row that begins at the initial
value exactly if the check accepts them and each of them can be reached from that value. The
check does not look for the second. -/
theorem arranged_iff_accepted (outcomes : List Outcome) (init : UInt32) :
    (∃ path, path.Perm (successes outcomes) ∧ PathFrom init path) ↔
      checkPath outcomes init = .ok () ∧
        ∀ o ∈ successes outcomes, Reached (successes outcomes) init o.before := by
  rw [exists_path_iff, checkPath_eq_ok_iff]

/-- One step, and a circuit that the step does not lead to. -/
def stepAndCircuit : List Outcome := [⟨1, 2, true⟩, ⟨5, 6, true⟩, ⟨6, 5, true⟩]

/-- The check accepts them, and they are in no row. -/
theorem stepAndCircuit_accepted : checkPath stepAndCircuit 1 = .ok () ∧
    ¬∃ path, path.Perm (successes stepAndCircuit) ∧ PathFrom 1 path := by
  refine ⟨by decide, fun harranged => ?_⟩
  obtain ⟨-, hreached⟩ := exists_path_iff.1 harranged
  obtain ⟨walk, hmem, hwalk, hlast⟩ := hreached ⟨5, 6, true⟩ (by decide)
  -- a walk from 1 stays on the step
  have hstuck : ∀ o ∈ ([⟨5, 6, true⟩, ⟨6, 5, true⟩] : List Outcome),
      ¬Visits 1 [⟨1, 2, true⟩] o.before := by
    unfold Visits
    decide
  have hvisits : Visits 1 [⟨1, 2, true⟩] (lastValue 1 walk) :=
    Visits.lastValue (.inl rfl) hstuck hmem hwalk
  rw [hlast] at hvisits
  unfold Visits at hvisits
  revert hvisits
  decide

end History

end DurableCalls
