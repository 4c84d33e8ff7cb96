/-
`Crew.lean` -- threads that take their steps in any order.

A thread has a role to play: it relies on how the heap looks without its own writes, it makes the
writes of its plan, one after the other, and returns a value (`Role`). Two roles do not come into
each other's way if no byte is in both plans and no write of the one changes how the heap looks to
the other (`Role.Beside`).

While a crew of such threads is at work, its heap is the first one with the writes that all of them
have made so far (`Crew.Playing`). The writes are sorted by threads there, not by time: a thread
that writes something adds to its own ones, and they can be moved past those of the others, because
they share no byte with them. So a step keeps that (`Playing.step`), then a schedule does
(`Playing.run`), and when the threads are done all plans have been carried out
(`Crew.finish_run`). The schedule plays no part in what the heap is then.
-/
import DurableCalls.Pool
import DurableCalls.Proofs.Call.StepByStep
import DurableCalls.Proofs.Context.Amid
import Mathlib.Data.List.Pairwise

set_option autoImplicit false

namespace DurableCalls

open Region HasHeap

variable {α : Type}

/-! ## Roles -/

/-- What a thread relies on, what it writes, and what it returns. In the terms of rely and
guarantee, `look` is the rely, and the plan bounds what the thread does to the others. -/
structure Role (α : Type) where
  look : Region → Prop
  plan : List Write
  value : α

namespace Role

/-- A thread that has made so many of its writes, and will make the others. -/
def Plays (r : Role α) (t : Thread α) (made : List Write) : Prop :=
  made ⊆ r.plan ∧ ∃ steps, t.left = .ok steps ∧
    Performs r.look r.plan (fun a _ all => a = r.value ∧ all = r.plan) steps t.context made

/-- The two do not come into each other's way: they share no byte that is written, and no write of
one of them takes away what the other one relies on. -/
structure Beside (r q : Role α) : Prop where
  apart : ∀ v ∈ r.plan, ∀ w ∈ q.plan, v.Apart w
  keeps : ∀ w ∈ q.plan, ∀ heap, r.look heap → r.look (heap.put w.offset w.data)
  kept : ∀ w ∈ r.plan, ∀ heap, q.look heap → q.look (heap.put w.offset w.data)

theorem Beside.symm {r q : Role α} (h : r.Beside q) : q.Beside r :=
  ⟨fun v hv w hw => (h.apart w hw v hv).symm, h.kept, h.keeps⟩

instance : Std.Symm (@Beside α) := ⟨fun _ _ h => h.symm⟩

variable {r : Role α} {t : Thread α} {made ws : List Write} {heap : Region}

/-- The heap looks the same behind writes that a role does not see. -/
theorem look_putAll (hlook : r.look heap)
    (h : ∀ w ∈ ws, ∀ heap, r.look heap → r.look (heap.put w.offset w.data)) :
    r.look (heap.putAll ws) := by
  induction ws generalizing heap with
  | nil => exact hlook
  | cons w ws ih =>
    rw [putAll_cons]
    exact ih (h w List.mem_cons_self heap hlook) fun v hv => h v (List.mem_cons_of_mem w hv)

/-- A thread takes a step. Among the writes of others it still has its own ones to make, in the
order of its plan. -/
theorem Plays.step (h : r.Plays t made) (hlook : r.look heap) :
    ∃ all, (t.step (heap.putAll made)).2 = heap.putAll all ∧
      r.Plays (t.step (heap.putAll made)).1 all := by
  obtain ⟨hsub, steps, hleft, hperforms⟩ := h
  cases steps with
  | done a =>
    refine ⟨made, ?_, ?_⟩
    · simp only [Thread.step, hleft]
    · simp only [Thread.step, hleft]
      exact ⟨hsub, _, hleft, hperforms⟩
  | step m rest =>
    obtain ⟨b, after, new, hrun, hheap, hnew, hrest⟩ := hperforms heap hlook
    have hrun' : m { t.context with heap := some (heap.putAll made) } = (.ok b, after) := hrun
    have hheap' : after.heap = some (heap.putAll (made ++ new)) := hheap
    refine ⟨made ++ new, ?_, ?_⟩
    · simp only [Thread.step, hleft, hrun', hheap', Option.getD_some]
    · simp only [Thread.step, hleft, hrun']
      exact ⟨List.append_subset.2 ⟨hsub, hnew⟩, _, rfl, hrest⟩

/-- A thread takes all the steps that it has left. It returns its value, and has made all of its
writes. -/
theorem Plays.finish (h : r.Plays t made) (hlook : r.look heap) :
    ∃ after, t.finish (heap.putAll made) = (.ok r.value, after) ∧
      after.heap = some (heap.putAll r.plan) := by
  obtain ⟨hsub, steps, hleft, hperforms⟩ := h
  cases steps with
  | done a =>
    obtain ⟨rfl, rfl⟩ := hperforms
    refine ⟨{ t.context with heap := some (heap.putAll r.plan) }, ?_, rfl⟩
    simp only [Thread.finish, hleft]
    rfl
  | step m rest =>
    -- the heap is lent for the first step, and is there for the others
    obtain ⟨b, after, new, hrun, hheap, hnew, hrest⟩ := hperforms heap hlook
    obtain ⟨a, last, all, hlast, hheap', -, rfl, rfl⟩ :=
      hrest.run (List.append_subset.2 ⟨hsub, hnew⟩) hlook hheap
    refine ⟨last, ?_, hheap'⟩
    simp only [Thread.finish, hleft]
    exact (Run.bind_of_ok hrun).trans hlast

end Role

/-! ## Crews -/

/-- A thread, its role, and the writes that it has made. The last two are not part of the program:
they are what the invariant of a schedule says of each thread. -/
structure Row (α : Type) where
  role : Role α
  made : List Write
  thread : Thread α

/-- The threads of a crew play these roles. The heap is the first one with all the writes that they
have made, sorted by threads. -/
def Crew.Playing (base : Region) (roles : List (Role α)) (c : Crew α) : Prop :=
  ∃ rows : List (Row α), rows.map Row.role = roles ∧
    c = ⟨base.putAll (rows.flatMap Row.made), rows.map Row.thread⟩ ∧
    ∀ row ∈ rows, row.role.Plays row.thread row.made

/-- Roles that can be played at the same time, on a heap on which each of them can begin. It is
asked of every two of them, so nothing depends on the order of the threads. -/
structure Role.Compatible (base : Region) (roles : List (Role α)) : Prop where
  beside : roles.Pairwise Role.Beside
  look : ∀ r ∈ roles, r.look base
  inside : ∀ r ∈ roles, ∀ w ∈ r.plan, w.stop ≤ base.size

namespace Role.Compatible

variable {base : Region} {roles roles' : List (Role α)}

theorem perm (h : Compatible base roles) (hperm : roles.Perm roles') : Compatible base roles' := by
  constructor
  · exact (hperm.pairwise_iff fun hbeside => hbeside.symm).1 h.beside
  · intro r hr
    exact h.look r (hperm.mem_iff.2 hr)
  · intro r hr
    exact h.inside r (hperm.mem_iff.2 hr)

/-- Once a plan has been carried out, the other roles can still be played. -/
theorem tail {r : Role α} (h : Compatible base (r :: roles)) :
    Compatible (base.putAll r.plan) roles := by
  obtain ⟨hbeside, hrest⟩ := List.pairwise_cons.1 h.beside
  constructor
  · exact hrest
  · intro q hq
    exact look_putAll (h.look q (List.mem_cons_of_mem r hq)) (hbeside q hq).kept
  · intro q hq w hw
    rw [size_putAll]
    exact h.inside q (List.mem_cons_of_mem r hq) w hw

/-- In which order the plans are carried out makes no difference. -/
theorem putAll_eq (h : Compatible base roles) (hperm : roles.Perm roles') :
    base.putAll (roles.flatMap Role.plan) = base.putAll (roles'.flatMap Role.plan) := by
  apply putAll_perm hperm h.inside
  intro r hr q hq hne
  exact (h.beside.forall hr hq hne).apart

end Role.Compatible

namespace Crew

variable {base : Region} {roles : List (Role α)} {c : Crew α} {rows before behind : List (Row α)}
  {row : Row α}

/-- Nobody has written anything at first. -/
theorem Playing.start {β : Type} {role : β → Role α} {thread : β → Thread α} {xs : List β}
    (h : ∀ x ∈ xs, (role x).Plays (thread x) []) :
    Playing base (xs.map role) ⟨base, xs.map thread⟩ := by
  have hnone : (xs.map fun x => Row.mk (role x) [] (thread x)).flatMap Row.made = [] := by
    rw [List.flatMap_map]
    exact List.flatMap_eq_nil_iff.2 fun _ _ => rfl
  refine ⟨xs.map fun x => ⟨role x, [], thread x⟩, ?_, ?_, ?_⟩
  · rw [List.map_map]
    rfl
  · rw [hnone, List.map_map]
    rfl
  · intro row hrow
    obtain ⟨x, hx, rfl⟩ := List.mem_map.1 hrow
    exact h x hx

/-- A thread among the others: what they have written does not concern it. Its step is told on the
heap with all of their writes, and then put in its place among them. -/
structure Amid (base : Region) (before behind : List (Row α)) (row : Row α) : Prop where
  inside : ∀ w ∈ row.role.plan, w.stop ≤ base.size
  behind_inside : ∀ w ∈ behind.flatMap Row.made, w.stop ≤ base.size
  apart : ∀ v ∈ row.role.plan, ∀ w ∈ behind.flatMap Row.made, v.Apart w
  look : row.role.look (base.putAll (before.flatMap Row.made ++ behind.flatMap Row.made))

theorem amid_of_compatible (h : Role.Compatible base ((before ++ row :: behind).map Row.role))
    (hplays : ∀ r ∈ before ++ row :: behind, r.role.Plays r.thread r.made) :
    Amid base before behind row := by
  have hperm : (before ++ row :: behind).Perm (row :: (before ++ behind)) := List.perm_middle
  have hall : Role.Compatible base (row.role :: (before ++ behind).map Row.role) :=
    h.perm (hperm.map Row.role)
  obtain ⟨hbeside, -⟩ := List.pairwise_cons.1 hall.beside
  -- each write of another one is in its plan
  have hwrites : ∀ w ∈ (before ++ behind).flatMap Row.made,
      ∃ r ∈ (before ++ behind).map Row.role, w ∈ r.plan := by
    intro w hw
    obtain ⟨other, hother, hmade⟩ := List.mem_flatMap.1 hw
    obtain ⟨hsub, -⟩ := hplays other (hperm.mem_iff.2 (List.mem_cons_of_mem row hother))
    exact ⟨other.role, List.mem_map_of_mem hother, hsub hmade⟩
  rw [List.flatMap_append] at hwrites
  constructor
  · exact hall.inside row.role List.mem_cons_self
  · intro w hw
    obtain ⟨r, hr, hplan⟩ := hwrites w (List.mem_append_right _ hw)
    exact hall.inside r (List.mem_cons_of_mem _ hr) w hplan
  · intro v hv w hw
    obtain ⟨r, hr, hplan⟩ := hwrites w (List.mem_append_right _ hw)
    exact (hbeside r hr).apart v hv w hplan
  · apply Role.look_putAll (hall.look row.role List.mem_cons_self)
    intro w hw
    obtain ⟨r, hr, hplan⟩ := hwrites w hw
    exact (hbeside r hr).keeps w hplan

/-- Its own writes can be moved behind all the others, because they share no byte with those. -/
theorem Amid.heap_eq (h : Amid base before behind row) {made : List Write}
    (hsub : made ⊆ row.role.plan) :
    base.putAll (before.flatMap Row.made ++ (made ++ behind.flatMap Row.made))
      = (base.putAll (before.flatMap Row.made ++ behind.flatMap Row.made)).putAll made := by
  simp only [putAll_append]
  apply putAll_comm
  · intro w hw
    rw [size_putAll]
    exact h.inside w (hsub hw)
  · intro w hw
    rw [size_putAll]
    exact h.behind_inside w hw
  · intro v hv w hw
    exact h.apart v (hsub hv) w hw

/-- The thread behind so many others takes a step. -/
theorem step_append (heap : Region) (ts us : List (Thread α)) (t : Thread α) :
    (Crew.mk heap (ts ++ t :: us)).step ts.length
      = ⟨(t.step heap).2, ts ++ (t.step heap).1 :: us⟩ := by
  simp [step]

/-- **One step of any thread.** It finds what it looks at, because no write of the others has
changed that. What it writes is in its plan, and it can be moved behind the writes of all others,
since they share no byte; so the heap is again what all threads together have written. -/
theorem Playing.step (hroles : Role.Compatible base roles) (h : c.Playing base roles)
    (number : Nat) : (c.step number).Playing base roles := by
  obtain ⟨rows, rfl, rfl, hplays⟩ := h
  by_cases hnumber : number < rows.length
  · obtain ⟨before, behind, hrows, rfl, -⟩ : ∃ before behind,
        rows = before ++ rows[number] :: behind ∧ before.length = number ∧
        rows.set number rows[number] = before ++ rows[number] :: behind :=
      List.exists_of_set hnumber
    generalize rows[before.length] = row at hrows
    subst hrows
    have hamid := amid_of_compatible hroles hplays
    have hrow : row ∈ before ++ row :: behind := List.mem_append_right _ List.mem_cons_self
    obtain ⟨all, hstep, hrest⟩ := (hplays row hrow).step hamid.look
    -- the heap of a crew with this thread, whatever it has written
    have hheap : ∀ {r : Row α}, r.made ⊆ row.role.plan →
        base.putAll ((before ++ r :: behind).flatMap Row.made)
          = (base.putAll (before.flatMap Row.made ++ behind.flatMap Row.made)).putAll r.made := by
      intro r hsub
      rw [List.flatMap_append, List.flatMap_cons, hamid.heap_eq hsub]
    let next : Row α := ⟨row.role, all, (row.thread.step
      ((base.putAll (before.flatMap Row.made ++ behind.flatMap Row.made)).putAll row.made)).1⟩
    have hlength : (before.map Row.thread).length = before.length := List.length_map _
    refine ⟨before ++ next :: behind, ?_, ?_, ?_⟩
    · simp only [List.map_append, List.map_cons, next]
    · rw [hheap (hplays row hrow).1, hheap (r := next) hrest.1, ← hstep, List.map_append,
        List.map_cons, ← hlength, step_append, List.map_append, List.map_cons]
    · intro r hr
      rcases List.mem_append.1 hr with hmem | hmem
      · exact hplays r (List.mem_append_left _ hmem)
      · rcases List.mem_cons.1 hmem with rfl | hmem
        · exact hrest
        · exact hplays r (List.mem_append_right _ (List.mem_cons_of_mem row hmem))
  · have hnone : (rows.map Row.thread)[number]? = none := by
      rw [List.getElem?_eq_none_iff, List.length_map]
      exact Nat.not_lt.1 hnumber
    rw [Crew.step, hnone]
    exact ⟨rows, rfl, rfl, hplays⟩

theorem Playing.run (hroles : Role.Compatible base roles) (h : c.Playing base roles)
    (schedule : List Nat) : (c.run schedule).Playing base roles := by
  induction schedule generalizing c with
  | nil => exact h
  | cons number schedule ih => exact ih (h.step hroles number)

/-- The threads go on one after the other. The induction is on the threads that are left, and the
plans of those before them are part of the heap that they find. -/
theorem finish_rows (rows : List (Row α)) : ∀ {base : Region},
    Role.Compatible base (rows.map Row.role) →
    (∀ row ∈ rows, row.role.Plays row.thread row.made) →
      (finish (base.putAll (rows.flatMap Row.made)) (rows.map Row.thread)).outcomes
          = rows.map (fun row => .ok row.role.value) ∧
        (finish (base.putAll (rows.flatMap Row.made)) (rows.map Row.thread)).heap
          = base.putAll (rows.flatMap fun row => row.role.plan) := by
  induction rows with
  | nil =>
    intro base _ _
    exact ⟨rfl, rfl⟩
  | cons row rows ih =>
    intro base hroles hplays
    have hamid : Amid base [] rows row := amid_of_compatible hroles hplays
    have hrow := hplays row List.mem_cons_self
    have hmade := hamid.heap_eq hrow.1
    have hplan := hamid.heap_eq (List.Subset.refl row.role.plan)
    simp only [List.flatMap_nil, List.nil_append] at hmade hplan
    obtain ⟨after, hfinish, hafter⟩ := hrow.finish hamid.look
    -- the others find the plan of this one carried out
    simp only [List.flatMap_nil, List.nil_append] at hfinish hafter
    rw [← hplan, putAll_append] at hafter
    obtain ⟨houtcomes, hheap⟩ := ih
      (Role.Compatible.tail hroles) fun r hr => hplays r (List.mem_cons_of_mem row hr)
    simp only [List.map_cons, List.flatMap_cons, finish, hmade, hfinish, hafter, Option.getD_some,
      houtcomes, hheap, putAll_append]
    exact ⟨trivial, trivial⟩

/-- **Whatever the schedule is**, every thread returns its value, and every plan is carried out.
Behind the schedule the threads may still have steps to take, and they finish one after the other.
The plans share no byte, so they make one heap. -/
theorem finish_run (hroles : Role.Compatible base roles) (h : c.Playing base roles)
    (schedule : List Nat) :
    (finish (c.run schedule).heap (c.run schedule).threads).outcomes
        = roles.map (fun r => .ok r.value) ∧
      (finish (c.run schedule).heap (c.run schedule).threads).heap
        = base.putAll (roles.flatMap Role.plan) := by
  obtain ⟨rows, hrows, hcrew, hplays⟩ := h.run hroles schedule
  rw [hcrew, ← hrows]
  have hdone := finish_rows rows (hrows ▸ hroles) hplays
  rw [List.map_map, List.flatMap_map]
  exact hdone

end Crew

end DurableCalls
