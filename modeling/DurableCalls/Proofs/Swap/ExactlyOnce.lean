/-
`ExactlyOnce.lean` -- a durable swap happens at most once, and its last call knows.

The invariant ties what the heap shows to the calls that led to it (`Evidence`). Nothing
is forged: the owner of the register has installed its value, and so has the thread of
every row each value noted there. And nothing is lost: a pending operation that has
installed its value is seen in the register or in its row.

The second half is the harder one. Whoever replaces the value notes it in the row first,
but a later note of the same column could go over it. It cannot, because a thread whose
operation is pending installs nothing else: as long as it owns the register, the register
holds the value of that operation, so every note in its row is that value again.
-/
import DurableCalls.Proofs.Swap.Trace

set_option autoImplicit false

namespace DurableCalls

namespace SwapCall

/-! ## The invariant -/

/-- What the heap shows is evidence of the calls, and of all that matter. Whatever stands in the
register or in a cell was installed by a call, but for the first value; and an operation that is
pending and has installed its value is still seen, in the register or in the row of its thread. -/
structure Evidence (site : Site) (calls : List SwapCall) (current : Register) (cells : Cells) :
    Prop where
  owner : current.owner = Register.noOwner ∨
    current.owner < site.matrix.threads ∧ Installed calls (current.owner, current.value)
  cell : ∀ row col, cells row col ≠ 0 → Installed calls (row, cells row col)
  /-- Cells that cannot be stored stay blank. -/
  blank : site.Aligned ∨ ∀ row col, cells row col = 0
  pending : ∀ thread s, pending calls thread = some s → thread < site.matrix.threads →
    Installed calls (thread, s.new) →
    (current.owner = thread → current.value = s.new) ∧
      (current = s.installed ∨ ∃ col, col < site.matrix.threads ∧ cells thread col = s.new)

/-- What the calls have returned so far fits what they have done: no operation has changed the
register twice, and those that have returned true are those that have changed it. -/
structure Accounted (site : Site) (calls : List SwapCall) : Prop where
  once : calls.Pairwise fun c d => c.operation = d.operation → ¬(c.Changed ∧ d.Changed)
  returned : ∀ c ∈ calls, ∀ outcome, c.outcome = some outcome →
    (outcome = .ok true ↔ Installed calls c.operation)
  /-- An operation is pending as long as all of its calls were cut off. -/
  pending : ∀ thread s, pending calls thread = some s → s.new ≠ 0 ∧
    ∀ c ∈ calls, c.operation = (thread, s.new) → c.outcome = none
  /-- With aligned cells every call that returns has an answer. -/
  answered : site.Aligned → ∀ c ∈ calls, ∀ outcome, c.outcome = some outcome →
    ∃ answer, outcome = .ok answer

section Step

variable {site : Site} {calls : List SwapCall} {c : SwapCall} {current current' : Register}
  {cells cells' : Cells}

theorem noOwner_not_lt (threads : UInt32) : ¬Register.noOwner < threads := by
  have hall := threads.toNat_lt
  have hmax : Register.noOwner.toNat = 4294967295 := rfl
  rw [UInt32.lt_iff_toNat_lt, hmax]
  omega

theorem Evidence.owned (h : Evidence c.swap.site calls current cells) : c.swap.Owned current :=
  h.owner.imp_right And.left

/-- An operation that has installed nothing has left no trace: its value is not in the register, and
it is in no cell of the row of its thread. -/
theorem Evidence.no_trace (h : Evidence c.swap.site calls current cells)
    (hknown : c.swap.thread < c.swap.site.matrix.threads) (hnew : c.swap.new ≠ 0)
    (hnot : ¬Installed calls c.operation) :
    current ≠ c.swap.installed ∧ ¬c.swap.Noticed cells := by
  constructor
  · -- its thread would own the register
    rintro rfl
    rcases h.owner with hnone | ⟨-, howner⟩
    · refine noOwner_not_lt c.swap.site.matrix.threads ?_
      rw [← hnone]
      exact hknown
    · exact hnot howner
  · -- its thread would have installed what is noted
    rintro ⟨col, -, hcell⟩
    have hinstalled := h.cell c.swap.thread col (by rw [hcell]; exact hnew)
    rw [hcell] at hinstalled
    exact hnot hinstalled

/-! ## What a call does -/

/-- A call of an operation that has installed nothing is a swap, whole or cut off. -/
theorem effect_of_performed (hshows : c.swap.site.Shows c.before current cells)
    (h : Evidence c.swap.site calls current cells)
    (hknown : c.swap.thread < c.swap.site.matrix.threads) (hnew : c.swap.new ≠ 0)
    (hnot : ¬Installed calls c.operation) (hperformed : c.Performed) :
    ∃ current' cells', c.swap.site.Shows c.after current' cells' ∧
      c.swap.Effect current cells c.outcome current' cells' := by
  obtain ⟨hregister, hnoticed⟩ := h.no_trace hknown hnew hnot
  unfold Performed at hperformed
  cases hrecovery : c.recovery with
  | false =>
    cases houtcome : c.outcome with
    | none =>
      rw [hrecovery, houtcome] at hperformed
      exact Swap.effect_of_cutOff hshows hknown h.owned hperformed
    | some outcome =>
      rw [hrecovery, houtcome] at hperformed
      exact Swap.effect_of_attempt hshows hknown h.owned hperformed
  | true =>
    cases houtcome : c.outcome with
    | none =>
      rw [hrecovery, houtcome] at hperformed
      exact Swap.effect_of_recoveryCutOff hshows hknown h.owned hperformed
    | some outcome =>
      rw [hrecovery, houtcome] at hperformed
      exact Swap.effect_of_recover hshows hknown h.owned hregister hnoticed hperformed

/-- A recovery of an operation that has installed its value only says so. -/
theorem recovery_of_installed (hshows : c.swap.site.Shows c.before current cells)
    (h : Evidence c.swap.site calls current cells)
    (hknown : c.swap.thread < c.swap.site.matrix.threads) (hnew : c.swap.new ≠ 0)
    (hrecovery : c.recovery = true) (hpending : SwapCall.pending calls c.swap.thread = some c.swap)
    (hinstalled : Installed calls c.operation) (hperformed : c.Performed) :
    c.after = c.before ∧ (c.outcome = none ∨ c.outcome = some (.ok true)) := by
  obtain ⟨-, hseen⟩ := h.pending _ _ hpending hknown hinstalled
  -- a note was stored, so the cells are aligned and the search will find it
  have htrace : current = c.swap.installed ∨ c.swap.site.Aligned ∧ c.swap.Noticed cells := by
    refine hseen.imp_right fun ⟨col, hcol, hcell⟩ => ⟨?_, col, hcol, hcell⟩
    refine h.blank.resolve_right fun hblank => hnew ?_
    rw [← hcell, hblank]
  unfold Performed at hperformed
  cases houtcome : c.outcome with
  | none =>
    rw [hrecovery, houtcome] at hperformed
    exact ⟨Swap.recoveryCutOff_of_trace hshows hknown htrace hperformed, .inl rfl⟩
  | some outcome =>
    rw [hrecovery, houtcome] at hperformed
    have hrecover : c.swap.recover c.before = (outcome, c.after) := hperformed
    rw [Swap.recover_of_trace hshows hknown htrace, Prod.mk.injEq] at hrecover
    exact ⟨hrecover.2.symm, .inr (congrArg some hrecover.1.symm)⟩

/-! ## The evidence stays -/

/-- A call that leaves the register and the cells leaves the evidence. -/
theorem Evidence.of_not_changed (h : Evidence site calls current cells) (hsame : ¬c.Changed)
    (hrepeat : Installed calls c.operation →
      SwapCall.pending calls c.swap.thread = some c.swap) :
    Evidence site (c :: calls) current cells := by
  refine ⟨?_, ?_, h.blank, ?_⟩
  · rw [installed_cons_of_not_changed hsame]
    exact h.owner
  · intro row col hcell
    rw [installed_cons_of_not_changed hsame]
    exact h.cell row col hcell
  · intro thread s hpending hknown hinstalled
    rw [installed_cons_of_not_changed hsame] at hinstalled
    by_cases hthread : c.swap.thread = thread
    · subst hthread
      obtain ⟨-, rfl⟩ := pending_cons_self hpending
      exact h.pending _ _ (hrepeat hinstalled) hknown hinstalled
    · rw [pending_cons_of_ne hthread] at hpending
      exact h.pending thread s hpending hknown hinstalled

/-- A note is of a value that its owner has installed, and it goes over no other evidence
of a pending operation. -/
theorem Evidence.noted {s : Swap} (h : Evidence s.site calls current cells)
    (hnote : s.CanNote current) : Evidence s.site calls current (s.noted current cells) := by
  by_cases hnone : current.owner = Register.noOwner
  · rw [Swap.noted, if_pos hnone]
    exact h
  rw [Swap.noted, if_neg hnone]
  refine ⟨h.owner, ?_, .inl (hnote.resolve_left hnone), ?_⟩
  · intro row col hcell
    by_cases hhere : row = current.owner ∧ col = s.thread
    · rw [Cells.set, if_pos hhere, hhere.1]
      exact (h.owner.resolve_left hnone).2
    · rw [Cells.set, if_neg hhere] at hcell ⊢
      exact h.cell row col hcell
  · intro thread p hpending hknown hinstalled
    obtain ⟨howns, hseen⟩ := h.pending thread p hpending hknown hinstalled
    refine ⟨howns, hseen.imp_right ?_⟩
    rintro ⟨col, hcol, hcell⟩
    refine ⟨col, hcol, ?_⟩
    -- if the note goes over this very cell, the owner is the pending thread, and what it
    -- holds in the register is the value of the pending operation
    by_cases hhere : thread = current.owner ∧ col = s.thread
    · rw [Cells.set, if_pos hhere]
      exact howns hhere.1.symm
    · rw [Cells.set, if_neg hhere]
      exact hcell

/-- Once the value of the register is noted, it can be replaced. The evidence for what was installed
before is in the cells then, and for the new value it is in the register. -/
theorem Evidence.installed (h : Evidence c.swap.site calls current cells)
    (hknown : c.swap.thread < c.swap.site.matrix.threads) (hchanged : c.Changed)
    (hnoted : current.owner ≠ Register.noOwner →
      cells current.owner c.swap.thread = current.value) :
    Evidence c.swap.site (c :: calls) c.swap.installed cells := by
  refine ⟨.inr ⟨hknown, installed_cons.2 (.inl ⟨rfl, hchanged⟩)⟩, ?_, h.blank, ?_⟩
  · intro row col hcell
    exact installed_cons.2 (.inr (h.cell row col hcell))
  · intro thread s hpending hthread hinstalled
    by_cases hself : c.swap.thread = thread
    · subst hself
      obtain ⟨-, rfl⟩ := pending_cons_self hpending
      exact ⟨fun _ => rfl, .inl rfl⟩
    · have hne : c.operation ≠ (thread, s.new) := fun hsame => hself (congrArg Prod.fst hsame)
      rw [pending_cons_of_ne hself] at hpending
      rw [installed_cons_of_ne hne] at hinstalled
      obtain ⟨-, hseen⟩ := h.pending thread s hpending hthread hinstalled
      refine ⟨fun howns => absurd howns hself, .inr ?_⟩
      -- what stood in the register until now has just been noted
      rcases hseen with rfl | hcell
      · have hs := pending_thread hpending
        have howner : s.installed.owner = thread := hs
        have hsome : s.installed.owner ≠ Register.noOwner := by
          rw [howner]
          rintro rfl
          exact noOwner_not_lt _ hthread
        refine ⟨c.swap.thread, hknown, ?_⟩
        rw [← howner]
        exact hnoted hsome
      · exact hcell

/-! ## One step -/

theorem changed_iff (hbefore : c.swap.site.Shows c.before current cells)
    (hafter : c.swap.site.Shows c.after current' cells') : c.Changed ↔ current' ≠ current := by
  have hload : Register.load c.before c.swap.register = .ok current := hbefore.load_register
  have hload' : Register.load c.after c.swap.register = .ok current' := hafter.load_register
  rw [Changed, hload, hload', ne_eq, Except.ok.injEq]

/-- The account of one more call, which is new or comes after calls that were cut off. -/
theorem Accounted.cons (ha : Accounted site calls) (hnew : c.swap.new ≠ 0)
    (hcut : ∀ d ∈ calls, d.operation = c.operation → d.outcome = none)
    (honce : c.Changed → ¬Installed calls c.operation)
    (hreturned : ∀ outcome, c.outcome = some outcome →
      (outcome = .ok true ↔ Installed (c :: calls) c.operation))
    (hanswered : site.Aligned → ∀ outcome, c.outcome = some outcome →
      ∃ answer, outcome = .ok answer) : Accounted site (c :: calls) := by
  refine ⟨List.pairwise_cons.2 ⟨?_, ha.once⟩, ?_, ?_, ?_⟩
  · rintro d hd hop ⟨hc, hchanged⟩
    exact honce hc ⟨d, hd, hop.symm, hchanged⟩
  · intro d hd outcome houtcome
    rcases List.mem_cons.1 hd with rfl | hd
    · exact hreturned outcome houtcome
    · -- calls that have returned are not of this operation
      have hne : c.operation ≠ d.operation := by
        intro hop
        rw [hcut d hd hop.symm] at houtcome
        cases houtcome
      rw [installed_cons_of_ne hne]
      exact ha.returned d hd outcome houtcome
  · intro thread s hpending
    by_cases hself : c.swap.thread = thread
    · subst hself
      obtain ⟨hnone, rfl⟩ := pending_cons_self hpending
      refine ⟨hnew, fun d hd hop => ?_⟩
      rcases List.mem_cons.1 hd with rfl | hd
      · exact hnone
      · exact hcut d hd hop
    · rw [pending_cons_of_ne hself] at hpending
      obtain ⟨hnew', hcut'⟩ := ha.pending thread s hpending
      refine ⟨hnew', fun d hd hop => ?_⟩
      rcases List.mem_cons.1 hd with rfl | hd
      · exact absurd (congrArg Prod.fst hop) hself
      · exact hcut' d hd hop
  · intro hal d hd outcome houtcome
    rcases List.mem_cons.1 hd with rfl | hd
    · exact hanswered hal outcome houtcome
    · exact ha.answered hal d hd outcome houtcome

/-- The invariant holds after the calls, for the heap they lead to. -/
def Sound (site : Site) (calls : List SwapCall) (heap : Region) : Prop :=
  (∃ current cells, site.Shows heap current cells ∧ Evidence site calls current cells) ∧
    Accounted site calls

/-- A recovery of what is installed says so and leaves the rest. -/
theorem sound_of_installed (hshows : c.swap.site.Shows c.before current cells)
    (h : Evidence c.swap.site calls current cells) (ha : Accounted c.swap.site calls)
    (hknown : c.swap.thread < c.swap.site.matrix.threads) (hnew : c.swap.new ≠ 0)
    (hcut : ∀ d ∈ calls, d.operation = c.operation → d.outcome = none)
    (hrecovery : c.recovery = true) (hpending : SwapCall.pending calls c.swap.thread = some c.swap)
    (hinstalled : Installed calls c.operation) (hperformed : c.Performed) :
    Sound c.swap.site (c :: calls) c.after := by
  obtain ⟨hafter, houtcome⟩ :=
    recovery_of_installed hshows h hknown hnew hrecovery hpending hinstalled hperformed
  have hshows' : c.swap.site.Shows c.after current cells := by
    rw [hafter]
    exact hshows
  have hsame : ¬c.Changed := fun hchanged => (changed_iff hshows hshows').1 hchanged rfl
  have htrue : ∀ outcome, c.outcome = some outcome → outcome = .ok true := by
    intro outcome hsome
    rw [hsome] at houtcome
    exact Option.some.inj (houtcome.resolve_left (by simp))
  refine ⟨⟨current, cells, hshows', h.of_not_changed hsame fun _ => hpending⟩,
    ha.cons hnew hcut (fun hchanged => absurd hchanged hsame) ?_ ?_⟩
  · intro outcome hsome
    rw [installed_cons_of_not_changed hsame, htrue outcome hsome]
    exact ⟨fun _ => hinstalled, fun _ => rfl⟩
  · exact fun _ outcome hsome => ⟨true, htrue outcome hsome⟩

/-- A swap, whole or cut off, of what is not installed yet. It may change the register now, for the
first and only time, and whatever it answers is what has happened. -/
theorem sound_of_effect {outcome : Option (Except Halt Bool)}
    (hshows : c.swap.site.Shows c.before current cells)
    (h : Evidence c.swap.site calls current cells) (ha : Accounted c.swap.site calls)
    (hknown : c.swap.thread < c.swap.site.matrix.threads) (hnew : c.swap.new ≠ 0)
    (hcut : ∀ d ∈ calls, d.operation = c.operation → d.outcome = none)
    (hnot : ¬Installed calls c.operation)
    (hshows' : c.swap.site.Shows c.after current' cells') (houtcome : c.outcome = outcome)
    (heffect : c.swap.Effect current cells outcome current' cells') :
    Sound c.swap.site (c :: calls) c.after := by
  have hchanged := changed_iff hshows hshows'
  cases heffect with
  | unchanged returned =>
    -- it returned false, or halted, or was cut off
    have hsame : ¬c.Changed := fun hc => hchanged.1 hc rfl
    refine ⟨⟨current, cells, hshows', h.of_not_changed hsame fun hold => absurd hold hnot⟩,
      ha.cons hnew hcut (fun _ => hnot) ?_ ?_⟩
    · rintro out hsome
      rw [installed_cons_of_not_changed hsame]
      refine ⟨?_, fun hold => absurd hold hnot⟩
      rintro rfl
      rw [← houtcome, hsome] at returned
      simp at returned
    · intro hal out hsome
      rw [← houtcome, hsome] at returned
      rcases returned with hnone | hfalse | ⟨hmis, -⟩
      · cases hnone
      · exact ⟨false, Option.some.inj hfalse⟩
      · exact absurd hal hmis
  | noted note =>
    -- cut off between its two writes, so it returned nothing
    have hsame : ¬c.Changed := fun hc => hchanged.1 hc rfl
    refine ⟨⟨current, _, hshows', (h.noted note).of_not_changed hsame
      fun hold => absurd hold hnot⟩, ha.cons hnew hcut (fun _ => hnot) ?_ ?_⟩
    · intro out hsome
      rw [houtcome] at hsome
      cases hsome
    · intro hal out hsome
      rw [houtcome] at hsome
      cases hsome
  | installed note returned =>
    have hc : c.Changed := hchanged.2 (h.no_trace hknown hnew hnot).1.symm
    have hnoted : current.owner ≠ Register.noOwner →
        c.swap.noted current cells current.owner c.swap.thread = current.value := by
      intro hsome
      rw [Swap.noted, if_neg hsome, Cells.set, if_pos ⟨rfl, rfl⟩]
    have htrue : ∀ out, c.outcome = some out → out = .ok true := by
      intro out hsome
      rw [← houtcome, hsome] at returned
      exact Option.some.inj (returned.resolve_left (by simp))
    refine ⟨⟨_, _, hshows', (h.noted note).installed hknown hc hnoted⟩,
      ha.cons hnew hcut (fun _ => hnot) ?_ ?_⟩
    · intro out hsome
      rw [htrue out hsome]
      exact ⟨fun _ => installed_cons.2 (.inl ⟨rfl, hc⟩), fun _ => rfl⟩
    · exact fun _ out hsome => ⟨true, htrue out hsome⟩

/-- **A call keeps the invariant.** A first call of an operation starts without a trace. A recovery
finds the trace of the call that was cut off, or there was none, and then it is like a first call;
so an operation never changes the register twice. -/
theorem sound_cons (hs : Sound c.swap.site calls c.before)
    (hknown : c.swap.thread < c.swap.site.matrix.threads) (hperformed : c.Performed)
    (hadmissible : Admissible calls c) : Sound c.swap.site (c :: calls) c.after := by
  obtain ⟨⟨current, cells, hshows, h⟩, ha⟩ := hs
  rcases admissible_cases hadmissible with ⟨-, hnew, hfresh⟩ | ⟨hrecovery, hpending⟩
  · have hnot : ¬Installed calls c.operation := fun ⟨d, hd, hop, _⟩ => hfresh d hd hop
    obtain ⟨current', cells', hshows', heffect⟩ :=
      effect_of_performed hshows h hknown hnew hnot hperformed
    exact sound_of_effect hshows h ha hknown hnew (fun d hd hop => absurd hop (hfresh d hd)) hnot
      hshows' rfl heffect
  · obtain ⟨hnew, hcut⟩ := ha.pending _ _ hpending
    by_cases hinstalled : Installed calls c.operation
    · exact sound_of_installed hshows h ha hknown hnew hcut hrecovery hpending hinstalled
        hperformed
    · obtain ⟨current', cells', hshows', heffect⟩ :=
        effect_of_performed hshows h hknown hnew hinstalled hperformed
      exact sound_of_effect hshows h ha hknown hnew hcut hinstalled hshows' rfl heffect

end Step

/-! ## Runs -/

theorem Evidence.nil (site : Site) (value : UInt32) :
    Evidence site [] ⟨Register.noOwner, value⟩ fun _ _ => 0 where
  owner := .inl rfl
  cell _ _ hcell := absurd rfl hcell
  blank := .inr fun _ _ => rfl
  pending _ _ hpending := by cases hpending

theorem Accounted.nil (site : Site) : Accounted site [] where
  once := .nil
  returned _ hc := by cases hc
  pending _ _ hpending := by cases hpending
  answered _ _ hc := by cases hc

theorem Trace.sound {site : Site} {start heap : Region} {calls : List SwapCall}
    (hready : site.Ready start) (h : Trace site start calls heap) : Sound site calls heap := by
  induction h with
  | start =>
    obtain ⟨value, hshows⟩ := hready.shows
    exact ⟨⟨_, _, hshows, .nil site value⟩, .nil site⟩
  | call c run here known before performed admissible ih =>
    subst here before
    exact sound_cons ih known performed admissible

/-- **A durable swap happens exactly once.** In every run at a register that was just
initialized and a blank matrix, no two calls of one operation change the register, and a
call that returns says true if and only if a call of its operation has changed it. With
aligned cells every call that returns has an answer. -/
theorem exactly_once {site : Site} {start heap : Region} {calls : List SwapCall}
    (hready : site.Ready start) (h : Trace site start calls heap) :
    (calls.Pairwise fun c d => c.operation = d.operation → ¬(c.Changed ∧ d.Changed)) ∧
    (∀ c ∈ calls, ∀ outcome, c.outcome = some outcome →
      (outcome = .ok true ↔ ∃ d ∈ calls, d.operation = c.operation ∧ d.Changed)) ∧
    (site.Aligned → ∀ c ∈ calls, ∀ outcome, c.outcome = some outcome →
      ∃ answer, outcome = .ok answer) := by
  obtain ⟨-, ha⟩ := h.sound hready
  exact ⟨ha.once, ha.returned, ha.answered⟩

/-! ## A run -/

/-- Two threads share a register at 0 and a matrix at 64. -/
def twoThreads : Site := ⟨0, ⟨64, 2⟩⟩

theorem twoThreads_ready : twoThreads.Ready startHeap := startHeap_ready (by decide)

/-- A call that returns. -/
def returning (s : Swap) (recovery : Bool) (heap : Region) : SwapCall where
  swap := s
  recovery := recovery
  before := heap
  after := (if recovery then s.recover heap else s.attempt heap).2
  outcome := some (if recovery then s.recover heap else s.attempt heap).1

theorem returning_performed (s : Swap) (recovery : Bool) (heap : Region) :
    (returning s recovery heap).Performed := by
  cases recovery <;> exact (Prod.eta _).symm

theorem returning_before (s : Swap) (recovery : Bool) (heap : Region) :
    (returning s recovery heap).before = heap := rfl

/-- A first call that has done everything but return. -/
def crashing (s : Swap) (heap : Region) : SwapCall where
  swap := s
  recovery := false
  before := heap
  after := (s.attempt heap).2
  outcome := none

theorem crashing_performed (s : Swap) (heap : Region) : (crashing s heap).Performed :=
  Swap.CutOff.finished

/-- Thread 0 installs 7 and crashes before it is told. -/
def crashedCall : SwapCall := crashing ⟨0, ⟨64, 2⟩, 5, 7, 0⟩ startHeap

/-- Thread 1 replaces it by 9. -/
def replacingCall : SwapCall := returning ⟨0, ⟨64, 2⟩, 7, 9, 1⟩ false crashedCall.after

/-- Thread 0 recovers, and finds the note. -/
def recoveringCall : SwapCall := returning ⟨0, ⟨64, 2⟩, 5, 7, 0⟩ true replacingCall.after

theorem recoveringCall_trace :
    Trace twoThreads startHeap [recoveringCall, replacingCall, crashedCall]
      recoveringCall.after := by
  have h₁ : Trace twoThreads startHeap [crashedCall] crashedCall.after :=
    .call crashedCall .start rfl (by decide) rfl (crashing_performed _ _) ⟨rfl, by decide, nofun⟩
  have h₂ : Trace twoThreads startHeap [replacingCall, crashedCall] replacingCall.after := by
    refine .call replacingCall h₁ rfl (by decide) (returning_before _ _ _)
      (returning_performed _ _ _) ⟨rfl, by decide, ?_⟩
    intro d hd
    rw [List.mem_singleton.1 hd]
    decide
  exact .call recoveringCall h₂ rfl (by decide) (returning_before _ _ _)
    (returning_performed _ _ _) ⟨rfl, rfl⟩

/-- The recovery says true if and only if the first call had installed 7. -/
theorem recoveringCall_exactly_once :
    twoThreads.Ready startHeap ∧
    Trace twoThreads startHeap [recoveringCall, replacingCall, crashedCall] recoveringCall.after ∧
    ∀ outcome, recoveringCall.outcome = some outcome →
      (outcome = .ok true ↔ ∃ d ∈ [recoveringCall, replacingCall, crashedCall],
        d.operation = (0, 7) ∧ d.Changed) := by
  obtain ⟨-, hreturned, -⟩ := exactly_once twoThreads_ready recoveringCall_trace
  exact ⟨twoThreads_ready, recoveringCall_trace, hreturned recoveringCall List.mem_cons_self⟩

end SwapCall

end DurableCalls
