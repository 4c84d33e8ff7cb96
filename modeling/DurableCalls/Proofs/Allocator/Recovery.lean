/-
`Recovery.lean` -- a heap gives back the allocator that it records.

The scan goes up from block 0 and collects the freed blocks, newest first. When it
reaches block `n`, what it has collected are the members of the free set below `n`
(`recoverFrom_of_recorded`), and at the border that is the whole set. So a recovery
succeeds on every heap that records an allocator, and the allocator is that one
(`attach_of_recorded`).
-/
import DurableCalls.Proofs.Allocator.Trailers

set_option autoImplicit false

namespace DurableCalls

open Region

/-! ## Members below a bound -/

section Filter

variable {ns : List Nat} {n : Nat}

/-- In ascending order, a member is the last of those below its successor. -/
theorem filter_lt_succ_of_mem (hascending : ns.Pairwise (· < ·)) (hn : n ∈ ns) :
    ns.filter (· < n + 1) = ns.filter (· < n) ++ [n] := by
  induction ns with
  | nil => cases hn
  | cons m rest ih =>
    obtain ⟨hhead, hrest⟩ := List.pairwise_cons.1 hascending
    rcases List.mem_cons.1 hn with rfl | hmem
    · -- all others are above it
      have hnone : ∀ bound, bound ≤ n + 1 → rest.filter (· < bound) = [] := by
        intro bound hbound
        refine List.filter_eq_nil_iff.2 fun k hk => ?_
        have hlt := hhead k hk
        simp only [decide_eq_true_eq]
        omega
      rw [List.filter_cons_of_pos (by simp), List.filter_cons_of_neg (by simp),
        hnone _ (Nat.le_refl _), hnone _ (Nat.le_succ _), List.nil_append]
    · have hlt := hhead n hmem
      have hlt' : m < n + 1 := by omega
      rw [List.filter_cons_of_pos (by simpa using hlt'),
        List.filter_cons_of_pos (by simpa using hlt), ih hrest hmem, List.cons_append]

theorem filter_lt_succ_of_notMem (hn : n ∉ ns) : ns.filter (· < n + 1) = ns.filter (· < n) := by
  refine List.filter_congr fun k hk => ?_
  have hne : k ≠ n := fun heq => hn (heq ▸ hk)
  have hiff : k < n + 1 ↔ k < n := by omega
  simp only [hiff]

end Filter

namespace Allocator

variable {a : Allocator} {heap : Region} {n behind : Nat} {freed : List Nat} {value : UInt8}

/-! ## The scan -/

theorem recoverFrom_of_border (h : a.FitsIn heap) (hn : n ≤ a.maxBorder)
    (hvalue : heap.cells[a.trailerStart n]? = some Trailer.border) :
    a.recoverFrom heap freed n behind = .ok { a with border := n, free := freed.reverse } := by
  have hread := readByte_of_getElem? hvalue
  rw [recoverFrom]
  simp only [h.trailerAt_eq hn, bind, Except.bind, hread, liftM, monadLift, MonadLift.monadLift,
    if_true, pure, Except.pure]

/-- The scan goes on behind a block that is no border. A freed block is collected in front of those
from before, so the list that is kept on the way is in descending order. -/
theorem recoverFrom_of_block (h : a.FitsIn heap) (hn : n ≤ a.maxBorder)
    (hvalue : heap.cells[a.trailerStart n]? = some value)
    (hblock : value = Trailer.allocated ∨ value = Trailer.freed) :
    a.recoverFrom heap freed n (behind + 1)
      = a.recoverFrom heap (if value = Trailer.freed then n :: freed else freed)
          (n + 1) behind := by
  have hread := readByte_of_getElem? hvalue
  have hborder : ¬value = Trailer.border := by
    rcases hblock with rfl | rfl
    · decide
    · decide
  have hknown : ¬(value ≠ Trailer.allocated ∧ value ≠ Trailer.freed) :=
    fun hboth => hblock.elim hboth.1 hboth.2
  rw [recoverFrom]
  simp only [h.trailerAt_eq hn, bind, Except.bind, hread, liftM, monadLift, MonadLift.monadLift,
    if_neg hborder, if_neg hknown, pure, Except.pure]

/-- An allocator of which only the sizes are known. -/
abbrev unread (blockSize maxBorder : Nat) : Allocator := ⟨blockSize, maxBorder, 0, []⟩

theorem Recorded.unread_fits (h : a.Recorded heap) :
    (unread a.blockSize a.maxBorder).FitsIn heap :=
  ⟨h.fits.payload, h.fits.span_le⟩

/-- At the border the scan ends, and all members of the free set are below it. -/
theorem recoverFrom_at_border (h : a.Recorded heap)
    (hfreed : freed.reverse = a.free.filter (· < a.border)) :
    (unread a.blockSize a.maxBorder).recoverFrom heap freed a.border behind = .ok a := by
  have hvalue := h.trailers a.border (Nat.le_refl _)
  rw [trailerOf_border] at hvalue
  have hall : a.free.filter (· < a.border) = a.free := by
    refine List.filter_eq_self.2 fun k hk => ?_
    simpa using h.free_lt k hk
  rw [recoverFrom_of_border h.unread_fits h.border_le hvalue, hfreed, hall]

/-- From any block up to the border the scan ends at the border, with the whole free set.
The induction is on the blocks that are left. -/
theorem recoverFrom_of_recorded (h : a.Recorded heap) : ∀ (behind n : Nat) (freed : List Nat),
    n + behind = a.maxBorder → n ≤ a.border → freed.reverse = a.free.filter (· < n) →
    (unread a.blockSize a.maxBorder).recoverFrom heap freed n behind = .ok a := by
  intro behind
  induction behind with
  | zero =>
    intro n freed hbehind hn hfreed
    have hborder : n = a.border := by
      have hle := h.border_le
      omega
    rw [hborder] at hfreed ⊢
    exact recoverFrom_at_border h hfreed
  | succ behind ih =>
    intro n freed hbehind hn hfreed
    by_cases hborder : n = a.border
    · rw [hborder] at hfreed ⊢
      exact recoverFrom_at_border h hfreed
    · have hmax : n ≤ (unread a.blockSize a.maxBorder).maxBorder := Nat.le.intro hbehind
      have hvalue := h.trailers n hn
      have hnext : n + 1 ≤ a.border := by omega
      -- what is collected on the way is the part of the free set that was passed
      by_cases hmem : n ∈ a.free
      · rw [trailerOf_freed hborder hmem] at hvalue
        rw [recoverFrom_of_block h.unread_fits hmax hvalue (.inr rfl), if_pos rfl]
        refine ih (n + 1) (n :: freed) (by omega) hnext ?_
        rw [List.reverse_cons, hfreed, filter_lt_succ_of_mem h.ascending hmem]
      · rw [trailerOf_allocated hborder hmem] at hvalue
        rw [recoverFrom_of_block h.unread_fits hmax hvalue (.inl rfl), if_neg (by decide)]
        refine ih (n + 1) freed (by omega) hnext ?_
        rw [hfreed, filter_lt_succ_of_notMem hmem]

theorem recover_of_recorded (h : a.Recorded heap) :
    (unread a.blockSize a.maxBorder).recover heap = .ok a := by
  have hnone : a.free.filter (· < 0) = [] := List.filter_eq_nil_iff.2 fun k _ => by simp
  exact recoverFrom_of_recorded h a.maxBorder 0 [] (Nat.zero_add _) (Nat.zero_le _)
    (by rw [hnone, List.reverse_nil])

/-! ## Construction -/

/-- The check of the constructor is that of exact numbers, except that the bytes of a block are
counted in front of it, and that count may leave the word. -/
theorem fits_eq (blockSize maxBorder : Nat) (heap : Region) :
    fits blockSize maxBorder heap.size =
      if wordLimit ≤ blockSize + 1 ∧ maxBorder + 1 < wordLimit then
        .error (.aborted .addOverflow)
      else .ok (decide ((maxBorder + 1) * (blockSize + 1) ≤ heap.size)) := by
  have hheap : heap.size < wordLimit := Nat.lt_trans heap.size_lt (by decide)
  by_cases hblocks : maxBorder + 1 < wordLimit
  · by_cases hstride : blockSize + 1 < wordLimit
    · have hspan : (maxBorder + 1) * (blockSize + 1) ≤ heap.size →
          (maxBorder + 1) * (blockSize + 1) < wordLimit := fun hle => Nat.lt_of_le_of_lt hle hheap
      simp only [fits, if_pos hblocks, addWord, if_pos hstride, bind, Except.bind, pure,
        Except.pure, Nat.not_le.2 hstride, false_and, if_false, ← Bool.decide_and,
        and_iff_right_of_imp hspan]
    · simp only [fits, addWord, if_neg hstride, bind, Except.bind,
        Nat.not_lt.1 hstride, hblocks, and_self, if_true]
  · -- so many blocks do not fit a heap, however small they are
    have hbeyond : ¬(maxBorder + 1) * (blockSize + 1) ≤ heap.size := by
      have hle : maxBorder + 1 ≤ (maxBorder + 1) * (blockSize + 1) :=
        Nat.le_mul_of_pos_right _ (Nat.succ_pos _)
      omega
    simp only [fits, hblocks, and_false, if_false, hbeyond, decide_false, pure,
      Except.pure]

theorem fits_eq_true_iff {blockSize maxBorder : Nat} (heap : Region) :
    fits blockSize maxBorder heap.size = .ok true ↔
      (maxBorder + 1) * (blockSize + 1) ≤ heap.size := by
  have hheap : heap.size < wordLimit := Nat.lt_trans heap.size_lt (by decide)
  rw [fits_eq]
  by_cases hoverflow : wordLimit ≤ blockSize + 1 ∧ maxBorder + 1 < wordLimit
  · have hstride : blockSize + 1 ≤ (maxBorder + 1) * (blockSize + 1) :=
      Nat.le_mul_of_pos_left _ (Nat.succ_pos _)
    rw [if_pos hoverflow]
    exact iff_of_false nofun (by omega)
  · rw [if_neg hoverflow, Except.ok.injEq, decide_eq_true_eq]

theorem attach_of_fits {blockSize maxBorder : Nat} {fresh : Bool} (hpayload : 1 ≤ blockSize)
    (hspan : (maxBorder + 1) * (blockSize + 1) ≤ heap.size) :
    attach blockSize maxBorder fresh heap
      = (if fresh then do
          (unread blockSize maxBorder).mark 0 Trailer.border
          return unread blockSize maxBorder
        else (unread blockSize maxBorder).recover heap : Run Region Allocator) heap := by
  have hne : ¬blockSize = 0 := by omega
  have hfits := (fits_eq_true_iff heap).2 hspan
  simp only [attach, if_neg hne, Run.bind_apply, Run.get_apply, Run.liftHalt_apply, hfits,
    Bool.not_true, Bool.false_eq_true, if_false]

/-- Only blocks that hold something and fit the heap are accepted, whether the heap is formatted or
scanned. The span is counted here without a limit, and nothing else may follow from an acceptance.
-/
theorem fits_of_attach {blockSize maxBorder : Nat} {fresh : Bool} {after : Region}
    (h : attach blockSize maxBorder fresh heap = (.ok a, after)) :
    1 ≤ blockSize ∧ (maxBorder + 1) * (blockSize + 1) ≤ heap.size := by
  by_cases hzero : blockSize = 0
  · simp only [attach, if_pos hzero, Run.bind_apply, Run.fail] at h
    cases h
  · refine ⟨Nat.pos_of_ne_zero hzero, (fits_eq_true_iff heap).1 ?_⟩
    cases hfits : fits blockSize maxBorder heap.size with
    | error halt =>
      simp only [attach, if_neg hzero, Run.bind_apply, Run.get_apply, Run.liftHalt_apply,
        hfits] at h
      cases h
    | ok fitting =>
      cases fitting with
      | true => rfl
      | false =>
        simp only [attach, if_neg hzero, Run.bind_apply, Run.get_apply, Run.liftHalt_apply,
          hfits, Bool.not_false, if_true, Run.fail] at h
        cases h

/-- An empty heap is one with its first trailer. -/
theorem attach_empties {blockSize maxBorder : Nat} (hpayload : 1 ≤ blockSize)
    (hspan : (maxBorder + 1) * (blockSize + 1) ≤ heap.size) :
    attach blockSize maxBorder true heap = (.ok (unread blockSize maxBorder),
      heap.put ((unread blockSize maxBorder).trailerStart 0) [Trailer.border]) := by
  have hfits : (unread blockSize maxBorder).FitsIn heap := ⟨hpayload, hspan⟩
  rw [attach_of_fits hpayload hspan, if_pos rfl,
    Run.bind_of_ok (hfits.mark_apply (Nat.zero_le _))]
  rfl

/-- **A formatted heap** records that nothing is allocated. Formatting marks the reserved block as
the border, and below that border there is nothing to be recorded; so the heap may have held
anything. -/
theorem attach_fresh {blockSize maxBorder : Nat} (hpayload : 1 ≤ blockSize)
    (hspan : (maxBorder + 1) * (blockSize + 1) ≤ heap.size) :
    ∃ formatted,
      attach blockSize maxBorder true heap = (.ok (unread blockSize maxBorder), formatted) ∧
      (unread blockSize maxBorder).Recorded formatted := by
  have hfits : (unread blockSize maxBorder).FitsIn heap := ⟨hpayload, hspan⟩
  refine ⟨_, attach_empties hpayload hspan,
    ⟨hfits.put _ _, Nat.zero_le _, List.Pairwise.nil, nofun, nofun, fun n hn => ?_⟩⟩
  have hzero : n = 0 := Nat.le_zero.1 hn
  rw [hfits.getElem?_put_trailer (Nat.zero_le _) Trailer.border, if_pos hzero, hzero]
  rfl

/-- **A recorded allocator is recovered**, and the heap stays as it is. The recovery goes up to the
first border among the trailers and collects the freed blocks on its way; that these are the border
and the free set of the allocator is what `Recorded` says. -/
theorem attach_of_recorded (h : a.Recorded heap) :
    attach a.blockSize a.maxBorder false heap = (.ok a, heap) := by
  rw [attach_of_fits h.fits.payload h.fits.span_le, if_neg (by decide), Run.liftHalt_apply]
  exact congrArg (·, heap) (recover_of_recorded h)

end Allocator

end DurableCalls
