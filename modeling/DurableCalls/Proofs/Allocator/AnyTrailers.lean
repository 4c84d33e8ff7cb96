/-
`AnyTrailers.lean` -- an allocator whose heap others overwrite, trailers included.

What the trailers say is lost when others write to them. What stays is that all numbers the
allocator keeps are those of blocks that lie in the heap (`Shared.bounded`), and from this
alone each operation ends in one of a few ways (`Bounded.alloc_ends`, `Bounded.free_ends`,
`Bounded.isAllocated_ends`). None of them is an overflow or an access outside the heap.

An operation that fails writes no byte and moves no border. But freeing the block at the
border takes the freed blocks on its way down out of the free set before it knows that the
way ends, and a trailer that is no marker ends it (`Blocked`). Then what it has passed is
gone from the free set (`failing_keeps_iff`).
-/
import DurableCalls.Proofs.Allocator.AnyHeap
import DurableCalls.Proofs.Allocator.Steps

set_option autoImplicit false

namespace DurableCalls

open Region Allocator

/-! ## The way down from the border -/

namespace Allocator

variable {a : Allocator} {heap : Region} {n top : Nat}

/-- On the way down from block `top` the first trailer that does not say that its block is
freed is that of block `n`, and it is no marker of a block. -/
structure Blocked (a : Allocator) (heap : Region) (top n : Nat) (value : UInt8) : Prop where
  pos : 0 < n
  le_top : n ≤ top
  trailer : heap.cells[a.trailerStart n]? = some value
  not_freed : value ≠ Trailer.freed
  not_allocated : value ≠ Trailer.allocated
  passed : ∀ k, n < k → k ≤ top → heap.cells[a.trailerStart k]? = some Trailer.freed

/-- Passing one more block above. -/
theorem Blocked.above {value : UInt8} (h : a.Blocked heap top n value)
    (hfreed : heap.cells[a.trailerStart (top + 1)]? = some Trailer.freed) :
    a.Blocked heap (top + 1) n value where
  pos := h.pos
  le_top := Nat.le_succ_of_le h.le_top
  trailer := h.trailer
  not_freed := h.not_freed
  not_allocated := h.not_allocated
  passed := by
    intro k hlt hle
    rcases Nat.le_succ_iff.1 hle with hbelow | rfl
    · exact h.passed k hlt hbelow
    · exact hfreed

/-- **Where the way down ends**, whatever the trailers say. The induction is on the block where
it begins. -/
theorem descend_ends (h : a.FitsIn heap) (top : Nat) (htop : top ≤ a.maxBorder) :
    (∃ n, n ≤ top ∧ a.descend heap top = (.ok (), n)) ∨
    ∃ n value, a.Blocked heap top n value ∧
      a.descend heap top = (.error (.failed (.corruptedMarker (a.trailerStart n) value)), n) := by
  induction top with
  | zero => exact .inl ⟨0, Nat.le_refl 0, rfl⟩
  | succ top ih =>
    obtain ⟨value, hvalue⟩ := h.exists_trailer htop
    have htrailer := h.trailer_eq htop hvalue
    by_cases hfreed : value = Trailer.freed
    · -- the block is passed, and the way goes on below it
      have hnext : a.descend heap (top + 1) = a.descend heap top := by
        simp only [descend, htrailer, if_pos hfreed]
      rw [hfreed] at hvalue
      rw [hnext]
      rcases ih (Nat.le_of_succ_le htop) with ⟨n, hle, hend⟩ | ⟨n, value, hblocked, hend⟩
      · exact .inl ⟨n, Nat.le_succ_of_le hle, hend⟩
      · exact .inr ⟨n, value, hblocked.above hvalue, hend⟩
    · by_cases hallocated : value = Trailer.allocated
      · refine .inl ⟨top + 1, Nat.le_refl _, ?_⟩
        simp only [descend, htrailer, if_neg hfreed, if_pos hallocated]
      · refine .inr ⟨top + 1, value, ⟨Nat.succ_pos _, Nat.le_refl _, hvalue, hfreed, hallocated,
          fun k hlt hle => absurd hle (Nat.not_le.2 hlt)⟩, ?_⟩
        simp only [descend, htrailer, if_neg hfreed, if_neg hallocated, h.trailerAt_eq htop]
        rfl

end Allocator

namespace BlockHeap

variable {blockSize maxBorder n : Nat} {a : Allocator} {s start : BlockHeap}
  {heap formatted : Region} {value : UInt8}

/-! ## Heaps that others write to -/

/-- The states of an allocator with other users of its heap: it answers requests, also those
that it refuses, and between them any bytes are overwritten. -/
inductive Shared (start : BlockHeap) : BlockHeap → Prop
  | start : Shared start start
  | served {s : BlockHeap} (shared : Shared start s) (request : Request) :
      Shared start (s.serve request).2
  | overwritten {s : BlockHeap} (shared : Shared start s) (offset : Nat) (data : List UInt8) :
      Shared start (onHeap (Region.write offset data) s).2

/-- An allocator that was made over a heap is bounded, a formatted one and a recovered one. -/
theorem bounded_of_attach {fresh : Bool}
    (h : attach blockSize maxBorder fresh heap = (.ok a, formatted)) :
    Bounded blockSize maxBorder ⟨a, formatted⟩ := by
  obtain ⟨hpayload, hspan⟩ := fits_of_attach h
  cases fresh with
  | true =>
    have hfits : (unread blockSize maxBorder).FitsIn heap := ⟨hpayload, hspan⟩
    rw [attach_empties hpayload hspan] at h
    obtain ⟨ha, rfl⟩ := Prod.mk.inj h
    obtain rfl := Except.ok.inj ha
    exact ⟨rfl, rfl, hfits.put _ _, Nat.zero_le _, nofun⟩
  | false =>
    obtain ⟨rfl, hblockSize, hmaxBorder, hscanned⟩ := attach_scanned h
    have hborder := hscanned.border_le
    rw [hmaxBorder] at hborder
    exact ⟨hblockSize, hmaxBorder, hscanned.fits, hborder,
      fun n hn => Nat.le_trans (Nat.le_of_lt (hscanned.free_lt n hn)) hborder⟩

/-- A heap keeps its size. -/
theorem size_of_attach {fresh : Bool}
    (h : attach blockSize maxBorder fresh heap = (.ok a, formatted)) :
    formatted.size = heap.size := by
  obtain ⟨hpayload, hspan⟩ := fits_of_attach h
  cases fresh with
  | true =>
    rw [attach_empties hpayload hspan] at h
    obtain ⟨-, rfl⟩ := Prod.mk.inj h
    exact size_put _ _ _
  | false => rw [(attach_scanned h).1]

namespace Bounded

/-- The border of the allocator's own. -/
theorem border_le_max (h : Bounded blockSize maxBorder s) :
    s.allocator.border ≤ s.allocator.maxBorder := by
  rw [h.maxBorder_eq]
  exact h.border_le

/-- Sizes do not change, and what changes is still a number of a block. -/
theorem updated {t : BlockHeap} (h : Bounded blockSize maxBorder s)
    (hblock : t.allocator.blockSize = s.allocator.blockSize)
    (hmax : t.allocator.maxBorder = s.allocator.maxBorder) (hsize : t.heap.size = s.heap.size)
    (hborder : t.allocator.border ≤ maxBorder) (hfree : ∀ k ∈ t.allocator.free, k ≤ maxBorder) :
    Bounded blockSize maxBorder t := by
  refine ⟨hblock.trans h.blockSize_eq, hmax.trans h.maxBorder_eq, ⟨?_, ?_⟩, hborder, hfree⟩
  · rw [hblock]
    exact h.fits.payload
  · rw [hblock, hmax, hsize]
    exact h.fits.span_le

/-! ## How the operations end -/

/-- **How an allocation ends** over any trailers: with a block, or with the refusal that there is
none, and then nothing is changed. It reads no trailer, and the ones that it writes lie inside the
heap, so there is no other refusal. -/
theorem alloc_ends (h : Bounded blockSize maxBorder s) :
    (∃ n t, alloc s = (.ok (s.allocator.blockStart n), t) ∧ Bounded blockSize maxBorder t) ∨
    alloc s = (.error (.failed .heapExhausted), s) := by
  cases hfree : s.allocator.free with
  | nil =>
    by_cases hfull : s.allocator.border = s.allocator.maxBorder
    · exact .inr (allocBy_of_full mark hfree hfull)
    · have hroom := Nat.lt_of_le_of_ne h.border_le_max hfull
      have hgrown : s.allocator.border + 1 ≤ maxBorder := by
        rw [← h.maxBorder_eq]
        exact hroom
      have hsize : s.grown.heap.size = s.heap.size := (size_put _ _ _).trans (size_put _ _ _)
      exact .inl ⟨_, _, alloc_of_room h.fits hfree hroom,
        h.updated rfl rfl hsize hgrown h.free_le⟩
  | cons n rest =>
    have hmem : ∀ k ∈ n :: rest, k ≤ maxBorder := by
      rw [← hfree]
      exact h.free_le
    have hn : n ≤ s.allocator.maxBorder := by
      rw [h.maxBorder_eq]
      exact hmem n List.mem_cons_self
    exact .inl ⟨n, _, alloc_of_freed h.fits hn hfree, h.updated rfl rfl (size_put _ _ _)
      h.border_le fun k hk => hmem k (List.mem_cons_of_mem n hk)⟩

theorem shrunk (h : Bounded blockSize maxBorder s) (hn : n ≤ maxBorder) :
    Bounded blockSize maxBorder (s.shrunk n) := by
  refine h.updated rfl rfl (size_put _ _ _) hn fun k hk => ?_
  exact h.free_le k (List.mem_filter.1 hk).1

theorem released (h : Bounded blockSize maxBorder s) (hn : n ≤ maxBorder) :
    Bounded blockSize maxBorder (s.released n) := by
  refine h.updated rfl rfl (size_put _ _ _) h.border_le fun k hk => ?_
  rcases mem_insertAscending.1 hk with rfl | hmem
  · exact hn
  · exact h.free_le k hmem

end Bounded

/-- Freeing the block at the border, where its way down is blocked: what was passed is out of
the free set, and nothing is written. -/
def abandoned (s : BlockHeap) (n : Nat) : BlockHeap where
  allocator := { s.allocator with free := leftFree s.allocator n }
  heap := s.heap

theorem free_of_blocked (h : s.allocator.FitsIn s.heap)
    (hn : s.allocator.InUse s.allocator.border) {halt : Halt}
    (hdescend : s.allocator.descend s.heap (s.allocator.border - 1) = (.error halt, n)) :
    free (s.allocator.blockStart s.allocator.border) s = (.error halt, s.abandoned n) := by
  have hlower : lowerTo (s.allocator.border - 1) s = (.error halt, s.abandoned n) := by
    rw [lowerTo, Run.bind_of_ok (Run.get_apply s)]
    simp only [hdescend]
    rw [Run.bind_of_ok (note_apply _ s), Run.bind_of_error (Run.liftHalt_apply _ _)]
    rfl
  rw [free, freeBy, Run.bind_of_ok (Run.get_apply s), resolve_of_inUse h hn,
    Run.bind_of_ok (Run.liftHalt_apply _ s), if_neg (Nat.lt_irrefl _), Run.bind_of_error hlower]

/-- Nothing was passed that the free set has as a member. -/
theorem abandoned_eq_self_iff (hpos : 0 < s.allocator.border) :
    s.abandoned n = s ↔ ∀ k ∈ s.allocator.free, ¬(n < k ∧ k < s.allocator.border) := by
  have hleft : s.abandoned n = s ↔ leftFree s.allocator n = s.allocator.free := by
    constructor
    · exact fun h => congrArg (fun t => t.allocator.free) h
    · intro h
      rw [abandoned, h]
  rw [hleft, leftFree, List.filter_eq_self]
  refine forall₂_congr fun k _ => ?_
  rw [decide_eq_true_eq]
  omega

namespace Bounded

/-- **How freeing ends**: the block is freed, or the offset is refused, or it is that of the
border and the way down from there is blocked. -/
theorem free_ends (h : Bounded blockSize maxBorder s) (offset : Nat) :
    (∃ t, free offset s = (.ok (), t) ∧ Bounded blockSize maxBorder t) ∨
    free offset s = (.error (.failed (.invalidBlock offset)), s) ∨
    ∃ n value, 0 < s.allocator.border ∧
      s.allocator.Blocked s.heap (s.allocator.border - 1) n value ∧
      free offset s = (.error (.failed (.corruptedMarker (s.allocator.trailerStart n) value)),
        s.abandoned n) := by
  by_cases hused : ∃ n, s.allocator.InUse n ∧ offset = s.allocator.blockStart n
  · obtain ⟨n, hn, rfl⟩ := hused
    have hmax := Nat.le_trans hn.2.1 h.border_le
    rcases Nat.lt_or_ge n s.allocator.border with hbelow | hge
    · exact .inl ⟨_, free_of_below h.fits h.border_le_max hn hbelow, h.released hmax⟩
    · obtain rfl : n = s.allocator.border := Nat.le_antisymm hn.2.1 hge
      have hpos := hn.1
      have htop : s.allocator.border - 1 ≤ s.allocator.maxBorder :=
        Nat.le_trans (Nat.sub_le _ _) h.border_le_max
      rcases descend_ends h.fits _ htop with ⟨below, hle, hend⟩ | ⟨k, value, hblocked, hend⟩
      · exact .inl ⟨_, free_of_border h.fits h.border_le_max hn hend (by omega),
          h.shrunk (by omega)⟩
      · exact .inr (.inr ⟨k, value, hpos, hblocked, free_of_blocked h.fits hn hend⟩)
  · refine .inr (.inl (freeBy_of_not_inUse mark h.fits fun n hn heq => hused ⟨n, hn, heq⟩))

/-- **A question is always answered.** An offset behind the border is denied without a look at the
heap, and the trailer of any other block lies inside of it. -/
theorem isAllocated_ends (h : Bounded blockSize maxBorder s) (offset : Nat) :
    ∃ told, s.allocator.isAllocated s.heap offset = .ok told := by
  by_cases hbehind : s.allocator.border < offset / (s.allocator.blockSize + 1)
  · refine ⟨false, ?_⟩
    simp only [isAllocated, h.fits.stride_eq, bind, Except.bind, if_pos hbehind]
    rfl
  · have hle := Nat.le_trans (Nat.not_lt.1 hbehind) h.border_le_max
    obtain ⟨value, hvalue⟩ := h.fits.exists_trailer hle
    refine ⟨decide (value ≠ Trailer.freed), ?_⟩
    simp only [isAllocated, h.fits.stride_eq, bind, Except.bind, if_neg hbehind,
      h.fits.trailer_eq hle hvalue]
    rfl

/-! ## All that happens keeps the bounds -/

/-- A failing release keeps the members of the free set that it has not passed. -/
theorem abandoned (h : Bounded blockSize maxBorder s) (n : Nat) :
    Bounded blockSize maxBorder (s.abandoned n) := by
  refine h.updated rfl rfl rfl h.border_le fun k hk => ?_
  exact h.free_le k (List.mem_filter.1 hk).1

theorem served (h : Bounded blockSize maxBorder s) (request : Request) :
    Bounded blockSize maxBorder (s.serve request).2 := by
  cases request with
  | alloc =>
    rcases h.alloc_ends with ⟨n, t, hrun, ht⟩ | hrun
    · simp only [serve, hrun]
      exact ht
    · simp only [serve, hrun]
      exact h
  | free offset =>
    rcases h.free_ends offset with ⟨t, hrun, ht⟩ | hrun | ⟨n, value, -, -, hrun⟩
    · simp only [serve, hrun]
      exact ht
    · simp only [serve, hrun]
      exact h
    · simp only [serve, hrun]
      exact h.abandoned n
  | isAllocated offset => exact h

/-- What others write changes no number that the allocator keeps. -/
theorem overwritten (h : Bounded blockSize maxBorder s) (offset : Nat) (data : List UInt8) :
    Bounded blockSize maxBorder (onHeap (Region.write offset data) s).2 := by
  have hstate : (onHeap (Region.write offset data) s).2
      = ⟨s.allocator, (Region.write offset data s.heap).2⟩ := rfl
  rw [hstate, write_apply]
  split_ifs
  · exact h.updated rfl rfl (size_put _ _ _) h.border_le h.free_le
  · exact h

end Bounded

theorem Shared.bounded (hstart : Bounded blockSize maxBorder start) (h : Shared start s) :
    Bounded blockSize maxBorder s := by
  induction h with
  | start => exact hstart
  | served shared request ih => exact ih.served request
  | overwritten shared offset data ih => exact ih.overwritten offset data

/-! ## What a failing operation changes -/

/-- **What a failing operation leaves.** Whatever others have written to the heap, trailers
included, an allocation that fails has found no block and changed nothing, and a release fails
in one of two ways. Its offset is refused, and it has changed nothing. Or it frees the block at
the border, and its way down is blocked. Then it has written no byte and not moved the border,
but the members of the free set that it has passed are gone from it; so it has changed nothing
exactly if there are none. -/
theorem failing_keeps_iff {fresh : Bool}
    (hattach : attach blockSize maxBorder fresh heap = (.ok a, formatted))
    (hshared : Shared ⟨a, formatted⟩ s) :
    (∀ halt t, alloc s = (.error halt, t) → halt = .failed .heapExhausted ∧ t = s) ∧
    ∀ offset halt t, free offset s = (.error halt, t) →
      (halt = .failed (.invalidBlock offset) ∧ t = s) ∨
      ∃ n value, s.allocator.Blocked s.heap (s.allocator.border - 1) n value ∧
        halt = .failed (.corruptedMarker (s.allocator.trailerStart n) value) ∧
        t = s.abandoned n ∧
        (t = s ↔ ∀ k ∈ s.allocator.free, ¬(n < k ∧ k < s.allocator.border)) := by
  have h := hshared.bounded (bounded_of_attach hattach)
  constructor
  · intro halt t hfail
    rcases h.alloc_ends with ⟨n, u, hrun, -⟩ | hrun
    · rw [hrun] at hfail
      cases hfail
    · rw [hrun] at hfail
      cases hfail
      exact ⟨rfl, rfl⟩
  · intro offset halt t hfail
    rcases h.free_ends offset with ⟨u, hrun, -⟩ | hrun | ⟨n, value, hpos, hblocked, hrun⟩
    · rw [hrun] at hfail
      cases hfail
    · rw [hrun] at hfail
      cases hfail
      exact .inl ⟨rfl, rfl⟩
    · rw [hrun] at hfail
      cases hfail
      exact .inr ⟨n, value, hblocked, rfl, rfl, abandoned_eq_self_iff hpos⟩

/-- Three blocks are allocated and the second one is freed. Then somebody else writes over the
trailer of the first one. -/
def damagedBlocks : BlockHeap := (onHeap (Region.write 3 [9]) (free 4 fullBlocks).2).2

theorem damagedBlocks_shared : Shared threeBlocks damagedBlocks := by
  have hfull : Shared threeBlocks fullBlocks :=
    ((Shared.start.served .alloc).served .alloc).served .alloc
  exact (hfull.served (.free 4)).overwritten 3 [9]

/-- All three blocks are allocated, and the trailer of the second one is damaged. -/
def damagedTop : BlockHeap := (onHeap (Region.write 5 [9]) fullBlocks).2

/-- The way down ends at once, at the trailer `9` of the block below, and a release that fails there
has changed nothing. So a damaged trailer alone is not what makes a failing release lose blocks. -/
theorem damagedTop_keeps :
    attach 1 3 true eightBytes = (.ok threeBlocks.allocator, threeBlocks.heap) ∧
    Shared threeBlocks damagedTop ∧
    free 6 damagedTop = (.error (.failed (.corruptedMarker 5 9)), damagedTop) := by
  have hshared : Shared threeBlocks damagedTop :=
    (((Shared.start.served .alloc).served .alloc).served .alloc).overwritten 5 [9]
  have hfail : free 6 damagedTop
      = (.error (.failed (.corruptedMarker 5 9)), damagedTop.abandoned 2) := rfl
  have hsame : damagedTop.abandoned 2 = damagedTop := by
    rcases (failing_keeps_iff attach_eightBytes hshared).2 6 _ _ hfail with
      ⟨-, hsame⟩ | ⟨n, value, -, -, -, hiff⟩
    · exact hsame
    · exact hiff.2 nofun
  rw [hsame] at hfail
  exact ⟨attach_eightBytes, hshared, hfail⟩

/-- **A release that fails has lost a freed block.** The second block is still marked as freed,
and is in the free set no longer. -/
theorem damagedBlocks_loseBlock :
    Shared threeBlocks damagedBlocks ∧ damagedBlocks.allocator.free = [2] ∧
    free 6 damagedBlocks
      = (.error (.failed (.corruptedMarker 3 9)), damagedBlocks.abandoned 1) ∧
    (damagedBlocks.abandoned 1).allocator.free = [] ∧
    (damagedBlocks.abandoned 1).heap.cells[5]? = some Trailer.freed :=
  ⟨damagedBlocks_shared, rfl, rfl, rfl, rfl⟩

end BlockHeap

end DurableCalls
