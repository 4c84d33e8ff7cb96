/-
`Taken.lean` -- the blocks that are not to be had, and what an operation does beside them.

A block is taken if it lies up to the border and is not freed; the reserved block counts as
taken, unless the heap says otherwise. An allocation takes one more block, and freeing gives
one back. Neither writes anything but trailers (`OnlyTrailers`), so what stands in the
payload of a block outlives both.

The taken blocks determine the allocator: the border is the last of them, and the free set is
what is missing below it (`Recorded.eq_of_taken`). So an allocator that has got back all that
it handed out is the one from before.
-/
import DurableCalls.Proofs.Allocator.AnyHeap

set_option autoImplicit false

namespace DurableCalls

open Region

namespace Allocator

variable {a b : Allocator} {heap heap' heap'' : Region} {n k offset : Nat} {value : UInt8}

/-! ## Taken blocks -/

/-- The blocks up to the border that are not freed. -/
def Taken (a : Allocator) (n : Nat) : Prop := n ≤ a.border ∧ n ∉ a.free

instance (a : Allocator) (n : Nat) : Decidable (a.Taken n) :=
  inferInstanceAs (Decidable (n ≤ a.border ∧ n ∉ a.free))

/-- The same as a set. -/
def taken (a : Allocator) : Finset Nat := (Finset.range (a.border + 1)).filter a.Taken

@[simp] theorem mem_taken : n ∈ a.taken ↔ a.Taken n := by
  rw [taken, Finset.mem_filter, Finset.mem_range]
  exact ⟨fun h => h.2, fun h => ⟨Nat.lt_succ_of_le h.1, h⟩⟩

/-- An offset lies in the payload of its block, and not in the trailer. -/
def InPayload (a : Allocator) (offset : Nat) : Prop := offset % (a.blockSize + 1) < a.blockSize

/-- What the allocator calls allocated are the offsets in taken blocks. Any offset of the block will
do, that of its trailer included, and the heap is not asked. -/
theorem Scanned.isAllocated_eq (h : a.Scanned heap) (offset : Nat) :
    a.isAllocated heap offset = .ok (decide (a.Taken (offset / (a.blockSize + 1)))) := by
  rw [isAllocated, h.fits.stride_eq]
  simp only [bind, Except.bind, pure, Except.pure]
  by_cases hbehind : a.border < offset / (a.blockSize + 1)
  · have hnot : ¬a.Taken (offset / (a.blockSize + 1)) := fun ht => by
      have := ht.1
      omega
    rw [if_pos hbehind, decide_eq_false hnot]
  · have hle : offset / (a.blockSize + 1) ≤ a.border := by omega
    rw [if_neg hbehind, h.fits.trailer_eq (Nat.le_trans hle h.border_le) (h.trailers _ hle)]
    simp only
    by_cases hborder : offset / (a.blockSize + 1) = a.border
    · have htaken : a.Taken (offset / (a.blockSize + 1)) :=
        ⟨hle, fun hmem => Nat.ne_of_lt (h.free_lt _ hmem) hborder⟩
      rw [decide_eq_true htaken, hborder, trailerOf_border]
      rfl
    · by_cases hfree : offset / (a.blockSize + 1) ∈ a.free
      · have hnot : ¬a.Taken (offset / (a.blockSize + 1)) := fun ht => ht.2 hfree
        rw [trailerOf_freed hborder hfree, decide_eq_false hnot]
        rfl
      · have htaken : a.Taken (offset / (a.blockSize + 1)) := ⟨hle, hfree⟩
        rw [decide_eq_true htaken, trailerOf_allocated hborder hfree]
        rfl

theorem Recorded.scanned (h : a.Recorded heap) : a.Scanned heap :=
  ⟨h.fits, h.border_le, h.ascending, h.free_lt, h.trailers⟩

theorem Recorded.taken_border (h : a.Recorded heap) : a.Taken a.border :=
  ⟨Nat.le_refl _, h.border_notMem⟩

/-- Beside the reserved block, taken is what is in use. -/
theorem Recorded.taken_iff (h : a.Recorded heap) : a.Taken n ↔ n = 0 ∨ a.InUse n := by
  constructor
  · intro ht
    rcases Nat.eq_zero_or_pos n with hzero | hpos
    · exact .inl hzero
    · exact .inr ⟨hpos, ht⟩
  · rintro (rfl | hn)
    · exact ⟨Nat.zero_le _, fun hmem => Nat.lt_irrefl _ (h.free_pos 0 hmem)⟩
    · exact hn.2

theorem Recorded.mem_free_iff (h : a.Recorded heap) : n ∈ a.free ↔ n < a.border ∧ ¬a.Taken n := by
  constructor
  · intro hmem
    exact ⟨h.free_lt n hmem, fun ht => ht.2 hmem⟩
  · rintro ⟨hlt, hnot⟩
    by_contra hmem
    exact hnot ⟨Nat.le_of_lt hlt, hmem⟩

/-- **The taken blocks determine the allocator.** Its border is the last of them, and its free set
is what they leave below it. So two recorded allocators of the same sizes that have taken the same
blocks are the same, whatever else their heaps hold. -/
theorem Recorded.eq_of_taken (h : a.Recorded heap) (h' : b.Recorded heap')
    (hblock : b.blockSize = a.blockSize) (hmax : b.maxBorder = a.maxBorder)
    (htaken : ∀ n, b.Taken n ↔ a.Taken n) : b = a := by
  have hborder : b.border = a.border :=
    Nat.le_antisymm ((htaken _).1 h'.taken_border).1 ((htaken _).2 h.taken_border).1
  have hmem : ∀ n, n ∈ b.free ↔ n ∈ a.free := by
    intro n
    rw [h'.mem_free_iff, h.mem_free_iff, hborder, htaken]
  have hfree : b.free = a.free :=
    List.Perm.eq_of_pairwise (fun x y _ _ hxy hyx => absurd hxy (Nat.lt_asymm hyx))
      h'.ascending h.ascending
      ((List.perm_ext_iff_of_nodup (h'.ascending.imp Nat.ne_of_lt)
        (h.ascending.imp Nat.ne_of_lt)).2 hmem)
  cases a
  cases b
  cases hblock
  cases hmax
  cases hborder
  cases hfree
  rfl

/-! ## Writes of trailers -/

/-- The heaps differ in trailers at most. That is all the allocator ever writes, so payloads,
registers and matrices stay while blocks are taken and given back. -/
structure OnlyTrailers (a : Allocator) (heap heap' : Region) : Prop where
  path_eq : heap'.path = heap.path
  size_eq : heap'.size = heap.size
  same : ∀ i, (∀ k, k ≤ a.maxBorder → i ≠ a.trailerStart k) → heap'.cells[i]? = heap.cells[i]?

namespace OnlyTrailers

theorem refl : OnlyTrailers a heap heap := ⟨rfl, rfl, fun _ _ => rfl⟩

theorem trans (h : OnlyTrailers a heap heap') (h' : OnlyTrailers a heap' heap'') :
    OnlyTrailers a heap heap'' :=
  ⟨h'.path_eq.trans h.path_eq, h'.size_eq.trans h.size_eq,
    fun i hi => (h'.same i hi).trans (h.same i hi)⟩

theorem of_sizes (h : OnlyTrailers b heap heap') (hblock : b.blockSize = a.blockSize)
    (hmax : b.maxBorder = a.maxBorder) : OnlyTrailers a heap heap' := by
  refine ⟨h.path_eq, h.size_eq, fun i hi => h.same i fun k hk => ?_⟩
  have hne := hi k (hmax ▸ hk)
  rwa [trailerStart, blockStart, hblock]

theorem put (h : a.FitsIn heap) (hn : n ≤ a.maxBorder) (value : UInt8) :
    OnlyTrailers a heap (heap.put (a.trailerStart n) [value]) := by
  refine ⟨rfl, size_put _ _ _, fun i hi => ?_⟩
  have hin : a.trailerStart n + [value].length ≤ heap.cells.size := h.trailer_lt hn
  refine (getElem?_overwrite heap.cells _ _ hin i).trans (if_neg ?_)
  have hne := hi n hn
  rw [List.length_singleton]
  omega

/-- The byte at the start of a block is none of the trailers. -/
theorem first_byte (h : OnlyTrailers a heap heap') (hpayload : 1 ≤ a.blockSize) (n : Nat) :
    heap'.cells[a.blockStart n]? = heap.cells[a.blockStart n]? := by
  refine h.same _ fun k _ heq => ?_
  -- it is the first byte of its block, and a trailer is the last one
  have hmod := congrArg (· % (a.blockSize + 1)) heq
  simp only [blockStart_mod, trailerStart] at hmod
  rw [Nat.add_mod, blockStart_mod, Nat.zero_add, Nat.mod_mod,
    Nat.mod_eq_of_lt (Nat.lt_succ_self _)] at hmod
  omega

/-- Neither is any byte behind the blocks. -/
theorem behind (h : OnlyTrailers a heap heap') {lo hi : Nat}
    (hlo : (a.maxBorder + 1) * (a.blockSize + 1) ≤ lo) : Agree lo hi heap heap' := by
  refine ⟨h.size_eq, fun i hi _ => h.same i fun k hk heq => ?_⟩
  have hblock : a.trailerStart k < a.blockStart (a.maxBorder + 1) :=
    a.trailerStart_lt_blockStart (Nat.lt_succ_of_le hk)
  simp only [blockStart] at hblock
  omega

end OnlyTrailers

end Allocator

/-! ## Operations -/

namespace BlockHeap

open Allocator

variable {s t u : BlockHeap} {n : Nat}

/-- An operation has written trailers, and the taken blocks are these now. The set says which blocks
an operation has taken or given back; which numbers they got is left open. -/
structure Shifted (s t : BlockHeap) (now : Finset Nat) : Prop where
  recorded : t.allocator.Recorded t.heap
  blockSize_eq : t.allocator.blockSize = s.allocator.blockSize
  maxBorder_eq : t.allocator.maxBorder = s.allocator.maxBorder
  taken_eq : t.allocator.taken = now
  trailers : OnlyTrailers s.allocator s.heap t.heap

theorem shifted_of_recorded (h : s.allocator.Recorded s.heap) : Shifted s s s.allocator.taken :=
  ⟨h, rfl, rfl, rfl, .refl⟩

theorem Shifted.trans {now later : Finset Nat} (h : Shifted s t now) (h' : Shifted t u later) :
    Shifted s u later :=
  ⟨h'.recorded, h'.blockSize_eq.trans h.blockSize_eq, h'.maxBorder_eq.trans h.maxBorder_eq,
    h'.taken_eq, h.trailers.trans (h'.trailers.of_sizes h.blockSize_eq h.maxBorder_eq)⟩

/-- A heap without block to spare. -/
theorem taken_of_full (hfree : s.allocator.free = [])
    (hfull : s.allocator.border = s.allocator.maxBorder) :
    s.allocator.taken.card = s.allocator.maxBorder + 1 := by
  have hall : s.allocator.taken = Finset.range (s.allocator.maxBorder + 1) := by
    ext n
    rw [mem_taken, Taken, hfree, hfull, Finset.mem_range]
    simp only [List.not_mem_nil, not_false_eq_true, and_true]
    omega
  rw [hall, Finset.card_range]

theorem taken_subset (h : s.allocator.Scanned s.heap) :
    s.allocator.taken ⊆ Finset.range (s.allocator.maxBorder + 1) := by
  intro n hn
  have hle := (mem_taken.1 hn).1
  have hborder := h.border_le
  rw [Finset.mem_range]
  omega

/-- Beside the blocks in use, the reserved one is taken. -/
theorem Tracks.taken_eq {blockSize maxBorder : Nat} {live : Finset Nat}
    (h : Tracks blockSize maxBorder live s) : s.allocator.taken = insert 0 live := by
  ext n
  rw [mem_taken, h.recorded.taken_iff, Finset.mem_insert, h.mem_iff]

section Named

variable {rest : List Nat}

theorem taken_recycled (hfree : s.allocator.free = n :: rest)
    (hascending : s.allocator.free.Pairwise (· < ·)) (hn : n ≤ s.allocator.border) :
    (s.recycled n rest).allocator.taken = insert n s.allocator.taken := by
  rw [hfree] at hascending
  have hnew := fun hmem => Nat.lt_irrefl n ((List.pairwise_cons.1 hascending).1 n hmem)
  ext k
  rw [Finset.mem_insert, mem_taken, mem_taken, Taken, Taken, hfree, List.mem_cons]
  show k ≤ s.allocator.border ∧ k ∉ rest ↔ _
  by_cases hk : k = n
  · subst hk
    exact ⟨fun _ => .inl rfl, fun _ => ⟨hn, hnew⟩⟩
  · simp only [hk, false_or]

theorem shifted_recycled_zero (h : s.allocator.Scanned s.heap)
    (hfree : s.allocator.free = 0 :: rest) :
    Shifted s (s.recycled 0 rest) (insert 0 s.allocator.taken) :=
  ⟨(alloc_of_zero h hfree).2, rfl, rfl, taken_recycled hfree h.ascending (Nat.zero_le _),
    OnlyTrailers.put h.fits (Nat.zero_le _) _⟩

theorem shifted_recycled (h : s.allocator.Recorded s.heap) (hfree : s.allocator.free = n :: rest) :
    Shifted s (s.recycled n rest) (insert n s.allocator.taken) := by
  obtain ⟨-, -, hlt, hle, -⟩ := h.first_freed hfree
  exact ⟨recorded_recycled h hfree, rfl, rfl, taken_recycled hfree h.ascending (Nat.le_of_lt hlt),
    OnlyTrailers.put h.fits hle _⟩

theorem shifted_grown (h : s.allocator.Recorded s.heap) (hfree : s.allocator.free = [])
    (hroom : s.allocator.border < s.allocator.maxBorder) :
    Shifted s s.grown (insert (s.allocator.border + 1) s.allocator.taken) := by
  have hrecorded := recorded_grown h hfree hroom
  refine ⟨hrecorded, rfl, rfl, ?_, ?_⟩
  · ext k
    rw [Finset.mem_insert, mem_taken, mem_taken, hrecorded.taken_iff, h.taken_iff,
      inUse_grown hfree]
    exact or_left_comm
  · exact (OnlyTrailers.put h.fits hroom _).trans
      (OnlyTrailers.put (h.fits.put _ _) (Nat.le_of_lt hroom) _)

theorem shifted_released (h : s.allocator.Recorded s.heap) (hn : s.allocator.InUse n)
    (hbelow : n < s.allocator.border) :
    Shifted s (s.released n) (s.allocator.taken.erase n) := by
  have hrecorded := recorded_released h hn hbelow
  refine ⟨hrecorded, rfl, rfl, ?_, OnlyTrailers.put h.fits (h.inUse_le hn) _⟩
  ext k
  rw [Finset.mem_erase, mem_taken, mem_taken, hrecorded.taken_iff, h.taken_iff, inUse_released]
  have hpos := hn.1
  constructor
  · rintro (rfl | ⟨hne, hk⟩)
    · exact ⟨by omega, .inl rfl⟩
    · exact ⟨hne, .inr hk⟩
  · rintro ⟨hne, rfl | hk⟩
    · exact .inl rfl
    · exact .inr ⟨hne, hk⟩

theorem shifted_shrunk {below : Nat} (h : s.allocator.Recorded s.heap)
    (hpos : 0 < s.allocator.border) (hbelow : below < s.allocator.border)
    (hfree : below ∉ s.allocator.free)
    (hpassed : ∀ k, below < k → k ≤ s.allocator.border - 1 → k ∈ s.allocator.free) :
    Shifted s (s.shrunk below) (s.allocator.taken.erase s.allocator.border) := by
  have hrecorded := recorded_shrunk h hbelow hfree
  refine ⟨hrecorded, rfl, rfl, ?_,
    OnlyTrailers.put h.fits (Nat.le_trans (Nat.le_of_lt hbelow) h.border_le) _⟩
  ext k
  rw [Finset.mem_erase, mem_taken, mem_taken, hrecorded.taken_iff, h.taken_iff,
    inUse_shrunk h hbelow hfree hpassed]
  constructor
  · rintro (rfl | ⟨hne, hk⟩)
    · exact ⟨by omega, .inl rfl⟩
    · exact ⟨hne, .inr hk⟩
  · rintro ⟨hne, rfl | hk⟩
    · exact .inl rfl
    · exact .inr ⟨hne, hk⟩

end Named

/-- **An allocation takes one more block**, unless all of them are taken: then it is refused, and
nothing is changed. It is left open which block that is, only that it was not taken before. That is
all a count of the taken blocks needs. -/
theorem alloc_takes (h : s.allocator.Scanned s.heap) :
    (s.allocator.taken.card = s.allocator.maxBorder + 1 ∧
      alloc s = (.error (.failed .heapExhausted), s)) ∨
    ∃ n t, alloc s = (.ok (s.allocator.blockStart n), t) ∧ n ≤ s.allocator.maxBorder ∧
      n ∉ s.allocator.taken ∧ Shifted s t (insert n s.allocator.taken) := by
  have hnew : ∀ {k}, k ∈ s.allocator.free → k ∉ s.allocator.taken := fun hmem ht =>
    (mem_taken.1 ht).2 hmem
  by_cases hzero : 0 ∈ s.allocator.free
  · obtain ⟨rest, hfree⟩ := h.free_of_zero hzero
    exact .inr ⟨0, _, (alloc_of_zero h hfree).1, Nat.zero_le _, hnew hzero,
      shifted_recycled_zero h hfree⟩
  · have hrecorded := h.recorded hzero
    cases hfree : s.allocator.free with
    | nil =>
      by_cases hfull : s.allocator.border = s.allocator.maxBorder
      · exact .inl ⟨taken_of_full hfree hfull, allocBy_of_full mark hfree hfull⟩
      · have hroom := Nat.lt_of_le_of_ne h.border_le hfull
        exact .inr ⟨_, _, alloc_of_room h.fits hfree hroom, hroom,
          fun ht => Nat.not_succ_le_self _ (mem_taken.1 ht).1, shifted_grown hrecorded hfree hroom⟩
    | cons n rest =>
      have hmem : n ∈ s.allocator.free := by rw [hfree]; exact List.mem_cons_self
      obtain ⟨-, -, -, hle, -⟩ := hrecorded.first_freed hfree
      exact .inr ⟨n, _, alloc_of_freed h.fits hle hfree, hle, hnew hmem,
        shifted_recycled hrecorded hfree⟩

/-- **Freeing gives a block back.** It is the only one that is not taken any more, and nothing is
written but trailers. The reserved block counts as taken and cannot be given back. -/
theorem free_gives (h : s.allocator.Recorded s.heap) (hn : n ∈ s.allocator.taken) (hpos : 0 < n) :
    ∃ t, free (s.allocator.blockStart n) s = (.ok (), t) ∧
      Shifted s t (s.allocator.taken.erase n) := by
  have hin : s.allocator.InUse n := ⟨hpos, mem_taken.1 hn⟩
  rcases Nat.lt_or_ge n s.allocator.border with hbelow | hge
  · exact ⟨_, free_of_below h.fits h.border_le hin hbelow, shifted_released h hin hbelow⟩
  · have hborder : n = s.allocator.border := Nat.le_antisymm hin.2.1 hge
    subst hborder
    obtain ⟨below, hdescend, hle, hfree, hpassed⟩ :=
      descend_of_recorded h (s.allocator.border - 1) (by omega)
    have hlt : below < s.allocator.border := by omega
    exact ⟨_, free_of_border h.fits h.border_le hin hdescend hlt,
      shifted_shrunk h hpos hlt hfree hpassed⟩

end BlockHeap

end DurableCalls
