/-
`Refinement.lean` -- an allocator hands out and takes back the blocks of a set.

The set is told by the run alone: a block is *live* from the allocation that gave its
offset to the freeing of that offset, and no other event counts. Along a run that begins
with a formatted heap, the heap records the allocator, and the live blocks are those in
use (`Reachable.tracks`). So the next operation is that of a set of block numbers with a
bound (`reachable_handsOut`).

Users of the heap write into payloads, and the allocator may be made again from the heap,
at any moment of a run.
-/
import DurableCalls.Proofs.Allocator.Operations
import DurableCalls.Proofs.Allocator.Recovery
import Mathlib.Data.Finset.Card
import Mathlib.Order.Bounds.Defs
import Mathlib.Order.Interval.Finset.Nat

set_option autoImplicit false

namespace DurableCalls

open Region Allocator

namespace BlockHeap

/-! ## Runs -/

/-- The states that a run leads to, with the blocks that it has allocated and not freed
since. An operation that fails is a step as well. -/
inductive Reachable (start : BlockHeap) : (live : Finset Nat) → BlockHeap → Prop
  | start : Reachable start ∅ start
  | allocated {live : Finset Nat} {s t : BlockHeap} {n : Nat} (reached : Reachable start live s)
      (run : alloc s = (.ok (s.allocator.blockStart n), t)) : Reachable start (insert n live) t
  | notAllocated {live : Finset Nat} {s t : BlockHeap} {halt : Halt}
      (reached : Reachable start live s) (run : alloc s = (.error halt, t)) :
      Reachable start live t
  | freed {live : Finset Nat} {s t : BlockHeap} {n : Nat} (reached : Reachable start live s)
      (run : free (s.allocator.blockStart n) s = (.ok (), t)) : Reachable start (live.erase n) t
  | notFreed {live : Finset Nat} {s t : BlockHeap} {halt : Halt} {offset : Nat}
      (reached : Reachable start live s) (run : free offset s = (.error halt, t)) :
      Reachable start live t
  /-- Somebody writes into the payload of a block. -/
  | written {live : Finset Nat} {s : BlockHeap} {n pos : Nat} {data : List UInt8}
      (reached : Reachable start live s) (inside : pos + data.length ≤ s.allocator.blockSize) :
      Reachable start live
        (onHeap (Region.write (s.allocator.blockStart n + pos) data) s).2
  /-- The allocator is made again, from the heap alone. -/
  | reattached {live : Finset Nat} {s : BlockHeap} {a : Allocator} {heap : Region}
      (reached : Reachable start live s)
      (run : attach s.allocator.blockSize s.allocator.maxBorder false s.heap = (.ok a, heap)) :
      Reachable start live ⟨a, heap⟩

/-- **The invariant of a run**: the heap records the allocator, and the live blocks are
those in use. -/
structure Tracks (blockSize maxBorder : Nat) (live : Finset Nat) (s : BlockHeap) : Prop where
  blockSize_eq : s.allocator.blockSize = blockSize
  maxBorder_eq : s.allocator.maxBorder = maxBorder
  recorded : s.allocator.Recorded s.heap
  mem_iff : ∀ n, n ∈ live ↔ s.allocator.InUse n

variable {blockSize maxBorder n : Nat} {live : Finset Nat} {s t : BlockHeap}

theorem Tracks.updated {next : Finset Nat} {inUse : Nat → Prop}
    (h : Tracks blockSize maxBorder live s) (hupdated : Updated s t inUse)
    (hnext : ∀ k, k ∈ next ↔ inUse k) : Tracks blockSize maxBorder next t where
  blockSize_eq := hupdated.blockSize_eq.trans h.blockSize_eq
  maxBorder_eq := hupdated.maxBorder_eq.trans h.maxBorder_eq
  recorded := hupdated.recorded
  mem_iff k := (hnext k).trans (hupdated.inUse_iff k).symm

theorem blockStart_inj {a : Allocator} {n k : Nat} (h : a.blockStart n = a.blockStart k) :
    n = k := by
  rw [← a.blockStart_div n, h, a.blockStart_div]

/-! ## One step -/

theorem Tracks.allocated (h : Tracks blockSize maxBorder live s)
    (hrun : alloc s = (.ok (s.allocator.blockStart n), t)) :
    Tracks blockSize maxBorder (insert n live) t := by
  rcases alloc_cases h.recorded with ⟨-, -, hfull⟩ | ⟨k, u, hok, -, hupdated⟩
  · rw [hfull] at hrun
    cases hrun
  · rw [hok] at hrun
    obtain ⟨hstart, rfl⟩ := Prod.mk.inj hrun
    rw [blockStart_inj (Except.ok.inj hstart)] at hupdated
    refine h.updated hupdated fun k => ?_
    rw [Finset.mem_insert, h.mem_iff]

theorem Tracks.notAllocated {halt : Halt} (h : Tracks blockSize maxBorder live s)
    (hrun : alloc s = (.error halt, t)) : t = s := by
  rcases alloc_cases h.recorded with ⟨-, -, hfull⟩ | ⟨k, u, hok, -, -⟩
  · rw [hfull] at hrun
    exact (Prod.mk.inj hrun).2.symm
  · rw [hok] at hrun
    cases hrun

/-- An offset is that of a block in use, or it is refused. -/
theorem Tracks.free_cases (h : Tracks blockSize maxBorder live s) (offset : Nat) :
    (∃ n t, offset = s.allocator.blockStart n ∧ n ∈ live ∧ free offset s = (.ok (), t) ∧
      Updated s t fun k => k ≠ n ∧ s.allocator.InUse k) ∨
    ((∀ n ∈ live, offset ≠ s.allocator.blockStart n) ∧
      free offset s = (.error (.failed (.invalidBlock offset)), s)) := by
  by_cases hlive : ∃ n ∈ live, offset = s.allocator.blockStart n
  · obtain ⟨n, hn, rfl⟩ := hlive
    obtain ⟨t, hfree, hupdated⟩ := free_of_inUse h.recorded ((h.mem_iff n).1 hn)
    exact .inl ⟨n, t, rfl, hn, hfree, hupdated⟩
  · have hnone : ∀ n ∈ live, offset ≠ s.allocator.blockStart n :=
      fun n hn heq => hlive ⟨n, hn, heq⟩
    exact .inr ⟨hnone, free_of_not_inUse h.recorded fun n hn => hnone n ((h.mem_iff n).2 hn)⟩

theorem Tracks.freed (h : Tracks blockSize maxBorder live s)
    (hrun : free (s.allocator.blockStart n) s = (.ok (), t)) :
    Tracks blockSize maxBorder (live.erase n) t := by
  rcases h.free_cases (s.allocator.blockStart n) with ⟨k, u, hstart, -, hfree, hupdated⟩ |
    ⟨-, hrefused⟩
  · rw [hfree] at hrun
    obtain ⟨-, rfl⟩ := Prod.mk.inj hrun
    rw [← blockStart_inj hstart] at hupdated
    refine h.updated hupdated fun k => ?_
    rw [Finset.mem_erase, h.mem_iff]
  · rw [hrefused] at hrun
    cases hrun

theorem Tracks.notFreed {halt : Halt} {offset : Nat} (h : Tracks blockSize maxBorder live s)
    (hrun : free offset s = (.error halt, t)) : t = s := by
  rcases h.free_cases offset with ⟨k, u, -, -, hfree, -⟩ | ⟨-, hrefused⟩
  · rw [hfree] at hrun
    cases hrun
  · rw [hrefused] at hrun
    exact (Prod.mk.inj hrun).2.symm

theorem Tracks.written {pos : Nat} {data : List UInt8} (h : Tracks blockSize maxBorder live s)
    (hinside : pos + data.length ≤ s.allocator.blockSize) :
    Tracks blockSize maxBorder live
      (onHeap (Region.write (s.allocator.blockStart n + pos) data) s).2 := by
  have hstate : (onHeap (Region.write (s.allocator.blockStart n + pos) data) s).2
      = ⟨s.allocator, (Region.write (s.allocator.blockStart n + pos) data s.heap).2⟩ := rfl
  rw [hstate, write_apply]
  by_cases hin : s.allocator.blockStart n + pos + data.length ≤ s.heap.size
  · rw [if_pos hin]
    exact ⟨h.blockSize_eq, h.maxBorder_eq, h.recorded.put_payload hinside hin, h.mem_iff⟩
  · -- a write that does not fit the heap changes nothing
    rw [if_neg hin]
    exact h

/-! ## The run -/

/-- **The heap records the allocator along every run**, and the live blocks are those in
use. -/
theorem Reachable.tracks {start : BlockHeap} (hstart : Tracks blockSize maxBorder ∅ start)
    (h : Reachable start live s) : Tracks blockSize maxBorder live s := by
  induction h with
  | start => exact hstart
  | allocated reached run ih => exact ih.allocated run
  | notAllocated reached run ih =>
    rw [ih.notAllocated run]
    exact ih
  | freed reached run ih => exact ih.freed run
  | notFreed reached run ih =>
    rw [ih.notFreed run]
    exact ih
  | written reached inside ih => exact ih.written inside
  | reattached reached run ih =>
    -- what is recovered is what was there
    rw [attach_of_recorded ih.recorded] at run
    obtain ⟨ha, rfl⟩ := Prod.mk.inj run
    rw [← Except.ok.inj ha]
    exact ih

/-- On a formatted heap nothing is in use. -/
theorem tracks_formatted {heap : Region} (hpayload : 1 ≤ blockSize)
    (hspan : (maxBorder + 1) * (blockSize + 1) ≤ heap.size) :
    ∃ a formatted, attach blockSize maxBorder true heap = (.ok a, formatted) ∧
      Tracks blockSize maxBorder ∅ ⟨a, formatted⟩ := by
  obtain ⟨formatted, hattach, hrecorded⟩ := attach_fresh hpayload hspan
  refine ⟨_, formatted, hattach, rfl, rfl, hrecorded, fun n => ?_⟩
  refine iff_of_false (Finset.notMem_empty n) fun hn => ?_
  exact Nat.not_lt.2 hn.2.1 hn.1

/-- So the invariant holds of whatever a formatting attachment gives. -/
theorem tracks_of_attach {a : Allocator} {heap formatted : Region}
    (h : attach blockSize maxBorder true heap = (.ok a, formatted)) :
    Tracks blockSize maxBorder ∅ ⟨a, formatted⟩ := by
  obtain ⟨hpayload, hspan⟩ := fits_of_attach h
  obtain ⟨b, image, hattach, htracks⟩ := tracks_formatted hpayload hspan
  rw [h] at hattach
  obtain ⟨ha, rfl⟩ := Prod.mk.inj hattach
  rw [Except.ok.inj ha]
  exact htracks

/-! ## The operations of a set -/

/-- A state whose operations are those of a set of blocks 1 to `maxBorder`. An operation
that fails changes nothing. -/
structure HandsOut (maxBorder : Nat) (live : Finset Nat) (s : BlockHeap) : Prop where
  live_in : ∀ n ∈ live, 1 ≤ n ∧ n ≤ maxBorder
  /-- The border is the largest live block. -/
  border_eq : (live = ∅ ∧ s.allocator.border = 0) ∨
    (s.allocator.border ∈ live ∧ ∀ n ∈ live, n ≤ s.allocator.border)
  /-- An allocation gives a block that is not live, unless all of them are. -/
  alloc_eq : if live.card = maxBorder then alloc s = (.error (.failed .heapExhausted), s)
    else ∃ n t, alloc s = (.ok (s.allocator.blockStart n), t) ∧
      1 ≤ n ∧ n ≤ maxBorder ∧ n ∉ live
  /-- The offsets of live blocks are freed, and no others. -/
  free_eq : ∀ offset, if ∃ n ∈ live, offset = s.allocator.blockStart n
    then ∃ t, free offset s = (.ok (), t)
    else free offset s = (.error (.failed (.invalidBlock offset)), s)
  isAllocated_eq : ∀ n, 1 ≤ n →
    s.allocator.isAllocated s.heap (s.allocator.blockStart n) = .ok (decide (n ∈ live))
  /-- The heap can be attached to again. -/
  attach_eq : attach s.allocator.blockSize s.allocator.maxBorder false s.heap
    = (.ok s.allocator, s.heap)

theorem Tracks.live_in (h : Tracks blockSize maxBorder live s) (hn : n ∈ live) :
    1 ≤ n ∧ n ≤ maxBorder := by
  have huse := (h.mem_iff n).1 hn
  have hle := h.recorded.inUse_le huse
  rw [h.maxBorder_eq] at hle
  exact ⟨huse.1, hle⟩

/-- All blocks are live exactly if there is no freed one and no room to grow. These are the two
places where an allocation looks, so it is refused exactly then. -/
theorem Tracks.card_eq_iff (h : Tracks blockSize maxBorder live s) :
    live.card = maxBorder ↔ s.allocator.free = [] ∧ s.allocator.border = s.allocator.maxBorder := by
  have hsub : live ⊆ Finset.Icc 1 maxBorder := fun n hn => Finset.mem_Icc.2 (h.live_in hn)
  have hcard : (Finset.Icc 1 maxBorder).card = maxBorder := by rw [Nat.card_Icc, Nat.add_sub_cancel]
  have hborder := h.recorded.border_le
  rw [h.maxBorder_eq] at hborder ⊢
  constructor
  · intro hfull
    -- as many blocks as there are numbers are all of them
    have hall : live = Finset.Icc 1 maxBorder :=
      Finset.eq_of_subset_of_card_le hsub (by rw [hcard, hfull])
    have huse : ∀ n, 1 ≤ n → n ≤ maxBorder → s.allocator.InUse n := fun n hpos hle =>
      (h.mem_iff n).1 (hall ▸ Finset.mem_Icc.2 ⟨hpos, hle⟩)
    constructor
    · refine List.eq_nil_iff_forall_not_mem.2 fun n hn => ?_
      have hlt := h.recorded.free_lt n hn
      exact (huse n (h.recorded.free_pos n hn) (by omega)).2.2 hn
    · rcases Nat.eq_zero_or_pos maxBorder with hzero | hpos
      · omega
      · exact Nat.le_antisymm hborder (huse maxBorder hpos (Nat.le_refl _)).2.1
  · rintro ⟨hfree, hfull⟩
    have hall : Finset.Icc 1 maxBorder ⊆ live := by
      intro n hn
      obtain ⟨hpos, hle⟩ := Finset.mem_Icc.1 hn
      refine (h.mem_iff n).2 ⟨hpos, by omega, ?_⟩
      rw [hfree]
      exact List.not_mem_nil
    rw [Finset.Subset.antisymm hsub hall, hcard]

/-- **The answers of the allocator are those of a set**: where the blocks that are handed out are
those in use, each operation asks for nothing but membership and the count. -/
theorem Tracks.handsOut (h : Tracks blockSize maxBorder live s) : HandsOut maxBorder live s := by
  refine ⟨fun n hn => h.live_in hn, ?border, ?alloc, ?free, ?allocated,
    attach_of_recorded h.recorded⟩
  case border =>
    rcases Nat.eq_zero_or_pos s.allocator.border with hzero | hpos
    · refine .inl ⟨Finset.eq_empty_of_forall_notMem fun n hn => ?_, hzero⟩
      have huse := (h.mem_iff n).1 hn
      exact absurd huse.1 (by have hle := huse.2.1; omega)
    · exact .inr ⟨(h.mem_iff _).2 (h.recorded.inUse_border hpos),
        fun n hn => ((h.mem_iff n).1 hn).2.1⟩
  case alloc =>
    rcases alloc_cases h.recorded with ⟨hfree, hfull, hrun⟩ | ⟨n, t, hrun, ⟨hpos, hle, hnew⟩, -⟩
    · rw [if_pos (h.card_eq_iff.2 ⟨hfree, hfull⟩)]
      exact hrun
    · -- it has found a block, so not all of them were live
      have hroom : ¬live.card = maxBorder := by
        intro hcard
        obtain ⟨hfree, hfull⟩ := h.card_eq_iff.1 hcard
        rw [alloc, allocBy_of_full mark hfree hfull] at hrun
        cases hrun
      rw [if_neg hroom]
      rw [h.maxBorder_eq] at hle
      exact ⟨n, t, hrun, hpos, hle, fun hn => hnew ((h.mem_iff n).1 hn)⟩
  case free =>
    intro offset
    rcases h.free_cases offset with ⟨n, t, hstart, hn, hrun, -⟩ | ⟨hnone, hrun⟩
    · rw [if_pos ⟨n, hn, hstart⟩]
      exact ⟨t, hrun⟩
    · rw [if_neg (not_exists.2 fun n hlive => hnone n hlive.1 hlive.2)]
      exact hrun
  case allocated =>
    intro n hpos
    rw [isAllocated_blockStart h.recorded hpos]
    simp only [h.mem_iff]

/-- **An allocator refines a set of live blocks.** It can be made over any heap that its
blocks fit, and whatever was allocated, freed, written and attached since, the next
operation is that of a set. -/
theorem reachable_handsOut {heap : Region} (hpayload : 1 ≤ blockSize)
    (hspan : (maxBorder + 1) * (blockSize + 1) ≤ heap.size) :
    ∃ a formatted, attach blockSize maxBorder true heap = (.ok a, formatted) ∧
      ∀ live s, Reachable ⟨a, formatted⟩ live s →
        s.allocator.blockSize = blockSize ∧ HandsOut maxBorder live s := by
  obtain ⟨a, formatted, hattach, htracks⟩ := tracks_formatted hpayload hspan
  refine ⟨a, formatted, hattach, fun live s hreached => ?_⟩
  have h := hreached.tracks htracks
  exact ⟨h.blockSize_eq, h.handsOut⟩

/-- Zeros for three blocks of one byte, behind the reserved one. -/
def eightBytes : Region where
  path := .ofText "heap"
  cells := Array.replicate 8 0
  size_lt := by rw [Array.size_replicate]; decide

/-- A fresh allocator over them. -/
def threeBlocks : BlockHeap := ⟨unread 1 3, (attach 1 3 true eightBytes).2⟩

theorem attach_eightBytes : attach 1 3 true eightBytes = (.ok threeBlocks.allocator,
    threeBlocks.heap) := by
  rfl

/-- All three blocks are allocated. -/
def fullBlocks : BlockHeap := (alloc (alloc (alloc threeBlocks).2).2).2

/-- The payload of the last one is written. Then the first and the last are freed, and the
border goes down to the second. -/
def usedBlocks : BlockHeap := (free 6 (free 2 (onHeap (Region.write 6 [2]) fullBlocks).2).2).2

theorem usedBlocks_reachable : Reachable threeBlocks {2} usedBlocks := by
  have h₁ := Reachable.start.allocated (n := 1)
    (show alloc threeBlocks = (.ok 2, (alloc threeBlocks).2) from rfl)
  have h₂ := h₁.allocated (n := 2)
    (show alloc (alloc threeBlocks).2 = (.ok 4, (alloc (alloc threeBlocks).2).2) from rfl)
  have h₃ := h₂.allocated (n := 3) (t := fullBlocks) rfl
  have h₄ := h₃.written (n := 3) (show 0 + [2].length ≤ fullBlocks.allocator.blockSize by decide)
  have h₅ := h₄.freed (n := 1) (t := (free 2 (onHeap (Region.write 6 [2]) fullBlocks).2).2) rfl
  have h₆ := h₅.freed (n := 3) (t := usedBlocks) rfl
  exact h₆

theorem usedBlocks_handsOut : 1 ≤ 1 ∧ (3 + 1) * (1 + 1) ≤ eightBytes.size ∧
    Reachable threeBlocks {2} usedBlocks ∧ HandsOut 3 {2} usedBlocks := by
  have hspan : (3 + 1) * (1 + 1) ≤ eightBytes.size := by decide
  obtain ⟨a, formatted, hattach, hrun⟩ := reachable_handsOut (Nat.le_refl 1) hspan
  rw [attach_eightBytes] at hattach
  obtain ⟨ha, rfl⟩ := Prod.mk.inj hattach
  rw [← Except.ok.inj ha] at hrun
  exact ⟨Nat.le_refl 1, hspan, usedBlocks_reachable, (hrun {2} _ usedBlocks_reachable).2⟩

end BlockHeap

end DurableCalls
