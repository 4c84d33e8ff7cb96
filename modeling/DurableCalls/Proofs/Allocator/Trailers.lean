/-
`Trailers.lean` -- what the trailers of a heap say about its blocks.

Block `n` starts `n` strides into the heap, and its trailer is the last byte of its
stride. So distinct blocks have distinct trailers, a write of one trailer leaves all
others (`getElem?_put_trailer`), and a write into a payload leaves every trailer
(`getElem?_put_payload`).

A heap *records* an allocator if the trailers up to the border are those of its blocks.
Behind the border nothing is said: freed blocks and old borders stay there, and they are
met again when the heap grows.
-/
import DurableCalls.Allocator
import DurableCalls.Proofs.Region.Words

set_option autoImplicit false

namespace DurableCalls

open Region

namespace Allocator

/-- `blockAt` without the word. -/
def blockStart (a : Allocator) (n : Nat) : Nat := n * (a.blockSize + 1)

/-- `trailerAt` without the word. -/
def trailerStart (a : Allocator) (n : Nat) : Nat := a.blockStart n + a.blockSize

/-- Blocks hold something, and blocks 0 to `maxBorder` lie in the heap. It is checked when the
allocator is made, and no operation changes a size, so offsets of blocks never leave the word again.
-/
structure FitsIn (a : Allocator) (heap : Region) : Prop where
  payload : 1 ≤ a.blockSize
  span_le : (a.maxBorder + 1) * (a.blockSize + 1) ≤ heap.size

variable {a : Allocator} {heap heap' : Region} {n k : Nat} {value : UInt8}

/-! ## Places -/

theorem blockStart_succ (a : Allocator) (n : Nat) :
    a.blockStart (n + 1) = a.trailerStart n + 1 := by
  unfold trailerStart blockStart
  rw [Nat.succ_mul, Nat.add_assoc]

theorem blockStart_le (a : Allocator) (h : n ≤ k) : a.blockStart n ≤ a.blockStart k :=
  Nat.mul_le_mul_right _ h

/-- Behind a trailer the next block starts. -/
theorem trailerStart_lt_blockStart (a : Allocator) (h : n < k) :
    a.trailerStart n < a.blockStart k := by
  have hnext := a.blockStart_le (show n + 1 ≤ k from h)
  rw [blockStart_succ] at hnext
  exact hnext

theorem blockStart_le_trailerStart (a : Allocator) (n : Nat) :
    a.blockStart n ≤ a.trailerStart n :=
  Nat.le_add_right _ _

theorem trailerStart_ne (a : Allocator) (h : n ≠ k) : a.trailerStart n ≠ a.trailerStart k := by
  have hn := a.blockStart_le_trailerStart n
  have hk := a.blockStart_le_trailerStart k
  rcases Nat.lt_or_gt_of_ne h with hlt | hgt
  · have hapart := a.trailerStart_lt_blockStart hlt
    omega
  · have hapart := a.trailerStart_lt_blockStart hgt
    omega

theorem blockStart_div (a : Allocator) (n : Nat) : a.blockStart n / (a.blockSize + 1) = n :=
  Nat.mul_div_cancel n (Nat.succ_pos _)

theorem blockStart_mod (a : Allocator) (n : Nat) : a.blockStart n % (a.blockSize + 1) = 0 :=
  Nat.mul_mod_left n _

namespace FitsIn

theorem trailer_lt (h : a.FitsIn heap) (hn : n ≤ a.maxBorder) : a.trailerStart n < heap.size := by
  have hspan : a.blockStart (a.maxBorder + 1) ≤ heap.size := h.span_le
  have hlt := a.trailerStart_lt_blockStart (Nat.lt_succ_of_le hn)
  exact Nat.lt_of_lt_of_le hlt hspan

theorem blockStart_lt (h : a.FitsIn heap) (hn : n ≤ a.maxBorder) : a.blockStart n < heap.size :=
  Nat.lt_of_le_of_lt (a.blockStart_le_trailerStart n) (h.trailer_lt hn)

theorem lt_wordLimit {offset : Nat} (h : offset ≤ heap.size) : offset + 1 < wordLimit := by
  have hsize : heap.size < 9223372036854775808 := heap.size_lt
  simp only [wordLimit]
  omega

/-! The sums and products of the offsets are inside the heap, so they are words. -/

theorem stride_eq (h : a.FitsIn heap) : a.stride = .ok (a.blockSize + 1) := by
  have hlt := h.trailer_lt (Nat.zero_le a.maxBorder)
  have hzero : a.trailerStart 0 = a.blockSize := by simp [trailerStart, blockStart]
  rw [hzero] at hlt
  exact addWord_eq_ok.2 ⟨lt_wordLimit (Nat.le_of_lt hlt), rfl⟩

theorem blockAt_eq (h : a.FitsIn heap) (hn : n ≤ a.maxBorder) :
    a.blockAt n = .ok (a.blockStart n) := by
  have hle := Nat.le_trans (a.blockStart_le_trailerStart n) (Nat.le_of_lt (h.trailer_lt hn))
  have hmul : mulWord n (a.blockSize + 1) = .ok (a.blockStart n) :=
    mulWord_eq_ok.2 ⟨Nat.lt_of_succ_lt (lt_wordLimit hle), rfl⟩
  simp only [blockAt, h.stride_eq, bind, Except.bind, hmul]

theorem trailerAt_eq (h : a.FitsIn heap) (hn : n ≤ a.maxBorder) :
    a.trailerAt n = .ok (a.trailerStart n) := by
  have hle := Nat.le_of_lt (h.trailer_lt hn)
  have hadd : addWord (a.blockStart n) a.blockSize = .ok (a.trailerStart n) :=
    addWord_eq_ok.2 ⟨Nat.lt_of_succ_lt (lt_wordLimit hle), rfl⟩
  simp only [trailerAt, h.blockAt_eq hn, bind, Except.bind, hadd]

theorem put (h : a.FitsIn heap) (offset : Nat) (data : List UInt8) :
    a.FitsIn (heap.put offset data) :=
  ⟨h.payload, by rw [size_put]; exact h.span_le⟩

/-! ## Single trailers -/

theorem exists_trailer (h : a.FitsIn heap) (hn : n ≤ a.maxBorder) :
    ∃ value, heap.cells[a.trailerStart n]? = some value :=
  ⟨_, Array.getElem?_eq_getElem (h.trailer_lt hn)⟩

theorem trailer_eq (h : a.FitsIn heap) (hn : n ≤ a.maxBorder)
    (hvalue : heap.cells[a.trailerStart n]? = some value) : a.trailer heap n = .ok value := by
  simp only [trailer, h.trailerAt_eq hn, bind, Except.bind, readByte_of_getElem? hvalue]
  rfl

theorem mark_apply (h : a.FitsIn heap) (hn : n ≤ a.maxBorder) :
    a.mark n value heap = (.ok (), heap.put (a.trailerStart n) [value]) := by
  have hin : a.trailerStart n + [value].length ≤ heap.size := h.trailer_lt hn
  rw [mark, h.trailerAt_eq hn, Run.bind_of_ok (Run.liftHalt_apply _ heap), persist_eq_write,
    write_apply, if_pos hin]

/-- A marked block has its trailer, and every other block keeps its own. -/
theorem getElem?_put_trailer (h : a.FitsIn heap) (hn : n ≤ a.maxBorder) (value : UInt8) (k : Nat) :
    (heap.put (a.trailerStart n) [value]).cells[a.trailerStart k]? =
      if k = n then some value else heap.cells[a.trailerStart k]? := by
  have hin : a.trailerStart n + [value].length ≤ heap.cells.size := h.trailer_lt hn
  show (overwrite heap.cells (a.trailerStart n) [value])[a.trailerStart k]? = _
  rw [getElem?_overwrite _ _ _ hin, List.length_singleton]
  by_cases hk : k = n
  · rw [if_pos hk, hk, if_pos ⟨Nat.le_refl _, Nat.lt_succ_self _⟩, Nat.sub_self,
      List.getElem?_cons_zero]
  · have hne := a.trailerStart_ne hk
    have hout : ¬(a.trailerStart n ≤ a.trailerStart k ∧
        a.trailerStart k < a.trailerStart n + 1) := by
      omega
    rw [if_neg hk, if_neg hout]

end FitsIn

/-- What is written into a payload touches no trailer. -/
theorem getElem?_put_payload {pos : Nat} {data : List UInt8}
    (hinside : pos + data.length ≤ a.blockSize)
    (hin : a.blockStart n + pos + data.length ≤ heap.size) (k : Nat) :
    (heap.put (a.blockStart n + pos) data).cells[a.trailerStart k]?
      = heap.cells[a.trailerStart k]? := by
  show (overwrite heap.cells (a.blockStart n + pos) data)[a.trailerStart k]? = _
  rw [getElem?_overwrite _ _ _ hin]
  refine if_neg ?_
  -- a trailer in front of the block, or behind its payload
  rcases Nat.lt_or_ge k n with hlt | hge
  · have hapart := a.trailerStart_lt_blockStart hlt
    omega
  · have hle := a.blockStart_le hge
    unfold trailerStart
    omega

/-! ## The invariant -/

/-- The trailer that a block up to the border should have. -/
def trailerOf (a : Allocator) (n : Nat) : UInt8 :=
  if n = a.border then Trailer.border
  else if n ∈ a.free then Trailer.freed else Trailer.allocated

/-- **The invariant.** The free set is a set of blocks between the reserved one and the
border, and the heap has the trailers of all blocks up to the border. -/
structure Recorded (a : Allocator) (heap : Region) : Prop where
  fits : a.FitsIn heap
  border_le : a.border ≤ a.maxBorder
  ascending : a.free.Pairwise (· < ·)
  free_pos : ∀ n ∈ a.free, 0 < n
  free_lt : ∀ n ∈ a.free, n < a.border
  trailers : ∀ n, n ≤ a.border → heap.cells[a.trailerStart n]? = some (a.trailerOf n)

theorem trailerOf_border (a : Allocator) : a.trailerOf a.border = Trailer.border :=
  if_pos rfl

theorem trailerOf_freed (hne : n ≠ a.border) (hn : n ∈ a.free) : a.trailerOf n = Trailer.freed := by
  rw [trailerOf, if_neg hne, if_pos hn]

theorem trailerOf_allocated (hne : n ≠ a.border) (hn : n ∉ a.free) :
    a.trailerOf n = Trailer.allocated := by
  rw [trailerOf, if_neg hne, if_neg hn]

namespace Recorded

theorem trailer_eq (h : a.Recorded heap) (hn : n ≤ a.border) :
    a.trailer heap n = .ok (a.trailerOf n) :=
  h.fits.trailer_eq (Nat.le_trans hn h.border_le) (h.trailers n hn)

/-- Only the trailers up to the border matter. -/
theorem of_trailers (h : a.Recorded heap) (hsize : heap'.size = heap.size)
    (hsame : ∀ n, n ≤ a.border →
      heap'.cells[a.trailerStart n]? = heap.cells[a.trailerStart n]?) : a.Recorded heap' := by
  refine ⟨⟨h.fits.payload, ?_⟩, h.border_le, h.ascending, h.free_pos, h.free_lt, ?_⟩
  · rw [hsize]
    exact h.fits.span_le
  · intro n hn
    rw [hsame n hn]
    exact h.trailers n hn

/-- A trailer behind the border may be anything. -/
theorem put_behind (h : a.Recorded heap) (hbehind : a.border < n) (hn : n ≤ a.maxBorder) :
    a.Recorded (heap.put (a.trailerStart n) [value]) := by
  refine h.of_trailers (size_put _ _ _) fun k hk => ?_
  rw [h.fits.getElem?_put_trailer hn value, if_neg (by omega)]

/-- Payloads may be anything. -/
theorem put_payload {pos : Nat} {data : List UInt8} (h : a.Recorded heap)
    (hinside : pos + data.length ≤ a.blockSize)
    (hin : a.blockStart n + pos + data.length ≤ heap.size) :
    a.Recorded (heap.put (a.blockStart n + pos) data) :=
  h.of_trailers (size_put _ _ _) fun k _ => getElem?_put_payload hinside hin k

end Recorded

/-- A heap records an allocator once the last trailer that was missing is written. -/
theorem FitsIn.recorded_put (h : a.FitsIn heap) (hborder : a.border ≤ a.maxBorder)
    (hascending : a.free.Pairwise (· < ·)) (hpos : ∀ k ∈ a.free, 0 < k)
    (hlt : ∀ k ∈ a.free, k < a.border) (hn : n ≤ a.maxBorder) (hvalue : a.trailerOf n = value)
    (hothers : ∀ k, k ≤ a.border → k ≠ n →
      heap.cells[a.trailerStart k]? = some (a.trailerOf k)) :
    a.Recorded (heap.put (a.trailerStart n) [value]) := by
  refine ⟨h.put _ _, hborder, hascending, hpos, hlt, fun k hk => ?_⟩
  rw [h.getElem?_put_trailer hn value]
  by_cases hkn : k = n
  · rw [if_pos hkn, hkn, hvalue]
  · rw [if_neg hkn]
    exact hothers k hk hkn

end Allocator

end DurableCalls
