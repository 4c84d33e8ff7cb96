/-
`Admission.lean` -- which blocks an allocator is made with over a heap.

The blocks have to hold something, and all of them together have to fit the heap. The
constructor tells this in words: the number of blocks and their product with the bytes of a
block are checked for the end of the words, and the bytes of a block, which are one more than
its payload, are not. So a payload that is the largest word aborts it (`attach_eq`), and for
all other sizes it admits exactly the blocks that fit.

What fits stays in the heap. Whatever is requested afterwards, and whatever other users write
to the heap, no later operation computes an offset outside of it (`attach_admits`).
-/
import DurableCalls.Proofs.Allocator.AnyTrailers
import DurableCalls.Proofs.Context.Finishes

set_option autoImplicit false

namespace DurableCalls

open Region BlockHeap

/-- A run was not stopped by a number that left the word, nor by an access outside the heap. -/
def Halt.StaysInside : Halt → Prop
  | .aborted _ => False
  | .failed (.outOfBounds _ _ _) => False
  | .failed _ => True

/-- A result, or a failure of another kind. -/
def StaysInside {α : Type} (result : Except Halt α) : Prop :=
  ∀ halt, result = .error halt → halt.StaysInside

namespace Allocator

/-- The blocks hold something and fit a heap of so many bytes, as exact numbers. -/
def Admitted (blockSize maxBorder heapSize : Nat) : Prop :=
  blockSize ≠ 0 ∧ (maxBorder + 1) * (blockSize + 1) ≤ heapSize

/-- The number of blocks is a word, and the bytes of one block, with its trailer, are none. -/
def StrideOverflows (blockSize maxBorder : Nat) : Prop :=
  wordLimit ≤ blockSize + 1 ∧ maxBorder + 1 < wordLimit

instance (blockSize maxBorder heapSize : Nat) : Decidable (Admitted blockSize maxBorder heapSize) :=
  inferInstanceAs (Decidable (_ ∧ _))

instance (blockSize maxBorder : Nat) : Decidable (StrideOverflows blockSize maxBorder) :=
  inferInstanceAs (Decidable (_ ∧ _))

/-- What is said of blocks that are refused. -/
def refusal (blockSize maxBorder heapSize : Nat) : SetupFault :=
  if blockSize = 0 then .emptyBlocks
  else .blocksExceedHeap (saturate (maxBorder + 1)) blockSize heapSize

variable {blockSize maxBorder : Nat} {heap : Region}

/-- Where the bytes of a block leave the word, the blocks fit no heap. -/
theorem StrideOverflows.not_admitted (h : StrideOverflows blockSize maxBorder) :
    ¬Admitted blockSize maxBorder heap.size := by
  intro hadmitted
  have hheap : heap.size < wordLimit := Nat.lt_trans heap.size_lt (by decide)
  have hstride : blockSize + 1 ≤ (maxBorder + 1) * (blockSize + 1) :=
    Nat.le_mul_of_pos_left _ (Nat.succ_pos _)
  have hspan := hadmitted.2
  have hoverflow := h.1
  omega

/-- **The constructor over a heap that it formats.** Only blocks that it admits change the
heap. -/
theorem attach_eq (blockSize maxBorder : Nat) (heap : Region) :
    attach blockSize maxBorder true heap =
      if StrideOverflows blockSize maxBorder then (.error (.aborted .addOverflow), heap)
      else if Admitted blockSize maxBorder heap.size then
        (.ok (unread blockSize maxBorder),
          heap.put ((unread blockSize maxBorder).trailerStart 0) [Trailer.border])
      else (.error (.failed (.setup (refusal blockSize maxBorder heap.size))), heap) := by
  by_cases hzero : blockSize = 0
  · have hword : ¬StrideOverflows blockSize maxBorder := by
      intro hoverflow
      rw [hzero] at hoverflow
      exact absurd hoverflow.1 (by decide)
    have hrefused : ¬Admitted blockSize maxBorder heap.size := fun hadmitted =>
      hadmitted.1 hzero
    rw [if_neg hword, if_neg hrefused, refusal, if_pos hzero]
    simp only [attach, if_pos hzero, Run.bind_apply, Run.fail]
    rfl
  · -- the stride is computed before it is compared
    by_cases hoverflow : StrideOverflows blockSize maxBorder
    · have hfits : fits blockSize maxBorder heap.size = .error (.aborted .addOverflow) := by
        rw [fits_eq]
        exact if_pos hoverflow
      rw [if_pos hoverflow]
      simp only [attach, if_neg hzero, Run.bind_apply, Run.get_apply, Run.liftHalt_apply, hfits]
    · by_cases hspan : (maxBorder + 1) * (blockSize + 1) ≤ heap.size
      · rw [if_neg hoverflow, if_pos ⟨hzero, hspan⟩]
        exact attach_empties (Nat.pos_of_ne_zero hzero) hspan
      · have hfits : fits blockSize maxBorder heap.size = .ok false := by
          rw [fits_eq, decide_eq_false hspan]
          exact if_neg hoverflow
        have hrefused : ¬Admitted blockSize maxBorder heap.size := fun hadmitted =>
          hspan hadmitted.2
        rw [if_neg hoverflow, if_neg hrefused, refusal, if_neg hzero]
        simp only [attach, if_neg hzero, Run.bind_apply, Run.get_apply, Run.liftHalt_apply, hfits,
          Bool.not_false, if_true, Run.fail]
        rfl

/-- **What the constructor admits.** It aborts exactly if the bytes of one block leave the word
while the number of blocks is one. Otherwise it refuses exactly the blocks that hold nothing or
exceed the heap, as exact numbers, and admits all others. After that, whatever was requested
and whatever others have written, an allocation, a release of any offset and a question about
any offset stay in the heap. -/
theorem attach_admits (blockSize maxBorder : Nat) (heap : Region) :
    (attach blockSize maxBorder true heap = (.error (.aborted .addOverflow), heap) ↔
      wordLimit ≤ blockSize + 1 ∧ maxBorder + 1 < wordLimit) ∧
    ((∃ fault, attach blockSize maxBorder true heap = (.error (.failed (.setup fault)), heap)) ↔
      (blockSize = 0 ∨ heap.size < (maxBorder + 1) * (blockSize + 1)) ∧
        ¬(wordLimit ≤ blockSize + 1 ∧ maxBorder + 1 < wordLimit)) ∧
    ((∃ a formatted, attach blockSize maxBorder true heap = (.ok a, formatted)) ↔
      ¬(blockSize = 0 ∨ heap.size < (maxBorder + 1) * (blockSize + 1))) ∧
    ∀ a formatted s, attach blockSize maxBorder true heap = (.ok a, formatted) →
      Shared ⟨a, formatted⟩ s →
      StaysInside (BlockHeap.alloc s).1 ∧
      ∀ offset, StaysInside (BlockHeap.free offset s).1 ∧
        StaysInside (s.allocator.isAllocated s.heap offset) := by
  have hrefused : (blockSize = 0 ∨ heap.size < (maxBorder + 1) * (blockSize + 1)) ↔
      ¬Admitted blockSize maxBorder heap.size := by
    unfold Admitted
    omega
  refine ⟨?aborts, ?refuses, ?accepts, ?later⟩
  case aborts =>
    -- `attach_eq` has one branch for each of the three ends
    show _ ↔ StrideOverflows blockSize maxBorder
    rw [attach_eq]
    split_ifs with hoverflow hadmitted
    · exact iff_of_true rfl hoverflow
    · exact iff_of_false nofun hoverflow
    · exact iff_of_false nofun hoverflow
  case refuses =>
    show _ ↔ _ ∧ ¬StrideOverflows blockSize maxBorder
    rw [attach_eq, hrefused]
    split_ifs with hoverflow hadmitted
    · exact iff_of_false (fun ⟨_, h⟩ => nomatch h) fun h => h.2 hoverflow
    · exact iff_of_false (fun ⟨_, h⟩ => nomatch h) fun h => h.1 hadmitted
    · exact iff_of_true ⟨_, rfl⟩ ⟨hadmitted, hoverflow⟩
  case accepts =>
    rw [attach_eq, hrefused, not_not]
    split_ifs with hoverflow hadmitted
    · exact iff_of_false (fun ⟨_, _, h⟩ => nomatch h) hoverflow.not_admitted
    · exact iff_of_true ⟨_, _, rfl⟩ hadmitted
    · exact iff_of_false (fun ⟨_, _, h⟩ => nomatch h) hadmitted
  case later =>
    intro a formatted s hattach hshared
    -- what was admitted stays bounded, and each of the ends of a later call is inside the heap
    have h := hshared.bounded (bounded_of_attach hattach)
    refine ⟨?_, fun offset => ⟨?_, ?_⟩⟩
    · rcases h.alloc_ends with ⟨n, t, hrun, -⟩ | hrun
      · rw [hrun]
        exact EndsBy.ok _
      · rw [hrun]
        exact EndsBy.error trivial
    · rcases h.free_ends offset with ⟨t, hrun, -⟩ | hrun | ⟨n, value, -, -, hrun⟩
      · rw [hrun]
        exact EndsBy.ok _
      · rw [hrun]
        exact EndsBy.error trivial
      · rw [hrun]
        exact EndsBy.error trivial
    · obtain ⟨told, hanswer⟩ := h.isAllocated_ends offset
      rw [hanswer]
      exact EndsBy.ok told

/-- Three blocks of one byte in eight bytes, one of them with a damaged trailer. -/
theorem damagedBlocks_stayInside :
    attach 1 3 true eightBytes = (.ok threeBlocks.allocator, threeBlocks.heap) ∧
    Shared threeBlocks damagedBlocks ∧
    StaysInside (BlockHeap.alloc damagedBlocks).1 ∧
    ∀ offset, StaysInside (BlockHeap.free offset damagedBlocks).1 ∧
      StaysInside (damagedBlocks.allocator.isAllocated damagedBlocks.heap offset) :=
  ⟨attach_eightBytes, damagedBlocks_shared,
    (attach_admits 1 3 eightBytes).2.2.2 _ _ _ attach_eightBytes damagedBlocks_shared⟩

/-- **A block of the largest payload aborts the constructor**, which should refuse it: one
such block, the reserved one, does not fit eight bytes. -/
theorem largestBlock_aborts :
    ¬Admitted 18446744073709551615 0 eightBytes.size ∧
    attach 18446744073709551615 0 true eightBytes
      = (.error (.aborted .addOverflow), eightBytes) := by
  have hoverflow : StrideOverflows 18446744073709551615 0 := by decide
  exact ⟨hoverflow.not_admitted, (attach_eq _ _ _).trans (if_pos hoverflow)⟩

end Allocator

end DurableCalls
