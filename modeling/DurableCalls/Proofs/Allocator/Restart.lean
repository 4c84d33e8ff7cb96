/-
`Restart.lean` -- an allocator that is made again from its heap goes on like the old one.

An allocator keeps two things outside its heap, the border and the free set. Both come
back from the trailers, in every state of every run (`recovers_live`). The answers that
an allocator gives depend on these two and on the heap, so whoever asks cannot tell a
restart from none.
-/
import DurableCalls.Proofs.Allocator.Refinement

set_option autoImplicit false

namespace DurableCalls

open Allocator

namespace BlockHeap

/-! ## Questions to an allocator -/

inductive Request where
  | alloc
  | free (offset : Nat)
  | isAllocated (offset : Nat)
deriving DecidableEq, Repr

/-- What comes back for a request, failures included. Two allocators that give the same answers to
all requests cannot be told apart by a program. -/
inductive Answer where
  | allocated (result : Except Halt Nat)
  | freed (result : Except Halt Unit)
  | told (result : Except Halt Bool)

/-- Answers a request. The heap and the allocator go on to the next one, also when the
request has failed. -/
def serve (s : BlockHeap) : Request → Answer × BlockHeap
  | .alloc => let (result, s) := alloc s; (.allocated result, s)
  | .free offset => let (result, s) := free offset s; (.freed result, s)
  | .isAllocated offset => (.told (s.allocator.isAllocated s.heap offset), s)

/-- The answers to requests that come one after the other. -/
def answers (s : BlockHeap) : List Request → List Answer
  | [] => []
  | request :: rest =>
    let (answer, s) := s.serve request
    answer :: answers s rest

/-! ## The restart -/

variable {blockSize maxBorder : Nat} {live : Finset Nat} {s : BlockHeap}

/-- What a heap gives back is the allocator that has been working on it. -/
theorem Tracks.attach_eq (h : Tracks blockSize maxBorder live s) :
    attach blockSize maxBorder false s.heap = (.ok s.allocator, s.heap) := by
  rw [← h.blockSize_eq, ← h.maxBorder_eq]
  exact attach_of_recorded h.recorded

/-- **Recovery reproduces the live allocator.** After any run on a formatted heap, an
allocator of the same sizes can be made from the heap alone. It has the border and the free
set of the live one, and both answer all later requests alike. -/
theorem recovers_live {heap formatted : Region} {a : Allocator}
    (hformat : attach blockSize maxBorder true heap = (.ok a, formatted))
    (hreached : Reachable ⟨a, formatted⟩ live s) :
    ∃ recovered, attach blockSize maxBorder false s.heap = (.ok recovered, s.heap) ∧
      recovered.border = s.allocator.border ∧ recovered.free = s.allocator.free ∧
      ∀ requests, answers ⟨recovered, s.heap⟩ requests = answers s requests := by
  have h := hreached.tracks (tracks_of_attach hformat)
  exact ⟨s.allocator, h.attach_eq, rfl, rfl, fun _ => rfl⟩

/-- The blocks 1 and 3 have been freed, and the border has gone down to block 2. -/
theorem usedBlocks_recovers :
    attach 1 3 true eightBytes = (.ok threeBlocks.allocator, threeBlocks.heap) ∧
    Reachable threeBlocks {2} usedBlocks ∧
    ∃ recovered, attach 1 3 false usedBlocks.heap = (.ok recovered, usedBlocks.heap) ∧
      recovered.border = 2 ∧ recovered.free = [1] ∧
      ∀ requests, answers ⟨recovered, usedBlocks.heap⟩ requests = answers usedBlocks requests :=
  ⟨attach_eightBytes, usedBlocks_reachable, recovers_live attach_eightBytes usedBlocks_reachable⟩

end BlockHeap

end DurableCalls
