/-
`CrashAtomicity.lean` -- a crash in the middle of allocating or freeing.

A crash stops an operation at one of its trailers: those before it are in the heap, and
the rest is not. So a crash is a marker that does not write that trailer and halts
(`Marker.Interrupted`), and the operation does with it what the program does.

Only one operation writes two trailers. Between the two, the new border stands behind the
old one, where nothing reads it, and the heap still records the allocator from before
(`Recorded.put_behind`). Each other operation has one trailer, and that decides.
-/
import DurableCalls.Proofs.Allocator.Refinement

set_option autoImplicit false

namespace DurableCalls

open Region Allocator

namespace BlockHeap

/-! ## Crashes -/

/-- The marker writes trailers durably, as long as no crash stops it. At a crash it changes
nothing. -/
def Marker.Interrupted (m : Marker) : Prop :=
  ∀ n value s, m n value s = mark n value s ∨ ∃ halt, m n value s = (.error halt, s)

/-- The marker of a crash at the first trailer for which this is said. -/
def markUntil (crash : (n : Nat) → (value : UInt8) → Bool) : Marker := fun n value =>
  if crash n value then Run.fail (.task "crash") else mark n value

theorem interrupted_markUntil (crash : (n : Nat) → (value : UInt8) → Bool) :
    Marker.Interrupted (markUntil crash) := by
  intro n value s
  cases hcrash : crash n value with
  | true =>
    refine .inr ⟨.failed (.task "crash"), ?_⟩
    rw [markUntil, hcrash, if_pos rfl]
    rfl
  | false =>
    refine .inl ?_
    rw [markUntil, hcrash, if_neg Bool.false_ne_true]

variable {s : BlockHeap} {m : Marker} {n : Nat}

/-- A step of an operation writes its trailer and goes on, or the crash is there. -/
theorem interrupted_bind {α : Type} (hm : m.Interrupted) (h : s.allocator.FitsIn s.heap)
    (hn : n ≤ s.allocator.maxBorder) (value : UInt8) (next : Run BlockHeap α) :
    (∃ halt, (do m n value; next) s = (.error halt, s)) ∨
    (do m n value; next) s
      = next ⟨s.allocator, s.heap.put (s.allocator.trailerStart n) [value]⟩ := by
  rcases hm n value s with hmark | ⟨halt, hcrash⟩
  · rw [mark_apply h hn value] at hmark
    exact .inr (Run.bind_of_ok hmark)
  · exact .inl ⟨halt, Run.bind_of_error hcrash⟩

/-! ## What an operation leaves -/

/-- The heap records the allocator of one of the two states. -/
def RecordsEither (s t : BlockHeap) (heap : Region) : Prop :=
  s.allocator.Recorded heap ∨ t.allocator.Recorded heap

/-- A block of the free set: one trailer. -/
theorem allocBy_recordsEither_of_freed {rest : List Nat} (hm : m.Interrupted)
    (h : s.allocator.Recorded s.heap) (hfree : s.allocator.free = n :: rest) :
    RecordsEither s (s.recycled n rest) (allocBy m s).2.heap := by
  obtain ⟨-, -, -, hn, -⟩ := h.first_freed hfree
  rw [allocBy_of_freed m hfree]
  rcases interrupted_bind hm (s := ⟨{ s.allocator with free := rest }, s.heap⟩)
    ⟨h.fits.payload, h.fits.span_le⟩ hn Trailer.allocated (s.allocator.blockAt n) with
    ⟨halt, hcrash⟩ | hmark
  · -- only the process that is gone has taken the block from its free set
    rw [hcrash]
    exact .inl h
  · rw [hmark, Run.liftHalt_apply]
    exact .inr (recorded_recycled h hfree)

/-- A block behind the border takes two trailers, first the new border and then the old one. Between
the two the old border still ends every scan, so the heap reads as it did before. -/
theorem allocBy_recordsEither_of_room (hm : m.Interrupted) (h : s.allocator.Recorded s.heap)
    (hfree : s.allocator.free = []) (hroom : s.allocator.border < s.allocator.maxBorder) :
    RecordsEither s s.grown (allocBy m s).2.heap := by
  rw [allocBy_of_room m h.fits hfree hroom]
  rcases interrupted_bind hm h.fits hroom Trailer.border (do
    m s.allocator.border Trailer.allocated
    note fun a => { a with border := s.allocator.border + 1 }
    s.allocator.blockAt (s.allocator.border + 1)) with ⟨halt, hcrash⟩ | hmark
  · rw [hcrash]
    exact .inl h
  · -- the new border is in the heap, behind the old one
    rw [hmark]
    rcases interrupted_bind hm (s := ⟨s.allocator, s.heap.put
      (s.allocator.trailerStart (s.allocator.border + 1)) [Trailer.border]⟩)
      (h.fits.put _ _) h.border_le Trailer.allocated (do
        note fun a => { a with border := s.allocator.border + 1 }
        s.allocator.blockAt (s.allocator.border + 1)) with ⟨halt, hcrash⟩ | hmark'
    · rw [hcrash]
      exact .inl (h.put_behind (Nat.lt_succ_self _) hroom)
    · rw [hmark', Run.bind_of_ok (note_apply _ _), Run.liftHalt_apply]
      exact .inr (recorded_grown h hfree hroom)

/-- An allocation that a crash stops at any of its trailers, or that goes through. -/
theorem allocBy_recordsEither (hm : m.Interrupted) (h : s.allocator.Recorded s.heap) :
    RecordsEither s (alloc s).2 (allocBy m s).2.heap := by
  cases hfree : s.allocator.free with
  | cons n rest =>
    obtain ⟨-, -, -, hle, -⟩ := h.first_freed hfree
    rw [alloc_of_freed h.fits hle hfree]
    exact allocBy_recordsEither_of_freed hm h hfree
  | nil =>
    by_cases hfull : s.allocator.border = s.allocator.maxBorder
    · rw [allocBy_of_full m hfree hfull]
      exact .inl h
    · have hroom := Nat.lt_of_le_of_ne h.border_le hfull
      rw [alloc_of_room h.fits hfree hroom]
      exact allocBy_recordsEither_of_room hm h hfree hroom

/-- A block below the border: one trailer. -/
theorem freeBy_recordsEither_of_below (hm : m.Interrupted) (h : s.allocator.Recorded s.heap)
    (hn : s.allocator.InUse n) (hbelow : n < s.allocator.border) :
    RecordsEither s (s.released n) (freeBy m (s.allocator.blockStart n) s).2.heap := by
  rw [freeBy_of_below m h.fits hn hbelow]
  rcases interrupted_bind hm h.fits (h.inUse_le hn) Trailer.freed
    (note fun a => { a with free := insertAscending n a.free }) with ⟨halt, hcrash⟩ | hmark
  · rw [hcrash]
    exact .inl h
  · rw [hmark]
    exact .inr (recorded_released h hn hbelow)

/-- The block at the border: one trailer, and with it all freed blocks above it go. The members of
the free set that are dropped first are only forgotten by the process, and not in the heap. -/
theorem freeBy_recordsEither_of_border {below : Nat} (hm : m.Interrupted)
    (h : s.allocator.Recorded s.heap) (hn : s.allocator.InUse s.allocator.border)
    (hdescend : s.allocator.descend s.heap (s.allocator.border - 1) = (.ok (), below))
    (hlt : below < s.allocator.border) (hfree : below ∉ s.allocator.free) :
    RecordsEither s (s.shrunk below)
      (freeBy m (s.allocator.blockStart s.allocator.border) s).2.heap := by
  rw [freeBy_of_border m h.fits hn hdescend]
  rcases interrupted_bind hm
    (s := ⟨{ s.allocator with free := leftFree s.allocator below }, s.heap⟩)
    ⟨h.fits.payload, h.fits.span_le⟩ (Nat.le_trans (Nat.le_of_lt hlt) h.border_le) Trailer.border
    (note fun a => { a with border := below }) with ⟨halt, hcrash⟩ | hmark
  · rw [hcrash]
    exact .inl h
  · rw [hmark]
    exact .inr (recorded_shrunk h hlt hfree)

/-- A release of any offset. One that is refused changes nothing, so it leaves the heap
from before. -/
theorem freeBy_recordsEither (hm : m.Interrupted) (h : s.allocator.Recorded s.heap)
    (offset : Nat) : RecordsEither s (free offset s).2 (freeBy m offset s).2.heap := by
  by_cases hused : ∃ n, s.allocator.InUse n ∧ offset = s.allocator.blockStart n
  · obtain ⟨n, hn, rfl⟩ := hused
    rcases Nat.lt_or_ge n s.allocator.border with hbelow | hge
    · rw [free_of_below h.fits h.border_le hn hbelow]
      exact freeBy_recordsEither_of_below hm h hn hbelow
    · have hborder : n = s.allocator.border := Nat.le_antisymm hn.2.1 hge
      have hpos : 0 < s.allocator.border := hborder ▸ hn.1
      rw [hborder] at hn ⊢
      obtain ⟨below, hdescend, hle, hfree, -⟩ :=
        descend_of_recorded h (s.allocator.border - 1) (by omega)
      have hlt : below < s.allocator.border := by omega
      rw [free_of_border h.fits h.border_le hn hdescend hlt]
      exact freeBy_recordsEither_of_border hm h hn hdescend hlt hfree
  · have hnone : ∀ n, s.allocator.InUse n → offset ≠ s.allocator.blockStart n :=
      fun n hn heq => hused ⟨n, hn, heq⟩
    rw [freeBy_of_not_inUse m h.fits hnone]
    exact .inl h

/-! ## The recovery -/

/-- Attaching to the heap succeeds, and gives the allocator of one of the two states. -/
def RecoversEither (blockSize maxBorder : Nat) (s t : BlockHeap) (heap : Region) : Prop :=
  ∃ recovered, attach blockSize maxBorder false heap = (.ok recovered, heap) ∧
    (recovered = s.allocator ∨ recovered = t.allocator)

variable {blockSize maxBorder : Nat} {live : Finset Nat} {t : BlockHeap} {heap : Region}

theorem Tracks.recoversEither (h : Tracks blockSize maxBorder live s)
    (hblockSize : t.allocator.blockSize = s.allocator.blockSize)
    (hmaxBorder : t.allocator.maxBorder = s.allocator.maxBorder)
    (hrecords : RecordsEither s t heap) : RecoversEither blockSize maxBorder s t heap := by
  rw [RecoversEither, ← h.blockSize_eq, ← h.maxBorder_eq]
  rcases hrecords with hbefore | hafter
  · exact ⟨_, attach_of_recorded hbefore, .inl rfl⟩
  · rw [← hblockSize, ← hmaxBorder]
    exact ⟨_, attach_of_recorded hafter, .inr rfl⟩

/-- An allocation keeps the sizes, and so does a release. -/
theorem alloc_sizes (h : s.allocator.Recorded s.heap) :
    (alloc s).2.allocator.blockSize = s.allocator.blockSize ∧
    (alloc s).2.allocator.maxBorder = s.allocator.maxBorder := by
  rcases alloc_cases h with ⟨-, -, hrun⟩ | ⟨n, t, hrun, -, hupdated⟩
  · rw [hrun]
    exact ⟨rfl, rfl⟩
  · rw [hrun]
    exact ⟨hupdated.blockSize_eq, hupdated.maxBorder_eq⟩

theorem Tracks.free_sizes (h : Tracks blockSize maxBorder live s) (offset : Nat) :
    (free offset s).2.allocator.blockSize = s.allocator.blockSize ∧
    (free offset s).2.allocator.maxBorder = s.allocator.maxBorder := by
  rcases h.free_cases offset with ⟨n, t, -, -, hrun, hupdated⟩ | ⟨-, hrun⟩
  · rw [hrun]
    exact ⟨hupdated.blockSize_eq, hupdated.maxBorder_eq⟩
  · rw [hrun]
    exact ⟨rfl, rfl⟩

/-- **Allocating and freeing are crash-atomic.** In every state of every run on a formatted
heap, and at whatever trailer a crash stops the next operation, the heap that is left can be
attached to, and tells either the allocator from before the operation or the one from
after it. -/
theorem operations_crashAtomic {formatted : Region} {a : Allocator}
    (hformat : attach blockSize maxBorder true heap = (.ok a, formatted))
    (hreached : Reachable ⟨a, formatted⟩ live s) (hm : m.Interrupted) :
    RecoversEither blockSize maxBorder s (alloc s).2 (allocBy m s).2.heap ∧
    ∀ offset,
      RecoversEither blockSize maxBorder s (free offset s).2 (freeBy m offset s).2.heap := by
  have h := hreached.tracks (tracks_of_attach hformat)
  obtain ⟨hblockSize, hmaxBorder⟩ := alloc_sizes h.recorded
  refine ⟨h.recoversEither hblockSize hmaxBorder (allocBy_recordsEither hm h.recorded), ?_⟩
  intro offset
  obtain ⟨hblockSize, hmaxBorder⟩ := h.free_sizes offset
  exact h.recoversEither hblockSize hmaxBorder (freeBy_recordsEither hm h.recorded offset)

/-- A crash at the second trailer of an allocation. -/
def crashAtLowering : Marker := markUntil fun n value => n == 0 && value == Trailer.allocated

/-- The first allocation is stopped with two borders in the heap, and nothing has been
allocated. A release at the border goes through. -/
theorem threeBlocks_crashAtomic :
    attach 1 3 true eightBytes = (.ok threeBlocks.allocator, threeBlocks.heap) ∧
    Reachable threeBlocks ∅ threeBlocks ∧ crashAtLowering.Interrupted ∧
    (allocBy crashAtLowering threeBlocks).2.heap.cells.toList = [0, 1, 0, 1, 0, 0, 0, 0] ∧
    RecoversEither 1 3 threeBlocks (alloc threeBlocks).2
      (allocBy crashAtLowering threeBlocks).2.heap ∧
    RecoversEither 1 3 usedBlocks (free 4 usedBlocks).2
      (freeBy crashAtLowering 4 usedBlocks).2.heap := by
  have hcrash : crashAtLowering.Interrupted := interrupted_markUntil _
  have hfirst := operations_crashAtomic attach_eightBytes .start hcrash
  have hlater := operations_crashAtomic attach_eightBytes usedBlocks_reachable hcrash
  exact ⟨attach_eightBytes, .start, hcrash, rfl, hfirst.1, hlater.2 4⟩

end BlockHeap

end DurableCalls
