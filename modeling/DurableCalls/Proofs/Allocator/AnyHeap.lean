/-
`AnyHeap.lean` -- what may be made of an allocator that comes from an arbitrary heap.

A scan that succeeds has read the trailer of every block up to the border, and what it
tells is what they say (`Scanned`). That is the invariant of a run with one exception:
the scan asks nothing of block 0, and a heap in which the reserved block is freed is
accepted with that block in the free set. Otherwise the blocks that the trailers call
allocated are a set that the allocator hands out and takes back from there on, like one
that it has allocated itself (`attach_handsOut_iff`).
-/
import DurableCalls.Proofs.Allocator.Restart

set_option autoImplicit false

namespace DurableCalls

open Region

namespace Allocator

variable {a b : Allocator} {heap after : Region} {n behind offset : Nat} {freed : List Nat}
  {value : UInt8}

/-! ## What a scan has read -/

theorem trailerStart_zero (a : Allocator) : a.trailerStart 0 = a.blockSize := by
  simp only [trailerStart, blockStart, Nat.zero_mul, Nat.zero_add]

/-- The free set is a set of blocks below the border, and the heap has the trailers of all
blocks up to the border. Nothing is said of block 0. -/
structure Scanned (a : Allocator) (heap : Region) : Prop where
  fits : a.FitsIn heap
  border_le : a.border ≤ a.maxBorder
  ascending : a.free.Pairwise (· < ·)
  free_lt : ∀ n ∈ a.free, n < a.border
  trailers : ∀ n, n ≤ a.border → heap.cells[a.trailerStart n]? = some (a.trailerOf n)

/-- The trailer of block 0 decides whether the reserved block is taken for a freed one. A scan does
not ask which block it looks at, so a heap of others can put block 0 on offer. -/
theorem Scanned.zero_mem_iff (h : a.Scanned heap) :
    0 ∈ a.free ↔ heap.cells[a.blockSize]? = some Trailer.freed := by
  have htrailer := h.trailers 0 (Nat.zero_le _)
  rw [trailerStart_zero] at htrailer
  rw [htrailer, Option.some_inj]
  constructor
  · intro hmem
    exact trailerOf_freed (Nat.ne_of_lt (h.free_lt 0 hmem)) hmem
  · intro hfreed
    by_contra hmem
    by_cases hborder : 0 = a.border
    · rw [hborder, trailerOf_border] at hfreed
      exact absurd hfreed (by decide)
    · rw [trailerOf_allocated hborder hmem] at hfreed
      exact absurd hfreed (by decide)

/-- Then it is the first one of those that are free. -/
theorem Scanned.free_of_zero (h : a.Scanned heap) (hzero : 0 ∈ a.free) :
    ∃ rest, a.free = 0 :: rest := by
  cases hfree : a.free with
  | nil =>
    rw [hfree] at hzero
    cases hzero
  | cons n rest =>
    have hascending := h.ascending
    rw [hfree] at hascending hzero
    rcases List.mem_cons.1 hzero with rfl | hrest
    · exact ⟨rest, rfl⟩
    · exact absurd ((List.pairwise_cons.1 hascending).1 0 hrest) (Nat.not_lt_zero n)

theorem Scanned.recorded (h : a.Scanned heap) (hreserved : 0 ∉ a.free) : a.Recorded heap where
  fits := h.fits
  border_le := h.border_le
  ascending := h.ascending
  free_pos := fun _ hn => Nat.pos_of_ne_zero fun hzero => hreserved (hzero ▸ hn)
  free_lt := h.free_lt
  trailers := h.trailers

/-! ## The scan -/

/-- What one step of a scan that succeeds has met: the border, and then the scan is over, or a block
that is no border and not the last one, and then the scan goes on behind it. Any other trailer is
refused. -/
theorem recoverFrom_cases (h : a.FitsIn heap) (hn : n ≤ a.maxBorder)
    (hscan : a.recoverFrom heap freed n behind = .ok b) :
    (heap.cells[a.trailerStart n]? = some Trailer.border ∧
      b = { a with border := n, free := freed.reverse }) ∨
    ∃ left value, behind = left + 1 ∧ heap.cells[a.trailerStart n]? = some value ∧
      (value = Trailer.allocated ∨ value = Trailer.freed) ∧
      a.recoverFrom heap (if value = Trailer.freed then n :: freed else freed) (n + 1) left
        = .ok b := by
  obtain ⟨value, hvalue⟩ := h.exists_trailer hn
  by_cases hborder : value = Trailer.border
  · rw [hborder] at hvalue
    rw [recoverFrom_of_border h hn hvalue] at hscan
    exact .inl ⟨hvalue, (Except.ok.inj hscan).symm⟩
  · by_cases hblock : value = Trailer.allocated ∨ value = Trailer.freed
    · cases behind with
      | zero =>
        have hknown : ¬(value ≠ Trailer.allocated ∧ value ≠ Trailer.freed) :=
          fun hboth => hblock.elim hboth.1 hboth.2
        rw [recoverFrom] at hscan
        simp only [h.trailerAt_eq hn, bind, Except.bind, readByte_of_getElem? hvalue, liftM,
          monadLift, MonadLift.monadLift, if_neg hborder, if_neg hknown] at hscan
        cases hscan
      | succ left =>
        rw [recoverFrom_of_block h hn hvalue hblock] at hscan
        exact .inr ⟨left, value, rfl, hvalue, hblock, hscan⟩
    · have hunknown : value ≠ Trailer.allocated ∧ value ≠ Trailer.freed := not_or.1 hblock
      rw [recoverFrom] at hscan
      simp only [h.trailerAt_eq hn, bind, Except.bind, readByte_of_getElem? hvalue, liftM,
        monadLift, MonadLift.monadLift, if_neg hborder, if_pos hunknown] at hscan
      cases hscan

/-- **The invariant of the scan**: the blocks below `n` are read, and those of them that are
freed are collected, newest first. -/
structure ReadBelow (a : Allocator) (heap : Region) (n : Nat) (freed : List Nat) : Prop where
  descending : freed.Pairwise (· > ·)
  below : ∀ k ∈ freed, k < n
  trailers : ∀ k, k < n → heap.cells[a.trailerStart k]?
    = some (if k ∈ freed then Trailer.freed else Trailer.allocated)

namespace ReadBelow

/-- The border ends the scan. What was collected on the way, put in ascending order, are the freed
blocks below it, and the allocator that comes out agrees with every trailer that was read. -/
theorem scanned (h : a.ReadBelow heap n freed) (hfits : a.FitsIn heap) (hn : n ≤ a.maxBorder)
    (hvalue : heap.cells[a.trailerStart n]? = some Trailer.border) :
    Scanned { a with border := n, free := freed.reverse } heap where
  fits := ⟨hfits.payload, hfits.span_le⟩
  border_le := hn
  ascending := List.pairwise_reverse.2 h.descending
  free_lt := fun k hk => h.below k (List.mem_reverse.1 hk)
  trailers := by
    intro k hk
    by_cases hborder : k = n
    · rw [hborder]
      exact hvalue.trans (congrArg some
        (trailerOf_border { a with border := n, free := freed.reverse }).symm)
    · have hlt : k < n := Nat.lt_of_le_of_ne hk hborder
      rw [trailerOf, if_neg hborder]
      simp only [List.mem_reverse]
      exact h.trailers k hlt

/-- A block that is no border is passed, and the invariant holds for one more block. A freed one is
the largest that was seen so far, which is why it is collected in front. -/
theorem next (h : a.ReadBelow heap n freed)
    (hvalue : heap.cells[a.trailerStart n]? = some value)
    (hblock : value = Trailer.allocated ∨ value = Trailer.freed) :
    a.ReadBelow heap (n + 1) (if value = Trailer.freed then n :: freed else freed) := by
  rcases hblock with rfl | rfl
  · rw [if_neg (by decide)]
    refine ⟨h.descending, fun k hk => Nat.lt_succ_of_lt (h.below k hk), fun k hk => ?_⟩
    rcases Nat.lt_succ_iff_lt_or_eq.1 hk with hlt | rfl
    · exact h.trailers k hlt
    · have hnew : k ∉ freed := fun hmem => Nat.lt_irrefl k (h.below k hmem)
      rw [hvalue, if_neg hnew]
  · rw [if_pos rfl]
    refine ⟨List.pairwise_cons.2 ⟨h.below, h.descending⟩, ?_, fun k hk => ?_⟩
    · intro k hk
      rcases List.mem_cons.1 hk with rfl | hmem
      · exact Nat.lt_succ_self k
      · exact Nat.lt_succ_of_lt (h.below k hmem)
    · rcases Nat.lt_succ_iff_lt_or_eq.1 hk with hlt | rfl
      · have hiff : k ∈ n :: freed ↔ k ∈ freed :=
          List.mem_cons.trans (or_iff_right (Nat.ne_of_lt hlt))
        simp only [hiff]
        exact h.trailers k hlt
      · rw [hvalue, if_pos List.mem_cons_self]

end ReadBelow

/-- A scan that succeeds agrees with the trailers, whatever heap it was given. The induction is on
the blocks that are left, with the invariant for those that are passed. -/
theorem recoverFrom_scanned (hfits : a.FitsIn heap) : ∀ (behind n : Nat) (freed : List Nat),
    n + behind = a.maxBorder → a.ReadBelow heap n freed →
    a.recoverFrom heap freed n behind = .ok b →
    b.blockSize = a.blockSize ∧ b.maxBorder = a.maxBorder ∧ b.Scanned heap := by
  intro behind
  induction behind with
  | zero =>
    intro n freed hbehind hread hscan
    have hn : n ≤ a.maxBorder := Nat.le.intro hbehind
    rcases recoverFrom_cases hfits hn hscan with ⟨hvalue, rfl⟩ | ⟨left, value, hleft, -⟩
    · exact ⟨rfl, rfl, hread.scanned hfits hn hvalue⟩
    · cases hleft
  | succ behind ih =>
    intro n freed hbehind hread hscan
    have hn : n ≤ a.maxBorder := Nat.le.intro hbehind
    rcases recoverFrom_cases hfits hn hscan with ⟨hvalue, rfl⟩ |
      ⟨left, value, hleft, hvalue, hblock, hrest⟩
    · exact ⟨rfl, rfl, hread.scanned hfits hn hvalue⟩
    · obtain rfl : behind = left := Nat.succ.inj hleft
      exact ih (n + 1) _ (by omega) (hread.next hvalue hblock) hrest

/-- **What an accepted heap says.** It is not written to, and the allocator is what its
trailers tell. -/
theorem attach_scanned {blockSize maxBorder : Nat}
    (h : attach blockSize maxBorder false heap = (.ok a, after)) :
    after = heap ∧ a.blockSize = blockSize ∧ a.maxBorder = maxBorder ∧ a.Scanned heap := by
  obtain ⟨hpayload, hspan⟩ := fits_of_attach h
  rw [attach_of_fits hpayload hspan, if_neg (by decide), Run.liftHalt_apply] at h
  obtain ⟨hscan, hheap⟩ := Prod.mk.inj h
  have hnone : (unread blockSize maxBorder).ReadBelow heap 0 [] :=
    ⟨List.Pairwise.nil, nofun, nofun⟩
  have hscan' : (unread blockSize maxBorder).recover heap = .ok a := by
    cases hrecover : (unread blockSize maxBorder).recover heap with
    | error halt =>
      rw [hrecover] at hscan
      cases hscan
    | ok b =>
      rw [hrecover] at hscan
      exact hscan
  obtain ⟨hsize, hmax, hscanned⟩ :=
    recoverFrom_scanned ⟨hpayload, hspan⟩ maxBorder 0 [] (Nat.zero_add _) hnone hscan'
  exact ⟨hheap.symm, hsize, hmax, hscanned⟩

/-- The blocks that are in use. -/
def held (a : Allocator) : Finset Nat := (Finset.range (a.border + 1)).filter a.InUse

theorem mem_held : n ∈ a.held ↔ a.InUse n := by
  rw [held, Finset.mem_filter, Finset.mem_range, and_iff_right_iff_imp]
  exact fun hn => Nat.lt_succ_of_le hn.2.1

end Allocator

namespace BlockHeap

open Allocator

variable {blockSize maxBorder : Nat} {live : Finset Nat} {s t : BlockHeap}

/-! ## Requests on what was recovered -/

/-- The live blocks after a request to an allocator with this stride. The answer decides. -/
def liveAfter (stride : Nat) (live : Finset Nat) : Request → Answer → Finset Nat
  | .alloc, .allocated (.ok offset) => insert (offset / stride) live
  | .free offset, .freed (.ok ()) => live.erase (offset / stride)
  | _, _ => live

/-- Serves requests one after the other, and keeps account of the live blocks. -/
def serveAll (s : BlockHeap) (live : Finset Nat) : List Request → Finset Nat × BlockHeap
  | [] => (live, s)
  | request :: rest =>
    let (answer, t) := s.serve request
    serveAll t (liveAfter (s.allocator.blockSize + 1) live request answer) rest

/-- One request, of any kind and with any answer, keeps the blocks that are handed out in step with
the allocator. A request that is refused changes neither. -/
theorem Tracks.served (h : Tracks blockSize maxBorder live s) (request : Request) :
    Tracks blockSize maxBorder
      (liveAfter (s.allocator.blockSize + 1) live request (s.serve request).1)
      (s.serve request).2 := by
  cases request with
  | alloc =>
    rcases alloc_cases h.recorded with ⟨-, -, hfull⟩ | ⟨n, t, hrun, -, -⟩
    · simp only [serve, hfull]
      exact h
    · simp only [serve, hrun, liveAfter, blockStart_div]
      exact h.allocated hrun
  | free offset =>
    rcases h.free_cases offset with ⟨n, t, rfl, -, hrun, -⟩ | ⟨-, hrefused⟩
    · simp only [serve, hrun, liveAfter, blockStart_div]
      exact h.freed hrun
    · simp only [serve, hrefused]
      exact h
  | isAllocated offset => exact h

theorem Tracks.servedAll (requests : List Request) : ∀ {live : Finset Nat} {s : BlockHeap},
    Tracks blockSize maxBorder live s →
    Tracks blockSize maxBorder (s.serveAll live requests).1 (s.serveAll live requests).2 := by
  induction requests with
  | nil => exact fun h => h
  | cons request rest ih => exact fun h => ih (h.served request)

/-- On a heap whose reserved block is not freed, the blocks that the trailers call
allocated are those in use. -/
theorem tracks_held {a : Allocator} {heap : Region} (h : a.Recorded heap) :
    Tracks a.blockSize a.maxBorder a.held ⟨a, heap⟩ :=
  ⟨rfl, rfl, h, fun _ => mem_held⟩

/-- Where the reserved block is freed, it is handed out first, and the heap is sound from
then on. -/
theorem alloc_of_zero {rest : List Nat} (h : s.allocator.Scanned s.heap)
    (hfree : s.allocator.free = 0 :: rest) :
    alloc s = (.ok (s.allocator.blockStart 0), s.recycled 0 rest) ∧
      (s.recycled 0 rest).allocator.Recorded (s.recycled 0 rest).heap := by
  have hfits : (BlockHeap.mk { s.allocator with free := rest } s.heap).allocator.FitsIn s.heap :=
    ⟨h.fits.payload, h.fits.span_le⟩
  have hascending := h.ascending
  have hlt := h.free_lt
  rw [hfree] at hascending hlt
  obtain ⟨hbehind, hrest⟩ := List.pairwise_cons.1 hascending
  have hzero := hlt 0 List.mem_cons_self
  refine ⟨alloc_of_freed h.fits (Nat.zero_le _) hfree, hfits.recorded_put h.border_le hrest hbehind
    (fun k hk => hlt k (List.mem_cons_of_mem _ hk)) (Nat.zero_le _)
    (trailerOf_allocated (Nat.ne_of_lt hzero) fun hmem => Nat.lt_irrefl 0 (hbehind 0 hmem))
    fun k hk hne => ?_⟩
  have hmem : k ∈ s.allocator.free ↔ k ∈ rest := by
    rw [hfree, List.mem_cons]
    exact ⟨fun hk => hk.resolve_left hne, .inr⟩
  refine (h.trailers k hk).trans ?_
  simp only [trailerOf, hmem]

/-- The reserved block is not given back. -/
theorem free_zero (h : s.allocator.Recorded s.heap) :
    free (s.allocator.blockStart 0) s
      = (.error (.failed (.invalidBlock (s.allocator.blockStart 0))), s) :=
  free_of_not_inUse h fun n hn => by
    have hpos : 0 < n * (s.allocator.blockSize + 1) := Nat.mul_pos hn.1 (Nat.succ_pos _)
    rw [blockStart, Nat.zero_mul, blockStart]
    exact Nat.ne_of_lt hpos

/-- A freed reserved block is the first one to be handed out, and is not taken back. -/
theorem alloc_of_zero_mem (h : s.allocator.Scanned s.heap) (hzero : 0 ∈ s.allocator.free) :
    ∃ t, alloc s = (.ok 0, t) ∧ free 0 t = (.error (.failed (.invalidBlock 0)), t) := by
  obtain ⟨rest, hfree⟩ := h.free_of_zero hzero
  obtain ⟨halloc, hrecorded⟩ := alloc_of_zero h hfree
  have hrefused := free_zero hrecorded
  rw [blockStart, Nat.zero_mul] at halloc hrefused
  exact ⟨_, halloc, hrefused⟩

/-- **An allocator over an arbitrary heap.** If a heap is accepted, then a reserved block
that is not freed stays reserved: whatever is allocated and freed from there on, the
allocator hands out and takes back the blocks of a set, which begins with those that the
trailers call allocated, and the heap has a border for the next recovery. If it is freed,
then the next allocation hands it out, and nobody can give it back. -/
theorem attach_handsOut {a : Allocator} {heap after : Region}
    (h : attach blockSize maxBorder false heap = (.ok a, after)) :
    (heap.cells[blockSize]? ≠ some Trailer.freed →
      ∀ requests live s, serveAll ⟨a, after⟩ a.held requests = (live, s) →
        s.allocator.blockSize = blockSize ∧ HandsOut maxBorder live s ∧
        s.heap.cells[s.allocator.trailerStart s.allocator.border]? = some Trailer.border) ∧
    (heap.cells[blockSize]? = some Trailer.freed →
      ∃ t, alloc ⟨a, after⟩ = (.ok 0, t) ∧ free 0 t = (.error (.failed (.invalidBlock 0)), t)) := by
  obtain ⟨rfl, rfl, rfl, hscanned⟩ := attach_scanned h
  constructor
  · intro hreserved requests live s hserve
    have hrecorded := hscanned.recorded fun hzero => hreserved (hscanned.zero_mem_iff.1 hzero)
    have htracks := (tracks_held hrecorded).servedAll requests
    rw [hserve] at htracks
    have hborder := htracks.recorded.trailers _ (Nat.le_refl _)
    rw [trailerOf_border] at hborder
    exact ⟨htracks.blockSize_eq, htracks.handsOut, hborder⟩
  · intro hfreed
    exact alloc_of_zero_mem (s := ⟨a, after⟩) hscanned (hscanned.zero_mem_iff.2 hfreed)

/-- Blocks of one byte with these trailers, and zeros for payloads. -/
def trailersOnly (first second third : UInt8) : Region where
  path := .ofText "heap"
  cells := #[0, first, 0, second, 0, third]
  size_lt := show 6 < sizeLimit by decide

/-- Block 1 is freed, and block 2 behind it is the border. -/
theorem trailersOnly_handsOut :
    attach 1 2 false (trailersOnly Trailer.allocated Trailer.freed Trailer.border)
      = (.ok ⟨1, 2, 2, [1]⟩, trailersOnly Trailer.allocated Trailer.freed Trailer.border) ∧
    (∀ requests live s,
      serveAll ⟨⟨1, 2, 2, [1]⟩, trailersOnly Trailer.allocated Trailer.freed Trailer.border⟩
        (held ⟨1, 2, 2, [1]⟩) requests = (live, s) →
      s.allocator.blockSize = 1 ∧ HandsOut 2 live s ∧
      s.heap.cells[s.allocator.trailerStart s.allocator.border]? = some Trailer.border) :=
  have hattach : attach 1 2 false (trailersOnly Trailer.allocated Trailer.freed Trailer.border)
      = (.ok ⟨1, 2, 2, [1]⟩, trailersOnly Trailer.allocated Trailer.freed Trailer.border) := rfl
  ⟨hattach, (attach_handsOut hattach).1 (by decide)⟩

/-- A freed reserved block at the beginning of a heap is accepted, and handed out. -/
theorem freedReserve_handedOut :
    ∃ t, attach 1 2 false (trailersOnly Trailer.freed Trailer.border Trailer.allocated)
        = (.ok ⟨1, 2, 1, [0]⟩, trailersOnly Trailer.freed Trailer.border Trailer.allocated) ∧
      alloc ⟨⟨1, 2, 1, [0]⟩, trailersOnly Trailer.freed Trailer.border Trailer.allocated⟩
        = (.ok 0, t) ∧
      free 0 t = (.error (.failed (.invalidBlock 0)), t) :=
  ⟨_, rfl, rfl, rfl⟩

end BlockHeap

end DurableCalls
