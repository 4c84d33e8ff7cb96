/-
`Operations.lean` -- what allocating and freeing do to a heap that records its allocator.

Each operation has one equation per way in which it can go, for every marker: the
trailers that it writes, in their order, and what it notes between them. With the durable
marker each of them ends in a named state (`recycled`, `grown`, `released`, `shrunk`), and
all of these are recorded again. Which blocks are in use changes by the one block.

Freeing the block at the border goes down over freed blocks. What it passes leaves the
free set, so the trailers behind the new border may be anything.
-/
import DurableCalls.Proofs.Allocator.Trailers

set_option autoImplicit false

namespace DurableCalls

open Region Allocator

/-! ## Blocks in use -/

namespace Allocator

/-- The block is allocated: it is neither reserved, nor behind the border, nor freed. -/
def InUse (a : Allocator) (n : Nat) : Prop := 0 < n ∧ n ≤ a.border ∧ n ∉ a.free

instance (a : Allocator) (n : Nat) : Decidable (a.InUse n) :=
  inferInstanceAs (Decidable (0 < n ∧ n ≤ a.border ∧ n ∉ a.free))

variable {a : Allocator} {heap : Region} {n k offset : Nat}

theorem Recorded.inUse_le (h : a.Recorded heap) (hn : a.InUse n) : n ≤ a.maxBorder :=
  Nat.le_trans hn.2.1 h.border_le

theorem Recorded.border_notMem (h : a.Recorded heap) : a.border ∉ a.free := fun hmem =>
  Nat.lt_irrefl _ (h.free_lt _ hmem)

/-- The block at the border is in use, unless it is the reserved one. -/
theorem Recorded.inUse_border (h : a.Recorded heap) (hpos : 0 < a.border) : a.InUse a.border :=
  ⟨hpos, Nat.le_refl _, h.border_notMem⟩

/-- The first freed block is one below the border, and the other ones are not it. -/
theorem Recorded.first_freed {rest : List Nat} (h : a.Recorded heap) (hfree : a.free = n :: rest) :
    n ∈ a.free ∧ 0 < n ∧ n < a.border ∧ n ≤ a.maxBorder ∧ n ∉ rest := by
  have hmem : n ∈ a.free := by
    rw [hfree]
    exact List.mem_cons_self
  have hlt := h.free_lt n hmem
  have hascending := h.ascending
  rw [hfree] at hascending
  refine ⟨hmem, h.free_pos n hmem, hlt, Nat.le_trans (Nat.le_of_lt hlt) h.border_le, ?_⟩
  intro hrest
  exact Nat.lt_irrefl n ((List.pairwise_cons.1 hascending).1 n hrest)

/-! ## Which offsets can be freed -/

theorem resolve_of_inUse (h : a.FitsIn heap) (hn : a.InUse n) :
    a.resolve (a.blockStart n) = .ok n := by
  obtain ⟨hpos, hborder, hfree⟩ := hn
  have haligned : ¬a.blockStart n % (a.blockSize + 1) ≠ 0 := fun hne => hne (a.blockStart_mod n)
  have hknown : ¬(n = 0 ∨ a.border < n ∨ n ∈ a.free) := by
    rintro (hzero | hbehind | hmem)
    · omega
    · omega
    · exact hfree hmem
  simp only [resolve, h.stride_eq, bind, Except.bind, if_neg haligned, blockStart_div,
    if_neg hknown, pure, Except.pure]

theorem resolve_of_not_inUse (h : a.FitsIn heap)
    (hnone : ∀ n, a.InUse n → offset ≠ a.blockStart n) :
    a.resolve offset = .error (.failed (.invalidBlock offset)) := by
  by_cases haligned : offset % (a.blockSize + 1) = 0
  · -- an aligned offset starts a block, and that one is not in use
    have hstart : offset = a.blockStart (offset / (a.blockSize + 1)) :=
      (Nat.div_mul_cancel (Nat.dvd_of_mod_eq_zero haligned)).symm
    have hunknown : offset / (a.blockSize + 1) = 0 ∨ a.border < offset / (a.blockSize + 1) ∨
        offset / (a.blockSize + 1) ∈ a.free := by
      rcases Nat.eq_zero_or_pos (offset / (a.blockSize + 1)) with hzero | hpos
      · exact .inl hzero
      · rcases Nat.lt_or_ge a.border (offset / (a.blockSize + 1)) with hbehind | hle
        · exact .inr (.inl hbehind)
        · by_cases hmem : offset / (a.blockSize + 1) ∈ a.free
          · exact .inr (.inr hmem)
          · exact absurd hstart (hnone _ ⟨hpos, hle, hmem⟩)
    simp only [resolve, h.stride_eq, bind, Except.bind, if_neg (not_not_intro haligned),
      if_pos hunknown]
    rfl
  · simp only [resolve, h.stride_eq, bind, Except.bind, if_pos haligned]
    rfl

theorem isAllocated_blockStart (h : a.Recorded heap) (hpos : 0 < n) :
    a.isAllocated heap (a.blockStart n) = .ok (decide (a.InUse n)) := by
  have hstride := h.fits.stride_eq
  by_cases hborder : a.border < n
  · have hnot : ¬a.InUse n := fun hn => Nat.not_le.2 hborder hn.2.1
    simp only [isAllocated, hstride, bind, Except.bind, blockStart_div, if_pos hborder, hnot,
      decide_false, pure, Except.pure]
  · have hle : n ≤ a.border := Nat.not_lt.1 hborder
    have hiff : a.trailerOf n ≠ Trailer.freed ↔ a.InUse n := by
      unfold trailerOf
      by_cases hat : n = a.border
      · rw [if_pos hat, hat]
        exact ⟨fun _ => h.inUse_border (hat ▸ hpos), fun _ => by decide⟩
      · rw [if_neg hat]
        by_cases hmem : n ∈ a.free
        · rw [if_pos hmem]
          exact ⟨fun hne => absurd rfl hne, fun hn => absurd hmem hn.2.2⟩
        · rw [if_neg hmem]
          exact ⟨fun _ => ⟨hpos, hle, hmem⟩, fun _ => by decide⟩
    simp only [isAllocated, hstride, bind, Except.bind, blockStart_div, if_neg hborder,
      h.trailer_eq hle, pure, Except.pure, hiff]

/-! ## Going down from the border -/

/-- Going down from a block below the border passes freed blocks, and ends at one that is
not freed. -/
theorem descend_of_recorded (h : a.Recorded heap) (n : Nat) (hn : n < a.border) :
    ∃ m, a.descend heap n = (.ok (), m) ∧ m ≤ n ∧ m ∉ a.free ∧
      ∀ k, m < k → k ≤ n → k ∈ a.free := by
  induction n with
  | zero =>
    refine ⟨0, rfl, Nat.le_refl 0, fun hmem => Nat.lt_irrefl 0 (h.free_pos 0 hmem), ?_⟩
    intro k hpos hle
    omega
  | succ n ih =>
    have hne : n + 1 ≠ a.border := Nat.ne_of_lt hn
    have htrailer := h.trailer_eq (Nat.le_of_lt hn)
    -- a freed block is passed, and any other one is the new border
    by_cases hmem : n + 1 ∈ a.free
    · rw [trailerOf_freed hne hmem] at htrailer
      obtain ⟨m, hdescend, hle, hfree, hpassed⟩ := ih (by omega)
      refine ⟨m, ?_, by omega, hfree, ?_⟩
      · simp only [descend, htrailer, if_true, hdescend]
      · intro k hlt hk
        rcases Nat.lt_or_ge n k with hgt | hge
        · have hkn : k = n + 1 := by omega
          rw [hkn]
          exact hmem
        · exact hpassed k hlt hge
    · rw [trailerOf_allocated hne hmem] at htrailer
      refine ⟨n + 1, ?_, Nat.le_refl _, hmem, ?_⟩
      · have hneq : ¬Trailer.allocated = Trailer.freed := by decide
        simp only [descend, htrailer, if_neg hneq, if_true]
      · intro k hlt hk
        omega

end Allocator

namespace BlockHeap

variable {s : BlockHeap} {m : Marker} {n below : Nat} {rest : List Nat}

theorem mark_apply (h : s.allocator.FitsIn s.heap) (hn : n ≤ s.allocator.maxBorder)
    (value : UInt8) :
    mark n value s
      = (.ok (), ⟨s.allocator, s.heap.put (s.allocator.trailerStart n) [value]⟩) := by
  have hmark : onHeap (s.allocator.mark n value) s = (.ok (), ⟨s.allocator, s.heap.put
      (s.allocator.trailerStart n) [value]⟩) := by
    rw [onHeap, Run.zoom_apply]
    show ((s.allocator.mark n value s.heap).1, BlockHeap.mk s.allocator _) = _
    rw [h.mark_apply hn]
  rw [mark, Run.bind_of_ok (Run.get_apply s)]
  exact hmark

theorem note_apply (f : Allocator → Allocator) (s : BlockHeap) :
    note f s = (.ok (), ⟨f s.allocator, s.heap⟩) := rfl

/-! ## The paths of the operations, for any marker -/

theorem allocBy_of_freed (m : Marker) (hfree : s.allocator.free = n :: rest) :
    allocBy m s
      = (do m n Trailer.allocated; s.allocator.blockAt n : Run BlockHeap Nat)
        ⟨{ s.allocator with free := rest }, s.heap⟩ := by
  rw [allocBy, Run.bind_of_ok (Run.get_apply s)]
  simp only [hfree]
  rw [Run.bind_of_ok (note_apply _ s)]

theorem allocBy_of_full (m : Marker) (hfree : s.allocator.free = [])
    (hfull : s.allocator.border = s.allocator.maxBorder) :
    allocBy m s = (.error (.failed .heapExhausted), s) := by
  rw [allocBy, Run.bind_of_ok (Run.get_apply s)]
  simp only [hfree, if_pos hfull]
  rfl

theorem allocBy_of_room (m : Marker) (h : s.allocator.FitsIn s.heap)
    (hfree : s.allocator.free = []) (hroom : s.allocator.border < s.allocator.maxBorder) :
    allocBy m s = (do
      m (s.allocator.border + 1) Trailer.border
      m s.allocator.border Trailer.allocated
      note fun a => { a with border := s.allocator.border + 1 }
      s.allocator.blockAt (s.allocator.border + 1) : Run BlockHeap Nat) s := by
  have hne : ¬s.allocator.border = s.allocator.maxBorder := Nat.ne_of_lt hroom
  have hle := Nat.le_trans (s.allocator.blockStart_le_trailerStart _)
    (Nat.le_of_lt (h.trailer_lt hroom))
  have hword : s.allocator.border + 1 < wordLimit := by
    -- a block has at least one byte, so its number is below its offset
    have hnumber : s.allocator.border + 1 ≤ s.allocator.blockStart (s.allocator.border + 1) :=
      Nat.le_mul_of_pos_right _ (Nat.succ_pos _)
    exact Nat.lt_of_succ_lt (FitsIn.lt_wordLimit (Nat.le_trans hnumber hle))
  have hadd : addWord s.allocator.border 1 = .ok (s.allocator.border + 1) :=
    addWord_eq_ok.2 ⟨hword, rfl⟩
  rw [allocBy, Run.bind_of_ok (Run.get_apply s)]
  simp only [hfree, if_neg hne]
  rw [hadd, Run.bind_of_ok (Run.liftHalt_apply _ s)]

theorem freeBy_of_not_inUse {offset : Nat} (m : Marker) (h : s.allocator.FitsIn s.heap)
    (hnone : ∀ n, s.allocator.InUse n → offset ≠ s.allocator.blockStart n) :
    freeBy m offset s = (.error (.failed (.invalidBlock offset)), s) := by
  rw [freeBy, Run.bind_of_ok (Run.get_apply s), resolve_of_not_inUse h hnone,
    Run.bind_of_error (Run.liftHalt_apply _ s)]

theorem freeBy_of_below (m : Marker) (h : s.allocator.FitsIn s.heap)
    (hn : s.allocator.InUse n) (hbelow : n < s.allocator.border) :
    freeBy m (s.allocator.blockStart n) s = (do
      m n Trailer.freed
      note fun a => { a with free := insertAscending n a.free } : Run BlockHeap Unit) s := by
  rw [freeBy, Run.bind_of_ok (Run.get_apply s), resolve_of_inUse h hn,
    Run.bind_of_ok (Run.liftHalt_apply _ s), if_pos hbelow]

/-- The free set without the blocks that the border has gone down over. -/
def leftFree (a : Allocator) (below : Nat) : List Nat :=
  a.free.filter fun k => k ≤ below ∨ a.border - 1 < k

theorem freeBy_of_border (m : Marker) (h : s.allocator.FitsIn s.heap)
    (hn : s.allocator.InUse s.allocator.border)
    (hdescend : s.allocator.descend s.heap (s.allocator.border - 1) = (.ok (), below)) :
    freeBy m (s.allocator.blockStart s.allocator.border) s = (do
      m below Trailer.border
      note fun a => { a with border := below } : Run BlockHeap Unit)
        ⟨{ s.allocator with free := leftFree s.allocator below }, s.heap⟩ := by
  have hlower : lowerTo (s.allocator.border - 1) s
      = (.ok below, ⟨{ s.allocator with free := leftFree s.allocator below }, s.heap⟩) := by
    rw [lowerTo, Run.bind_of_ok (Run.get_apply s)]
    simp only [hdescend]
    rw [Run.bind_of_ok (note_apply _ s), Run.bind_of_ok (Run.liftHalt_apply _ _)]
    rfl
  rw [freeBy, Run.bind_of_ok (Run.get_apply s), resolve_of_inUse h hn,
    Run.bind_of_ok (Run.liftHalt_apply _ s), if_neg (Nat.lt_irrefl _), Run.bind_of_ok hlower]

/-! ## The states they lead to -/

/-- The first freed block is allocated again. -/
def recycled (s : BlockHeap) (n : Nat) (rest : List Nat) : BlockHeap where
  allocator := { s.allocator with free := rest }
  heap := s.heap.put (s.allocator.trailerStart n) [Trailer.allocated]

/-- A block behind the border is allocated, and is the border. -/
def grown (s : BlockHeap) : BlockHeap where
  allocator := { s.allocator with border := s.allocator.border + 1 }
  heap := (s.heap.put (s.allocator.trailerStart (s.allocator.border + 1)) [Trailer.border]).put
    (s.allocator.trailerStart s.allocator.border) [Trailer.allocated]

/-- A block below the border is freed. -/
def released (s : BlockHeap) (n : Nat) : BlockHeap where
  allocator := { s.allocator with free := insertAscending n s.allocator.free }
  heap := s.heap.put (s.allocator.trailerStart n) [Trailer.freed]

/-- The block at the border is freed, and a block below it is the border. -/
def shrunk (s : BlockHeap) (below : Nat) : BlockHeap where
  allocator := { s.allocator with border := below, free := leftFree s.allocator below }
  heap := s.heap.put (s.allocator.trailerStart below) [Trailer.border]

theorem alloc_of_freed (h : s.allocator.FitsIn s.heap) (hn : n ≤ s.allocator.maxBorder)
    (hfree : s.allocator.free = n :: rest) :
    alloc s = (.ok (s.allocator.blockStart n), s.recycled n rest) := by
  -- the first member is gone from the free set when the trailer is written
  have hfits : (BlockHeap.mk { s.allocator with free := rest } s.heap).allocator.FitsIn s.heap :=
    ⟨h.payload, h.span_le⟩
  have hmark := mark_apply (s := ⟨{ s.allocator with free := rest }, s.heap⟩) hfits hn
    Trailer.allocated
  rw [alloc, allocBy_of_freed mark hfree, Run.bind_of_ok hmark, h.blockAt_eq hn,
    Run.liftHalt_apply]
  rfl

theorem alloc_of_room (h : s.allocator.FitsIn s.heap) (hfree : s.allocator.free = [])
    (hroom : s.allocator.border < s.allocator.maxBorder) :
    alloc s = (.ok (s.allocator.blockStart (s.allocator.border + 1)), s.grown) := by
  have hmark := mark_apply h hroom Trailer.border
  have hmark' := mark_apply (s := ⟨s.allocator, s.heap.put
    (s.allocator.trailerStart (s.allocator.border + 1)) [Trailer.border]⟩)
    (h.put _ _) (Nat.le_of_lt hroom) Trailer.allocated
  rw [alloc, allocBy_of_room mark h hfree hroom, Run.bind_of_ok hmark, Run.bind_of_ok hmark',
    Run.bind_of_ok (note_apply _ _), h.blockAt_eq hroom, Run.liftHalt_apply]
  rfl

theorem free_of_below (h : s.allocator.FitsIn s.heap)
    (hborder : s.allocator.border ≤ s.allocator.maxBorder) (hn : s.allocator.InUse n)
    (hbelow : n < s.allocator.border) :
    free (s.allocator.blockStart n) s = (.ok (), s.released n) := by
  have hmark := mark_apply h (Nat.le_trans (Nat.le_of_lt hbelow) hborder) Trailer.freed
  rw [free, freeBy_of_below mark h hn hbelow, Run.bind_of_ok hmark]
  rfl

theorem free_of_border (h : s.allocator.FitsIn s.heap)
    (hborder : s.allocator.border ≤ s.allocator.maxBorder)
    (hn : s.allocator.InUse s.allocator.border)
    (hdescend : s.allocator.descend s.heap (s.allocator.border - 1) = (.ok (), below))
    (hbelow : below < s.allocator.border) :
    free (s.allocator.blockStart s.allocator.border) s = (.ok (), s.shrunk below) := by
  have hfits : (BlockHeap.mk { s.allocator with free := leftFree s.allocator below }
      s.heap).allocator.FitsIn s.heap := ⟨h.payload, h.span_le⟩
  have hmark := mark_apply (s := ⟨{ s.allocator with free := leftFree s.allocator below }, s.heap⟩)
    hfits (Nat.le_trans (Nat.le_of_lt hbelow) hborder) Trailer.border
  rw [free, freeBy_of_border mark h hn hdescend, Run.bind_of_ok hmark]
  rfl

/-! ## They are recorded, and use one block more or less -/

theorem pairwise_insertAscending {ns : List Nat} (h : ns.Pairwise (· < ·)) (n : Nat) :
    (insertAscending n ns).Pairwise (· < ·) := by
  induction ns with
  | nil => exact List.pairwise_singleton _ n
  | cons m rest ih =>
    obtain ⟨hhead, hrest⟩ := List.pairwise_cons.1 h
    unfold insertAscending
    split
    next hlt =>
      refine List.pairwise_cons.2 ⟨fun k hk => ?_, h⟩
      rcases List.mem_cons.1 hk with rfl | hk
      · exact hlt
      · exact Nat.lt_trans hlt (hhead k hk)
    next hge =>
      split
      next => exact h
      next hne =>
        refine List.pairwise_cons.2 ⟨fun k hk => ?_, ih hrest⟩
        rcases mem_insertAscending.1 hk with rfl | hk
        · omega
        · exact hhead k hk

/-- With one member of the free set gone, the other blocks have the trailers that they had, and the
one that is handed out has the trailer of an allocated block now. -/
theorem recorded_recycled (h : s.allocator.Recorded s.heap)
    (hfree : s.allocator.free = n :: rest) :
    (s.recycled n rest).allocator.Recorded (s.recycled n rest).heap := by
  obtain ⟨-, -, hlt, hle, hgone⟩ := h.first_freed hfree
  have hsub : ∀ k ∈ rest, k ∈ s.allocator.free := by
    intro k hk
    rw [hfree]
    exact List.mem_cons_of_mem n hk
  have hascending := h.ascending
  rw [hfree] at hascending
  refine FitsIn.recorded_put ⟨h.fits.payload, h.fits.span_le⟩ h.border_le hascending.of_cons
    (fun k hk => h.free_pos k (hsub k hk)) (fun k hk => h.free_lt k (hsub k hk)) hle ?_ ?_
  · exact trailerOf_allocated (Nat.ne_of_lt hlt) hgone
  · intro k hk hne
    have hiff : k ∈ rest ↔ k ∈ s.allocator.free := by
      rw [hfree, List.mem_cons]
      exact ⟨.inr, fun hor => hor.resolve_left hne⟩
    have htrailer := h.trailers k hk
    simp only [trailerOf, ← hiff] at htrailer
    exact htrailer

theorem inUse_recycled (h : s.allocator.Recorded s.heap) (hfree : s.allocator.free = n :: rest)
    (k : Nat) :
    (s.recycled n rest).allocator.InUse k ↔ k = n ∨ s.allocator.InUse k := by
  obtain ⟨-, hpos, hlt, -, hgone⟩ := h.first_freed hfree
  simp only [InUse, recycled, hfree, List.mem_cons, not_or]
  constructor
  · rintro ⟨hk, hle, hrest⟩
    by_cases hkn : k = n
    · exact .inl hkn
    · exact .inr ⟨hk, hle, hkn, hrest⟩
  · rintro (rfl | ⟨hk, hle, -, hrest⟩)
    · exact ⟨hpos, Nat.le_of_lt hlt, hgone⟩
    · exact ⟨hk, hle, hrest⟩

/-- The heap grows over a trailer that may have been anything. Only the old border and the new one
are written, and between them there is no block. -/
theorem recorded_grown (h : s.allocator.Recorded s.heap) (hfree : s.allocator.free = [])
    (hroom : s.allocator.border < s.allocator.maxBorder) :
    s.grown.allocator.Recorded s.grown.heap := by
  have hnone : ∀ k, k ∉ s.allocator.free := by
    intro k
    rw [hfree]
    exact List.not_mem_nil
  have hfits : s.grown.allocator.FitsIn (s.heap.put
      (s.allocator.trailerStart (s.allocator.border + 1)) [Trailer.border]) :=
    ⟨h.fits.payload, (h.fits.put _ _).span_le⟩
  refine hfits.recorded_put hroom h.ascending h.free_pos
    (fun k hk => absurd hk (hnone k)) h.border_le ?_ ?_
  · exact trailerOf_allocated (Nat.ne_of_lt (Nat.lt_succ_self _)) (hnone _)
  · intro k hk hne
    have hput := h.fits.getElem?_put_trailer hroom Trailer.border k
    refine hput.trans ?_
    by_cases hnew : k = s.allocator.border + 1
    · rw [if_pos hnew, hnew]
      exact congrArg some (trailerOf_border s.grown.allocator).symm
    · have hle : k ≤ s.allocator.border := by
        have hle' : k ≤ s.allocator.border + 1 := hk
        omega
      rw [if_neg hnew, h.trailers k hle, trailerOf_allocated hne (hnone k)]
      exact congrArg some (trailerOf_allocated (a := s.grown.allocator) hnew (hnone k)).symm

theorem inUse_grown (hfree : s.allocator.free = []) (k : Nat) :
    s.grown.allocator.InUse k ↔ k = s.allocator.border + 1 ∨ s.allocator.InUse k := by
  simp only [InUse, grown, hfree, List.not_mem_nil, not_false_eq_true, and_true]
  omega

theorem recorded_released (h : s.allocator.Recorded s.heap) (hn : s.allocator.InUse n)
    (hbelow : n < s.allocator.border) :
    (s.released n).allocator.Recorded (s.released n).heap := by
  obtain ⟨hpos, -, -⟩ := hn
  refine FitsIn.recorded_put ⟨h.fits.payload, h.fits.span_le⟩ h.border_le
    (pairwise_insertAscending h.ascending n) ?_ ?_
    (Nat.le_trans (Nat.le_of_lt hbelow) h.border_le) ?_ ?_
  · intro k hk
    rcases mem_insertAscending.1 hk with rfl | hk
    · exact hpos
    · exact h.free_pos k hk
  · intro k hk
    rcases mem_insertAscending.1 hk with rfl | hk
    · exact hbelow
    · exact h.free_lt k hk
  · exact trailerOf_freed (Nat.ne_of_lt hbelow) (mem_insertAscending.2 (.inl rfl))
  · intro k hk hne
    have hiff : k ∈ insertAscending n s.allocator.free ↔ k ∈ s.allocator.free := by
      rw [mem_insertAscending]
      exact ⟨fun hor => hor.resolve_left hne, .inr⟩
    have htrailer := h.trailers k hk
    simp only [trailerOf, ← hiff] at htrailer
    exact htrailer

theorem inUse_released (k : Nat) :
    (s.released n).allocator.InUse k ↔ k ≠ n ∧ s.allocator.InUse k := by
  simp only [InUse, released, mem_insertAscending, not_or]
  constructor
  · rintro ⟨hpos, hle, hne, hfree⟩
    exact ⟨hne, hpos, hle, hfree⟩
  · rintro ⟨hne, hpos, hle, hfree⟩
    exact ⟨hpos, hle, hne, hfree⟩

/-- What is left of the free set are its members below the new border. -/
theorem mem_leftFree {a : Allocator} {heap : Region} (h : a.Recorded heap) (hbelow : below ∉ a.free)
    (k : Nat) : k ∈ leftFree a below ↔ k ∈ a.free ∧ k < below := by
  rw [leftFree, List.mem_filter, decide_eq_true_eq]
  refine and_congr_right fun hk => ?_
  have hlt := h.free_lt k hk
  have hne : k ≠ below := fun heq => hbelow (heq ▸ hk)
  omega

theorem recorded_shrunk (h : s.allocator.Recorded s.heap) (hbelow : below < s.allocator.border)
    (hfree : below ∉ s.allocator.free) :
    (s.shrunk below).allocator.Recorded (s.shrunk below).heap := by
  have hmem := mem_leftFree h hfree
  have hmax := Nat.le_trans (Nat.le_of_lt hbelow) h.border_le
  refine FitsIn.recorded_put ⟨h.fits.payload, h.fits.span_le⟩ hmax
    (h.ascending.filter _) (fun k hk => h.free_pos k ((hmem k).1 hk).1)
    (fun k hk => ((hmem k).1 hk).2) hmax (trailerOf_border _) ?_
  intro k hk hne
  have hle : k ≤ below := hk
  have hborder : ¬k = s.allocator.border := by omega
  have hnew : ¬k = (s.shrunk below).allocator.border := hne
  have hiff : k ∈ leftFree s.allocator below ↔ k ∈ s.allocator.free :=
    (hmem k).trans (and_iff_left (by omega))
  have htrailer := h.trailers k (by omega)
  simp only [trailerOf, if_neg hborder, ← hiff] at htrailer
  rw [trailerOf, if_neg hnew]
  exact htrailer

theorem inUse_shrunk (h : s.allocator.Recorded s.heap) (hbelow : below < s.allocator.border)
    (hfree : below ∉ s.allocator.free)
    (hpassed : ∀ k, below < k → k ≤ s.allocator.border - 1 → k ∈ s.allocator.free) (k : Nat) :
    (s.shrunk below).allocator.InUse k ↔ k ≠ s.allocator.border ∧ s.allocator.InUse k := by
  simp only [InUse, shrunk, mem_leftFree h hfree]
  constructor
  · rintro ⟨hpos, hle, hleft⟩
    refine ⟨by omega, hpos, by omega, fun hmem => ?_⟩
    -- a freed block up to the new border is below it, and so still freed
    have hne : k ≠ below := fun heq => hfree (heq ▸ hmem)
    exact hleft ⟨hmem, by omega⟩
  · rintro ⟨hne, hpos, hle, hmem⟩
    refine ⟨hpos, ?_, fun hboth => hmem hboth.1⟩
    rcases Nat.lt_or_ge below k with hlt | hge
    · exact absurd (hpassed k hlt (by omega)) hmem
    · exact hge

/-! ## How the operations end -/

/-- From `s` to `t` the sizes stay, and the blocks that are in use are these now. The new state is
recorded again, so the operations can be told one after the other by their blocks alone. -/
structure Updated (s t : BlockHeap) (inUse : Nat → Prop) : Prop where
  recorded : t.allocator.Recorded t.heap
  blockSize_eq : t.allocator.blockSize = s.allocator.blockSize
  maxBorder_eq : t.allocator.maxBorder = s.allocator.maxBorder
  inUse_iff : ∀ k, t.allocator.InUse k ↔ inUse k

/-- **How an allocation ends**: with a block that was not in use, or with none, because
all of them are. -/
theorem alloc_cases (h : s.allocator.Recorded s.heap) :
    (s.allocator.free = [] ∧ s.allocator.border = s.allocator.maxBorder ∧
      alloc s = (.error (.failed .heapExhausted), s)) ∨
    ∃ n t, alloc s = (.ok (s.allocator.blockStart n), t) ∧
      (0 < n ∧ n ≤ s.allocator.maxBorder ∧ ¬s.allocator.InUse n) ∧
      Updated s t fun k => k = n ∨ s.allocator.InUse k := by
  cases hfree : s.allocator.free with
  | nil =>
    by_cases hfull : s.allocator.border = s.allocator.maxBorder
    · exact .inl ⟨rfl, hfull, allocBy_of_full mark hfree hfull⟩
    · have hroom := Nat.lt_of_le_of_ne h.border_le hfull
      have hnew : ¬s.allocator.InUse (s.allocator.border + 1) :=
        fun hn => Nat.not_succ_le_self _ hn.2.1
      exact .inr ⟨_, _, alloc_of_room h.fits hfree hroom, ⟨Nat.succ_pos _, hroom, hnew⟩,
        recorded_grown h hfree hroom, rfl, rfl, inUse_grown hfree⟩
  | cons n rest =>
    obtain ⟨hmem, hpos, -, hle, -⟩ := h.first_freed hfree
    exact .inr ⟨n, _, alloc_of_freed h.fits hle hfree, ⟨hpos, hle, fun hn => hn.2.2 hmem⟩,
      recorded_recycled h hfree, rfl, rfl, inUse_recycled h hfree⟩

/-- **A block in use is freed**, and no other one. Where the trailers record the allocator, the way
down from a freed border meets no corrupted one; so freeing succeeds, and the blocks in use
afterwards are those of before without this one. -/
theorem free_of_inUse (h : s.allocator.Recorded s.heap) (hn : s.allocator.InUse n) :
    ∃ t, free (s.allocator.blockStart n) s = (.ok (), t) ∧
      Updated s t fun k => k ≠ n ∧ s.allocator.InUse k := by
  rcases Nat.lt_or_ge n s.allocator.border with hbelow | hge
  · exact ⟨_, free_of_below h.fits h.border_le hn hbelow, recorded_released h hn hbelow, rfl, rfl,
      inUse_released⟩
  · have hborder : n = s.allocator.border := Nat.le_antisymm hn.2.1 hge
    have hpos : 0 < s.allocator.border := hborder ▸ hn.1
    rw [hborder] at hn ⊢
    obtain ⟨below, hdescend, hle, hfree, hpassed⟩ :=
      descend_of_recorded h (s.allocator.border - 1) (by omega)
    have hlt : below < s.allocator.border := by omega
    exact ⟨_, free_of_border h.fits h.border_le hn hdescend hlt, recorded_shrunk h hlt hfree,
      rfl, rfl, inUse_shrunk h hlt hfree hpassed⟩

/-- Any other offset is refused, and nothing changes. -/
theorem free_of_not_inUse {offset : Nat} (h : s.allocator.Recorded s.heap)
    (hnone : ∀ n, s.allocator.InUse n → offset ≠ s.allocator.blockStart n) :
    free offset s = (.error (.failed (.invalidBlock offset)), s) :=
  freeBy_of_not_inUse mark h.fits hnone

end BlockHeap

end DurableCalls
