/-
`AnyHeap.lean` -- swaps over a heap of which nothing is known but its size.

Whatever eight bytes a register has, they are an owner and a value, and whatever bytes a
matrix has, they are its cells (`FitsIn.exists_shows`). So a swap on a register and a matrix
that fit the heap ends with an answer, or it is refused for the owner that it found, and then
nothing is changed (`attempt_on_any_word`). A register outlives the run that wrote it, so such
an owner may be a thread of an earlier run that had more of them (`formerOwner_refused`).
A recovery ends in the same ways (`recover_ends`), and neither writes anything but the register
and the matrix (`Site.Spares`).
-/
import DurableCalls.Proofs.Swap.Steps

set_option autoImplicit false

namespace DurableCalls

open Region

/-! ## What the bytes show -/

/-- Every word is an owner and a value. -/
theorem Register.pack_unpack {word : Nat} (h : word < wordLimit) : (unpack word).pack = word := by
  have howner : (UInt32.ofNat word).toNat = word % halfWordLimit := UInt32.toNat_ofNat'
  have hvalue : (UInt32.ofNat (word / halfWordLimit)).toNat = word / halfWordLimit :=
    UInt32.toNat_ofNat_of_lt' (by unfold halfWordLimit wordLimit UInt32.size at *; omega)
  rw [pack, unpack, howner, hvalue, Nat.mul_comm]
  exact Nat.div_add_mod word halfWordLimit

theorem Register.pack_injective : Function.Injective pack :=
  Function.LeftInverse.injective unpack_pack

namespace Site

variable {site : Site} {heap : Region}

theorem FitsIn.exists_cell (h : site.FitsIn heap.size) {row col : UInt32}
    (hrow : row < site.matrix.threads) (hcol : col < site.matrix.threads) :
    ∃ value : UInt32, heap.readNumber 4 (site.matrix.cellOffset row col) = .ok value.toNat := by
  obtain ⟨bytes, hread⟩ := exists_read (h.cell_in hrow hcol)
  have hlt := ofBytes_lt bytes
  rw [(read_eq_ok_iff.1 hread).2.1, byteRange_four] at hlt
  refine ⟨UInt32.ofNat (ofBytes bytes), ?_⟩
  rw [readNumber_of_read hread, UInt32.toNat_ofNat_of_lt' hlt]

theorem FitsIn.exists_shows (h : site.FitsIn heap.size) :
    ∃ current cells, site.Shows heap current cells := by
  obtain ⟨bytes, hread⟩ := exists_read h.register_in
  have hlt := ofBytes_lt bytes
  rw [(read_eq_ok_iff.1 hread).2.1, byteRange_eight] at hlt
  have hcells : ∀ row col, ∃ value : UInt32, row < site.matrix.threads →
      col < site.matrix.threads →
      heap.readNumber 4 (site.matrix.cellOffset row col) = .ok value.toNat := by
    intro row col
    by_cases hin : row < site.matrix.threads ∧ col < site.matrix.threads
    · obtain ⟨value, hvalue⟩ := h.exists_cell hin.1 hin.2
      exact ⟨value, fun _ _ => hvalue⟩
    · exact ⟨0, fun hrow hcol => absurd ⟨hrow, hcol⟩ hin⟩
  choose cells hcells using hcells
  refine ⟨Register.unpack (ofBytes bytes), cells, h, ?_, hcells⟩
  rw [readNumber_of_read hread, Register.pack_unpack hlt]

/-- A register is loaded from its own bytes. -/
theorem FitsIn.load_of_agree {after : Region} (h : site.FitsIn heap.size)
    (hagree : Agree site.register (site.register + 8) heap after) :
    Register.load after site.register = Register.load heap site.register := by
  obtain ⟨current, cells, hshows⟩ := h.exists_shows
  rw [← hagree.1] at h
  obtain ⟨current', cells', hshows'⟩ := h.exists_shows
  have hpack := readNumber_of_agree hagree
  rw [hshows.register_eq, hshows'.register_eq] at hpack
  rw [hshows.load_register, hshows'.load_register, Register.pack_injective (Except.ok.inj hpack)]

end Site

/-! ## Writes to a site, and to single bytes -/

theorem Region.path_put (r : Region) (offset : Nat) (data : List UInt8) :
    (r.put offset data).path = r.path := rfl

namespace Site

variable {site : Site} {heap heap' heap'' : Region} {bytes bytes' : List Nat}

/-- Nothing differs but the register, the matrix and some other bytes. The bytes are named by their
offsets; they are the answers that were published meanwhile. -/
structure Spares (site : Site) (bytes : List Nat) (heap heap' : Region) : Prop where
  path_eq : heap'.path = heap.path
  size_eq : heap'.size = heap.size
  same : ∀ i, site.Beside i (i + 1) → i ∉ bytes → heap'.cells[i]? = heap.cells[i]?

namespace Spares

theorem refl : site.Spares bytes heap heap := ⟨rfl, rfl, fun _ _ _ => rfl⟩

theorem trans (h : site.Spares bytes heap heap') (h' : site.Spares bytes heap' heap'') :
    site.Spares bytes heap heap'' :=
  ⟨h'.path_eq.trans h.path_eq, h'.size_eq.trans h.size_eq,
    fun i hi hnot => (h'.same i hi hnot).trans (h.same i hi hnot)⟩

theorem mono (h : site.Spares bytes heap heap') (hsub : bytes ⊆ bytes') :
    site.Spares bytes' heap heap' :=
  ⟨h.path_eq, h.size_eq, fun i hi hnot => h.same i hi fun hmem => hnot (hsub hmem)⟩

/-- One more byte. -/
theorem put {offset : Nat} (h : site.Spares bytes heap heap') (hin : offset + 1 ≤ heap.size)
    (value : UInt8) : site.Spares (offset :: bytes) heap (heap'.put offset [value]) := by
  refine ⟨h.path_eq, by rw [size_put, h.size_eq], fun i hi hnot => ?_⟩
  obtain ⟨hne, hnot⟩ := not_or.1 (fun hor => hnot (List.mem_cons.2 hor))
  have hin' : offset + [value].length ≤ heap'.cells.size := by
    have hsize := h.size_eq
    rw [Region.size] at hsize
    rw [hsize]
    exact hin
  have hout : ¬(offset ≤ i ∧ i < offset + [value].length) := by
    rw [List.length_singleton]
    omega
  exact (getElem?_overwrite heap'.cells offset [value] hin' i).trans
    ((if_neg hout).trans (h.same i hi hnot))

theorem put_register (h : site.FitsIn heap.size) (word : Nat) :
    site.Spares bytes heap (heap.put site.register (toBytes 8 word)) := by
  refine ⟨path_put _ _ _, size_put _ _ _, fun i hi _ => ?_⟩
  have hagree : Agree i (i + 1) heap (heap.put site.register (toBytes 8 word)) :=
    agree_put (by rw [length_toBytes]; exact h.register_in)
      (by rw [length_toBytes]; exact hi.register)
  exact hagree.2 i (Nat.le_refl _) (Nat.lt_succ_self _)

theorem put_cell {row col : UInt32} (h : site.FitsIn heap.size) (hrow : row < site.matrix.threads)
    (hcol : col < site.matrix.threads) (number : Nat) :
    site.Spares bytes heap (heap.put (site.matrix.cellOffset row col) (toBytes 4 number)) := by
  refine ⟨path_put _ _ _, size_put _ _ _, fun i hi _ => ?_⟩
  have hle := Matrix.cellOffset_add_le hrow hcol
  have hge : site.matrix.offset ≤ site.matrix.cellOffset row col := Nat.le_add_right _ _
  have hbeside := hi.matrix
  have hagree : Agree i (i + 1) heap
      (heap.put (site.matrix.cellOffset row col) (toBytes 4 number)) :=
    agree_put (by rw [length_toBytes]; exact h.cell_in hrow hcol)
      (by rw [length_toBytes]; omega)
  exact hagree.2 i (Nat.le_refl _) (Nat.lt_succ_self _)

end Spares

end Site

/-! ## Swaps -/

namespace Swap

variable {s : Swap} {heap : Region} {bytes : List Nat}

theorem spares_writes {found : Register} (h : s.site.FitsIn heap.size)
    (hthread : s.thread < s.matrix.threads) (howner : s.Owned found) :
    s.site.Spares bytes heap (heap.putAll (s.writes found)) := by
  by_cases hvalue : found.value = s.expected
  · rw [writes, if_pos hvalue, putAll_append]
    have hnoted : s.site.Spares bytes heap (heap.putAll (s.noteWrites found)) := by
      by_cases hnone : found.owner = Register.noOwner
      · rw [noteWrites, if_pos hnone]
        exact .refl
      · rw [noteWrites, if_neg hnone]
        exact .put_cell h (howner.resolve_left hnone) hthread _
    rw [← hnoted.size_eq] at h
    exact hnoted.trans (.put_register h _)
  · rw [writes, if_neg hvalue]
    exact .refl

/-- A note for an owner that is no thread is refused. -/
theorem announce_of_not_owned {found : Register} (h : ¬s.Owned found) (heap : Region) :
    s.announce found heap
      = (.error (.failed (.invalidThread found.owner s.matrix.threads)), heap) := by
  obtain ⟨hnone, hlt⟩ : found.owner ≠ Register.noOwner ∧ ¬found.owner < s.matrix.threads :=
    not_or.1 h
  have hcell : s.matrix.cellAt found.owner s.thread
      = .error (.failed (.invalidThread found.owner s.matrix.threads)) := by
    rw [Matrix.cellAt, checkThread, if_neg hlt]
    rfl
  rw [announce, if_pos hnone, Matrix.commit,
    Run.bind_of_error (by rw [Run.liftHalt_apply, hcell])]

/-- The run answers and has written to the site alone, or it fails and has changed nothing. -/
def EndsBeside (s : Swap) (m : Run Region Bool) (heap : Region) : Prop :=
  (∃ yes swapped, m heap = (.ok yes, swapped) ∧ ∀ bytes, s.site.Spares bytes heap swapped) ∨
  ∃ f, f.isCrash = false ∧ m heap = (.error (.failed f), heap)

/-- A swap that would have to leave a note for no thread is refused. -/
theorem attempt_of_not_owned {current : Register} (hthread : s.thread < s.matrix.threads)
    (hload : Register.load heap s.register = .ok current) (hvalue : current.value = s.expected)
    (howner : ¬s.Owned current) :
    s.attempt heap
      = (.error (.failed (.invalidThread current.owner s.matrix.threads)), heap) := by
  rw [attempt_of_load hthread hload, if_pos hvalue,
    Run.bind_of_error (announce_of_not_owned howner heap)]

/-- **How a swap ends**, on whatever it finds. The bytes of the register are some owner and some
value. An owner that the matrix has no row for refuses the swap, and in all other cases it answers.
-/
theorem attempt_ends (hfits : s.site.FitsIn heap.size) (hal : s.site.Aligned)
    (hthread : s.thread < s.matrix.threads) : s.EndsBeside s.attempt heap := by
  obtain ⟨current, cells, hshows⟩ := hfits.exists_shows
  by_cases howner : s.Owned current
  · exact .inl ⟨_, _, attempt_apply hshows hthread howner (.inr hal),
      fun _ => spares_writes hfits hthread howner⟩
  · by_cases hvalue : current.value = s.expected
    · exact .inr ⟨.invalidThread current.owner s.matrix.threads, rfl,
        attempt_of_not_owned hthread hshows.load_register hvalue howner⟩
    · refine .inl ⟨false, heap, ?_, fun _ => .refl⟩
      rw [attempt_of_load hthread hshows.load_register, if_neg hvalue]

/-- **A swap on any register word.** With another value in the register nothing happens. With the
expected value the new one is installed, if the owner is no thread's mark or one of the threads
that the matrix has; any other owner has no row for the note, and the swap is refused. -/
theorem attempt_on_any_word (hfits : s.site.FitsIn heap.size) (hal : s.site.Aligned)
    (hthread : s.thread < s.matrix.threads) :
    ∃ current, Register.load heap s.register = .ok current ∧
      (current.value ≠ s.expected → s.attempt heap = (.ok false, heap)) ∧
      (current.value = s.expected → s.Owned current →
        ∃ after, s.attempt heap = (.ok true, after) ∧
          Register.load after s.register = .ok ⟨s.thread, s.new⟩ ∧
          s.site.Spares [] heap after) ∧
      (current.value = s.expected → ¬s.Owned current →
        s.attempt heap
          = (.error (.failed (.invalidThread current.owner s.matrix.threads)), heap)) := by
  obtain ⟨current, cells, hshows⟩ := hfits.exists_shows
  have hload : Register.load heap s.register = .ok current := hshows.load_register
  refine ⟨current, hload, fun hvalue => ?_, fun hvalue howner => ?_,
    attempt_of_not_owned hthread hload⟩
  · rw [attempt_of_load hthread hload, if_neg hvalue]
  · have hattempt := attempt_apply hshows hthread howner (.inr hal)
    rw [decide_eq_true hvalue] at hattempt
    have hnoted := shows_noted hshows rfl hthread howner
    refine ⟨_, hattempt, ?_, spares_writes hfits hthread howner⟩
    rw [writes, if_pos hvalue, putAll_append]
    exact (hnoted.put_register s.installed).load_register

/-- What a run of two threads has left: thread 1 has replaced the 5 by 7. -/
def formerHeap : Region := ((Swap.mk 0 ⟨64, 2⟩ 5 7 1).attempt startHeap).2

theorem formerHeap_shows :
    (Swap.mk 0 ⟨64, 2⟩ 5 7 1).attempt startHeap = (.ok true, formerHeap) ∧
    ∃ cells, Site.Shows ⟨0, ⟨64, 2⟩⟩ formerHeap ⟨1, 7⟩ cells := by
  have hstart : (Swap.mk 0 ⟨64, 2⟩ 5 7 1).site.Shows startHeap ⟨Register.noOwner, 5⟩ fun _ _ => 0 :=
    startHeap_shows (by decide)
  rcases attempt_cases hstart (by decide) (.inl rfl) with ⟨hvalue, -⟩
    | ⟨-, -, after, hattempt, hafter, -⟩ | ⟨-, hnote, -⟩
  · exact absurd rfl hvalue
  · rw [formerHeap, hattempt]
    exact ⟨rfl, _, hafter⟩
  · exact absurd (.inl rfl) hnote

/-- The next of the two threads finds a known owner, and swaps. -/
theorem nextSwap_installed :
    (Swap.mk 0 ⟨64, 2⟩ 7 9 0).site.FitsIn formerHeap.size ∧
    (Swap.mk 0 ⟨64, 2⟩ 7 9 0).site.Aligned ∧
    ∃ after, (Swap.mk 0 ⟨64, 2⟩ 7 9 0).attempt formerHeap = (.ok true, after) ∧
      Register.load after 0 = .ok ⟨0, 9⟩ := by
  obtain ⟨-, cells, hshows⟩ := formerHeap_shows
  obtain ⟨current, hload, -, hswaps, -⟩ :=
    attempt_on_any_word (s := ⟨0, ⟨64, 2⟩, 7, 9, 0⟩) hshows.fits rfl (by decide)
  obtain rfl : ⟨1, 7⟩ = current := Except.ok.inj (hshows.load_register.symm.trans hload)
  obtain ⟨after, hattempt, hinstalled, -⟩ := hswaps rfl (.inr (by decide))
  exact ⟨hshows.fits, rfl, after, hattempt, hinstalled⟩

/-- **The mark of a former thread stops a swap.** The register has the expected 7, and it fits the
heap with a matrix for a single thread. But its owner was the second thread of an earlier run. -/
theorem formerOwner_refused :
    (Swap.mk 0 ⟨64, 1⟩ 7 9 0).site.FitsIn formerHeap.size ∧
    (Swap.mk 0 ⟨64, 1⟩ 7 9 0).site.Aligned ∧
    Register.load formerHeap 0 = .ok ⟨1, 7⟩ ∧
    (Swap.mk 0 ⟨64, 1⟩ 7 9 0).attempt formerHeap
      = (.error (.failed (.invalidThread 1 1)), formerHeap) := by
  obtain ⟨-, cells, hshows⟩ := formerHeap_shows
  have hload : Register.load formerHeap 0 = .ok ⟨1, 7⟩ := hshows.load_register
  have hbytes : (Matrix.mk 64 1).bytes ≤ (Matrix.mk 64 2).bytes := by decide
  have hfits : (Swap.mk 0 ⟨64, 1⟩ 7 9 0).site.FitsIn formerHeap.size :=
    { line := rfl
      register_in := hshows.fits.register_in
      matrix_in := Nat.le_trans (Nat.add_le_add_left hbytes 64) hshows.fits.matrix_in
      apart := .inl (show 0 + 8 ≤ 64 by decide) }
  have howner : ¬(Swap.mk 0 ⟨64, 1⟩ 7 9 0).Owned ⟨1, 7⟩ := not_or.2 ⟨by decide, by decide⟩
  have hrefused := attempt_of_not_owned (s := ⟨0, ⟨64, 1⟩, 7, 9, 0⟩) (by decide) hload rfl howner
  exact ⟨hfits, rfl, hload, hrefused⟩

/-- **How the recovery of a swap ends**, on whatever it finds. It sees a trace and answers without a
write, or it sees none and is the swap. -/
theorem recover_ends (hfits : s.site.FitsIn heap.size) (hal : s.site.Aligned)
    (hthread : s.thread < s.matrix.threads) : s.EndsBeside s.recover heap := by
  obtain ⟨current, cells, hshows⟩ := hfits.exists_shows
  by_cases htrace : current = s.installed ∨ s.Noticed cells
  · have hrecover := recover_of_trace hshows hthread (htrace.imp_right fun h => ⟨hal, h⟩)
    exact .inl ⟨true, heap, hrecover, fun _ => .refl⟩
  · obtain ⟨hregister, hnoticed⟩ := not_or.1 htrace
    rw [EndsBeside, recover_of_no_trace hshows hal hthread hregister hnoticed]
    exact attempt_ends hfits hal hthread

end Swap

end DurableCalls
