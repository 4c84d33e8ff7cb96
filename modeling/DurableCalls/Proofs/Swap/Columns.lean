/-
`Columns.lean` -- what one thread writes of a matrix, and what it reads of it.

A thread notes in its own column what it overwrites, and it searches its own row. So a swap or a
recovery writes one cell in the column of its thread at most, and what it returns and leaves in
the register is settled by the register and the row of its thread alone (`Swap.perform_settled`).
Cells share no byte, so each of them has one thread that writes it and one that reads it
(`Swap.one_writer_one_reader`).
-/
import DurableCalls.Proofs.Call.SwapTask
import DurableCalls.Proofs.Swap.AnyHeap

set_option autoImplicit false

namespace DurableCalls

open Region

/-! ## Heaps that show a thread the same -/

namespace Region

variable {r r' : Region} {offset len : Nat} {data : List UInt8}

/-- Two regions, of any two sizes, have the same bytes on `[lo, hi)`. -/
def SameBytes (lo hi : Nat) (r r' : Region) : Prop :=
  ∀ i, lo ≤ i → i < hi → r'.cells[i]? = r.cells[i]?

/-- What can be read in both of them is the same. -/
theorem read_of_sameBytes (hin : offset + len ≤ r.size) (hin' : offset + len ≤ r'.size)
    (h : SameBytes offset (offset + len) r r') : r'.read offset len = r.read offset len := by
  obtain ⟨bytes, hread⟩ := exists_read hin
  obtain ⟨-, hlen, hbytes⟩ := read_eq_ok_iff.1 hread
  rw [hread]
  refine read_eq_ok_iff.2 ⟨hin', hlen, fun i hi => ?_⟩
  rw [hbytes i hi, h (offset + i) (by omega) (by omega)]

theorem readNumber_of_sameBytes (hin : offset + len ≤ r.size) (hin' : offset + len ≤ r'.size)
    (h : SameBytes offset (offset + len) r r') :
    r'.readNumber len offset = r.readNumber len offset := by
  rw [readNumber, readNumber, read_of_sameBytes hin hin' h]

/-- A byte that was put is there, and the others are what they were. -/
theorem getElem?_put (hin : offset + data.length ≤ r.size) (i : Nat) :
    (r.put offset data).cells[i]?
      = if offset ≤ i ∧ i < offset + data.length then data[i - offset]? else r.cells[i]? :=
  getElem?_overwrite r.cells offset data hin i

end Region

namespace Site

/-- What a thread looks at is the same: the register, and the cells of its row. The heaps may differ
in everything else, also in the rows of all other threads. -/
structure SameFor (site : Site) (thread : UInt32) (heap heap' : Region) : Prop where
  register : SameBytes site.register (site.register + 8) heap heap'
  row : ∀ col, col < site.matrix.threads → SameBytes (site.matrix.cellOffset thread col)
    (site.matrix.cellOffset thread col + 4) heap heap'

/-- The same bytes show the same register and the same row. -/
theorem Shows.of_sameFor {site : Site} {thread : UInt32} {heap heap' : Region} {current : Register}
    {cells : Cells} (h : site.Shows heap current cells) (hfits : site.FitsIn heap'.size)
    (hsame : site.SameFor thread heap heap') (hthread : thread < site.matrix.threads) :
    ∃ cells', site.Shows heap' current cells' ∧
      ∀ col, col < site.matrix.threads → cells' thread col = cells thread col := by
  obtain ⟨current', cells', hshows⟩ := hfits.exists_shows
  have hpack := readNumber_of_sameBytes h.fits.register_in hfits.register_in hsame.register
  -- no two registers have the same eight bytes
  rw [h.register_eq, hshows.register_eq] at hpack
  obtain rfl := Register.pack_injective (Except.ok.inj hpack)
  refine ⟨cells', hshows, fun col hcol => ?_⟩
  have hcell := readNumber_of_sameBytes (h.fits.cell_in hthread hcol)
    (hfits.cell_in hthread hcol) (hsame.row col hcol)
  rw [h.cell_eq thread col hthread hcol, hshows.cell_eq thread col hthread hcol] at hcell
  exact UInt32.toNat_inj.1 (Except.ok.inj hcell)

end Site

/-! ## What a call does with what it sees -/

/-- Bytes enough for a word number its cells. -/
theorem Matrix.size_of_lt {m : Matrix} (h : m.bytes < wordLimit) :
    Matrix.size m.threads = .ok m.bytes := by
  have hthreads := m.threads.toNat_lt
  have hrow : mulWord 4 m.threads.toNat = .ok (4 * m.threads.toNat) :=
    mulWord_eq_ok.2 ⟨by simp only [wordLimit]; omega, rfl⟩
  have hbytes : 4 * m.threads.toNat * m.threads.toNat = m.bytes := Nat.mul_assoc _ _ _
  rw [Matrix.size, hrow]
  show mulWord (4 * m.threads.toNat) m.threads.toNat = _
  exact mulWord_eq_ok.2 ⟨by rwa [hbytes], hbytes.symm⟩

namespace Swap

variable {s : Swap} {heap heap' : Region} {found : Register} {ws : List Write}

/-- A call writes nothing, or it leaves its note and installs its value. -/
def Permits (s : Swap) (found : Register) (ws : List Write) : Prop :=
  ws = [] ∨ s.Owned found ∧ ws = s.noteWrites found ++ [s.installWrite]

/-- What a swap returns and writes is settled by the register. -/
theorem attempt_settled (hal : s.site.Aligned) (hthread : s.thread < s.matrix.threads)
    (found : Register) :
    ∃ outcome ws, s.Permits found ws ∧ ∀ heap cells, s.site.Shows heap found cells →
      s.attempt heap = (outcome, heap.putAll ws) := by
  by_cases hvalue : found.value = s.expected
  · by_cases howner : s.Owned found
    · refine ⟨.ok true, s.writes found, .inr ⟨howner, if_pos hvalue⟩, fun heap cells hshows => ?_⟩
      rw [attempt_apply hshows hthread howner (.inr hal), decide_eq_true hvalue]
    · -- an owner that is no thread has no row, so the swap is refused before it writes
      exact ⟨_, [], .inl rfl, fun heap cells hshows =>
        attempt_of_not_owned hthread hshows.load_register hvalue howner⟩
  · refine ⟨.ok false, [], .inl rfl, fun heap cells hshows => ?_⟩
    rw [attempt_of_load hthread hshows.load_register, if_neg hvalue, putAll_nil]

/-- **What a call returns and writes is settled by the register and the row of its thread.** Two
heaps that agree there, and on nothing else, have the same outcome and get the same writes. For a
swap that is not a recovery, not even the row matters. -/
theorem perform_settled (hal : s.site.Aligned) (hthread : s.thread < s.matrix.threads)
    (recover : Bool) (found : Register) (row : UInt32 → UInt32) :
    ∃ outcome ws, s.Permits found ws ∧ ∀ heap cells, s.site.Shows heap found cells →
      (∀ col, col < s.matrix.threads → cells s.thread col = row col) →
      s.perform recover heap = (outcome, heap.putAll ws) := by
  obtain ⟨outcome, ws, hpermits, hattempt⟩ := attempt_settled hal hthread found
  cases recover with
  | false => exact ⟨outcome, ws, hpermits, fun heap cells hshows _ => hattempt heap cells hshows⟩
  | true =>
    -- a trace is looked for in the register and in the row of the thread, and nowhere else
    by_cases htrace : found = s.installed ∨ ∃ col, col < s.matrix.threads ∧ row col = s.new
    · refine ⟨.ok true, [], .inl rfl, fun heap cells hshows hrow => ?_⟩
      refine recover_of_trace hshows hthread (htrace.imp_right ?_)
      rintro ⟨col, hcol, hnew⟩
      exact ⟨hal, col, hcol, (hrow col hcol).trans hnew⟩
    · obtain ⟨hregister, hnone⟩ := not_or.1 htrace
      refine ⟨outcome, ws, hpermits, fun heap cells hshows hrow => ?_⟩
      have hnoticed : ¬s.Noticed cells := by
        rintro ⟨col, hcol, hnew⟩
        exact hnone ⟨col, hcol, (hrow col hcol).symm.trans hnew⟩
      show s.recover heap = _
      rw [recover_of_no_trace hshows hal hthread hregister hnoticed]
      exact hattempt heap cells hshows

/-! ## Where it writes -/

theorem installed_in (hfits : s.site.FitsIn heap.size) :
    s.register + (toBytes 8 s.installed.pack).length ≤ heap.size := by
  rw [length_toBytes]
  exact hfits.register_in

/-- The installed value stands in the register, whatever was noted before. -/
theorem getElem?_installed (hfits : s.site.FitsIn heap.size) {i : Nat} (hlo : s.register ≤ i)
    (hhi : i < s.register + 8) :
    (heap.putAll (s.noteWrites found ++ [s.installWrite])).cells[i]?
      = (toBytes 8 s.installed.pack)[i - s.register]? := by
  rw [← size_putAll heap (s.noteWrites found)] at hfits
  rw [putAll_append]
  refine (getElem?_put (installed_in hfits) i).trans (if_pos ⟨hlo, ?_⟩)
  rwa [length_toBytes]

/-- Nothing is written but the register and one cell of the column. Which cell that is depends on
the owner that was found in the register. -/
theorem getElem?_beside (hfits : s.site.FitsIn heap.size) (hthread : s.thread < s.matrix.threads)
    (hpermits : s.Permits found ws) :
    ∃ row, row < s.matrix.threads ∧ ∀ i, ¬(s.register ≤ i ∧ i < s.register + 8) →
      ¬(s.matrix.cellOffset row s.thread ≤ i ∧ i < s.matrix.cellOffset row s.thread + 4) →
      (heap.putAll ws).cells[i]? = heap.cells[i]? := by
  rcases hpermits with rfl | ⟨howner, rfl⟩
  · exact ⟨s.thread, hthread, fun _ _ _ => rfl⟩
  have hinstall : ∀ i, ¬(s.register ≤ i ∧ i < s.register + 8) →
      (heap.putAll (s.noteWrites found ++ [s.installWrite])).cells[i]?
        = (heap.putAll (s.noteWrites found)).cells[i]? := by
    intro i hi
    rw [← size_putAll heap (s.noteWrites found)] at hfits
    rw [putAll_append]
    refine (getElem?_put (installed_in hfits) i).trans (if_neg ?_)
    rwa [length_toBytes]
  by_cases hnone : found.owner = Register.noOwner
  · -- nothing is noted then, and any cell of the column will do
    refine ⟨s.thread, hthread, fun i hregister _ => ?_⟩
    rw [hinstall i hregister, noteWrites, if_pos hnone, putAll_nil]
  · have hrow := howner.resolve_left hnone
    have hin : s.matrix.cellOffset found.owner s.thread + (toBytes 4 found.value.toNat).length
        ≤ heap.size := by
      rw [length_toBytes]
      exact hfits.cell_in hrow hthread
    refine ⟨found.owner, hrow, fun i hregister hcell => ?_⟩
    rw [hinstall i hregister, noteWrites, if_neg hnone]
    refine (getElem?_put hin i).trans (if_neg ?_)
    rwa [length_toBytes]

/-- **A cell has one writer and one reader.** A swap or a recovery changes no byte but those of the
register and of one cell in the column of its thread. Cells lie inside their matrix, and no two of
them share a byte. And on another heap, of any size, with the same register and the same row of the
thread, the call returns the same and leaves the same register. -/
theorem one_writer_one_reader (hfits : s.site.FitsIn heap.size) (hal : s.site.Aligned)
    (hthread : s.thread < s.matrix.threads) (recover : Bool) :
    ((s.perform recover heap).2.size = heap.size ∧
      ∃ row, row < s.matrix.threads ∧ ∀ i, ¬(s.register ≤ i ∧ i < s.register + 8) →
        ¬(s.matrix.cellOffset row s.thread ≤ i ∧ i < s.matrix.cellOffset row s.thread + 4) →
        (s.perform recover heap).2.cells[i]? = heap.cells[i]?) ∧
    (∀ row col, row < s.matrix.threads → col < s.matrix.threads →
      s.matrix.cellAt row col = .ok (s.matrix.cellOffset row col) ∧
      s.matrix.offset ≤ s.matrix.cellOffset row col ∧
      ∃ bytes, Matrix.size s.matrix.threads = .ok bytes ∧
        s.matrix.cellOffset row col + 4 ≤ s.matrix.offset + bytes) ∧
    (∀ row col row' col', row < s.matrix.threads → col < s.matrix.threads →
      row' < s.matrix.threads → col' < s.matrix.threads → (row', col') ≠ (row, col) →
      s.matrix.cellOffset row' col' + 4 ≤ s.matrix.cellOffset row col ∨
        s.matrix.cellOffset row col + 4 ≤ s.matrix.cellOffset row' col') ∧
    ∀ heap', s.site.FitsIn heap'.size → s.site.SameFor s.thread heap heap' →
      (s.perform recover heap').1 = (s.perform recover heap).1 ∧
      SameBytes s.register (s.register + 8) (s.perform recover heap).2
        (s.perform recover heap').2 := by
  obtain ⟨found, cells, hshows⟩ := hfits.exists_shows
  obtain ⟨outcome, ws, hpermits, hperform⟩ :=
    perform_settled hal hthread recover found (cells s.thread)
  have hhere := hperform heap cells hshows fun _ _ => rfl
  have hlimit : s.matrix.bytes < wordLimit := by
    have hmatrix : s.matrix.offset + s.matrix.bytes < sizeLimit := hfits.matrix_lt
    simp only [sizeLimit, wordLimit] at hmatrix ⊢
    omega
  rw [hhere]
  refine ⟨⟨size_putAll heap ws, getElem?_beside hfits hthread hpermits⟩, ?_, ?_, ?_⟩
  · intro row col hrow hcol
    exact ⟨Matrix.cellAt_eq hrow hcol hfits.matrix_lt, Nat.le_add_right _ _, _,
      Matrix.size_of_lt hlimit, Matrix.cellOffset_add_le hrow hcol⟩
  · intro row col row' col' _ hcol _ hcol' hne
    refine Matrix.cellOffset_apart hcol hcol' ?_
    rintro ⟨rfl, rfl⟩
    exact hne rfl
  · intro heap' hfits' hsame
    obtain ⟨cells', hshows', hrow⟩ := hshows.of_sameFor hfits' hsame hthread
    rw [hperform heap' cells' hshows' hrow]
    refine ⟨rfl, fun i hlo hhi => ?_⟩
    rcases hpermits with rfl | ⟨-, rfl⟩
    · exact hsame.register i hlo hhi
    · rw [getElem?_installed hfits hlo hhi, getElem?_installed hfits' hlo hhi]

/-- The first of two threads overwrites what the second has installed. It writes one cell of its
column, and it does not see what stands in the row of the second. -/
theorem formerHeap_apart :
    (Swap.mk 0 ⟨64, 2⟩ 7 9 0).site.FitsIn formerHeap.size ∧
    (Swap.mk 0 ⟨64, 2⟩ 7 9 0).site.Aligned ∧ (0 : UInt32) < 2 ∧
    (∃ row : UInt32, row < 2 ∧ ∀ i, ¬(0 ≤ i ∧ i < 0 + 8) →
      ¬((Matrix.mk 64 2).cellOffset row 0 ≤ i ∧ i < (Matrix.mk 64 2).cellOffset row 0 + 4) →
      ((Swap.mk 0 ⟨64, 2⟩ 7 9 0).perform false formerHeap).2.cells[i]? = formerHeap.cells[i]?) ∧
    ((Swap.mk 0 ⟨64, 2⟩ 7 9 0).perform false
      (formerHeap.put ((Matrix.mk 64 2).cellOffset 1 1) (toBytes 4 3))).1
        = ((Swap.mk 0 ⟨64, 2⟩ 7 9 0).perform false formerHeap).1 := by
  obtain ⟨-, cells, hshows⟩ := formerHeap_shows
  have hfits := hshows.fits
  have hone : (1 : UInt32) < 2 := by decide
  have hzero : (0 : UInt32) < 2 := by decide
  have hin := hfits.cell_in hone hone
  have hsame : Site.SameFor ⟨0, ⟨64, 2⟩⟩ 0 formerHeap
      (formerHeap.put ((Matrix.mk 64 2).cellOffset 1 1) (toBytes 4 3)) :=
    { register := (agree_put hin (hfits.cell_apart hone hone)).2
      row := fun col hcol => by
        have hne : ¬((0 : UInt32) = 1 ∧ col = 1) := fun h => absurd h.1 (by decide)
        exact (agree_put hin (Matrix.cellOffset_apart hone hcol hne)).2 }
  have hcalls := one_writer_one_reader (s := ⟨0, ⟨64, 2⟩, 7, 9, 0⟩) hfits rfl hzero false
  refine ⟨hfits, rfl, hzero, hcalls.1.2, (hcalls.2.2.2 _ ?_ hsame).1⟩
  rw [size_put]
  exact hfits

end Swap

end DurableCalls
