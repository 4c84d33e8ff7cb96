/-
`Site.lean` -- a register and its matrix, as the threads that swap see them.

Of a heap, a swap sees one register and the cells of one matrix. A heap *shows* such
contents if loads give them. So a store is an update of the contents shown, and what the
operations do can be told without bytes.

The register has to stand on a cache line, or nothing works; a matrix may stand off the
alignment of its cells, and then its cells can be neither loaded nor stored.
-/
import DurableCalls.Swap
import DurableCalls.Proofs.Region.Words

set_option autoImplicit false

namespace DurableCalls

/-! ## Cells -/

namespace Matrix

/-- Bytes of all cells. -/
def bytes (m : Matrix) : Nat := 4 * (m.threads.toNat * m.threads.toNat)

/-- The offset of a cell, as a number. -/
def cellOffset (m : Matrix) (row col : UInt32) : Nat :=
  m.offset + 4 * (row.toNat * m.threads.toNat + col.toNat)

variable {m : Matrix} {row col row' col' : UInt32} {size : Nat}

/-- Cells are numbered row by row, below the square of the threads. -/
theorem index_lt (hrow : row < m.threads) (hcol : col < m.threads) :
    row.toNat * m.threads.toNat + col.toNat + 1 ≤ m.threads.toNat * m.threads.toNat := by
  have hrow' : row.toNat + 1 ≤ m.threads.toNat := UInt32.lt_iff_toNat_lt.1 hrow
  have hcol' : col.toNat + 1 ≤ m.threads.toNat := UInt32.lt_iff_toNat_lt.1 hcol
  have hrows := Nat.mul_le_mul_right m.threads.toNat hrow'
  rw [Nat.add_mul] at hrows
  omega

theorem cellOffset_add_le (hrow : row < m.threads) (hcol : col < m.threads) :
    m.cellOffset row col + 4 ≤ m.offset + m.bytes := by
  have hindex := index_lt hrow hcol
  unfold cellOffset bytes
  omega

/-- Different cells share no byte. -/
theorem cellOffset_apart (hcol : col < m.threads) (hcol' : col' < m.threads)
    (hne : ¬(row' = row ∧ col' = col)) :
    m.cellOffset row' col' + 4 ≤ m.cellOffset row col ∨
      m.cellOffset row col + 4 ≤ m.cellOffset row' col' := by
  have hlt : col.toNat < m.threads.toNat := UInt32.lt_iff_toNat_lt.1 hcol
  have hlt' : col'.toNat < m.threads.toNat := UInt32.lt_iff_toNat_lt.1 hcol'
  unfold cellOffset
  -- a row further on starts behind the last column, so only equal rows compare columns
  rcases Nat.lt_trichotomy row'.toNat row.toNat with hless | hsame | hmore
  · have hrows := Nat.mul_le_mul_right m.threads.toNat (show row'.toNat + 1 ≤ row.toNat from hless)
    rw [Nat.add_mul] at hrows
    omega
  · have hcols : col'.toNat ≠ col.toNat := fun hcols =>
      hne ⟨UInt32.toNat_inj.1 hsame, UInt32.toNat_inj.1 hcols⟩
    rw [hsame]
    omega
  · have hrows := Nat.mul_le_mul_right m.threads.toNat (show row.toNat + 1 ≤ row'.toNat from hmore)
    rw [Nat.add_mul] at hrows
    omega

/-- Cells are numbered by words, because the square of the threads is one. -/
theorem index_lt_word (hrow : row < m.threads) (hcol : col < m.threads) :
    row.toNat * m.threads.toNat + col.toNat < wordLimit := by
  have hindex := index_lt hrow hcol
  have hthreads : m.threads.toNat ≤ 4294967295 := Nat.le_of_lt_succ m.threads.toNat_lt
  have hsquare := Nat.mul_le_mul hthreads hthreads
  simp only [wordLimit]
  omega

/-- What an offset beyond the word is an overflow of: the product, or else the sum. -/
def overflow (m : Matrix) (row col : UInt32) : Abort :=
  if 4 * (row.toNat * m.threads.toNat + col.toNat) < wordLimit then .addOverflow
  else .mulOverflow

/-- The offset of a cell is computed, or it leaves the word. -/
theorem cellAt_of_lt (hrow : row < m.threads) (hcol : col < m.threads) :
    m.cellAt row col = if m.cellOffset row col < wordLimit then .ok (m.cellOffset row col)
      else .error (.aborted (m.overflow row col)) := by
  have hindex := index_lt_word hrow hcol
  -- only the last product and the last sum can leave the word
  have hproduct : mulWord row.toNat m.threads.toNat = .ok (row.toNat * m.threads.toNat) :=
    mulWord_eq_ok.2 ⟨by omega, rfl⟩
  have hsum : addWord (row.toNat * m.threads.toNat) col.toNat
      = .ok (row.toNat * m.threads.toNat + col.toNat) := addWord_eq_ok.2 ⟨hindex, rfl⟩
  simp only [cellAt, checkThread, if_pos hrow, if_pos hcol, hproduct, hsum, bind, Except.bind,
    liftM, monadLift, MonadLift.monadLift]
  by_cases hscaled : 4 * (row.toNat * m.threads.toNat + col.toNat) < wordLimit
  · simp only [mulWord, addWord, overflow, cellOffset, if_pos hscaled]
  · have hbeyond : ¬m.cellOffset row col < wordLimit := by
      unfold cellOffset
      omega
    simp only [mulWord, overflow, if_neg hscaled, if_neg hbeyond]

/-- Inside a heap it does not leave the word. -/
theorem cellAt_eq (hrow : row < m.threads) (hcol : col < m.threads)
    (hin : m.offset + m.bytes < sizeLimit) : m.cellAt row col = .ok (m.cellOffset row col) := by
  have hle := cellOffset_add_le hrow hcol
  rw [cellAt_of_lt hrow hcol, if_pos]
  simp only [sizeLimit, wordLimit] at hin ⊢
  omega

theorem cellOffset_mod (row col : UInt32) : m.cellOffset row col % 4 = m.offset % 4 := by
  unfold cellOffset
  omega

end Matrix

/-- A register on a line of its own is stored as a word. -/
theorem Register.commit_of_line {offset : Nat} {heap : Region} (hline : offset % lineSize = 0)
    (hin : offset + 8 ≤ heap.size) (next : Register) :
    Register.commit offset next heap = (.ok (), heap.put offset (toBytes 8 next.pack)) := by
  have hcheck : Register.checkLine offset = .ok () := if_pos hline
  have hmod : offset % 8 = 0 := by
    simp only [lineSize] at hline
    omega
  simp only [Register.commit, Run.bind_apply, Run.lift_apply, hcheck, Run.mapError_ok]
  exact Region.commit_of_aligned hin hmod

/-! ## Sites -/

/-- Where threads share a register and its matrix. All calls of one history are made at one site, as
the evidence for a call is in the matrix of its register. -/
structure Site where
  register : Nat
  matrix : Matrix

def Swap.site (s : Swap) : Site := ⟨s.register, s.matrix⟩

/-- The values in the cells of a matrix, by row and column. -/
abbrev Cells := UInt32 → UInt32 → UInt32

/-- The cells with one value replaced. -/
def Cells.set (cells : Cells) (row col value : UInt32) : Cells :=
  fun i j => if i = row ∧ j = col then value else cells i j

namespace Site

/-- The register stands on a cache line, both lie inside a heap of so many bytes, and
neither reaches into the other. -/
structure FitsIn (site : Site) (size : Nat) : Prop where
  line : site.register % lineSize = 0
  register_in : site.register + 8 ≤ size
  matrix_in : site.matrix.offset + site.matrix.bytes ≤ size
  apart : site.register + 8 ≤ site.matrix.offset ∨
    site.matrix.offset + site.matrix.bytes ≤ site.register

/-- The register word and the cell words of a heap stand for these contents. Every heap that is
large enough shows something, and what a swap does can be told by what is shown. -/
structure Shows (site : Site) (heap : Region) (current : Register) (cells : Cells) : Prop where
  fits : site.FitsIn heap.size
  register_eq : heap.readNumber 8 site.register = .ok current.pack
  cell_eq : ∀ row col, row < site.matrix.threads → col < site.matrix.threads →
    heap.readNumber 4 (site.matrix.cellOffset row col) = .ok (cells row col).toNat

/-- Cells can be loaded and stored. -/
def Aligned (site : Site) : Prop := site.matrix.offset % 4 = 0

section Shows

variable {site : Site} {heap : Region} {current : Register} {cells : Cells} {row col : UInt32}

theorem FitsIn.matrix_lt (h : site.FitsIn heap.size) :
    site.matrix.offset + site.matrix.bytes < sizeLimit :=
  Nat.lt_of_le_of_lt h.matrix_in heap.size_lt

theorem FitsIn.register_mod {size : Nat} (h : site.FitsIn size) : site.register % 8 = 0 := by
  have hline := h.line
  simp only [lineSize] at hline
  omega

theorem FitsIn.cell_in {size : Nat} (h : site.FitsIn size) (hrow : row < site.matrix.threads)
    (hcol : col < site.matrix.threads) : site.matrix.cellOffset row col + 4 ≤ size :=
  Nat.le_trans (Matrix.cellOffset_add_le hrow hcol) h.matrix_in

/-- The register lies beside every cell. -/
theorem FitsIn.cell_apart {size : Nat} (h : site.FitsIn size) (hrow : row < site.matrix.threads)
    (hcol : col < site.matrix.threads) :
    site.register + 8 ≤ site.matrix.cellOffset row col ∨
      site.matrix.cellOffset row col + 4 ≤ site.register := by
  have hle := Matrix.cellOffset_add_le hrow hcol
  have hge : site.matrix.offset ≤ site.matrix.cellOffset row col := Nat.le_add_right _ _
  rcases h.apart with hbefore | hbehind
  · exact .inl (Nat.le_trans hbefore hge)
  · exact .inr (Nat.le_trans hle hbehind)

theorem Shows.load_register (h : site.Shows heap current cells) :
    Register.load heap site.register = .ok current := by
  have hline : Register.checkLine site.register = .ok () := if_pos h.fits.line
  have hload : heap.load 8 site.register = .ok current.pack := by
    rw [Region.load_of_aligned h.fits.register_in h.fits.register_mod, h.register_eq]
  simp only [Register.load, hline, hload, bind, Except.bind, Register.unpack_pack, pure,
    Except.pure]

theorem Shows.load_cell (h : site.Shows heap current cells) (hal : site.Aligned)
    (hrow : row < site.matrix.threads) (hcol : col < site.matrix.threads) :
    site.matrix.load heap row col = .ok (cells row col) := by
  have hload : heap.load 4 (site.matrix.cellOffset row col) = .ok (cells row col).toNat := by
    rw [Region.load_of_aligned (h.fits.cell_in hrow hcol)
      ((Matrix.cellOffset_mod row col).trans hal), h.cell_eq row col hrow hcol]
  simp only [Matrix.load, Matrix.cellAt_eq hrow hcol h.fits.matrix_lt, hload, bind, Except.bind,
    liftM, monadLift, MonadLift.monadLift, UInt32.ofNat_toNat, pure, Except.pure]

theorem Shows.load_cell_of_misaligned (h : site.Shows heap current cells) (hal : ¬site.Aligned)
    (hrow : row < site.matrix.threads) (hcol : col < site.matrix.threads) :
    ∃ halt, site.matrix.load heap row col = .error halt := by
  have hmod : site.matrix.cellOffset row col % 4 ≠ 0 := by
    rw [Matrix.cellOffset_mod]
    exact hal
  have hload := Region.load_of_misaligned (h.fits.cell_in hrow hcol) hmod
  refine ⟨.failed (.misalignedRegister (site.matrix.cellOffset row col) 4), ?_⟩
  simp only [Matrix.load, Matrix.cellAt_eq hrow hcol h.fits.matrix_lt, hload, bind, Except.bind,
    liftM, monadLift, MonadLift.monadLift]

/-- The register is stored as a word. -/
theorem FitsIn.commit_register (h : site.FitsIn heap.size) (next : Register) :
    Register.commit site.register next heap
      = (.ok (), heap.put site.register (toBytes 8 next.pack)) :=
  Register.commit_of_line h.line h.register_in next

/-- That is seen in the register, and in no cell. -/
theorem Shows.put_register (h : site.Shows heap current cells) (next : Register) :
    site.Shows (heap.put site.register (toBytes 8 next.pack)) next cells := by
  refine ⟨?_, ?_, ?_⟩
  · rw [Region.size_put]
    exact h.fits
  · rw [Region.readNumber_put_self h.fits.register_in, Nat.mod_eq_of_lt next.pack_lt]
  · intro row col hrow hcol
    rw [Region.readNumber_put_beside h.fits.register_in (h.fits.cell_apart hrow hcol).symm]
    exact h.cell_eq row col hrow hcol

/-- A cell is stored as half a word. -/
theorem FitsIn.commit_cell (h : site.FitsIn heap.size) (hal : site.Aligned)
    (hrow : row < site.matrix.threads) (hcol : col < site.matrix.threads) (value : UInt32) :
    site.matrix.commit row col value heap
      = (.ok (), heap.put (site.matrix.cellOffset row col) (toBytes 4 value.toNat)) := by
  simp only [Matrix.commit, Run.bind_apply, Run.liftHalt_apply,
    Matrix.cellAt_eq hrow hcol h.matrix_lt]
  exact Region.commit_of_aligned (h.cell_in hrow hcol) ((Matrix.cellOffset_mod row col).trans hal)

/-- That is seen in that cell, and nowhere else. -/
theorem Shows.put_cell (h : site.Shows heap current cells) (hrow : row < site.matrix.threads)
    (hcol : col < site.matrix.threads) (value : UInt32) :
    site.Shows (heap.put (site.matrix.cellOffset row col) (toBytes 4 value.toNat)) current
      (cells.set row col value) := by
  have hin := h.fits.cell_in hrow hcol
  refine ⟨?_, ?_, ?_⟩
  · rw [Region.size_put]
    exact h.fits
  · rw [Region.readNumber_put_beside hin (h.fits.cell_apart hrow hcol)]
    exact h.register_eq
  · intro i j hi hj
    unfold Cells.set
    by_cases hsame : i = row ∧ j = col
    · rw [if_pos hsame, hsame.1, hsame.2, Region.readNumber_put_self hin,
        Nat.mod_eq_of_lt (show value.toNat < byteRange 4 from value.toNat_lt)]
    · rw [if_neg hsame, Region.readNumber_put_beside hin (Matrix.cellOffset_apart hcol hj hsame)]
      exact h.cell_eq i j hi hj

theorem Shows.commit_cell (h : site.Shows heap current cells) (hal : site.Aligned)
    (hrow : row < site.matrix.threads) (hcol : col < site.matrix.threads) (value : UInt32) :
    ∃ after, site.matrix.commit row col value heap = (.ok (), after) ∧
      site.Shows after current (cells.set row col value) ∧ after.size = heap.size :=
  ⟨_, h.fits.commit_cell hal hrow hcol value, h.put_cell hrow hcol value, Region.size_put _ _ _⟩

theorem Shows.commit_cell_of_misaligned (h : site.Shows heap current cells) (hal : ¬site.Aligned)
    (hrow : row < site.matrix.threads) (hcol : col < site.matrix.threads) (value : UInt32) :
    ∃ halt, site.matrix.commit row col value heap = (.error halt, heap) := by
  have hmod : site.matrix.cellOffset row col % 4 ≠ 0 := by
    rw [Matrix.cellOffset_mod]
    exact hal
  refine ⟨.failed (.misalignedRegister (site.matrix.cellOffset row col) 4), ?_⟩
  simp only [Matrix.commit, Run.bind_apply, Run.liftHalt_apply,
    Matrix.cellAt_eq hrow hcol h.fits.matrix_lt]
  exact Region.commit_of_misaligned (h.fits.cell_in hrow hcol) hmod

/-- A write beside the register and the matrix is not seen. -/
theorem Shows.put_beside {offset : Nat} {data : List UInt8} (h : site.Shows heap current cells)
    (hin : offset + data.length ≤ heap.size)
    (hregister : offset + data.length ≤ site.register ∨ site.register + 8 ≤ offset)
    (hmatrix : offset + data.length ≤ site.matrix.offset ∨
      site.matrix.offset + site.matrix.bytes ≤ offset) :
    site.Shows (heap.put offset data) current cells := by
  refine ⟨?_, ?_, ?_⟩
  · rw [Region.size_put]
    exact h.fits
  · rw [Region.readNumber_of_agree (Region.agree_put hin hregister.symm)]
    exact h.register_eq
  · intro row col hrow hcol
    have hle := Matrix.cellOffset_add_le hrow hcol
    have hge : site.matrix.offset ≤ site.matrix.cellOffset row col := Nat.le_add_right _ _
    rw [Region.readNumber_of_agree (Region.agree_put hin (by omega))]
    exact h.cell_eq row col hrow hcol

end Shows

end Site

end DurableCalls
