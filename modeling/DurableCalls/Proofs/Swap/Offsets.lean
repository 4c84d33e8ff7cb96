/-
`Offsets.lean` -- swaps whose matrix need not lie in the heap.

A heap refuses every access beyond its end, also one whose range leaves the word. But the
offset of a cell is computed before the heap is asked, and that sum may leave the word first:
the thread is aborted where it should have been told that the cell is outside the heap.

An operation computes the offset of a cell only if what it has found so far sends it there
(`Reaches`). It ends at a cell outside the heap, and changes nothing (`Reaches.perform_eq`). That
is the only place where it can be aborted, so the overflows are those of the cells that it
reaches (`perform_aborts_iff`).
-/
import DurableCalls.Proofs.Call.SwapTask
import DurableCalls.Proofs.Swap.AnyHeap

set_option autoImplicit false

namespace DurableCalls

open Region

/-! ## Cells outside the heap -/

/-- A durable store fails or is made. -/
theorem Region.commit_ne_aborted (width offset value : Nat) (r : Region) (reason : Abort) :
    (Region.commit width offset value r).1 ≠ .error (.aborted reason) := by
  intro h
  by_cases hin : offset + width ≤ r.size
  · by_cases hal : offset % width = 0
    · rw [commit_of_aligned hin hal] at h
      cases h
    · rw [commit_of_misaligned hin hal] at h
      cases h
  · rw [commit_of_outside (Nat.not_le.1 hin)] at h
    cases h

theorem Register.commit_ne_aborted (offset : Nat) (next : Register) (heap : Region)
    (reason : Abort) : (Register.commit offset next heap).1 ≠ .error (.aborted reason) := by
  intro h
  rw [Register.commit, Run.bind_apply, Run.lift_apply] at h
  cases hline : checkLine offset with
  | error f =>
    rw [hline] at h
    cases h
  | ok _ =>
    rw [hline] at h
    exact Region.commit_ne_aborted _ _ _ _ _ h

namespace Matrix

variable {m : Matrix} {row col value : UInt32} {heap after : Region} {reason : Abort}

/-- How an access to a cell ends that is not inside a heap of so many bytes. -/
def outside (m : Matrix) (size : Nat) (row col : UInt32) : Halt :=
  if m.cellOffset row col < wordLimit then .failed (.outOfBounds (m.cellOffset row col) 4 size)
  else .aborted (m.overflow row col)

theorem load_of_outside (hrow : row < m.threads) (hcol : col < m.threads)
    (hout : heap.size < m.cellOffset row col + 4) :
    m.load heap row col = .error (m.outside heap.size row col) := by
  rw [Matrix.load, cellAt_of_lt hrow hcol, outside]
  by_cases hword : m.cellOffset row col < wordLimit
  · rw [if_pos hword, if_pos hword]
    simp only [Region.load_of_outside hout, bind, Except.bind, liftM, monadLift,
      MonadLift.monadLift]
  · rw [if_neg hword, if_neg hword]
    rfl

theorem commit_of_outside (hrow : row < m.threads) (hcol : col < m.threads)
    (hout : heap.size < m.cellOffset row col + 4) :
    m.commit row col value heap = (.error (m.outside heap.size row col), heap) := by
  rw [Matrix.commit, cellAt_of_lt hrow hcol, outside]
  by_cases hword : m.cellOffset row col < wordLimit
  · rw [if_pos hword, if_pos hword, Run.bind_of_ok (Run.liftHalt_apply _ _)]
    exact Region.commit_of_outside hout
  · rw [if_neg hword, if_neg hword, Run.bind_of_error (Run.liftHalt_apply _ _)]

theorem cellAt_aborts (h : m.cellAt row col = .error (.aborted reason)) :
    row < m.threads ∧ col < m.threads ∧ wordLimit ≤ m.cellOffset row col := by
  by_cases hrow : row < m.threads
  · by_cases hcol : col < m.threads
    · refine ⟨hrow, hcol, Nat.not_lt.1 fun hword => ?_⟩
      rw [cellAt_of_lt hrow hcol, if_pos hword] at h
      cases h
    · rw [cellAt, checkThread, checkThread, if_pos hrow, if_neg hcol] at h
      cases h
  · rw [cellAt, checkThread, if_neg hrow] at h
    cases h

theorem load_aborts (h : m.load heap row col = .error (.aborted reason)) :
    row < m.threads ∧ col < m.threads ∧ wordLimit ≤ m.cellOffset row col := by
  rcases cases_of_bind_eq_error h with hcell | ⟨offset, -, h⟩
  · exact cellAt_aborts hcell
  · rcases cases_of_bind_eq_error h with hload | ⟨value, -, hpure⟩
    · obtain ⟨f, -, hfailed⟩ := exists_of_lift_eq_error hload
      cases hfailed
    · cases hpure

theorem commit_aborts (h : m.commit row col value heap = (.error (.aborted reason), after)) :
    row < m.threads ∧ col < m.threads ∧ wordLimit ≤ m.cellOffset row col := by
  rcases Run.cases_of_bind_error h with hcell | ⟨offset, mid, -, hcommit⟩
  · rw [Run.liftHalt_apply] at hcell
    exact cellAt_aborts (congrArg Prod.fst hcell)
  · exact absurd (congrArg Prod.fst hcommit) (commit_ne_aborted _ _ _ _ _)

end Matrix

namespace Swap

variable {s : Swap} {heap after : Region} {current : Register} {owner row col : UInt32}
  {recover : Bool} {halt : Halt} {reason : Abort}

/-! ## The cell for the note -/

/-- A swap comes to the cell that takes the note for the owner it has found. Before that it has
found its own thread among those of the matrix, and the value that it expects in the register. -/
structure Notes (s : Swap) (heap : Region) (owner : UInt32) : Prop where
  known : s.thread < s.matrix.threads
  found : Register.load heap s.register = .ok ⟨owner, s.expected⟩
  noted : owner ≠ Register.noOwner
  owner_lt : owner < s.matrix.threads

theorem Notes.attempt_of_outside (h : s.Notes heap owner)
    (hout : heap.size < s.matrix.cellOffset owner s.thread + 4) :
    s.attempt heap = (.error (s.matrix.outside heap.size owner s.thread), heap) := by
  have hannounce : s.announce ⟨owner, s.expected⟩ heap
      = (.error (s.matrix.outside heap.size owner s.thread), heap) := by
    rw [announce, if_pos h.noted]
    exact Matrix.commit_of_outside h.owner_lt h.known hout
  rw [attempt_of_load h.known h.found, if_pos rfl, Run.bind_of_error hannounce]

theorem announce_aborts (h : s.announce current heap = (.error (.aborted reason), after)) :
    current.owner ≠ Register.noOwner ∧ current.owner < s.matrix.threads ∧
      wordLimit ≤ s.matrix.cellOffset current.owner s.thread := by
  by_cases hnone : current.owner = Register.noOwner
  · rw [announce, if_neg (not_not.2 hnone)] at h
    cases h
  · rw [announce, if_pos hnone] at h
    obtain ⟨hrow, -, hword⟩ := Matrix.commit_aborts h
    exact ⟨hnone, hrow, hword⟩

/-- The register has no offset to compute. -/
theorem exchange_ne_aborted (found : Register) (heap : Region) (reason : Abort) :
    (s.exchange found heap).1 ≠ .error (.aborted reason) := by
  intro h
  rw [exchange, Run.bind_of_ok (Run.get_apply heap), Run.bind_apply, Run.lift_apply] at h
  cases hload : Register.load heap s.register with
  | error f =>
    rw [hload] at h
    cases h
  | ok current =>
    simp only [hload, Run.mapError_ok] at h
    by_cases hsame : current = found
    · rw [if_pos hsame] at h
      rcases Run.cases_of_bind_error (Prod.ext h rfl) with hcommit | ⟨_, _, -, hpure⟩
      · exact Register.commit_ne_aborted _ _ _ _ (congrArg Prod.fst hcommit)
      · cases hpure
    · rw [if_neg hsame] at h
      cases h

/-- A swap that is aborted computes the offset of the cell for its note. -/
theorem attempt_aborts (hknown : s.thread < s.matrix.threads)
    (hload : Register.load heap s.register = .ok current)
    (h : s.attempt heap = (.error (.aborted reason), after)) :
    s.Notes heap current.owner ∧ wordLimit ≤ s.matrix.cellOffset current.owner s.thread := by
  rw [attempt_of_load hknown hload] at h
  by_cases hvalue : current.value = s.expected
  · rw [if_pos hvalue] at h
    rcases Run.cases_of_bind_error h with hannounce | ⟨_, mid, -, hexchange⟩
    · obtain ⟨hnoted, howner, hword⟩ := announce_aborts hannounce
      exact ⟨⟨hknown, by rw [hload, ← hvalue], hnoted, howner⟩, hword⟩
    · exact absurd (congrArg Prod.fst hexchange) (exchange_ne_aborted current mid reason)
  · rw [if_neg hvalue] at h
    cases h

/-! ## The cells of the row -/

/-- A search goes on behind this cell: it can be loaded, and shows another value. -/
def Passes (s : Swap) (heap : Region) (col : UInt32) : Prop :=
  ∃ value, s.matrix.load heap s.thread col = .ok value ∧ value ≠ s.new

/-- A recovery comes to a cell of its thread's row: it has found its value neither in the register
nor in the cells before. -/
structure Searches (s : Swap) (heap : Region) (col : UInt32) : Prop where
  known : s.thread < s.matrix.threads
  other : ∃ current, Register.load heap s.register = .ok current ∧ current ≠ s.installed
  col_lt : col < s.matrix.threads
  before : ∀ j < col, s.Passes heap j

/-- Passing by some cells. -/
theorem announcedFrom_of_passes (left : Nat) : ∀ count col : Nat,
    (∀ j, col ≤ j → j < col + count → s.Passes heap (UInt32.ofNat j)) →
      s.announcedFrom heap col (count + left) = s.announcedFrom heap (col + count) left
  | 0, col, _ => by rw [Nat.zero_add, Nat.add_zero]
  | count + 1, col, h => by
    obtain ⟨value, hload, hother⟩ := h col (Nat.le_refl _) (by omega)
    have hrest := announcedFrom_of_passes left count (col + 1) fun j hle hlt =>
      h j (by omega) (by omega)
    rw [Nat.add_right_comm count 1 left, announcedFrom_of_ne hload hother, hrest,
      Nat.add_right_comm col 1 count, Nat.add_assoc]

/-- A search that halts has passed by the cells before one that cannot be loaded. So which halt is
reported depends on the first such cell alone. -/
theorem exists_of_announcedFrom_error : ∀ left col : Nat,
    s.announcedFrom heap col left = .error halt →
      ∃ k, k < col + left ∧ s.matrix.load heap s.thread (UInt32.ofNat k) = .error halt ∧
        ∀ j, col ≤ j → j < k → s.Passes heap (UInt32.ofNat j)
  | 0, _, h => nomatch h
  | left + 1, col, h => by
    cases hload : s.matrix.load heap s.thread (UInt32.ofNat col) with
    | error halt' =>
      rw [announcedFrom_of_error hload] at h
      cases h
      exact ⟨col, by omega, hload, fun j hle hlt => absurd hlt (Nat.not_lt.2 hle)⟩
    | ok value =>
      by_cases hnew : value = s.new
      · rw [announcedFrom_of_eq hload hnew] at h
        cases h
      · rw [announcedFrom_of_ne hload hnew] at h
        obtain ⟨k, hlt, hk, hpasses⟩ := exists_of_announcedFrom_error left (col + 1) h
        refine ⟨k, by omega, hk, fun j hle hjk => ?_⟩
        obtain rfl | hbehind := Nat.eq_or_lt_of_le hle
        · exact ⟨value, hload, hnew⟩
        · exact hpasses j hbehind hjk

theorem Searches.recover_of_outside (h : s.Searches heap col)
    (hout : heap.size < s.matrix.cellOffset s.thread col + 4) :
    s.recover heap = (.error (s.matrix.outside heap.size s.thread col), heap) := by
  obtain ⟨current, hload, hother⟩ := h.other
  have hcol : col.toNat < s.matrix.threads.toNat := UInt32.lt_iff_toNat_lt.1 h.col_lt
  have hcell : s.matrix.load heap s.thread (UInt32.ofNat col.toNat)
      = .error (s.matrix.outside heap.size s.thread col) := by
    rw [UInt32.ofNat_toNat]
    exact Matrix.load_of_outside h.known h.col_lt hout
  have hsearch : s.announced heap = .error (s.matrix.outside heap.size s.thread col) := by
    obtain ⟨left, hleft⟩ := Nat.exists_eq_add_of_lt hcol
    rw [announced, hleft, Nat.add_assoc, announcedFrom_of_passes (left + 1) col.toNat 0,
      Nat.zero_add, announcedFrom_of_error hcell]
    intro j _ hlt
    refine h.before _ (UInt32.lt_iff_toNat_lt.2 ?_)
    rw [UInt32.toNat_ofNat_of_lt' (by have := col.toNat_lt; unfold UInt32.size; omega)]
    omega
  rw [recover_of_load h.known hload, if_neg hother, hsearch]

/-- A search that is aborted computes the offset of a cell in the row. -/
theorem announced_aborts (hload : Register.load heap s.register = .ok current)
    (hother : current ≠ s.installed) (h : s.announced heap = .error (.aborted reason)) :
    ∃ col, s.Searches heap col ∧ wordLimit ≤ s.matrix.cellOffset s.thread col := by
  obtain ⟨k, -, hk, hpasses⟩ := exists_of_announcedFrom_error _ _ h
  obtain ⟨hknown, hcol, hword⟩ := Matrix.load_aborts hk
  refine ⟨UInt32.ofNat k, ⟨hknown, ⟨current, hload, hother⟩, hcol, fun j hj => ?_⟩, hword⟩
  have hle : (UInt32.ofNat k).toNat ≤ k := by
    rw [UInt32.toNat_ofNat']
    exact Nat.mod_le _ _
  have hjk : j.toNat < k := Nat.lt_of_lt_of_le (UInt32.lt_iff_toNat_lt.1 hj) hle
  have hpass := hpasses j.toNat (Nat.zero_le _) hjk
  rwa [UInt32.ofNat_toNat] at hpass

/-! ## The operations -/

/-- The cells that a swap, first or as a recovery, comes to: the cell of its note, the cells of its
row one after the other, and behind the whole row that of the note again. -/
inductive Reaches (s : Swap) (heap : Region) : Bool → UInt32 → UInt32 → Prop
  | note {owner : UInt32} (notes : s.Notes heap owner) : Reaches s heap false owner s.thread
  | search {col : UInt32} (searches : s.Searches heap col) : Reaches s heap true s.thread col
  | retry {owner : UInt32} (unseen : Register.load heap s.register ≠ .ok s.installed)
      (row : s.announced heap = .ok false) (notes : s.Notes heap owner) :
      Reaches s heap true owner s.thread

theorem Reaches.lt (h : s.Reaches heap recover row col) :
    row < s.matrix.threads ∧ col < s.matrix.threads := by
  cases h with
  | note notes => exact ⟨notes.owner_lt, notes.known⟩
  | search searches => exact ⟨searches.known, searches.col_lt⟩
  | retry unseen row notes => exact ⟨notes.owner_lt, notes.known⟩

/-- **An operation ends at a cell outside the heap**, and has changed nothing. The cells that it
comes to are those of its note and of its search, and both are looked at before the first write. -/
theorem Reaches.perform_eq (h : s.Reaches heap recover row col)
    (hout : heap.size < s.matrix.cellOffset row col + 4) :
    s.perform recover heap = (.error (s.matrix.outside heap.size row col), heap) := by
  cases h with
  | note notes => exact notes.attempt_of_outside hout
  | search searches => exact searches.recover_of_outside hout
  | retry unseen row notes =>
    have hother : (⟨_, s.expected⟩ : Register) ≠ s.installed := fun hsame =>
      unseen (notes.found.trans (congrArg Except.ok hsame))
    rw [← notes.attempt_of_outside hout]
    show s.recover heap = s.attempt heap
    rw [recover_of_load notes.known notes.found, if_neg hother, row]

/-- A thread that is none is told so. -/
theorem perform_of_unknown (h : ¬s.thread < s.matrix.threads) (heap : Region) :
    s.perform recover heap
      = (.error (.failed (.invalidThread s.thread s.matrix.threads)), heap) := by
  cases recover <;>
    simp only [perform, attempt, Swap.recover, checkThread, Run.bind_apply, Run.lift_apply,
      if_neg h, Run.mapError_error, if_true, Bool.false_eq_true, if_false]

/-- So is one whose register cannot be loaded. -/
theorem perform_of_unloaded {f : Failure} (hknown : s.thread < s.matrix.threads)
    (hload : Register.load heap s.register = .error f) :
    s.perform recover heap = (.error (.failed f), heap) := by
  have hobserve : s.observe heap = .error f := by
    rw [observe, hload]
    rfl
  cases recover <;>
    simp only [perform, attempt, Swap.recover, checkThread_of_lt hknown, Run.bind_apply,
      Run.lift_apply, Run.get_apply, hobserve, hload, Run.mapError_ok, Run.mapError_error, if_true,
      Bool.false_eq_true, if_false]

/-- A recovery that is aborted searches a cell whose offset leaves the word, or it swaps again and
comes to one for its note. -/
theorem recover_aborts (hknown : s.thread < s.matrix.threads)
    (hload : Register.load heap s.register = .ok current)
    (h : s.recover heap = (.error (.aborted reason), after)) :
    ∃ row col, s.Reaches heap true row col ∧ wordLimit ≤ s.matrix.cellOffset row col := by
  rw [recover_of_load hknown hload] at h
  by_cases hinstalled : current = s.installed
  · rw [if_pos hinstalled] at h
    cases h
  · rw [if_neg hinstalled] at h
    rcases hsearch : s.announced heap with halt | _ | _
    · rw [hsearch] at h
      cases h
      obtain ⟨col, hsearches, hword⟩ := announced_aborts hload hinstalled hsearch
      exact ⟨_, _, .search hsearches, hword⟩
    · rw [hsearch] at h
      obtain ⟨hnotes, hword⟩ := attempt_aborts hknown hload h
      refine ⟨_, _, .retry (fun hseen => ?_) hsearch hnotes, hword⟩
      exact hinstalled (Except.ok.inj (hload.symm.trans hseen))
    · rw [hsearch] at h
      cases h

/-- An operation that is aborted has come to a cell whose offset leaves the word. -/
theorem perform_aborts (h : s.perform recover heap = (.error (.aborted reason), after)) :
    ∃ row col, s.Reaches heap recover row col ∧ wordLimit ≤ s.matrix.cellOffset row col := by
  by_cases hknown : s.thread < s.matrix.threads
  · cases hload : Register.load heap s.register with
    | error f =>
      rw [perform_of_unloaded hknown hload] at h
      cases h
    | ok current =>
      cases recover with
      | false =>
        obtain ⟨hnotes, hword⟩ := attempt_aborts hknown hload h
        exact ⟨_, _, .note hnotes, hword⟩
      | true => exact recover_aborts hknown hload h
  · rw [perform_of_unknown hknown] at h
    cases h

/-- A matrix that ends within the range of a word aborts nobody, wherever the heap ends. -/
theorem perform_ne_aborted (hword : s.matrix.offset + s.matrix.bytes ≤ wordLimit)
    (heap : Region) (reason : Abort) : (s.perform recover heap).1 ≠ .error (.aborted reason) := by
  intro h
  obtain ⟨row, col, hreaches, hbeyond⟩ := perform_aborts (Prod.ext h rfl)
  have hle := Matrix.cellOffset_add_le hreaches.lt.1 hreaches.lt.2
  omega

/-- **The overflows of an operation.** It is aborted exactly if it comes to a cell whose offset
leaves the word. A cell that it comes to outside the heap, with an offset that is a word, is
reported as such, and the heap stays as it is. -/
theorem perform_aborts_iff (s : Swap) (recover : Bool) (heap : Region) :
    ((∃ reason, (s.perform recover heap).1 = .error (.aborted reason)) ↔
      ∃ row col, s.Reaches heap recover row col ∧ wordLimit ≤ s.matrix.cellOffset row col) ∧
    ∀ row col, s.Reaches heap recover row col → s.matrix.cellOffset row col < wordLimit →
      heap.size < s.matrix.cellOffset row col + 4 →
        s.perform recover heap
          = (.error (.failed (.outOfBounds (s.matrix.cellOffset row col) 4 heap.size)), heap) := by
  refine ⟨⟨?_, ?_⟩, fun row col hreaches hword hout => ?_⟩
  · rintro ⟨reason, haborted⟩
    exact perform_aborts (Prod.ext haborted rfl)
  · rintro ⟨row, col, hreaches, hword⟩
    have hsize := heap.size_lt
    have hout : heap.size < s.matrix.cellOffset row col + 4 := by
      simp only [sizeLimit, wordLimit, Region.size] at *
      omega
    rw [hreaches.perform_eq hout, Matrix.outside, if_neg (Nat.not_lt.2 hword)]
    exact ⟨_, rfl⟩
  · rw [hreaches.perform_eq hout, Matrix.outside, if_pos hword]

/-- Who swaps behind the former run comes to the cell of its owner, wherever the matrix is. -/
theorem formerHeap_notes (offset : Nat) :
    (Swap.mk 0 ⟨offset, 2⟩ 7 9 0).Notes formerHeap 1 := by
  obtain ⟨-, cells, hshows⟩ := formerHeap_shows
  obtain ⟨hthread, howner⟩ : (0 : UInt32) < 2 ∧ (1 : UInt32) < 2 := by decide
  exact ⟨hthread, hshows.load_register, by decide, howner⟩

/-- A matrix in the upper half of the word lies outside every heap, and that is reported. -/
theorem farMatrix_refused :
    (Swap.mk 0 ⟨9223372036854775808, 2⟩ 7 9 0).Reaches formerHeap false 1 0 ∧
    (Swap.mk 0 ⟨9223372036854775808, 2⟩ 7 9 0).perform false formerHeap
      = (.error (.failed (.outOfBounds 9223372036854775816 4 formerHeap.size)), formerHeap) := by
  have hreaches : (Swap.mk 0 ⟨9223372036854775808, 2⟩ 7 9 0).Reaches formerHeap false 1 0 :=
    .note (formerHeap_notes _)
  have hsize := formerHeap.size_lt
  refine ⟨hreaches, (perform_aborts_iff _ _ _).2 1 0 hreaches (by decide) ?_⟩
  exact Nat.lt_trans hsize (by decide)

/-- **A matrix at the end of the word aborts a swap.** The cell for the note is outside the heap,
but its offset is a sum that leaves the word before the heap is asked. -/
theorem highMatrix_aborts :
    Register.load formerHeap 0 = .ok ⟨1, 7⟩ ∧
    (Swap.mk 0 ⟨18446744073709551612, 2⟩ 7 9 0).attempt formerHeap
      = (.error (.aborted .addOverflow), formerHeap) := by
  have hnotes := formerHeap_notes 18446744073709551612
  have hsize := formerHeap.size_lt
  refine ⟨hnotes.found, ?_⟩
  rw [hnotes.attempt_of_outside (Nat.lt_trans hsize (by decide))]
  rfl

end Swap

end DurableCalls
