/-
`Refusals.lean` -- swaps that give no answer.

A swap asks for its thread, for the register, and for the cell that takes its note. Each of these
may be refused, and all of them are asked before the register is written. Behind the note nothing
is left that could be refused: the register is where it was loaded from. So a swap that does not
answer has written nothing, wherever its register and its matrix are and whatever the heap holds
(`Swap.attempt_refused`).
-/
import DurableCalls.Proofs.Swap.Offsets

set_option autoImplicit false

namespace DurableCalls

open Region

/-! ## The register -/

namespace Register

variable {heap : Region} {offset : Nat} {f : Failure}

/-- Why a register cannot be loaded. -/
inductive NoLoad (heap : Region) (offset : Nat) : Failure → Prop
  | misaligned (off_line : offset % lineSize ≠ 0) :
      NoLoad heap offset (.misalignedRegister offset lineSize)
  | outside (beyond : heap.size < offset + 8) :
      NoLoad heap offset (.outOfBounds offset 8 heap.size)

/-- A register is loaded if it stands on a line inside the heap. -/
theorem load_of_in (hline : offset % lineSize = 0) (hin : offset + 8 ≤ heap.size) :
    ∃ current, load heap offset = .ok current := by
  have hmod : offset % 8 = 0 := by
    simp only [lineSize] at hline
    omega
  obtain ⟨bytes, hread⟩ := exists_read hin
  have hload : heap.load 8 offset = .ok (ofBytes bytes) := by
    rw [load_of_aligned hin hmod, readNumber_of_read hread]
  refine ⟨unpack (ofBytes bytes), ?_⟩
  rw [load, checkLine, if_pos hline, hload]
  rfl

theorem load_failed (h : load heap offset = .error f) : NoLoad heap offset f := by
  by_cases hline : offset % lineSize = 0
  · by_cases hin : offset + 8 ≤ heap.size
    · obtain ⟨current, hload⟩ := load_of_in hline hin
      cases hload.symm.trans h
    · rw [load, checkLine, if_pos hline, load_of_outside (Nat.not_le.1 hin)] at h
      cases h
      exact .outside (Nat.not_le.1 hin)
  · rw [load, checkLine, if_neg hline] at h
    cases h
    exact .misaligned hline

theorem load_ok {current : Register} (h : load heap offset = .ok current) :
    offset % lineSize = 0 ∧ offset + 8 ≤ heap.size := by
  by_cases hline : offset % lineSize = 0
  · refine ⟨hline, Nat.not_lt.1 fun hout => ?_⟩
    rw [load, checkLine, if_pos hline, load_of_outside hout] at h
    cases h
  · rw [load, checkLine, if_neg hline] at h
    cases h

end Register

/-! ## The swap -/

namespace Swap

variable {s : Swap} {heap next : Region} {found : Register} {halt : Halt}

/-- Why a note cannot be left: its owner is no thread, or there is no such cell in the heap. -/
inductive NoNote (s : Swap) (heap : Region) (owner : UInt32) : Halt → Prop
  | unknown (noted : owner ≠ Register.noOwner) (no_thread : ¬owner < s.matrix.threads) :
      NoNote s heap owner (.failed (.invalidThread owner s.matrix.threads))
  | outside (owner_lt : owner < s.matrix.threads)
      (beyond : heap.size < s.matrix.cellOffset owner s.thread + 4) :
      NoNote s heap owner (s.matrix.outside heap.size owner s.thread)
  | misaligned (off : s.matrix.offset % 4 ≠ 0) :
      NoNote s heap owner
        (.failed (.misalignedRegister (s.matrix.cellOffset owner s.thread) 4))

/-- A note is left, or it is refused and nothing is written. -/
theorem announce_ends (hthread : s.thread < s.matrix.threads) (found : Register) (heap : Region) :
    (∃ after, s.announce found heap = (.ok (), after) ∧ after.size = heap.size) ∨
    ∃ halt, s.announce found heap = (.error halt, heap) ∧ s.NoNote heap found.owner halt := by
  by_cases hnone : found.owner = Register.noOwner
  · refine .inl ⟨heap, ?_, rfl⟩
    rw [announce, if_neg (not_not.2 hnone)]
    rfl
  by_cases hrow : found.owner < s.matrix.threads
  · rw [announce, if_pos hnone]
    by_cases hin : s.matrix.cellOffset found.owner s.thread + 4 ≤ heap.size
    · have hword : s.matrix.cellOffset found.owner s.thread < wordLimit := by
        have hsize := heap.size_lt
        simp only [sizeLimit, wordLimit, Region.size] at *
        omega
      have hcell : s.matrix.cellAt found.owner s.thread
          = .ok (s.matrix.cellOffset found.owner s.thread) := by
        rw [Matrix.cellAt_of_lt hrow hthread, if_pos hword]
      rw [Matrix.commit, Run.bind_of_ok (by rw [Run.liftHalt_apply, hcell])]
      by_cases hal : s.matrix.offset % 4 = 0
      · exact .inl ⟨_, Region.commit_of_aligned hin ((Matrix.cellOffset_mod _ _).trans hal),
          size_put _ _ _⟩
      · refine .inr ⟨_, Region.commit_of_misaligned hin ?_, .misaligned hal⟩
        rwa [Matrix.cellOffset_mod]
    · have hout := Nat.not_le.1 hin
      exact .inr ⟨_, Matrix.commit_of_outside hrow hthread hout, .outside hrow hout⟩
  · exact .inr ⟨_, announce_of_not_owned (not_or.2 ⟨hnone, hrow⟩) heap, .unknown hnone hrow⟩

/-- Where the register was loaded it is exchanged or not, but not refused. -/
theorem exchange_answers (hline : s.register % lineSize = 0) (hin : s.register + 8 ≤ heap.size)
    (found : Register) :
    ∃ yes next, s.exchange found heap = (.ok yes, next) ∧ next.size = heap.size := by
  obtain ⟨current, hload⟩ := Register.load_of_in hline hin
  rw [exchange, Run.bind_of_ok (Run.get_apply heap),
    Run.bind_of_ok (by rw [Run.lift_apply, hload]; rfl)]
  by_cases hsame : current = found
  · refine ⟨true, heap.put s.register (toBytes 8 s.installed.pack), ?_, size_put _ _ _⟩
    rw [if_pos hsame, Run.bind_of_ok (Register.commit_of_line hline hin s.installed)]
    rfl
  · rw [if_neg hsame]
    exact ⟨false, heap, rfl, rfl⟩

/-- Why a swap gives no answer. The reasons are in the order of its steps: the thread, the register,
the note. Behind the note it always answers. -/
inductive NoAnswer (s : Swap) (heap : Region) : Halt → Prop
  | unknown (no_thread : ¬s.thread < s.matrix.threads) :
      NoAnswer s heap (.failed (.invalidThread s.thread s.matrix.threads))
  | unloaded {f : Failure} (refused : Register.NoLoad heap s.register f) :
      NoAnswer s heap (.failed f)
  | unnoted {owner : UInt32} {halt : Halt}
      (found : Register.load heap s.register = .ok ⟨owner, s.expected⟩)
      (known : s.thread < s.matrix.threads) (refused : s.NoNote heap owner halt) :
      NoAnswer s heap halt

/-- A swap answers, or it is refused and has written nothing. -/
theorem attempt_outcome (s : Swap) (heap : Region) :
    (∃ yes next, s.attempt heap = (.ok yes, next) ∧ next.size = heap.size) ∨
    ∃ halt, s.attempt heap = (.error halt, heap) ∧ s.NoAnswer heap halt := by
  by_cases hthread : s.thread < s.matrix.threads
  · cases hload : Register.load heap s.register with
    | error f =>
      have hattempt : s.perform false heap = (.error (.failed f), heap) :=
        perform_of_unloaded hthread hload
      exact .inr ⟨_, hattempt, .unloaded (Register.load_failed hload)⟩
    | ok found =>
      obtain ⟨hline, hin⟩ := Register.load_ok hload
      rw [attempt_of_load hthread hload]
      by_cases hvalue : found.value = s.expected
      · rw [if_pos hvalue]
        rcases announce_ends hthread found heap with ⟨noted, hannounce, hsize⟩
          | ⟨halt, hannounce, hrefused⟩
        · -- the register is still where it was, whatever the note was written over
          rw [← hsize] at hin
          obtain ⟨yes, next, hexchange, hsize'⟩ := exchange_answers hline hin found
          rw [Run.bind_of_ok hannounce]
          exact .inl ⟨yes, next, hexchange, hsize'.trans hsize⟩
        · rw [Run.bind_of_error hannounce]
          exact .inr ⟨halt, rfl, .unnoted (by rw [hload, ← hvalue]) hthread hrefused⟩
      · rw [if_neg hvalue]
        exact .inl ⟨false, heap, rfl, rfl⟩
  · have hattempt : s.perform false heap
        = (.error (.failed (.invalidThread s.thread s.matrix.threads)), heap) :=
      perform_of_unknown hthread heap
    exact .inr ⟨_, hattempt, .unknown hthread⟩

/-- **A swap that gives no answer has written nothing.** The note is its first write, and all
reasons come in front of it; behind the note the register is where it was, and the exchange answers.
-/
theorem attempt_refused (h : s.attempt heap = (.error halt, next)) :
    next = heap ∧ s.NoAnswer heap halt := by
  rcases s.attempt_outcome heap with ⟨_, _, hanswered, -⟩ | ⟨halt', hrefused, hnone⟩
  · cases hanswered.symm.trans h
  · cases hrefused.symm.trans h
    exact ⟨rfl, hnone⟩

theorem size_of_attempt {yes : Bool} (h : s.attempt heap = (.ok yes, next)) :
    next.size = heap.size := by
  rcases s.attempt_outcome heap with ⟨_, _, hanswered, hsize⟩ | ⟨_, hrefused, -⟩
  · cases hanswered.symm.trans h
    exact hsize
  · cases hrefused.symm.trans h

/-- An access that is refused for want of room is one of eight bytes at the register, or one of
four at a cell of the matrix. -/
theorem NoAnswer.outOfBounds {offset len size : Nat}
    (h : s.NoAnswer heap (.failed (.outOfBounds offset len size))) :
    heap.size < s.register + 8 ∧ len = 8 ∨
      len = 4 ∧ s.thread < s.matrix.threads ∧
        ∃ owner < s.matrix.threads, heap.size < s.matrix.cellOffset owner s.thread + 4 := by
  generalize hhalt : Halt.failed (.outOfBounds offset len size) = halt at h
  cases h with
  | unknown no_thread => cases hhalt
  | unloaded refused =>
    cases refused with
    | misaligned off_line => cases hhalt
    | outside beyond =>
      cases hhalt
      exact .inl ⟨beyond, rfl⟩
  | unnoted found known refused =>
    cases refused with
    | unknown noted no_thread => cases hhalt
    | outside owner_lt beyond =>
      rw [Matrix.outside] at hhalt
      split at hhalt
      · cases hhalt
        exact .inr ⟨rfl, known, _, owner_lt, beyond⟩
      · cases hhalt
    | misaligned off => cases hhalt

end Swap

end DurableCalls
