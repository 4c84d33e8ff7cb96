/-
`Overflow.lean` -- where the check of a configuration leaves the word.

The sums of the check stick at the end of the words, so none of them overflows. The size of
the matrix is a product of words that does not stick, and the thread count, which is bounded
by a check in front of it, is squared in it. That bound is the range of a thread id, and it is
twice too large: from half of it on the size of the matrix is no word (`Matrix.size_eq`).

The single settings are asked first, and the places in the heap after the size of the matrix
(`check_eq`). So a configuration whose settings are sound is aborted by its thread count alone
(`check_overflows_iff`).
-/
import DurableCalls.Config
import Mathlib.Tactic.ByContra
import Mathlib.Tactic.SplitIfs

set_option autoImplicit false

namespace DurableCalls

/-! ## The size of the matrix -/

/-- A matrix of so many threads takes more bytes than a word can tell. -/
def Matrix.threadLimit : Nat := 2147483648

/-- One row is a word for each thread count, and the rows together are one below the limit. The
first product never overflows, because the count has 32 bits; the second one does from `2 ^ 31` on.
-/
theorem Matrix.size_eq (threads : UInt32) :
    Matrix.size threads =
      if threads.toNat < threadLimit then .ok (4 * threads.toNat * threads.toNat)
      else .error (.aborted .mulOverflow) := by
  have hbound : threads.toNat < 4294967296 := threads.toNat_lt
  have hrow : mulWord 4 threads.toNat = .ok (4 * threads.toNat) :=
    mulWord_eq_ok.2 ⟨by simp only [wordLimit]; omega, rfl⟩
  have hrows : 4 * threads.toNat * threads.toNat < wordLimit ↔ threads.toNat < threadLimit := by
    -- four squares of the limit are the end of the words
    have hlimit : wordLimit = 4 * threadLimit * threadLimit := rfl
    rw [hlimit]
    constructor
    · intro hlt
      by_contra hge
      have hle := Nat.not_lt.1 hge
      exact Nat.not_lt.2 (Nat.mul_le_mul (Nat.mul_le_mul_left 4 hle) hle) hlt
    · exact fun hlt => Nat.mul_lt_mul'' (Nat.mul_lt_mul_of_pos_left hlt (by decide)) hlt
  rw [Matrix.size, hrow]
  show mulWord (4 * threads.toNat) threads.toNat = _
  simp only [mulWord, hrows]

namespace Config

/-! ## The check in two parts -/

/-- The first single setting that is wrong, wherever the heap ends. -/
def settingFault (c : Config) : Option ConfigFault :=
  if c.threads = 0 then some .noThreads
  else if maxThreads < c.threads then some .tooManyThreads
  else if c.queueCapacity = 0 then some .noQueue
  else if c.stackSize < 2 * lineSize then some .smallStack
  else if c.blockSize = 0 then some .emptyBlocks
  else if c.registerAt % lineSize ≠ 0 then some .registerUnaligned
  else if c.matrixAt % 4 ≠ 0 then some .matrixUnaligned
  else none

/-- The first part of the heap that is out of place, with a matrix of so many bytes. -/
def placeFault (c : Config) (matrixBytes : Nat) : Option ConfigFault :=
  let registerEnd := saturate (c.registerAt + 8)
  let matrixEnd := saturate (c.matrixAt + matrixBytes)
  if c.heapSize < c.span then some .blocksExceedHeap
  else if c.registerAt < c.span ∨ c.heapSize < registerEnd then some .registerMisplaced
  else if c.matrixAt < c.span ∨ c.heapSize < matrixEnd then some .matrixMisplaced
  else if c.matrixAt < registerEnd ∧ c.registerAt < matrixEnd then some .matrixOverlapsRegister
  else none

/-- What is asked of the single settings. They are tested in the order of the fields here, and in
front of anything that is computed from them. -/
structure Sound (c : Config) : Prop where
  threads_pos : 0 < c.threads
  threads_le : c.threads ≤ maxThreads
  queue_pos : 0 < c.queueCapacity
  stack_ge : 2 * lineSize ≤ c.stackSize
  payload : 0 < c.blockSize
  register_aligned : c.registerAt % lineSize = 0
  matrix_aligned : c.matrixAt % 4 = 0

variable {c : Config}

theorem settingFault_eq_none_iff : c.settingFault = none ↔ c.Sound := by
  unfold settingFault
  constructor
  · intro h
    split_ifs at h with hthreads hid hqueue hstack hblocks hline haligned
    exact ⟨Nat.pos_of_ne_zero hthreads, Nat.not_lt.1 hid, Nat.pos_of_ne_zero hqueue,
      Nat.not_lt.1 hstack, Nat.pos_of_ne_zero hblocks, not_not.1 hline, not_not.1 haligned⟩
  · intro h
    rw [if_neg (Nat.ne_of_gt h.threads_pos), if_neg (Nat.not_lt.2 h.threads_le),
      if_neg (Nat.ne_of_gt h.queue_pos), if_neg (Nat.not_lt.2 h.stack_ge),
      if_neg (Nat.ne_of_gt h.payload), if_neg (not_not_intro h.register_aligned),
      if_neg (not_not_intro h.matrix_aligned)]

/-- A fault that is found ends the tests, and the rest is for those that have found none. -/
theorem test_eq {p : Prop} [Decidable p] {fault : ConfigFault} {others : Option ConfigFault}
    {tests rest : Except Halt (Option ConfigFault)}
    (h : tests = match others with
      | some fault => .ok (some fault)
      | none => rest) :
    (if p then pure (some fault) else tests) =
      match if p then some fault else others with
      | some fault => .ok (some fault)
      | none => rest := by
  by_cases hp : p
  · rw [if_pos hp, if_pos hp]
    rfl
  · rw [if_neg hp, if_neg hp, h]

/-- **The check in its order**: the settings, the size of the matrix, the places. Only the size can
end in an abort, so the order decides: a fault of the settings is reported also where the size could
not be computed. -/
theorem check_eq (c : Config) :
    c.check = match c.settingFault with
      | some fault => .ok (some fault)
      | none => do return c.placeFault (← Matrix.size (UInt32.ofNat c.threads)) := by
  unfold check settingFault
  iterate 7 refine test_eq ?_
  refine bind_congr fun bytes => ?_
  unfold placeFault
  dsimp only
  split_ifs <;> rfl

/-- The thread count of sound settings is that of the matrix. -/
theorem Sound.toNat_threads (h : c.Sound) : (UInt32.ofNat c.threads).toNat = c.threads := by
  have hle := h.threads_le
  simp only [maxThreads, halfWordLimit] at hle
  rw [UInt32.toNat_ofNat']
  omega

/-- With sound settings the thread count decides whether there is a verdict. -/
theorem Sound.check_eq (h : c.Sound) :
    c.check =
      if c.threads < Matrix.threadLimit then
        .ok (c.placeFault (4 * c.threads * c.threads))
      else .error (.aborted .mulOverflow) := by
  rw [Config.check_eq, settingFault_eq_none_iff.2 h, Matrix.size_eq, h.toNat_threads]
  split_ifs <;> rfl

/-- Any other configuration has the verdict of its settings. -/
theorem check_of_not_sound (h : ¬c.Sound) : ∃ fault, c.check = .ok (some fault) := by
  rcases hfault : c.settingFault with _ | fault
  · exact absurd (settingFault_eq_none_iff.1 hfault) h
  · refine ⟨fault, ?_⟩
    rw [check_eq, hfault]

/-! ## The overflow -/

/-- **The overflow of the check.** A configuration gets a verdict, unless its settings are
sound and it has so many threads that the size of their matrix is no word. Then the check is
aborted in that product, and nothing else can stop it. -/
theorem check_overflows_iff (c : Config) :
    (c.check = .error (.aborted .mulOverflow) ↔ c.Sound ∧ 2147483648 ≤ c.threads) ∧
    ((∃ verdict, c.check = .ok verdict) ↔ ¬(c.Sound ∧ 2147483648 ≤ c.threads)) := by
  by_cases hsound : c.Sound
  · rw [hsound.check_eq]
    by_cases hthreads : c.threads < Matrix.threadLimit
    · have hnot : ¬2147483648 ≤ c.threads := Nat.not_le.2 hthreads
      simp [hthreads, hnot]
    · have hle : 2147483648 ≤ c.threads := Nat.not_lt.1 hthreads
      simp [hthreads, hle, hsound]
  · obtain ⟨fault, hcheck⟩ := check_of_not_sound hsound
    simp [hcheck, hsound]

/-- **A thread count that fits a thread id, and whose matrix is no word.** Nothing is wrong
with the settings, and the check is aborted where it should say that the matrix does not lie
in the heap. -/
theorem manyThreads_overflow :
    ({ threads := 2147483648 } : Config).check = .error (.aborted .mulOverflow) :=
  (Sound.check_eq ⟨by decide, by decide, by decide, by decide, by decide, rfl, rfl⟩).trans
    (if_neg (by decide))

end Config

end DurableCalls
