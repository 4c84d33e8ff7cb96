/-
`Separation.lean` -- the users of a heap with a configuration that has passed its check.

The check computes in words that stick at their end. Over a heap that is a file none of its
sums gets there, so what it has compared are the true ends of the blocks, the register and
the matrix (`Layout.of_check`), and these are beside each other.

Then whatever the users of the heap do, in any order of their steps: an operation of the
allocator and a write into a payload leave the register and the matrix, and a step of a swap
or of its recovery leaves the blocks, and with them all that the allocator knows or could
find out (`separated`).
-/
import DurableCalls.Config
import DurableCalls.Proofs.Allocator.AnyTrailers
import DurableCalls.Proofs.Swap.Steps

set_option autoImplicit false

namespace DurableCalls

open Region

/-! ## What the check has compared -/

theorem saturate_eq_self {n bound : Nat} (h : saturate n ≤ bound) (hbound : bound < sizeLimit) :
    saturate n = n := by
  simp only [saturate, wordLimit, sizeLimit] at h hbound ⊢
  omega

theorem Matrix.size_eq_ok {threads : UInt32} {size : Nat} (h : Matrix.size threads = .ok size) :
    size = 4 * (threads.toNat * threads.toNat) := by
  obtain ⟨row, hrow, h⟩ := exists_of_bind_eq_ok h
  obtain ⟨-, rfl⟩ := mulWord_eq_ok.1 hrow
  obtain ⟨-, rfl⟩ := mulWord_eq_ok.1 h
  exact Nat.mul_assoc _ _ _

namespace Config

/-- Where the threads of a configuration swap. -/
def site (c : Config) : Site := ⟨c.registerAt, ⟨c.matrixAt, UInt32.ofNat c.threads⟩⟩

/-- The blocks, the register and the matrix lie in the heap, and none of them reaches into
another one. -/
structure Layout (c : Config) : Prop where
  payload : 1 ≤ c.blockSize
  span_eq : c.span = (c.maxBlocks + 1) * (c.blockSize + 1)
  span_in : c.span ≤ c.heapSize
  register_behind : c.span ≤ c.registerAt
  matrix_behind : c.span ≤ c.matrixAt
  fits : c.site.FitsIn c.heapSize
  aligned : c.site.Aligned
  threads_eq : c.site.matrix.threads.toNat = c.threads

/-- The span of the blocks is exact as long as it is that of a file. -/
theorem span_eq_of_lt {c : Config} (h : c.span < sizeLimit) :
    c.span = (c.maxBlocks + 1) * (c.blockSize + 1) := by
  have hproduct : c.span = saturate (c.maxBlocks + 1) * saturate (c.blockSize + 1) :=
    saturate_eq_self (Nat.le_refl _) h
  have hblocks : 1 ≤ saturate (c.maxBlocks + 1) := by
    simp only [saturate, wordLimit]
    omega
  have hstride : 1 ≤ saturate (c.blockSize + 1) := by
    simp only [saturate, wordLimit]
    omega
  -- each factor is at most the product
  have hblocks_le : saturate (c.maxBlocks + 1) ≤ c.span := by
    rw [hproduct]
    exact Nat.le_mul_of_pos_right _ hstride
  have hstride_le : saturate (c.blockSize + 1) ≤ c.span := by
    rw [hproduct]
    exact Nat.le_mul_of_pos_left _ hblocks
  rw [hproduct, saturate_eq_self hblocks_le h, saturate_eq_self hstride_le h]

/-- Where no fault was found, a test has not found one, and the tests behind it have not. -/
theorem passed {p : Prop} [Decidable p] {fault : ConfigFault}
    {rest : Except Halt (Option ConfigFault)}
    (h : (if p then pure (some fault) else rest) = .ok none) : ¬p ∧ rest = .ok none := by
  by_cases hp : p
  · rw [if_pos hp] at h
    cases h
  · rw [if_neg hp] at h
    exact ⟨hp, h⟩

theorem Layout.of_check {c : Config} (h : c.check = .ok none) (hsize : c.heapSize < sizeLimit) :
    c.Layout := by
  unfold check at h
  obtain ⟨-, h⟩ := passed h
  obtain ⟨hthreads, h⟩ := passed h
  obtain ⟨-, h⟩ := passed h
  obtain ⟨-, h⟩ := passed h
  obtain ⟨hblocks, h⟩ := passed h
  obtain ⟨hline, h⟩ := passed h
  obtain ⟨haligned, h⟩ := passed h
  obtain ⟨bytes, hbytes, h⟩ := exists_of_bind_eq_ok h
  obtain ⟨hspan, h⟩ := passed h
  obtain ⟨hregister, h⟩ := passed h
  obtain ⟨hmatrix, h⟩ := passed h
  obtain ⟨hapart, -⟩ := passed h
  obtain ⟨hregisterBehind, hregisterIn⟩ := not_or.1 hregister
  obtain ⟨hmatrixBehind, hmatrixIn⟩ := not_or.1 hmatrix
  have hspan_in := Nat.not_lt.1 hspan
  -- no sum has stuck at the end of the words, because all of them are inside the heap
  have hregisterEnd : saturate (c.registerAt + 8) = c.registerAt + 8 :=
    saturate_eq_self (Nat.not_lt.1 hregisterIn) hsize
  have hmatrixEnd : saturate (c.matrixAt + bytes) = c.matrixAt + bytes :=
    saturate_eq_self (Nat.not_lt.1 hmatrixIn) hsize
  have hbytes_eq : bytes = c.site.matrix.bytes := Matrix.size_eq_ok hbytes
  rw [hregisterEnd] at hregisterIn hapart
  rw [hmatrixEnd, hbytes_eq] at hmatrixIn hapart
  refine ⟨by omega, c.span_eq_of_lt (Nat.lt_of_le_of_lt hspan_in hsize), hspan_in,
    Nat.not_lt.1 hregisterBehind, Nat.not_lt.1 hmatrixBehind, ⟨not_not.1 hline,
      Nat.not_lt.1 hregisterIn, Nat.not_lt.1 hmatrixIn, ?_⟩, not_not.1 haligned, ?_⟩
  · show c.registerAt + 8 ≤ c.matrixAt ∨ c.matrixAt + c.site.matrix.bytes ≤ c.registerAt
    omega
  · show (UInt32.ofNat c.threads).toNat = c.threads
    rw [UInt32.toNat_ofNat']
    simp only [maxThreads, halfWordLimit] at hthreads
    omega

end Config

/-! ## What an allocator would recover -/

namespace Allocator

variable {a : Allocator} {heap heap' : Region}

/-- A scan looks at trailers alone, so heaps that agree on the span of the blocks are scanned alike.
The induction is on the blocks that are left. -/
theorem recoverFrom_of_agree (h : a.FitsIn heap)
    (hsame : Agree 0 ((a.maxBorder + 1) * (a.blockSize + 1)) heap heap') :
    ∀ (behind n : Nat) (freed : List Nat), n + behind = a.maxBorder →
      a.recoverFrom heap' freed n behind = a.recoverFrom heap freed n behind := by
  have hbyte : ∀ n, n ≤ a.maxBorder →
      heap'.readByte (a.trailerStart n) = heap.readByte (a.trailerStart n) := by
    intro n hn
    have hlt : a.trailerStart n < (a.maxBorder + 1) * (a.blockSize + 1) :=
      a.trailerStart_lt_blockStart (Nat.lt_succ_of_le hn)
    rw [readByte, readByte, readNumber_of_agree (hsame.mono (Nat.zero_le _) hlt)]
  intro behind
  induction behind with
  | zero =>
    intro n freed hn
    have hle : n ≤ a.maxBorder := Nat.le.intro hn
    rw [recoverFrom, recoverFrom]
    simp only [h.trailerAt_eq hle, bind, Except.bind, hbyte n hle]
  | succ behind ih =>
    intro n freed hn
    have hle : n ≤ a.maxBorder := Nat.le.intro hn
    have hnext : ∀ freed, a.recoverFrom heap' freed (n + 1) behind
        = a.recoverFrom heap freed (n + 1) behind := fun freed => ih (n + 1) freed (by omega)
    rw [recoverFrom, recoverFrom]
    simp only [h.trailerAt_eq hle, bind, Except.bind, hbyte n hle, hnext]

/-- What is behind the blocks plays no part in a recovery. -/
theorem attach_of_agree {blockSize maxBorder : Nat} (hpayload : 1 ≤ blockSize)
    (hspan : (maxBorder + 1) * (blockSize + 1) ≤ heap.size)
    (hsame : Agree 0 ((maxBorder + 1) * (blockSize + 1)) heap heap') :
    (attach blockSize maxBorder false heap').1 = (attach blockSize maxBorder false heap).1 := by
  have hspan' : (maxBorder + 1) * (blockSize + 1) ≤ heap'.size := by
    rw [hsame.1]
    exact hspan
  rw [attach_of_fits hpayload hspan, attach_of_fits hpayload hspan', if_neg (by decide),
    if_neg (by decide), Run.liftHalt_apply, Run.liftHalt_apply]
  exact recoverFrom_of_agree ⟨hpayload, hspan⟩ hsame maxBorder 0 [] (Nat.zero_add _)

end Allocator

/-! ## The users of a heap -/

open BlockHeap

/-- What a user of the heap is doing, and how far it is. Each operation is a machine of steps here,
cut at its accesses to the heap. -/
inductive Activity
  | idle
  | allocating (stage : Allocating)
  | freeing (stage : Freeing)
  | swapping (s : Swap) (stage : Swap.Stage)
  | recovering (s : Swap) (search : Swap.Search)

namespace Activity

/-- After a step an operation goes on. One that has returned or halted is over. -/
def after {stage result : Type} (activity : stage → Activity)
    (run : Except Halt (stage ⊕ result) × BlockHeap) : Activity × BlockHeap :=
  match run with
  | (.ok (.inl next), t) => (activity next, t)
  | (.ok (.inr _), t) => (.idle, t)
  | (.error _, t) => (.idle, t)

/-- The next step, and the heap and the allocator that it leaves. -/
def step (s : BlockHeap) : Activity → Activity × BlockHeap
  | .idle => (.idle, s)
  | .allocating stage => after .allocating (stage.advance s)
  | .freeing stage => after .freeing (stage.advance s)
  | .swapping swap stage => after (.swapping swap) (onHeap (swap.advance stage) s)
  | .recovering swap search => after (.recovering swap) (onHeap (search.advance swap) s)

/-- The step is one of a swap or of a recovery. -/
def Swaps : Activity → Prop
  | .swapping _ _ | .recovering _ _ => True
  | _ => False

/-- The beginning of an operation of the allocator, or of a swap or a recovery by a thread of
the configuration. -/
def Call (c : Config) : Activity → Prop
  | .idle => False
  | .allocating stage => stage = .entered
  | .freeing stage => ∃ offset, stage = .entered offset
  | .swapping s stage => s.site = c.site ∧ s.thread < c.site.matrix.threads ∧ stage = .entered
  | .recovering s search => s.site = c.site ∧ s.thread < c.site.matrix.threads ∧ search = .entered

/-- What the numbers of an activity have to be. -/
def Bounded (c : Config) : Activity → Prop
  | .idle => True
  | .allocating stage => stage.Bounded c.maxBlocks
  | .freeing stage => stage.Bounded c.maxBlocks
  | .swapping s _ | .recovering s _ => s.site = c.site

end Activity

/-- What a user does next. The steps of an operation need not follow each other: other users may do
something between any two of them. -/
inductive UserStep
  /-- It begins an operation. -/
  | calls (activity : Activity)
  /-- It takes a step of the operation that it has begun. -/
  | goesOn
  /-- It writes into the payload of a block. -/
  | writes (n pos : Nat) (data : List UInt8)

/-- Whether a user of a heap with this configuration may do so: it writes inside the payload of
a block. -/
def UserStep.Allowed (c : Config) : UserStep → Prop
  | .calls activity => activity.Call c
  | .goesOn => True
  | .writes n pos data => n ≤ c.maxBlocks ∧ pos + data.length ≤ c.blockSize

/-- A heap with its allocator, and the users, which are numbered. The allocator is shared by all of
them, as the heap is. -/
structure Users where
  shared : BlockHeap
  activities : List Activity

namespace Users

/-- At the start so many users are idle. -/
def start (shared : BlockHeap) (count : Nat) : Users := ⟨shared, List.replicate count .idle⟩

/-- The user of this number does something. One that is busy begins no second operation, and one
that is idle has no step to take. -/
def step (c : Config) (u : Users) (user : Nat) : UserStep → Users
  | .calls activity =>
    match u.activities[user]? with
    | some .idle => { u with activities := u.activities.set user activity }
    | _ => u
  | .goesOn =>
    match u.activities[user]? with
    | none => u
    | some activity =>
      let (next, shared) := activity.step u.shared
      ⟨shared, u.activities.set user next⟩
  | .writes n pos data =>
    { u with shared := (onHeap (Region.write (n * (c.blockSize + 1) + pos) data) u.shared).2 }

/-- The users do what a schedule says, in any order. -/
def run (c : Config) (u : Users) (schedule : List (Nat × UserStep)) : Users :=
  schedule.foldl (fun u entry => u.step c entry.1 entry.2) u

/-- Whether what comes next is a step of a swap or of a recovery. -/
def Swaps (u : Users) (user : Nat) : UserStep → Prop
  | .goesOn => ∃ activity, u.activities[user]? = some activity ∧ activity.Swaps
  | _ => False

/-- **The invariant of all runs**: the allocator fits the heap, and everything that a user remembers
in the middle of an operation is the number of a block, or a swap at the site of the configuration.
-/
structure Bounded (c : Config) (u : Users) : Prop where
  shared : u.shared.Bounded c.blockSize c.maxBlocks
  size_eq : u.shared.heap.size = c.heapSize
  activities : ∀ activity ∈ u.activities, activity.Bounded c

end Users

section Users

variable {c : Config} {s : BlockHeap} {u : Users} {activity : Activity}

/-! ## One step -/

namespace Activity

section After

variable {stage result : Type} {goesOn : stage → Activity}
  {run : Except Halt (stage ⊕ result) × BlockHeap}

theorem after_snd : (after goesOn run).2 = run.2 := by
  rcases run with ⟨_ | _ | _, t⟩ <;> rfl

theorem after_bounded (h : ∀ next, run.1 = .ok (.inl next) → (goesOn next).Bounded c) :
    (after goesOn run).1.Bounded c := by
  rcases run with ⟨halt | next | value, t⟩
  · exact trivial
  · exact h next rfl
  · exact trivial

end After

/-- What a step leaves, and what it goes on with. The two fields in the middle are the frame
conditions: which part of the heap the step cannot have touched, by the kind of the operation. -/
structure Stepped (c : Config) (activity : Activity) (s : BlockHeap)
    (next : Activity × BlockHeap) : Prop where
  shared : next.2.Bounded c.blockSize c.maxBlocks
  bounded : next.1.Bounded c
  /-- A step of a swap leaves the blocks and the allocator. -/
  swapped : activity.Swaps → Agree 0 c.span s.heap next.2.heap ∧ next.2.allocator = s.allocator
  /-- Any other one leaves what is behind the blocks. -/
  unswapped : ¬activity.Swaps → ∀ lo hi, c.span ≤ lo → Agree lo hi s.heap next.2.heap
  size_eq : next.2.heap.size = s.heap.size

/-- A step of the allocator's. -/
theorem stepped_of_inSpan {stage result : Type} {m : Run BlockHeap (stage ⊕ result)}
    {goesOn : stage → Activity} {bounded : stage → Prop} (hlayout : c.Layout)
    (hm : InSpan c.blockSize c.maxBlocks m (GoesOn bounded))
    (hs : s.Bounded c.blockSize c.maxBlocks) (hactivity : ¬activity.Swaps)
    (hnext : ∀ next, bounded next → (goesOn next).Bounded c) :
    Stepped c activity s (after goesOn (m s)) := by
  obtain ⟨hshared, hagree, hgoes⟩ := hm s hs
  rw [← hlayout.span_eq] at hagree
  refine ⟨?_, after_bounded fun next hrun => hnext next (hgoes _ hrun), fun h => absurd h hactivity,
    fun _ lo hi hlo => ?_, ?_⟩
  · rw [after_snd]
    exact hshared
  · rw [after_snd]
    exact hagree lo hi hlo
  · rw [after_snd]
    exact (hagree c.span c.span (Nat.le_refl _)).1

/-- A step that leaves what is beside the register and the matrix. -/
theorem stepped_of_leaves {stage result : Type} {m : Run Region (stage ⊕ result)}
    {goesOn : stage → Activity} (hlayout : c.Layout)
    (hm : ∀ lo hi, c.site.Beside lo hi → Region.Leaves lo hi m)
    (hs : s.Bounded c.blockSize c.maxBlocks) (hactivity : activity.Swaps)
    (hnext : ∀ next, (goesOn next).Bounded c) :
    Stepped c activity s (after goesOn (onHeap m s)) := by
  have hagree : Agree 0 c.span s.heap (m s.heap).2 :=
    hm 0 c.span ⟨.inl hlayout.register_behind, .inl hlayout.matrix_behind⟩ s.heap
  have hrun : (onHeap m s).2 = ⟨s.allocator, (m s.heap).2⟩ := rfl
  have hfits : s.allocator.FitsIn (m s.heap).2 :=
    ⟨hs.fits.payload, by rw [hagree.1]; exact hs.fits.span_le⟩
  refine ⟨?_, after_bounded fun next _ => hnext next, fun _ => ?_, fun h => absurd hactivity h, ?_⟩
  · rw [after_snd, hrun]
    exact ⟨hs.blockSize_eq, hs.maxBorder_eq, hfits, hs.border_le, hs.free_le⟩
  · rw [after_snd, hrun]
    exact ⟨hagree, rfl⟩
  · rw [after_snd, hrun]
    exact hagree.1

/-- **What one step may write**, whatever the heap holds. A step of the allocator keeps to the
blocks, and one of a swap or of its recovery to the register and the matrix. Nothing is asked of the
steps before it but that they were within their bounds. -/
theorem stepped (hlayout : c.Layout) (hs : s.Bounded c.blockSize c.maxBlocks)
    (h : activity.Bounded c) : Stepped c activity s (activity.step s) := by
  cases activity with
  | idle => exact ⟨hs, trivial, nofun, fun _ _ _ _ => Agree.refl, rfl⟩
  | allocating stage =>
    exact stepped_of_inSpan hlayout (stage.advance_inSpan h) hs id fun _ hnext => hnext
  | freeing stage =>
    exact stepped_of_inSpan hlayout (stage.advance_inSpan h) hs id fun _ hnext => hnext
  | swapping swap stage =>
    refine stepped_of_leaves hlayout (fun lo hi hbeside => ?_) hs trivial fun _ => h
    exact swap.advance_leaves (show swap.site.Beside lo hi from h ▸ hbeside) stage
  | recovering swap search =>
    refine stepped_of_leaves hlayout (fun lo hi hbeside => ?_) hs trivial fun _ => h
    exact search.advance_leaves (show swap.site.Beside lo hi from h ▸ hbeside)

theorem Call.bounded (h : activity.Call c) : activity.Bounded c := by
  cases activity with
  | idle => exact trivial
  | allocating stage =>
    obtain rfl : stage = .entered := h
    exact trivial
  | freeing stage =>
    obtain ⟨offset, rfl⟩ := h
    exact trivial
  | swapping swap stage => exact h.1
  | recovering swap search => exact h.1

end Activity

namespace Users

/-- What comes next leaves what is not its own. A step of a swap leaves the blocks, so a restarted
allocator is the same; any other step leaves the register and the matrix to the byte. -/
structure Separate (c : Config) (u t : Users) (swaps : Prop) : Prop where
  swapped : swaps → Agree 0 c.span u.shared.heap t.shared.heap ∧
    t.shared.allocator = u.shared.allocator ∧
    (Allocator.attach c.blockSize c.maxBlocks false t.shared.heap).1
      = (Allocator.attach c.blockSize c.maxBlocks false u.shared.heap).1
  unswapped : ¬swaps →
    Agree c.registerAt (c.registerAt + 8) u.shared.heap t.shared.heap ∧
    Agree c.matrixAt (c.matrixAt + c.site.matrix.bytes) u.shared.heap t.shared.heap

/-- Where the heap and the allocator stay, everything does. -/
theorem separate_of_same {t : Users} {swaps : Prop} (h : t.shared = u.shared) :
    Separate c u t swaps := by
  constructor
  · intro _
    rw [h]
    exact ⟨Agree.refl, rfl, rfl⟩
  · intro _
    rw [h]
    exact ⟨Agree.refl, Agree.refl⟩

/-- The register and the matrix are behind the blocks. -/
theorem separate_of_behind {t : Users} {swaps : Prop} (hlayout : c.Layout) (hswaps : ¬swaps)
    (h : ∀ lo hi, c.span ≤ lo → Agree lo hi u.shared.heap t.shared.heap) :
    Separate c u t swaps :=
  ⟨fun h => absurd h hswaps, fun _ => ⟨h _ _ hlayout.register_behind, h _ _ hlayout.matrix_behind⟩⟩

theorem Bounded.set (h : u.Bounded c) (user : Nat) {activity : Activity} {shared : BlockHeap}
    (hactivity : activity.Bounded c) (hshared : shared.Bounded c.blockSize c.maxBlocks)
    (hsize : shared.heap.size = u.shared.heap.size) :
    (Users.mk shared (u.activities.set user activity)).Bounded c := by
  refine ⟨hshared, hsize.trans h.size_eq, fun other hother => ?_⟩
  rcases List.mem_or_eq_of_mem_set hother with hmem | rfl
  · exact h.activities other hmem
  · exact hactivity

/-- A user takes the next step of its operation. By the kind of the operation this is a step of the
allocator or one of a swap, and the other users' bytes are left in both cases. -/
theorem Bounded.goesOn (hlayout : c.Layout) (h : u.Bounded c) (user : Nat) :
    (u.step c user .goesOn).Bounded c ∧
      Separate c u (u.step c user .goesOn) (u.Swaps user .goesOn) := by
  cases hactivity : u.activities[user]? with
  | none =>
    have hstep : u.step c user .goesOn = u := by simp only [step, hactivity]
    rw [hstep]
    exact ⟨h, separate_of_same rfl⟩
  | some activity =>
    have hstep : u.step c user .goesOn = ⟨(activity.step u.shared).2,
        u.activities.set user (activity.step u.shared).1⟩ := by simp only [step, hactivity]
    have hswaps : u.Swaps user .goesOn ↔ activity.Swaps := by
      simp only [Swaps, hactivity, Option.some_inj, exists_eq_left']
    have hstepped := Activity.stepped hlayout h.shared
      (h.activities activity (List.mem_of_getElem? hactivity))
    rw [hstep, hswaps]
    refine ⟨h.set user hstepped.bounded hstepped.shared hstepped.size_eq, ?_⟩
    -- a swap leaves the span of the blocks, and that is all that a recovery would read
    by_cases hswap : activity.Swaps
    · obtain ⟨hagree, hallocator⟩ := hstepped.swapped hswap
      refine ⟨fun _ => ⟨hagree, hallocator, ?_⟩, fun hnot => absurd hswap hnot⟩
      rw [hlayout.span_eq] at hagree
      refine Allocator.attach_of_agree hlayout.payload ?_ hagree
      rw [h.size_eq, ← hlayout.span_eq]
      exact hlayout.span_in
    · exact separate_of_behind hlayout hswap (hstepped.unswapped hswap)

/-- **One step**, of any user. It keeps the invariant, and it leaves what is not its own: a step of
a swap the blocks and what the allocator would recover from them, and any other one the register and
the matrix. -/
theorem Bounded.step (hlayout : c.Layout) (h : u.Bounded c) (user : Nat) {next : UserStep}
    (hnext : next.Allowed c) :
    (u.step c user next).Bounded c ∧ Separate c u (u.step c user next) (u.Swaps user next) := by
  cases next with
  | calls activity =>
    simp only [Users.step]
    split
    · exact ⟨h.set user (Activity.Call.bounded hnext) h.shared rfl, separate_of_same rfl⟩
    · exact ⟨h, separate_of_same rfl⟩
  | goesOn => exact h.goesOn hlayout user
  | writes n pos data =>
    obtain ⟨hshared, hagree, -⟩ := InSpan.write hnext.1 hnext.2 u.shared h.shared
    rw [← hlayout.span_eq] at hagree
    have hsize := (hagree c.span c.span (Nat.le_refl _)).1
    exact ⟨⟨hshared, hsize.trans h.size_eq, h.activities⟩, separate_of_behind hlayout id hagree⟩

/-- **All runs**, by induction on the schedule. One step of any user keeps the invariant, so it does
not matter in which order the users go on. -/
theorem Bounded.run (hlayout : c.Layout) (schedule : List (Nat × UserStep)) :
    ∀ {u : Users}, u.Bounded c → (∀ entry ∈ schedule, entry.2.Allowed c) →
      (u.run c schedule).Bounded c := by
  induction schedule with
  | nil => exact fun h _ => h
  | cons entry rest ih =>
    intro u h hallowed
    exact ih (h.step hlayout entry.1 (hallowed entry List.mem_cons_self)).1
      fun other hother => hallowed other (List.mem_cons_of_mem entry hother)

/-- An allocator that was made over the heap is bounded, a formatted one and a recovered one. -/
theorem bounded_start {heap formatted : Region} {fresh : Bool} {a : Allocator}
    (hsize : heap.size = c.heapSize)
    (h : Allocator.attach c.blockSize c.maxBlocks fresh heap = (.ok a, formatted)) (count : Nat) :
    (start ⟨a, formatted⟩ count).Bounded c := by
  have hidle : ∀ activity ∈ List.replicate count Activity.idle, activity.Bounded c := by
    intro activity hmem
    rw [List.eq_of_mem_replicate hmem]
    exact trivial
  refine ⟨bounded_of_attach h, ?_, hidle⟩
  exact (size_of_attach h).trans hsize

end Users

/-- **A configuration without faults keeps the users of a heap apart.** Over a heap of its size
the allocator, the register and the cells of the matrix can be used. And after any steps of any
number of users, in any order, the next step leaves what is not its own: a step of a swap or a
recovery leaves the blocks, the allocator, and the allocator that a recovery would make; any
other step, also a write into a payload, leaves the register and the matrix. -/
theorem Config.separated {heap : Region} (hcheck : c.check = .ok none)
    (hsize : heap.size = c.heapSize) :
    (∃ a formatted,
      Allocator.attach c.blockSize c.maxBlocks true heap = (.ok a, formatted)) ∧
    (∀ value, ∃ after, Register.init c.registerAt value heap = (.ok (), after)) ∧
    (∀ row col : UInt32, row.toNat < c.threads → col.toNat < c.threads →
      (∃ value, c.site.matrix.load heap row col = .ok value) ∧
      ∀ value, ∃ after, c.site.matrix.commit row col value heap = (.ok (), after)) ∧
    ∀ fresh a formatted,
      Allocator.attach c.blockSize c.maxBlocks fresh heap = (.ok a, formatted) →
      ∀ count schedule, (∀ entry ∈ schedule, entry.2.Allowed c) →
      ∀ user next, next.Allowed c →
        let u := (Users.start ⟨a, formatted⟩ count).run c schedule
        Users.Separate c u (u.step c user next) (u.Swaps user next) := by
  have hheap : c.heapSize < sizeLimit := by
    rw [← hsize]
    exact heap.size_lt
  have hlayout := Layout.of_check hcheck hheap
  refine ⟨?_, ?_, ?_, ?_⟩
  · have hspan : (c.maxBlocks + 1) * (c.blockSize + 1) ≤ heap.size := by
      rw [hsize, ← hlayout.span_eq]
      exact hlayout.span_in
    obtain ⟨formatted, hattach, -⟩ := Allocator.attach_fresh hlayout.payload hspan
    exact ⟨_, formatted, hattach⟩
  · intro value
    have hin : c.registerAt + 8 ≤ heap.size := by
      rw [hsize]
      exact hlayout.fits.register_in
    exact ⟨_, Register.init_of_fits value hlayout.fits.line hin⟩
  · intro row col hrow hcol
    rw [← hlayout.threads_eq] at hrow hcol
    have hrow' : row < c.site.matrix.threads := UInt32.lt_iff_toNat_lt.2 hrow
    have hcol' : col < c.site.matrix.threads := UInt32.lt_iff_toNat_lt.2 hcol
    -- the offset of a cell does not leave the word, and the matrix lies in the heap
    have hfits : c.site.FitsIn heap.size := hsize ▸ hlayout.fits
    have hcell := Matrix.cellAt_eq hrow' hcol' hfits.matrix_lt
    have hin := hfits.cell_in hrow' hcol'
    have hmod := (Matrix.cellOffset_mod row col).trans hlayout.aligned
    constructor
    · obtain ⟨bytes, hread⟩ := exists_read hin
      refine ⟨UInt32.ofNat (ofBytes bytes), ?_⟩
      simp only [Matrix.load, hcell, load_of_aligned hin hmod, readNumber_of_read hread, bind,
        Except.bind, liftM, monadLift, MonadLift.monadLift, pure, Except.pure]
    · intro value
      refine ⟨heap.put (c.site.matrix.cellOffset row col) (toBytes 4 value.toNat), ?_⟩
      simp only [Matrix.commit, Run.bind_apply, Run.liftHalt_apply, hcell]
      exact commit_of_aligned hin hmod
  · intro fresh a formatted hattach count schedule hallowed user next hnext
    have hbounded := (Users.bounded_start hsize hattach count).run hlayout schedule hallowed
    exact (hbounded.step hlayout user hnext).2

end Users

/-- Two threads in a small heap: eight bytes of blocks, the register on the second cache line,
and the matrix behind it. -/
def Config.small : Config :=
  { threads := 2, heapSize := 128, maxBlocks := 3, registerAt := 64, matrixAt := 72 }

theorem Config.small_separated :
    Config.small.check = .ok none ∧ blankHeap.size = Config.small.heapSize ∧
    ∃ a formatted, Allocator.attach 1 3 true blankHeap = (.ok a, formatted) ∧
      ∀ count schedule, (∀ entry ∈ schedule, entry.2.Allowed Config.small) →
      ∀ user next, next.Allowed Config.small →
        let u := (Users.start ⟨a, formatted⟩ count).run Config.small schedule
        Users.Separate Config.small u (u.step Config.small user next) (u.Swaps user next) := by
  have hcheck : Config.small.check = .ok none := by decide
  have hsize : blankHeap.size = Config.small.heapSize := size_blankHeap
  obtain ⟨⟨a, formatted, hattach⟩, -, -, hseparated⟩ := Config.separated hcheck hsize
  exact ⟨hcheck, hsize, a, formatted, hattach, hseparated true a formatted hattach⟩

end DurableCalls
