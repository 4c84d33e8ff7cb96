/-
`Steps.lean` -- allocating and freeing, cut where others may come between.

An operation of the allocator is a few accesses to single trailers, and what it remembers
from one to the next. Others may use the heap between any two of them. The steps put
together are the operation (`Allocating.leads_iff_alloc`, `Freeing.leads_iff_free`), and each of
them, wherever the operation is and whatever has come between, leaves all bytes
behind the blocks (`Allocating.advance_inSpan`, `Freeing.advance_inSpan`).

For this the trailers need not say what they should. It is enough that all numbers that the
allocator and the operation remember are those of blocks (`Bounded`).
-/
import DurableCalls.Proofs.Allocator.Operations
import DurableCalls.Proofs.Region.Stages

set_option autoImplicit false

namespace DurableCalls

open Region Allocator

namespace BlockHeap

/-! ## The steps of an allocation -/

/-- How far an allocation is, and what it remembers: the allocator that it found, and the
block that it is about to hand out. -/
inductive Allocating
  | entered
  /-- A freed block is taken from the free set, and is still to be marked. -/
  | recycling (a : Allocator) (n : Nat)
  /-- A new border is to be marked. -/
  | growing (a : Allocator) (grown : Nat)
  /-- The new border is marked, and the old one is still to be lowered. -/
  | lowering (a : Allocator) (grown : Nat)
deriving DecidableEq, Repr

namespace Allocating

/-- The next step, after which the allocation goes on or gives an offset. Each step reads or writes
one trailer at most. -/
def advance : Allocating → Run BlockHeap (Allocating ⊕ Nat)
  | .entered => do
    let a := (← get).allocator
    match a.free with
    | n :: rest =>
      note fun a => { a with free := rest }
      return .inl (.recycling a n)
    | [] =>
      if a.border = a.maxBorder then Run.fail .heapExhausted
      return .inl (.growing a (← addWord a.border 1))
  | .recycling a n => do
    mark n Trailer.allocated
    return .inr (← a.blockAt n)
  | .growing a grown => do
    mark grown Trailer.border
    return .inl (.lowering a grown)
  | .lowering a grown => do
    mark a.border Trailer.allocated
    note fun a => { a with border := grown }
    return .inr (← a.blockAt grown)

/-- What is left to do at a stage. At the first stage that is the whole operation, and `advance`
takes one step of it. -/
def remaining : Allocating → Run BlockHeap Nat
  | .entered => alloc
  | .recycling a n => do
    mark n Trailer.allocated
    a.blockAt n
  | .growing a grown => do
    mark grown Trailer.border
    mark a.border Trailer.allocated
    note fun a => { a with border := grown }
    a.blockAt grown
  | .lowering a grown => do
    mark a.border Trailer.allocated
    note fun a => { a with border := grown }
    a.blockAt grown

/-- **The steps are the allocation.** What is left of it at a stage is one step, and then what is
left at the next stage, or the result. So nothing is changed by cutting it where nobody comes
between. -/
theorem remaining_eq_advance (stage : Allocating) :
    stage.remaining = stage.advance >>= Sum.elim remaining pure := by
  cases stage with
  | entered =>
    simp only [remaining, advance, alloc, allocBy, bind_assoc]
    refine bind_congr fun s => ?_
    cases s.allocator.free with
    | nil =>
      by_cases hfull : s.allocator.border = s.allocator.maxBorder
      · simp [hfull, remaining]
      · simp [hfull, remaining]
    | cons n rest => simp [remaining]
  | recycling a n => simp [remaining, advance]
  | growing a grown => simp [remaining, advance]
  | lowering a grown => simp [remaining, advance]

/-- How many steps are still to come behind the next one. -/
def rank : Allocating → Nat × Nat
  | entered => (2, 0)
  | recycling _ _ => (0, 0)
  | growing _ _ => (1, 0)
  | lowering _ _ => (0, 0)

/-- The stages of an allocation come in a fixed order, and none of them comes twice. -/
theorem staged : Staged advance remaining rank where
  apart := remaining_eq_advance
  nearer stage := by
    cases stage with
    | entered =>
      apply Run.Returns.behind
      intro s
      dsimp only
      split
      · apply Run.Returns.behind
        intro _
        exact .pure (.left _ _ (by decide))
      · have hgrows : ∀ grown : Nat, Run.Returns (σ := BlockHeap)
            (pure (.inl (.growing s.allocator grown))) (Nearer (α := Nat) rank .entered) :=
          fun _ => .pure (.left _ _ (by decide))
        split
        · exact .behind fun _ => .behind hgrows
        · exact .behind hgrows
    | recycling a n =>
      apply Run.Returns.behind
      intro _
      apply Run.Returns.behind
      intro _
      exact .pure trivial
    | growing a grown =>
      apply Run.Returns.behind
      intro _
      exact .pure (.left _ _ (by decide))
    | lowering a grown =>
      apply Run.Returns.behind
      intro _
      apply Run.Returns.behind
      intro _
      apply Run.Returns.behind
      intro _
      exact .pure trivial

/-- **An allocation that nobody interrupts** is the one that is told in one go: its steps lead from
the entry to a result exactly if the whole allocation has that result. They come to an end because
each of them lowers the rank of its stage. -/
theorem leads_iff_alloc {s t : BlockHeap} {result : Except Halt Nat} :
    Leads advance .entered s result t ↔ alloc s = (result, t) :=
  staged.leads_iff

end Allocating

/-! ## The steps of freeing -/

/-- How far the freeing of a block is. The stages are cut where the heap is read or written, so that
others can do something to it between any two of them. -/
inductive Freeing
  | entered (offset : Nat)
  /-- A block below the border is to be marked. -/
  | releasing (n : Nat)
  /-- The border is on its way down over freed blocks, from `top` on. -/
  | descending (top n : Nat)
  /-- The border has come down to a block, which is still to be marked. -/
  | shrinking (border : Nat)
deriving DecidableEq, Repr

/-- `lowerTo` on its way from block `top` down, when it has come to block `n`. -/
def lowerFrom (top n : Nat) : Run BlockHeap Nat := do
  let s ← get
  let (result, border) := s.allocator.descend s.heap n
  note fun a => { a with free := a.free.filter fun k => k ≤ border ∨ top < k }
  result
  return border

namespace Freeing

/-- The next step. On the way down it looks at one trailer. -/
def advance : Freeing → Run BlockHeap (Freeing ⊕ Unit)
  | .entered offset => do
    let a := (← get).allocator
    let n ← a.resolve offset
    if n < a.border then return .inl (.releasing n)
    else return .inl (.descending (n - 1) (n - 1))
  | .releasing n => do
    mark n Trailer.freed
    note fun a => { a with free := insertAscending n a.free }
    return .inr ()
  | .descending top 0 => do
    return .inl (.shrinking (← lowerFrom top 0))
  | .descending top (n + 1) => do
    let s ← get
    match s.allocator.trailer s.heap (n + 1) with
    | .ok value =>
      if value = Trailer.freed then return .inl (.descending top n)
      else return .inl (.shrinking (← lowerFrom top (n + 1)))
    | .error _ => return .inl (.shrinking (← lowerFrom top (n + 1)))
  | .shrinking border => do
    mark border Trailer.border
    note fun a => { a with border }
    return .inr ()

/-- What is left to do at a stage, as a run without stages. The stages of the way down go on with
`lowerFrom`, from the block that the descent has come to. -/
def remaining : Freeing → Run BlockHeap Unit
  | .entered offset => free offset
  | .releasing n => do
    mark n Trailer.freed
    note fun a => { a with free := insertAscending n a.free }
  | .descending top n => do
    let border ← lowerFrom top n
    mark border Trailer.border
    note fun a => { a with border }
  | .shrinking border => do
    mark border Trailer.border
    note fun a => { a with border }

/-- A freed block is passed, and the way down goes on below it. -/
theorem lowerFrom_of_freed {s : BlockHeap} {top n : Nat}
    (h : s.allocator.trailer s.heap (n + 1) = .ok Trailer.freed) :
    lowerFrom top (n + 1) s = lowerFrom top n s := by
  have hdescend : s.allocator.descend s.heap (n + 1) = s.allocator.descend s.heap n := by
    simp only [descend, h, if_true]
  rw [lowerFrom, lowerFrom, Run.bind_of_ok (Run.get_apply s), Run.bind_of_ok (Run.get_apply s),
    hdescend]

/-- **The steps are the freeing.** What is left of it at a stage is one step, and then what is left
at the next stage, or the result. A freed block that is passed on the way down takes one step of its
own. -/
theorem remaining_eq_advance (stage : Freeing) :
    stage.remaining = stage.advance >>= Sum.elim remaining pure := by
  cases stage with
  | entered offset =>
    simp only [remaining, advance, free, freeBy, bind_assoc]
    refine bind_congr fun s => bind_congr fun n => ?_
    by_cases hbelow : n < s.allocator.border
    · simp [hbelow, remaining]
    · simp only [if_neg hbelow, pure_bind]
      rfl
  | releasing n => simp [remaining, advance]
  | descending top n =>
    cases n with
    | zero => simp [remaining, advance]
    | succ n =>
      funext s
      simp only [remaining, advance, bind_assoc]
      rw [Run.bind_of_ok (Run.get_apply s)]
      cases htrailer : s.allocator.trailer s.heap (n + 1) with
      | error halt => simp [remaining]
      | ok value =>
        by_cases hfreed : value = Trailer.freed
        · rw [hfreed] at htrailer
          simp only [if_pos hfreed, pure_bind, Sum.elim_inl, remaining]
          rw [Run.bind_apply, lowerFrom_of_freed htrailer, Run.bind_apply]
        · simp [hfreed, remaining]
  | shrinking border => simp [remaining, advance]

/-- On the way down each step passes a block. -/
def rank : Freeing → Nat × Nat
  | entered _ => (2, 0)
  | releasing _ => (0, 0)
  | descending _ n => (1, n)
  | shrinking _ => (0, 0)

theorem staged : Staged advance remaining rank where
  apart := remaining_eq_advance
  nearer stage := by
    cases stage with
    | entered offset =>
      apply Run.Returns.behind
      intro s
      apply Run.Returns.behind
      intro n
      split
      · exact .pure (.left _ _ (by decide))
      · exact .pure (.left _ _ (by decide))
    | releasing n =>
      apply Run.Returns.behind
      intro _
      apply Run.Returns.behind
      intro _
      exact .pure trivial
    | descending top n =>
      -- the way down ends where a block is not free, or cannot be looked at
      have hends : ∀ n, (do return .inl (.shrinking (← lowerFrom top n)) :
          Run BlockHeap (Freeing ⊕ Unit)).Returns (Nearer rank (.descending top n)) := by
        intro n
        apply Run.Returns.behind
        intro _
        exact .pure (.left _ _ (by decide))
      cases n with
      | zero => exact hends 0
      | succ n =>
        apply Run.Returns.behind
        intro s
        split
        · split
          · exact .pure (.right _ (Nat.lt_succ_self n))
          · exact hends (n + 1)
        · exact hends (n + 1)
    | shrinking border =>
      apply Run.Returns.behind
      intro _
      apply Run.Returns.behind
      intro _
      exact .pure trivial

/-- **A freeing that nobody interrupts** is the one that is told in one go: its steps lead from the
entry to a result exactly if the whole freeing has that result. The way down is finite, so they come
to an end on every heap, whatever its trailers are. -/
theorem leads_iff_free {s t : BlockHeap} {offset : Nat} {result : Except Halt Unit} :
    Leads advance (.entered offset) s result t ↔ free offset s = (result, t) :=
  staged.leads_iff

end Freeing

/-! ## What a step may write -/

/-- The sizes are these, and all numbers that the allocator keeps are those of blocks that lie
in the heap. -/
structure Bounded (blockSize maxBorder : Nat) (s : BlockHeap) : Prop where
  blockSize_eq : s.allocator.blockSize = blockSize
  maxBorder_eq : s.allocator.maxBorder = maxBorder
  fits : s.allocator.FitsIn s.heap
  border_le : s.allocator.border ≤ maxBorder
  free_le : ∀ n ∈ s.allocator.free, n ≤ maxBorder

/-- Whatever the trailers say, a run leaves the allocator bounded and all bytes behind the
blocks as they are. What it returns satisfies `post`. -/
def InSpan {α : Type} (blockSize maxBorder : Nat) (m : Run BlockHeap α) (post : α → Prop) :
    Prop :=
  ∀ s, Bounded blockSize maxBorder s →
    Bounded blockSize maxBorder (m s).2 ∧
    (∀ lo hi, (maxBorder + 1) * (blockSize + 1) ≤ lo → Agree lo hi s.heap (m s).2.heap) ∧
    ∀ a, (m s).1 = .ok a → post a

section InSpan

variable {α β : Type} {blockSize maxBorder n top : Nat} {s : BlockHeap} {m : Run BlockHeap α}
  {post : α → Prop}

namespace InSpan

theorem pure {a : α} (h : post a) : InSpan blockSize maxBorder (pure a) post := by
  refine fun s hs => ⟨hs, fun _ _ _ => Agree.refl, fun b hb => ?_⟩
  rw [← Except.ok.inj hb]
  exact h

/-- Runs one after the other. -/
theorem bind {f : α → Run BlockHeap β} {post' : β → Prop}
    (hm : InSpan blockSize maxBorder m post)
    (hf : ∀ a, post a → InSpan blockSize maxBorder (f a) post') :
    InSpan blockSize maxBorder (m >>= f) post' := by
  intro s hs
  obtain ⟨hbounded, hagree, hpost⟩ := hm s hs
  rcases hrun : m s with ⟨halt | a, t⟩
  · rw [Run.bind_of_error hrun]
    rw [hrun] at hbounded hagree
    exact ⟨hbounded, hagree, nofun⟩
  · rw [Run.bind_of_ok hrun]
    rw [hrun] at hbounded hagree hpost
    obtain ⟨hbounded', hagree', hpost'⟩ := hf a (hpost a rfl) t hbounded
    exact ⟨hbounded', fun lo hi hlo => (hagree lo hi hlo).trans (hagree' lo hi hlo), hpost'⟩

theorem get : InSpan blockSize maxBorder get (Bounded blockSize maxBorder) := by
  refine fun s hs => ⟨hs, fun _ _ _ => Agree.refl, fun t ht => ?_⟩
  rw [← Except.ok.inj ht]
  exact hs

/-- A computation without the state. -/
theorem lift {x : Except Halt α} (h : ∀ a, x = .ok a → post a) :
    InSpan blockSize maxBorder (liftM x) post := by
  intro s hs
  rw [Run.liftHalt_apply]
  exact ⟨hs, fun _ _ _ => Agree.refl, h⟩

theorem fail (f : Failure) : InSpan blockSize maxBorder (Run.fail f) post := fun _ hs =>
  ⟨hs, fun _ _ _ => Agree.refl, nofun⟩

/-- A trailer is the last byte of its block. -/
theorem mark (hn : n ≤ maxBorder) (value : UInt8) :
    InSpan blockSize maxBorder (mark n value) fun _ => True := by
  intro s hs
  have hle : n ≤ s.allocator.maxBorder := by
    rw [hs.maxBorder_eq]
    exact hn
  have hin : s.allocator.trailerStart n + [value].length ≤ s.heap.size := hs.fits.trailer_lt hle
  rw [mark_apply hs.fits hle]
  refine ⟨⟨hs.blockSize_eq, hs.maxBorder_eq, hs.fits.put _ _, hs.border_le, hs.free_le⟩,
    fun lo hi hlo => agree_put hin (.inr ?_), fun _ _ => trivial⟩
  have hlt : s.allocator.trailerStart n < (maxBorder + 1) * (blockSize + 1) := by
    rw [← hs.blockSize_eq]
    exact s.allocator.trailerStart_lt_blockStart (Nat.lt_succ_of_le hn)
  exact Nat.le_trans hlt hlo

/-- The allocator takes note of a border and a free set that are in its bounds. -/
theorem note {f : Allocator → Allocator}
    (hsizes : ∀ a, (f a).blockSize = a.blockSize ∧ (f a).maxBorder = a.maxBorder)
    (hborder : ∀ a, a.border ≤ maxBorder → (f a).border ≤ maxBorder)
    (hfree : ∀ a, (∀ k ∈ a.free, k ≤ maxBorder) → ∀ k ∈ (f a).free, k ≤ maxBorder) :
    InSpan blockSize maxBorder (note f) fun _ => True := by
  intro s hs
  obtain ⟨hsize, hmax⟩ := hsizes s.allocator
  have hfits : (f s.allocator).FitsIn s.heap :=
    ⟨by rw [hsize]; exact hs.fits.payload, by rw [hsize, hmax]; exact hs.fits.span_le⟩
  exact ⟨⟨hsize.trans hs.blockSize_eq, hmax.trans hs.maxBorder_eq, hfits,
    hborder _ hs.border_le, hfree _ hs.free_le⟩, fun _ _ _ => Agree.refl, fun _ _ => trivial⟩

/-- Payloads are in their blocks as well. A write that fits the payload of a block that exists stays
in the span of the allocator. -/
theorem write {pos : Nat} {data : List UInt8} (hn : n ≤ maxBorder)
    (hinside : pos + data.length ≤ blockSize) :
    InSpan blockSize maxBorder (onHeap (Region.write (n * (blockSize + 1) + pos) data))
      fun _ => True := by
  intro s hs
  have hlt := hs.fits.trailer_lt (n := n) (by rw [hs.maxBorder_eq]; exact hn)
  have hspan : s.allocator.trailerStart n < s.allocator.blockStart (maxBorder + 1) :=
    s.allocator.trailerStart_lt_blockStart (Nat.lt_succ_of_le hn)
  rw [trailerStart, blockStart, hs.blockSize_eq] at hlt hspan
  have hin : n * (blockSize + 1) + pos + data.length ≤ s.heap.size := by omega
  have hstate : (onHeap (Region.write (n * (blockSize + 1) + pos) data) s).2
      = ⟨s.allocator, (Region.write (n * (blockSize + 1) + pos) data s.heap).2⟩ := rfl
  rw [hstate, write_apply, if_pos hin]
  refine ⟨⟨hs.blockSize_eq, hs.maxBorder_eq, hs.fits.put _ _, hs.border_le, hs.free_le⟩,
    fun lo hi hlo => agree_put hin (.inr ?_), fun _ _ => trivial⟩
  rw [blockStart, hs.blockSize_eq] at hspan
  omega

end InSpan

/-- All numbers that an allocation remembers are those of blocks. -/
def Allocating.Bounded (maxBorder : Nat) : Allocating → Prop
  | .entered => True
  | .recycling _ n => n ≤ maxBorder
  | .growing a grown => a.border ≤ maxBorder ∧ grown ≤ maxBorder
  | .lowering a grown => a.border ≤ maxBorder ∧ grown ≤ maxBorder

def Freeing.Bounded (maxBorder : Nat) : Freeing → Prop
  | .entered _ => True
  | .releasing n => n ≤ maxBorder
  | .descending _ n => n ≤ maxBorder
  | .shrinking border => border ≤ maxBorder

/-- What holds of the stage at which an operation goes on, if it does. -/
def GoesOn {stage result : Type} (bounded : stage → Prop) : stage ⊕ result → Prop
  | .inl next => bounded next
  | .inr _ => True

/-- **Each step of an allocation** keeps to the blocks, whatever the heap holds: it writes nothing
behind their span, it leaves the sizes that the allocator was made with, and all numbers that it
remembers are those of blocks. -/
theorem Allocating.advance_inSpan (stage : Allocating) (h : stage.Bounded maxBorder) :
    InSpan blockSize maxBorder stage.advance (GoesOn (Allocating.Bounded maxBorder)) := by
  have hreturn : ∀ x : Except Halt Nat, InSpan blockSize maxBorder
      (do return .inr (← (x : Run BlockHeap Nat)) : Run BlockHeap (Allocating ⊕ Nat))
      (GoesOn (Allocating.Bounded maxBorder)) := by
    intro x
    have hgiven : InSpan blockSize maxBorder (liftM x : Run BlockHeap Nat) fun _ => True :=
      InSpan.lift fun _ _ => trivial
    exact hgiven.bind fun _ _ => InSpan.pure trivial
  cases stage with
  | entered =>
    refine InSpan.get.bind fun s hs => ?_
    have hborder := hs.border_le
    cases hfree : s.allocator.free with
    | nil =>
      -- the next number is at most the largest one, because the border is not
      have hnext : InSpan blockSize maxBorder
          (liftM (addWord s.allocator.border 1) : Run BlockHeap Nat)
          fun grown => grown = s.allocator.border + 1 :=
        InSpan.lift fun _ hgrown => (addWord_eq_ok.1 hgrown).2
      by_cases hfull : s.allocator.border = s.allocator.maxBorder
      · simp only [hfree, if_pos hfull]
        have hfails : InSpan blockSize maxBorder
            (Run.fail .heapExhausted : Run BlockHeap Unit) fun _ => False := InSpan.fail _
        exact hfails.bind nofun
      · simp only [hfree, if_neg hfull]
        rw [hs.maxBorder_eq] at hfull
        exact hnext.bind fun grown hgrown => InSpan.pure ⟨hborder, by omega⟩
    | cons n rest =>
      have hmem : ∀ k ∈ n :: rest, k ≤ maxBorder := by
        rw [← hfree]
        exact hs.free_le
      have hnote : InSpan blockSize maxBorder (note fun a => { a with free := rest })
          fun _ => True :=
        InSpan.note (fun _ => ⟨rfl, rfl⟩) (fun _ h => h)
          fun _ _ k hk => hmem k (List.mem_cons_of_mem n hk)
      simp only [hfree]
      exact hnote.bind fun _ _ => InSpan.pure (hmem n List.mem_cons_self)
  | recycling a n => exact (InSpan.mark h _).bind fun _ _ => hreturn _
  | growing a grown => exact (InSpan.mark h.2 _).bind fun _ _ => InSpan.pure h
  | lowering a grown =>
    have hnote : InSpan blockSize maxBorder (note fun a => { a with border := grown })
        fun _ => True :=
      InSpan.note (fun _ => ⟨rfl, rfl⟩) (fun _ _ => h.2) fun _ hfree => hfree
    exact (InSpan.mark h.1 _).bind fun _ _ => hnote.bind fun _ _ => hreturn _

theorem descend_le (a : Allocator) (heap : Region) (n : Nat) : (a.descend heap n).2 ≤ n := by
  induction n with
  | zero => exact Nat.le_refl 0
  | succ n ih =>
    unfold descend
    split
    · exact Nat.le_refl _
    · split
      · exact Nat.le_succ_of_le ih
      · split
        · exact Nat.le_refl _
        · exact Nat.le_refl _

theorem lowerFrom_inSpan (hn : n ≤ maxBorder) :
    InSpan blockSize maxBorder (lowerFrom top n) (· ≤ maxBorder) := by
  refine InSpan.get.bind fun s _ => ?_
  have hle := Nat.le_trans (descend_le s.allocator s.heap n) hn
  have hnote : InSpan blockSize maxBorder
      (note fun a => { a with free := a.free.filter fun k =>
        k ≤ (s.allocator.descend s.heap n).2 ∨ top < k }) fun _ => True :=
    InSpan.note (fun _ => ⟨rfl, rfl⟩) (fun _ h => h)
      fun _ hfree k hk => hfree k (List.mem_filter.1 hk).1
  have hgiven : InSpan blockSize maxBorder
      (liftM (s.allocator.descend s.heap n).1 : Run BlockHeap Unit) fun _ => True :=
    InSpan.lift fun _ _ => trivial
  exact hnote.bind fun _ _ => hgiven.bind fun _ _ => InSpan.pure hle

/-- A block that can be freed is not behind the border. So the trailer that a release writes exists,
even if the heap was written to by others. -/
theorem resolve_le {a : Allocator} {offset : Nat} (h : a.resolve offset = .ok n) :
    n ≤ a.border := by
  unfold resolve at h
  cases hstride : a.stride with
  | error halt =>
    rw [hstride] at h
    cases h
  | ok stride =>
    simp only [hstride, bind, Except.bind] at h
    split at h
    · cases h
    · split at h
      · cases h
      · next hknown =>
        obtain ⟨-, hborder, -⟩ := not_or.1 hknown |>.imp_right not_or.1
        rw [← Except.ok.inj h]
        exact Nat.not_lt.1 hborder

/-- **Each step of freeing** keeps to the blocks, whatever the heap holds. The offset may be any;
the first step checks it, and what is remembered from then on is the number of a block. -/
theorem Freeing.advance_inSpan (stage : Freeing) (h : stage.Bounded maxBorder) :
    InSpan blockSize maxBorder stage.advance (GoesOn (Freeing.Bounded maxBorder)) := by
  have hlower : ∀ top n, n ≤ maxBorder → InSpan blockSize maxBorder
      (do return .inl (.shrinking (← lowerFrom top n)) : Run BlockHeap (Freeing ⊕ Unit))
      (GoesOn (Freeing.Bounded maxBorder)) :=
    fun top n hn => (lowerFrom_inSpan hn).bind fun _ hborder => InSpan.pure hborder
  cases stage with
  | entered offset =>
    refine InSpan.get.bind fun s hs => ?_
    have hresolve : InSpan blockSize maxBorder
        (liftM (s.allocator.resolve offset) : Run BlockHeap Nat) (· ≤ maxBorder) :=
      -- what is not refused is the number of a block up to the border
      InSpan.lift fun n hn => Nat.le_trans (resolve_le hn) hs.border_le
    refine hresolve.bind fun n hn => ?_
    by_cases hbelow : n < s.allocator.border
    · simp only [if_pos hbelow]
      exact InSpan.pure hn
    · simp only [if_neg hbelow]
      exact InSpan.pure (Nat.le_trans (Nat.sub_le n 1) hn)
  | releasing n =>
    have hnote : InSpan blockSize maxBorder
        (note fun a => { a with free := insertAscending n a.free }) fun _ => True := by
      refine InSpan.note (fun _ => ⟨rfl, rfl⟩) (fun _ h => h) fun a hfree k hk => ?_
      rcases mem_insertAscending.1 hk with rfl | hmem
      · exact h
      · exact hfree k hmem
    exact (InSpan.mark h _).bind fun _ _ => hnote.bind fun _ _ => InSpan.pure trivial
  | descending top n =>
    cases n with
    | zero => exact hlower top 0 h
    | succ n =>
      have hn : n ≤ maxBorder := Nat.le_of_succ_le h
      refine InSpan.get.bind fun s _ => ?_
      -- a freed block is passed; at any other trailer, or none, the way down ends
      split
      · split
        · exact InSpan.pure hn
        · exact hlower top (n + 1) h
      · exact hlower top (n + 1) h
  | shrinking border =>
    have hnote : InSpan blockSize maxBorder (note fun a => { a with border }) fun _ => True :=
      InSpan.note (fun _ => ⟨rfl, rfl⟩) (fun _ _ => h) fun _ hfree => hfree
    exact (InSpan.mark h _).bind fun _ _ => hnote.bind fun _ _ => InSpan.pure trivial

end InSpan

end BlockHeap

end DurableCalls
