/-
`Writes.lean` -- several writes in a row.

An operation that succeeds leaves its region with some bytes put here and there, and a list of
such writes says all about it. Writes into ranges that share no byte do not see each other, so
their order plays no part: two of them can be swapped (`put_comm`), then two lists of them
(`putAll_comm`), and then the changes of any number of operations (`putAll_perm`).
-/
import DurableCalls.Proofs.Region.Contents

set_option autoImplicit false

namespace DurableCalls

/-- Bytes, and the offset that they are put at. -/
structure Write where
  offset : Nat
  data : List UInt8
deriving DecidableEq, Repr

namespace Write

/-- The first offset behind the write. -/
def stop (w : Write) : Nat := w.offset + w.data.length

/-- The two share no byte. -/
def Apart (v w : Write) : Prop := v.stop ≤ w.offset ∨ w.stop ≤ v.offset

theorem apart_iff {i j : Nat} {data data' : List UInt8} :
    Apart ⟨i, data⟩ ⟨j, data'⟩ ↔ i + data.length ≤ j ∨ j + data'.length ≤ i := Iff.rfl

theorem Apart.symm {v w : Write} (h : v.Apart w) : w.Apart v := Or.symm h

end Write

namespace Region

variable {r : Region} {v w : Write} {vs ws : List Write}

/-- The region with all of these put into it, one after the other. -/
def putAll (r : Region) (ws : List Write) : Region := ws.foldl (fun r w => r.put w.offset w.data) r

@[simp] theorem putAll_nil (r : Region) : r.putAll [] = r := rfl

@[simp] theorem putAll_cons (r : Region) (w : Write) (ws : List Write) :
    r.putAll (w :: ws) = (r.put w.offset w.data).putAll ws := rfl

theorem putAll_append (r : Region) (ws ws' : List Write) :
    r.putAll (ws ++ ws') = (r.putAll ws).putAll ws' := by
  unfold putAll
  rw [List.foldl_append]

@[simp] theorem size_putAll (r : Region) (ws : List Write) : (r.putAll ws).size = r.size := by
  induction ws generalizing r with
  | nil => rfl
  | cons w ws ih => rw [putAll_cons, ih, size_put]

/-- **Writes that share no byte can be swapped.** Both have to lie inside the region; a write that
does not would not be made at all. -/
theorem put_comm (hv : v.stop ≤ r.size) (hw : w.stop ≤ r.size) (hapart : v.Apart w) :
    (r.put v.offset v.data).put w.offset w.data = (r.put w.offset w.data).put v.offset v.data := by
  unfold Write.Apart at hapart
  unfold Write.stop at hv hw hapart
  have hv' : v.offset + v.data.length ≤ (overwrite r.cells w.offset w.data).size := by
    rw [size_overwrite]
    exact hv
  have hw' : w.offset + w.data.length ≤ (overwrite r.cells v.offset v.data).size := by
    rw [size_overwrite]
    exact hw
  have hcells : overwrite (overwrite r.cells v.offset v.data) w.offset w.data
      = overwrite (overwrite r.cells w.offset w.data) v.offset v.data := by
    apply Array.ext_getElem?
    intro i
    rw [getElem?_overwrite _ _ _ hw', getElem?_overwrite _ _ _ hv, getElem?_overwrite _ _ _ hv',
      getElem?_overwrite _ _ _ hw]
    by_cases hiv : v.offset ≤ i ∧ i < v.offset + v.data.length
    · -- a byte of the one write is no byte of the other
      have hiw : ¬(w.offset ≤ i ∧ i < w.offset + w.data.length) := by omega
      simp only [if_pos hiv, if_neg hiw]
    · simp only [if_neg hiv]
  simp only [put, hcells]

/-- One write can be swapped with many. -/
theorem put_putAll (hv : v.stop ≤ r.size) (hws : ∀ w ∈ ws, w.stop ≤ r.size)
    (hapart : ∀ w ∈ ws, v.Apart w) :
    (r.put v.offset v.data).putAll ws = (r.putAll ws).put v.offset v.data := by
  induction ws generalizing r with
  | nil => rfl
  | cons w ws ih =>
    rw [putAll_cons, putAll_cons, put_comm hv (hws w List.mem_cons_self)
      (hapart w List.mem_cons_self)]
    apply ih
    · rw [size_put]
      exact hv
    · intro u hu
      rw [size_put]
      exact hws u (List.mem_cons_of_mem w hu)
    · intro u hu
      exact hapart u (List.mem_cons_of_mem w hu)

/-- Many writes can be swapped with many. -/
theorem putAll_comm (hvs : ∀ v ∈ vs, v.stop ≤ r.size) (hws : ∀ w ∈ ws, w.stop ≤ r.size)
    (hapart : ∀ v ∈ vs, ∀ w ∈ ws, v.Apart w) :
    (r.putAll vs).putAll ws = (r.putAll ws).putAll vs := by
  induction vs generalizing r with
  | nil => rfl
  | cons v vs ih =>
    have hswap := put_putAll (hvs v List.mem_cons_self) hws (hapart v List.mem_cons_self)
    rw [putAll_cons, putAll_cons, ← hswap]
    apply ih
    · intro u hu
      rw [size_put]
      exact hvs u (List.mem_cons_of_mem v hu)
    · intro w hw
      rw [size_put]
      exact hws w hw
    · intro u hu
      exact hapart u (List.mem_cons_of_mem v hu)

/-- **Changes that share no byte can be made in any order.** The writes of one change keep
their order. -/
theorem putAll_perm {α : Type} {changes : α → List Write} {xs ys : List α} (hperm : xs.Perm ys) :
    ∀ {r : Region}, (∀ x ∈ xs, ∀ w ∈ changes x, w.stop ≤ r.size) →
      (∀ x ∈ xs, ∀ y ∈ xs, x ≠ y → ∀ v ∈ changes x, ∀ w ∈ changes y, v.Apart w) →
      r.putAll (xs.flatMap changes) = r.putAll (ys.flatMap changes) := by
  induction hperm with
  | nil =>
    intro r _ _
    rfl
  | @cons x xs ys _ ih =>
    intro r hin hapart
    simp only [List.flatMap_cons, putAll_append]
    apply ih
    · intro y hy w hw
      rw [size_putAll]
      exact hin y (List.mem_cons_of_mem x hy) w hw
    · intro y hy z hz
      exact hapart y (List.mem_cons_of_mem x hy) z (List.mem_cons_of_mem x hz)
  | swap x y xs =>
    intro r hin hapart
    -- two of them change places: their writes do, or they are the same
    by_cases hsame : x = y
    · rw [hsame]
    · have hx : x ∈ y :: x :: xs := List.mem_cons_of_mem y List.mem_cons_self
      have hy : y ∈ y :: x :: xs := List.mem_cons_self
      simp only [List.flatMap_cons, putAll_append]
      rw [putAll_comm (hin y hy) (hin x hx) (hapart y hy x hx (Ne.symm hsame))]
  | trans hfirst _ ihFirst ihSecond =>
    intro r hin hapart
    rw [ihFirst hin hapart]
    apply ihSecond
    · intro x hx
      exact hin x (hfirst.mem_iff.2 hx)
    · intro x hx y hy
      exact hapart x (hfirst.mem_iff.2 hx) y (hfirst.mem_iff.2 hy)

end Region

end DurableCalls
