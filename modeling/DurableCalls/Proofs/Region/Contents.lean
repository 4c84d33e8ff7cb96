/-
`Contents.lean` -- the bytes of a region, as reads and writes see them.

Two regions *agree* on a range if they have the same size and the same bytes there.
Everything that only reads is settled by agreement (`read_of_agree`): what a read gives
depends on its own range alone. Everything that writes comes with the ranges on which
the region agrees with itself before the write (`agree_put`), so a proof about stored
data never looks at single cells.
-/
import DurableCalls.Region

set_option autoImplicit false

namespace DurableCalls

namespace Region

variable {r r₁ r₂ r₃ : Region} {lo hi lo' hi' offset len : Nat} {bytes data : List UInt8}

/-! ## Reading -/

/-- **What a read gives.** It gives the bytes of its range, cell by cell, and it gives
them exactly when the range lies inside the region. -/
theorem read_eq_ok_iff :
    r.read offset len = .ok bytes ↔
      offset + len ≤ r.size ∧ bytes.length = len ∧
        ∀ i, i < len → bytes[i]? = r.cells[offset + i]? := by
  have hcell : ∀ i, i < len → offset + len ≤ r.size →
      ((List.range' offset len).map (r.cells.getD · 0))[i]? = r.cells[offset + i]? := by
    intro i hi hin
    have hlt : offset + i < r.cells.size := Nat.lt_of_lt_of_le (by omega) hin
    simp [hi, hlt]
  unfold read check
  by_cases hin : offset + len ≤ r.size
  · -- `read` maps over the offsets, so the two sides are compared index by index
    simp only [if_pos hin, bind, Except.bind, pure, Except.pure, Except.ok.injEq]
    constructor
    · rintro rfl
      exact ⟨hin, by simp, fun i hi => hcell i hi hin⟩
    · rintro ⟨-, hlen, hbytes⟩
      refine List.ext_getElem? fun i => ?_
      by_cases hi : i < len
      · rw [hcell i hi hin, hbytes i hi]
      · rw [List.getElem?_eq_none (by simpa using hi), List.getElem?_eq_none (by omega)]
  · simp [bind, Except.bind, hin]

theorem read_eq_error (h : r.size < offset + len) :
    r.read offset len = .error (.outOfBounds offset len r.size) := by
  simp only [read, check, if_neg (Nat.not_le.2 h), bind, Except.bind]

/-- A read inside the region succeeds. -/
theorem exists_read (h : offset + len ≤ r.size) : ∃ bytes, r.read offset len = .ok bytes := by
  simp only [read, check, if_pos h, bind, Except.bind, pure, Except.pure]
  exact ⟨_, rfl⟩

/-- A part of a range reads as that part of the bytes. -/
theorem read_part {pos n : Nat} (h : r.read offset len = .ok bytes) (hn : pos + n ≤ len) :
    r.read (offset + pos) n = .ok ((bytes.drop pos).take n) := by
  obtain ⟨hin, hlen, hbytes⟩ := read_eq_ok_iff.1 h
  refine read_eq_ok_iff.2 ⟨by omega, ?_, ?_⟩
  · rw [List.length_take, List.length_drop]
    omega
  · intro i hi
    rw [List.getElem?_take_of_lt hi, List.getElem?_drop, hbytes (pos + i) (by omega),
      Nat.add_assoc]

/-! ## Agreement -/

/-- Two regions have the same size and the same bytes on `[lo, hi)`. -/
def Agree (lo hi : Nat) (r₁ r₂ : Region) : Prop :=
  r₂.size = r₁.size ∧ ∀ i, lo ≤ i → i < hi → r₂.cells[i]? = r₁.cells[i]?

namespace Agree

theorem refl : Agree lo hi r r :=
  ⟨rfl, fun _ _ _ => rfl⟩

theorem trans (h₁ : Agree lo hi r₁ r₂) (h₂ : Agree lo hi r₂ r₃) : Agree lo hi r₁ r₃ :=
  ⟨h₂.1.trans h₁.1, fun i hlo hhi => (h₂.2 i hlo hhi).trans (h₁.2 i hlo hhi)⟩

theorem mono (h : Agree lo hi r₁ r₂) (hlo : lo ≤ lo') (hhi : hi' ≤ hi) : Agree lo' hi' r₁ r₂ :=
  ⟨h.1, fun i h₁ h₂ => h.2 i (by omega) (by omega)⟩

end Agree

/-- **Reads follow agreement.** A read depends on the bytes of its range alone, and on the size of
the region where it is refused. So does everything that is made of reads, which is how the lemmas on
frames and registers come to their frame conditions. -/
theorem read_of_agree (h : Agree offset (offset + len) r₁ r₂) :
    r₂.read offset len = r₁.read offset len := by
  by_cases hin : offset + len ≤ r₁.size
  · obtain ⟨bytes, hread⟩ := exists_read hin
    obtain ⟨-, hlen, hbytes⟩ := read_eq_ok_iff.1 hread
    rw [hread]
    refine read_eq_ok_iff.2 ⟨by rw [h.1]; exact hin, hlen, ?_⟩
    intro i hi
    rw [hbytes i hi, h.2 (offset + i) (by omega) (by omega)]
  · -- both reads fail, and the failure names the size, which is the same
    have hout : r₁.size < offset + len := by omega
    rw [read_eq_error hout, read_eq_error (r := r₂) (by rw [h.1]; exact hout), h.1]

/-! ## Writing -/

/-- A write leaves every byte outside its range. -/
theorem agree_put (hin : offset + data.length ≤ r.size)
    (h : hi ≤ offset ∨ offset + data.length ≤ lo) : Agree lo hi r (r.put offset data) := by
  refine ⟨size_put r offset data, fun i hlo hhi => ?_⟩
  have hout : ¬(offset ≤ i ∧ i < offset + data.length) := by omega
  show (overwrite r.cells offset data)[i]? = _
  rw [getElem?_overwrite r.cells offset data hin, if_neg hout]

/-- What was written is read back. -/
theorem read_put_self (hin : offset + data.length ≤ r.size) :
    (r.put offset data).read offset data.length = .ok data := by
  refine read_eq_ok_iff.2 ⟨by rw [size_put]; exact hin, rfl, fun i hi => ?_⟩
  have hrange : offset ≤ offset + i ∧ offset + i < offset + data.length := by omega
  show _ = (overwrite r.cells offset data)[offset + i]?
  rw [getElem?_overwrite r.cells offset data hin, if_pos hrange, Nat.add_sub_cancel_left]

/-- Writing the same again changes nothing. -/
theorem put_put (hin : offset + data.length ≤ r.size) :
    (r.put offset data).put offset data = r.put offset data := by
  have hin' : offset + data.length ≤ (overwrite r.cells offset data).size := by
    rw [size_overwrite]
    exact hin
  have hcells : overwrite (overwrite r.cells offset data) offset data
      = overwrite r.cells offset data := by
    refine Array.ext_getElem? fun i => ?_
    rw [getElem?_overwrite _ _ _ hin', getElem?_overwrite _ _ _ hin]
    by_cases hrange : offset ≤ i ∧ i < offset + data.length
    · rw [if_pos hrange, if_pos hrange]
    · rw [if_neg hrange]
  simp only [put, hcells]

/-- A write inside a range that was read replaces that part of what was read. The parts before it
and behind it stay. -/
theorem read_put_within {pre old post : List UInt8}
    (h : r.read offset len = .ok (pre ++ (old ++ post))) (hold : old.length = data.length) :
    (r.put (offset + pre.length) data).read offset len = .ok (pre ++ (data ++ post)) := by
  obtain ⟨hin, hlen, hbytes⟩ := read_eq_ok_iff.1 h
  simp only [List.length_append] at hlen
  have hput : offset + pre.length + data.length ≤ r.cells.size := by
    show _ ≤ r.size
    omega
  refine read_eq_ok_iff.2 ⟨by rw [size_put]; exact hin, ?_, fun i hi => ?_⟩
  · simp only [List.length_append]
    omega
  · show _ = (overwrite r.cells (offset + pre.length) data)[offset + i]?
    rw [getElem?_overwrite r.cells _ data hput, ← hbytes i hi]
    -- in front of the write, inside it, or behind it
    by_cases hpre : i < pre.length
    · rw [List.getElem?_append_left hpre, List.getElem?_append_left hpre, if_neg (by omega)]
    · have hnew : (pre ++ (data ++ post))[i]? = (data ++ post)[i - pre.length]? :=
        List.getElem?_append_right (by omega)
      have hwas : (pre ++ (old ++ post))[i]? = (old ++ post)[i - pre.length]? :=
        List.getElem?_append_right (by omega)
      rw [hnew, hwas]
      by_cases hmid : i - pre.length < data.length
      · rw [List.getElem?_append_left hmid, if_pos (by omega)]
        congr 1
        omega
      · rw [if_neg (by omega), List.getElem?_append_right (by omega),
          List.getElem?_append_right (by omega), hold]

end Region

end DurableCalls
