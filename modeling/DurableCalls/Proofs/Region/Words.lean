/-
`Words.lean` -- numbers in a region, and the accesses that ask for alignment.

A stored number is read back as long as its own bytes stay. An atomic access inside the
region differs from a plain one in its alignment only, and that is a condition on its
offset, which no write changes.
-/
import DurableCalls.Proofs.Region.Contents

set_option autoImplicit false

namespace DurableCalls

namespace Region

variable {r r₁ r₂ : Region} {width offset value : Nat} {bytes : List UInt8}

/-! ## Numbers -/

theorem readNumber_of_read (h : r.read offset width = .ok bytes) :
    r.readNumber width offset = .ok (ofBytes bytes) := by
  rw [readNumber, h]
  rfl

theorem readNumber_of_agree (h : Agree offset (offset + width) r₁ r₂) :
    r₂.readNumber width offset = r₁.readNumber width offset := by
  rw [readNumber, readNumber, read_of_agree h]

/-- A number that was written is read back, as far as its width holds it. -/
theorem readNumber_put_self (hin : offset + width ≤ r.size) :
    (r.put offset (toBytes width value)).readNumber width offset
      = .ok (value % byteRange width) := by
  have hread : (r.put offset (toBytes width value)).read offset (toBytes width value).length
      = .ok (toBytes width value) := read_put_self (by rw [length_toBytes]; exact hin)
  rw [length_toBytes] at hread
  rw [readNumber_of_read hread, ofBytes_toBytes]

/-- A number stays while something is written beside it. -/
theorem readNumber_put_beside {width' offset' : Nat} (hin : offset + width ≤ r.size)
    (h : offset' + width' ≤ offset ∨ offset + width ≤ offset') :
    (r.put offset (toBytes width value)).readNumber width' offset' = r.readNumber width' offset' :=
  readNumber_of_agree (agree_put (by rw [length_toBytes]; exact hin)
    (by rw [length_toBytes]; exact h))

theorem ofBytes_zeros (width : Nat) : ofBytes (List.replicate width 0) = 0 := by
  induction width with
  | zero => rfl
  | succ width ih =>
    rw [List.replicate_succ, ofBytes, ih]
    rfl

/-- Bytes of zero are the number 0. -/
theorem readNumber_of_zeros (hin : offset + width ≤ r.size)
    (h : ∀ i, offset ≤ i → i < offset + width → r.cells[i]? = some 0) :
    r.readNumber width offset = .ok 0 := by
  have hread : r.read offset width = .ok (List.replicate width 0) := by
    refine read_eq_ok_iff.2 ⟨hin, List.length_replicate, fun i hi => ?_⟩
    rw [List.getElem?_replicate, if_pos hi]
    exact (h (offset + i) (Nat.le_add_right _ _) (Nat.add_lt_add_left hi offset)).symm
  rw [readNumber_of_read hread, ofBytes_zeros]

/-- A byte is read as it is. -/
theorem readByte_of_getElem? {b : UInt8} (h : r.cells[offset]? = some b) :
    r.readByte offset = .ok b := by
  obtain ⟨hlt, -⟩ := Array.getElem?_eq_some_iff.1 h
  have hread : r.read offset 1 = .ok [b] := by
    refine read_eq_ok_iff.2 ⟨hlt, rfl, fun i hi => ?_⟩
    have hzero : i = 0 := by omega
    rw [hzero, Nat.add_zero, h, List.getElem?_cons_zero]
  have hbyte : UInt8.ofNat (ofBytes [b]) = b := by simp [ofBytes]
  simp only [readByte, readNumber_of_read hread, bind, Except.bind, pure, Except.pure, hbyte]

/-! ## Atomic accesses -/

theorem checkAtomic_of_aligned (hin : offset + width ≤ r.size) (hal : offset % width = 0) :
    r.checkAtomic width offset = .ok () := by
  simp only [checkAtomic, check, if_pos hin, if_pos hal, bind, Except.bind, pure, Except.pure]

theorem checkAtomic_of_misaligned (hin : offset + width ≤ r.size) (hal : offset % width ≠ 0) :
    r.checkAtomic width offset = .error (.misalignedRegister offset width) := by
  simp only [checkAtomic, check, if_pos hin, if_neg hal, bind, Except.bind]
  rfl

theorem checkAtomic_of_outside (hout : r.size < offset + width) :
    r.checkAtomic width offset = .error (.outOfBounds offset width r.size) := by
  simp only [checkAtomic, check, if_neg (Nat.not_le.2 hout), bind, Except.bind]

theorem load_of_aligned (hin : offset + width ≤ r.size) (hal : offset % width = 0) :
    r.load width offset = r.readNumber width offset := by
  simp only [load, checkAtomic_of_aligned hin hal, bind, Except.bind]

theorem load_of_misaligned (hin : offset + width ≤ r.size) (hal : offset % width ≠ 0) :
    r.load width offset = .error (.misalignedRegister offset width) := by
  simp only [load, checkAtomic_of_misaligned hin hal, bind, Except.bind]

theorem load_of_outside (hout : r.size < offset + width) :
    r.load width offset = .error (.outOfBounds offset width r.size) := by
  simp only [load, checkAtomic_of_outside hout, bind, Except.bind]

/-- A durable store inside the region cannot fail in its flush. -/
theorem commit_of_aligned (hin : offset + width ≤ r.size) (hal : offset % width = 0) :
    Region.commit width offset value r = (.ok (), r.put offset (toBytes width value)) := by
  have hwrite : writeNumber width offset value r
      = (.ok (), r.put offset (toBytes width value)) := by
    rw [writeNumber, write_apply, length_toBytes, if_pos hin]
  have hstore : store width offset value r = (.ok (), r.put offset (toBytes width value)) := by
    simp only [store, Run.bind_apply, Run.get_apply, Run.lift_apply,
      checkAtomic_of_aligned hin hal, Run.mapError_ok, hwrite]
  have hflush : (r.put offset (toBytes width value)).flush offset width = .ok () := by
    -- the flush checks its range against a size that no write changes
    rw [flush, check, size_put, if_pos hin]
  simp only [Region.commit, Run.bind_apply, hstore, Run.get_apply, Run.lift_apply, hflush,
    Run.mapError_ok]

theorem commit_of_misaligned (hin : offset + width ≤ r.size) (hal : offset % width ≠ 0) :
    Region.commit width offset value r
      = (.error (.failed (.misalignedRegister offset width)), r) := by
  have hstore : store width offset value r
      = (.error (.failed (.misalignedRegister offset width)), r) := by
    simp only [store, Run.bind_apply, Run.get_apply, Run.lift_apply,
      checkAtomic_of_misaligned hin hal, Run.mapError_error]
  rw [Region.commit, Run.bind_of_error hstore]

theorem commit_of_outside (hout : r.size < offset + width) :
    Region.commit width offset value r
      = (.error (.failed (.outOfBounds offset width r.size)), r) := by
  have hstore : store width offset value r
      = (.error (.failed (.outOfBounds offset width r.size)), r) := by
    simp only [store, Run.bind_apply, Run.get_apply, Run.lift_apply, checkAtomic_of_outside hout,
      Run.mapError_error]
  rw [Region.commit, Run.bind_of_error hstore]

end Region

end DurableCalls
