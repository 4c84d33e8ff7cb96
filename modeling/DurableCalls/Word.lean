/-
`Word.lean` -- 64-bit arithmetic that refuses to wrap, and numbers as bytes.

Offsets and lengths are natural numbers here, and every sum or product that the
format computes in 64 bits goes through `addWord` or `mulWord`, which abort where
the result leaves the word. Stored numbers are little-endian: `toBytes` writes the
low `width` bytes of a number and `ofBytes` reads a number back.
-/
import DurableCalls.Failure

set_option autoImplicit false

namespace DurableCalls

/-! ## 1. Checked arithmetic -/

/-- One more than the largest 64-bit word. -/
def wordLimit : Nat := 18446744073709551616

/-- One more than the largest 32-bit number, which is half a word. -/
def halfWordLimit : Nat := 4294967296

/-- Half the range of a word. Neither memory nor a file has so many bytes. -/
def sizeLimit : Nat := 9223372036854775808

def addWord (a b : Nat) : Except Halt Nat :=
  if a + b < wordLimit then .ok (a + b) else .error (.aborted .addOverflow)

def mulWord (a b : Nat) : Except Halt Nat :=
  if a * b < wordLimit then .ok (a * b) else .error (.aborted .mulOverflow)

theorem addWord_eq_ok {a b c : Nat} : addWord a b = .ok c ↔ a + b < wordLimit ∧ c = a + b := by
  unfold addWord
  split
  next h => simp [h, eq_comm]
  next h => simp [h]

theorem mulWord_eq_ok {a b c : Nat} : mulWord a b = .ok c ↔ a * b < wordLimit ∧ c = a * b := by
  unfold mulWord
  split
  next h => simp [h, eq_comm]
  next h => simp [h]

/-- The larger end of the word range stands for every sum beyond it. -/
def saturate (n : Nat) : Nat := min n (wordLimit - 1)

/-! ## 2. Little-endian bytes -/

/-- The low `width` bytes of a number, least significant first. -/
def toBytes : (width n : Nat) → List UInt8
  | 0, _ => []
  | width + 1, n => UInt8.ofNat n :: toBytes width (n / 256)

/-- The number that a list of bytes stands for, least significant first. -/
def ofBytes : List UInt8 → Nat
  | [] => 0
  | b :: rest => b.toNat + 256 * ofBytes rest

/-- How many numbers so many bytes can hold. -/
def byteRange : (width : Nat) → Nat
  | 0 => 1
  | width + 1 => 256 * byteRange width

theorem byteRange_four : byteRange 4 = halfWordLimit := rfl

theorem byteRange_eight : byteRange 8 = wordLimit := rfl

@[simp] theorem length_toBytes (width n : Nat) : (toBytes width n).length = width := by
  induction width generalizing n with
  | zero => rfl
  | succ width ih => simp [toBytes, ih]

/-- Reading back what was written gives the number modulo the range of the width. -/
theorem ofBytes_toBytes (width n : Nat) : ofBytes (toBytes width n) = n % byteRange width := by
  induction width generalizing n with
  | zero => simp [toBytes, ofBytes, byteRange, Nat.mod_one]
  | succ width ih =>
    rw [toBytes, ofBytes, ih, UInt8.toNat_ofNat', byteRange]
    exact Nat.mod_mul.symm

theorem toBytes_ofBytes (bytes : List UInt8) : toBytes bytes.length (ofBytes bytes) = bytes := by
  induction bytes with
  | nil => rfl
  | cons b rest ih =>
    have hb := b.toNat_lt
    have hdiv : (b.toNat + 256 * ofBytes rest) / 256 = ofBytes rest := by omega
    have hmod : UInt8.ofNat (b.toNat + 256 * ofBytes rest) = b := by
      apply UInt8.toNat_inj.1
      rw [UInt8.toNat_ofNat']
      omega
    simp only [List.length_cons, toBytes, ofBytes, hdiv, hmod, ih]

/-- A list of bytes stands for a number in the range of its width. -/
theorem ofBytes_lt (bytes : List UInt8) : ofBytes bytes < byteRange bytes.length := by
  induction bytes with
  | nil => simp [ofBytes, byteRange]
  | cons b rest ih =>
    have hb := b.toNat_lt
    simp only [ofBytes, List.length_cons, byteRange]
    omega

end DurableCalls
