/-
`Plain.lean` -- a region is an array of bytes behind bounds checks.

An `Access` is one call of an accessor: bytes or numbers, plain or atomic, of any width and
at any offset. Accesses of different widths may overlap, and then they see each other's bytes.
What all of them do is said on an array of bytes (`Plain`): a number is the sum of the bytes
of its range, each times its power of 256, and a write replaces the bytes of its own range.

Every access asks before it touches anything, and `run_eq` says so once for all accesses: it is
refused for its range or for its address, and else it answers from its range and puts its
bytes. The one exception is the read into a buffer of its own: it makes the buffer first, so
a length that no memory has ends the thread where the siblings refuse the range. Apart from that
any number of accesses in a row is answered as on the array (`answers_as_plain`).
-/
import Mathlib.Algebra.BigOperators.Group.Finset.Basic
import Mathlib.Algebra.BigOperators.Ring.Finset
import DurableCalls.Proofs.Region.Words

set_option autoImplicit false

namespace DurableCalls

/-! ## 1. Arrays of bytes -/

/-- An array of bytes. What `byte` says of indices from `size` on plays no part. -/
structure Plain where
  size : Nat
  byte : Nat → UInt8

namespace Plain

variable (p : Plain) (offset width value : Nat)

/-- The bytes of a range. -/
def slice : List UInt8 := (List.range width).map fun i => p.byte (offset + i)

/-- The number in a range, its least significant byte first. -/
def number : Nat := ∑ i ∈ Finset.range width, (p.byte (offset + i)).toNat * 256 ^ i

/-- The array with the bytes of one range replaced. -/
def splice (new : Nat → UInt8) : Plain :=
  { p with byte := fun i =>
      if offset ≤ i ∧ i < offset + width then new (i - offset) else p.byte i }

/-- A digit of a number that is written with bytes. -/
def digit (i : Nat) : UInt8 := UInt8.ofNat (value / 256 ^ i)

/-- The bytes that are stored for a number are its digits. -/
theorem toBytes_eq_digits : toBytes width value = (List.range width).map (digit value) := by
  induction width generalizing value with
  | zero => rfl
  | succ width ih =>
    have hdigit : ∀ i, digit (value / 256) i = digit value (i + 1) := by
      intro i
      rw [digit, digit, Nat.div_div_eq_div_mul, ← Nat.pow_succ']
    have hfirst : digit value 0 = UInt8.ofNat value := by
      rw [digit, Nat.pow_zero, Nat.div_one]
    rw [toBytes, ih, List.range_succ_eq_map, List.map_cons, List.map_map, hfirst]
    congr 1
    exact List.map_congr_left fun i _ => hdigit i

/-- The bytes of a range stand for the number in it. -/
theorem ofBytes_slice : ofBytes (p.slice offset width) = p.number offset width := by
  induction width generalizing offset with
  | zero => rfl
  | succ width ih =>
    have hshift : ∀ i, offset + 1 + i = offset + (i + 1) := fun i => by omega
    have hslice : p.slice offset (width + 1) = p.byte offset :: p.slice (offset + 1) width := by
      rw [slice, List.range_succ_eq_map, List.map_cons, List.map_map]
      congr 1
      exact List.map_congr_left fun i _ => congrArg p.byte (hshift i).symm
    have hnumber : p.number offset (width + 1)
        = p.number (offset + 1) width * 256 + (p.byte offset).toNat := by
      rw [number, number, Finset.sum_range_succ', Finset.sum_mul, Nat.pow_zero, Nat.mul_one]
      congr 1
      refine Finset.sum_congr rfl fun i _ => ?_
      rw [hshift, Nat.mul_assoc, ← Nat.pow_succ]
    rw [hslice, ofBytes, ih, hnumber]
    omega

end Plain

namespace Region

variable {r : Region} {offset width value : Nat} {data : List UInt8}

/-- The bytes of a region. -/
def plain (r : Region) : Plain := ⟨r.size, fun i => r.cells.getD i 0⟩

@[simp] theorem size_plain (r : Region) : r.plain.size = r.size := rfl

theorem read_eq_slice (h : offset + width ≤ r.size) :
    r.read offset width = .ok (r.plain.slice offset width) := by
  have hmap : (List.range' offset width).map (r.cells.getD · 0) = r.plain.slice offset width := by
    rw [List.range'_eq_map_range, List.map_map]
    rfl
  simp only [read, check, if_pos h, bind, Except.bind, pure, Except.pure, hmap]

theorem readNumber_eq_number (h : offset + width ≤ r.size) :
    r.readNumber width offset = .ok (r.plain.number offset width) := by
  rw [readNumber_of_read (read_eq_slice h), Plain.ofBytes_slice]

/-- What is put into a region replaces the bytes of its range. -/
theorem plain_put (h : offset + data.length ≤ r.size) :
    (r.put offset data).plain = r.plain.splice offset data.length (data.getD · 0) := by
  have hbyte : ∀ i, (overwrite r.cells offset data).getD i 0
      = if offset ≤ i ∧ i < offset + data.length then data.getD (i - offset) 0
        else r.cells.getD i 0 := by
    intro i
    rw [Array.getD_eq_getD_getElem?, getElem?_overwrite r.cells offset data h]
    by_cases hi : offset ≤ i ∧ i < offset + data.length
    · rw [if_pos hi, if_pos hi, List.getD_eq_getElem?_getD]
    · rw [if_neg hi, if_neg hi, Array.getD_eq_getD_getElem?]
  simp only [plain, Plain.splice, size_put]
  congr 1
  funext i
  exact hbyte i

theorem plain_put_number (h : offset + width ≤ r.size) :
    (r.put offset (toBytes width value)).plain
      = r.plain.splice offset width (Plain.digit value) := by
  rw [plain_put (by rw [length_toBytes]; exact h), length_toBytes]
  simp only [Plain.splice]
  congr 1
  funext i
  by_cases hi : offset ≤ i ∧ i < offset + width
  · -- inside the range, the stored byte is the digit
    have hlt : i - offset < width := by omega
    rw [if_pos hi, if_pos hi, Plain.toBytes_eq_digits, List.getD_eq_getElem?_getD,
      List.getElem?_map, List.getElem?_range hlt, Option.map_some, Option.getD_some]
  · rw [if_neg hi, if_neg hi]

theorem readByte_eq_byte (h : offset + 1 ≤ r.size) :
    r.readByte offset = .ok (r.plain.byte offset) := by
  have hcell : r.cells[offset]? = some (r.plain.byte offset) := by
    have hlt : offset < r.cells.size := h
    simp only [plain, Array.getD_eq_getD_getElem?, Array.getElem?_eq_getElem hlt,
      Option.getD_some]
  exact readByte_of_getElem? hcell

theorem write_of_le (h : offset + data.length ≤ r.size) :
    write offset data r = (.ok (), r.put offset data) := by
  rw [write_apply, if_pos h]

theorem writeNumber_of_le (h : offset + width ≤ r.size) :
    writeNumber width offset value r = (.ok (), r.put offset (toBytes width value)) := by
  rw [writeNumber, write_apply, length_toBytes, if_pos h]

/-! Every accessor asks first, and goes on only if it is let. -/

variable {failure : Failure}

theorem read_of_check (h : r.check offset width = .error failure) :
    r.read offset width = .error failure := by
  simp only [read, h, bind, Except.bind]

theorem readNumber_of_check (h : r.check offset width = .error failure) :
    r.readNumber width offset = .error failure := by
  simp only [readNumber, read_of_check h, bind, Except.bind]

theorem readByte_of_check (h : r.check offset 1 = .error failure) :
    r.readByte offset = .error failure := by
  simp only [readByte, readNumber_of_check h, bind, Except.bind]

theorem write_of_check (h : r.check offset data.length = .error failure) :
    write offset data r = (.error (.failed failure), r) := by
  simp only [write, Run.bind_apply, Run.get_apply, Run.lift_apply, h, Run.mapError_error]

theorem load_eq_number (hask : r.checkAtomic width offset = .ok ())
    (h : offset + width ≤ r.size) :
    r.load width offset = .ok (r.plain.number offset width) := by
  simp only [load, hask, bind, Except.bind, readNumber_eq_number h]

theorem load_of_check (h : r.checkAtomic width offset = .error failure) :
    r.load width offset = .error failure := by
  simp only [load, h, bind, Except.bind]

theorem store_of_le (hask : r.checkAtomic width offset = .ok ()) (h : offset + width ≤ r.size) :
    store width offset value r = (.ok (), r.put offset (toBytes width value)) := by
  simp only [store, Run.bind_apply, Run.get_apply, Run.lift_apply, hask, Run.mapError_ok,
    writeNumber_of_le h]

theorem store_of_check (h : r.checkAtomic width offset = .error failure) :
    store width offset value r = (.error (.failed failure), r) := by
  simp only [store, Run.bind_apply, Run.get_apply, Run.lift_apply, h, Run.mapError_error]

end Region

/-! ## 2. Accesses -/

/-- The widths of plain numbers. -/
inductive NumberWidth
  | one
  | two
  | eight
deriving DecidableEq, Repr

namespace NumberWidth

def bytes : NumberWidth → Nat
  | one => 1
  | two => 2
  | eight => 8

end NumberWidth

/-- The widths of atomic words. -/
inductive WordWidth
  | four
  | eight
deriving DecidableEq, Repr

namespace WordWidth

def bytes : WordWidth → Nat
  | four => 4
  | eight => 8

end WordWidth

/-- A call of an accessor of a region. -/
inductive Access
  /-- Bytes, into a buffer of the caller. -/
  | read (offset len : Nat)
  /-- Bytes, in a buffer of their own. -/
  | copyOut (offset len : Nat)
  | write (offset : Nat) (data : List UInt8)
  | readByte (offset : Nat)
  | readNumber (width : NumberWidth) (offset : Nat)
  | writeNumber (width : NumberWidth) (offset value : Nat)
  | load (width : WordWidth) (offset : Nat)
  | store (width : WordWidth) (offset value : Nat)
  | flush (offset len : Nat)
deriving DecidableEq, Repr

/-- What an access answers. -/
inductive Reading
  | bytes (bytes : List UInt8)
  | byte (byte : UInt8)
  | number (value : Nat)
  | done
deriving DecidableEq, Repr

namespace Access

/-- Answers what is read from the region. -/
def reading {α : Type} (answer : α → Reading) (x : Region → Except Failure α) :
    Run Region Reading := do
  return answer (← x (← get))

/-- Answers that the region was changed. -/
def writing (m : Run Region Unit) : Run Region Reading := do
  m
  return .done

/-- Calls the accessor. -/
def run : Access → Run Region Reading
  | .read offset len => reading .bytes (·.read offset len)
  | .copyOut offset len => do return .bytes (← (← get).copyOut offset len)
  | .write offset data => writing (Region.write offset data)
  | .readByte offset => reading .byte (·.readByte offset)
  | .readNumber width offset => reading .number (·.readNumber width.bytes offset)
  | .writeNumber width offset value => writing (Region.writeNumber width.bytes offset value)
  | .load width offset => reading .number (·.load width.bytes offset)
  | .store width offset value => writing (Region.store width.bytes offset value)
  | .flush offset len => reading (fun () => .done) (·.flush offset len)

/-- The answers of accesses that are called one after the other, whether the ones before
have failed or not, and the region that they leave. -/
def runAll : List Access → Region → List (Except Halt Reading) × Region
  | [], r => ([], r)
  | a :: rest, r =>
    let (answer, r) := a.run r
    let (answers, r) := runAll rest r
    (answer :: answers, r)

def offset : Access → Nat
  | .read offset _ | .copyOut offset _ | .write offset _ | .readByte offset
  | .readNumber _ offset | .writeNumber _ offset _ | .load _ offset | .store _ offset _
  | .flush offset _ => offset

/-- How many bytes the access is about. -/
def width : Access → Nat
  | .read _ len | .copyOut _ len | .flush _ len => len
  | .write _ data => data.length
  | .readByte _ => 1
  | .readNumber width _ | .writeNumber width _ _ => width.bytes
  | .load width _ | .store width _ _ => width.bytes

/-- Whether the access asks for alignment. -/
def isAtomic : Access → Bool
  | .load .. | .store .. => true
  | _ => false

def isWrite : Access → Bool
  | .write .. | .writeNumber .. | .store .. => true
  | _ => false

/-- The access makes a buffer that no memory holds. -/
def Unaffordable : Access → Prop
  | .copyOut _ len => sizeLimit ≤ len
  | _ => False

instance (a : Access) : Decidable a.Unaffordable := by
  cases a <;> unfold Unaffordable <;> infer_instance

end Access

/-! ## 3. Accesses of an array -/

/-- The least size of a page. -/
def pageSize : Nat := 4096

/-- Why an access of an array of so many bytes that starts at an address is refused: its range
is not inside the array, or it is atomic and its address is off its alignment. -/
def Access.refusal? (base size : Nat) (a : Access) : Option Failure :=
  if size < a.offset + a.width then some (.outOfBounds a.offset a.width size)
  else if a.isAtomic ∧ (base + a.offset) % a.width ≠ 0 then
    some (.misalignedRegister a.offset a.width)
  else none

namespace Plain

/-- What an access reads. -/
def answer (p : Plain) : Access → Reading
  | .read offset len | .copyOut offset len => .bytes (p.slice offset len)
  | .readByte offset => .byte (p.byte offset)
  | .readNumber width offset => .number (p.number offset width.bytes)
  | .load width offset => .number (p.number offset width.bytes)
  | .write .. | .writeNumber .. | .store .. | .flush .. => .done

/-- What an access leaves. -/
def after (p : Plain) : Access → Plain
  | .write offset data => p.splice offset data.length (data.getD · 0)
  | .writeNumber width offset value => p.splice offset width.bytes (digit value)
  | .store width offset value => p.splice offset width.bytes (digit value)
  | _ => p

/-- An access of an array that starts at an address. -/
def perform (base : Nat) (a : Access) (p : Plain) : Except Failure Reading × Plain :=
  match a.refusal? base p.size with
  | some failure => (.error failure, p)
  | none => (.ok (p.answer a), p.after a)

def performAll (base : Nat) : List Access → Plain → List (Except Failure Reading) × Plain
  | [], p => ([], p)
  | a :: rest, p =>
    let (answer, p) := p.perform base a
    let (answers, p) := performAll base rest p
    (answer :: answers, p)

end Plain

/-! ## 4. An access of a region -/

theorem WordWidth.bytes_dvd_pageSize (width : WordWidth) : width.bytes ∣ pageSize := by
  cases width <;> decide

namespace Access

variable {base : Nat} {a : Access} {r : Region}

/-- What an access puts into a region. -/
def data : Access → List UInt8
  | .write _ data => data
  | .writeNumber width _ value => toBytes width.bytes value
  | .store width _ value => toBytes width.bytes value
  | _ => []

/-- What an access asks before it touches anything. -/
def ask (a : Access) (r : Region) : Except Failure Unit :=
  if a.isAtomic then r.checkAtomic a.width a.offset else r.check a.offset a.width

/-- A page is a multiple of every width, so an address is aligned if the offset is. -/
theorem mod_of_page (hbase : pageSize ∣ base) (ha : a.isAtomic = true) :
    (base + a.offset) % a.width = a.offset % a.width := by
  obtain ⟨pages, rfl⟩ := hbase
  have hwidth : a.width ∣ pageSize * pages := by
    refine Nat.dvd_trans ?_ (Nat.dvd_mul_right pageSize pages)
    cases a with
    | load width offset => exact width.bytes_dvd_pageSize
    | store width offset value => exact width.bytes_dvd_pageSize
    | _ => cases ha
  rw [Nat.add_mod, Nat.mod_eq_zero_of_dvd hwidth, Nat.zero_add, Nat.mod_mod]

/-- An access that is not refused is inside. -/
theorem le_of_refusal? {size : Nat} (h : a.refusal? base size = none) :
    a.offset + a.width ≤ size := by
  unfold refusal? at h
  split at h
  next => cases h
  next hin => exact Nat.not_lt.1 hin

theorem ask_eq (hbase : pageSize ∣ base) (a : Access) (r : Region) :
    a.ask r = match a.refusal? base r.size with
      | some failure => .error failure
      | none => .ok () := by
  unfold ask refusal?
  by_cases hin : a.offset + a.width ≤ r.size
  · rw [if_neg (Nat.not_lt.2 hin)]
    by_cases ha : a.isAtomic = true
    · rw [if_pos ha, mod_of_page hbase ha]
      by_cases hal : a.offset % a.width = 0
      · rw [Region.checkAtomic_of_aligned hin hal, if_neg fun h => h.2 hal]
      · rw [Region.checkAtomic_of_misaligned hin hal, if_pos ⟨ha, hal⟩]
    · rw [if_neg ha, if_neg fun h => ha h.1, Region.check, if_pos hin]
  · have hout := Nat.not_le.1 hin
    rw [Region.checkAtomic_of_outside hout, Region.check, if_neg hin, if_pos hout, ite_self]

theorem run_of_unaffordable (h : a.Unaffordable) :
    a.run r = (.error (.aborted .capacityOverflow), r) := by
  cases a with
  | copyOut offset len =>
    have hlen : sizeLimit ≤ len := h
    have hcopy : r.copyOut offset len = .error (.aborted .capacityOverflow) := by
      rw [Region.copyOut, if_pos hlen]
      rfl
    rw [run, Run.bind_of_ok (Run.get_apply r), hcopy]
    rfl
  | _ => exact absurd h id

/-- A read into an own buffer is a read, if the buffer can be had. -/
theorem run_copyOut {offset len : Nat} (h : ¬(copyOut offset len).Unaffordable) :
    (copyOut offset len).run r = (read offset len).run r := by
  have hlen : ¬sizeLimit ≤ len := h
  have hcopy : r.copyOut offset len = liftM (r.read offset len) := by
    rw [Region.copyOut, if_neg hlen]
  show _ = reading .bytes (·.read offset len) r
  rw [run, reading, Run.bind_of_ok (Run.get_apply r), Run.bind_of_ok (Run.get_apply r), hcopy]
  cases r.read offset len <;> rfl

theorem reading_of_ok {α : Type} {answer : α → Reading} {x : Region → Except Failure α} {v : α}
    (h : x r = .ok v) : reading answer x r = (.ok (answer v), r) := by
  simp only [reading, Run.bind_apply, Run.get_apply, Run.lift_apply, h, Run.mapError_ok,
    Run.pure_apply]

theorem reading_of_error {α : Type} {answer : α → Reading} {x : Region → Except Failure α}
    {failure : Failure} (h : x r = .error failure) :
    reading answer x r = (.error (.failed failure), r) := by
  simp only [reading, Run.bind_apply, Run.get_apply, Run.lift_apply, h, Run.mapError_error]

theorem writing_of_ok {m : Run Region Unit} {r' : Region} (h : m r = (.ok (), r')) :
    writing m r = (.ok .done, r') := by
  rw [writing, Run.bind_of_ok h]
  rfl

theorem writing_of_error {m : Run Region Unit} {r' : Region} {halt : Halt}
    (h : m r = (.error halt, r')) : writing m r = (.error halt, r') := by
  rw [writing, Run.bind_of_error h]

/-- An access that asks in vain has the failure that it is told, and changes nothing. An
unaffordable buffer is left out: it is allocated before anything is asked. -/
theorem run_of_ask_error {failure : Failure} (h : a.ask r = .error failure)
    (hfits : ¬a.Unaffordable) : a.run r = (.error (.failed failure), r) := by
  cases a with
  | read offset len => exact reading_of_error (Region.read_of_check h)
  | copyOut offset len =>
    rw [run_copyOut hfits]
    exact reading_of_error (Region.read_of_check h)
  | write offset data => exact writing_of_error (Region.write_of_check h)
  | readByte offset => exact reading_of_error (Region.readByte_of_check h)
  | readNumber width offset => exact reading_of_error (Region.readNumber_of_check h)
  | writeNumber width offset value =>
    refine writing_of_error (Region.write_of_check ?_)
    rw [length_toBytes]
    exact h
  | load width offset => exact reading_of_error (Region.load_of_check h)
  | store width offset value => exact writing_of_error (Region.store_of_check h)
  | flush offset len => exact reading_of_error h

/-- An access that asks with success answers from the bytes of its range, and puts its own. -/
theorem run_of_ask_ok (h : a.ask r = .ok ()) (hin : a.offset + a.width ≤ r.size)
    (hfits : ¬a.Unaffordable) : a.run r = (.ok (r.plain.answer a), r.put a.offset a.data) := by
  cases a with
  | read offset len => exact reading_of_ok (Region.read_eq_slice hin)
  | copyOut offset len =>
    rw [run_copyOut hfits]
    exact reading_of_ok (Region.read_eq_slice hin)
  | write offset data => exact writing_of_ok (Region.write_of_le hin)
  | readByte offset => exact reading_of_ok (Region.readByte_eq_byte hin)
  | readNumber width offset => exact reading_of_ok (Region.readNumber_eq_number hin)
  | writeNumber width offset value => exact writing_of_ok (Region.writeNumber_of_le hin)
  | load width offset => exact reading_of_ok (Region.load_eq_number h hin)
  | store width offset value => exact writing_of_ok (Region.store_of_le h hin)
  | flush offset len => exact reading_of_ok h

/-- What an access puts is what it leaves in the array. -/
theorem plain_put_data (hin : a.offset + a.width ≤ r.size) :
    (r.put a.offset a.data).plain = r.plain.after a := by
  cases a with
  | write offset data => exact Region.plain_put hin
  | writeNumber width offset value => exact Region.plain_put_number hin
  | store width offset value => exact Region.plain_put_number hin
  | _ => rfl

/-- No region reaches as far as a buffer that no memory holds. -/
theorem outside_of_unaffordable (h : a.Unaffordable) (r : Region) :
    r.size < a.offset + a.width := by
  cases a with
  | copyOut offset len =>
    have hlen : sizeLimit ≤ len := h
    have hsize : r.size < sizeLimit := r.size_lt
    show r.size < offset + len
    omega
  | _ => exact absurd h id

/-- **What every access does.** It is refused without effect, or it answers from its range
and puts its bytes; only a buffer that no memory holds comes before the question. -/
theorem run_eq (hbase : pageSize ∣ base) (a : Access) (r : Region) :
    a.run r = if a.Unaffordable then (.error (.aborted .capacityOverflow), r)
      else match a.refusal? base r.size with
        | some failure => (.error (.failed failure), r)
        | none => (.ok (r.plain.answer a), r.put a.offset a.data) := by
  by_cases hfits : a.Unaffordable
  · rw [if_pos hfits, run_of_unaffordable hfits]
  · have hask := ask_eq hbase a r
    rw [if_neg hfits]
    rcases hrefusal : a.refusal? base r.size with _ | failure
    · simp only [hrefusal] at hask ⊢
      exact run_of_ask_ok hask (le_of_refusal? hrefusal) hfits
    · simp only [hrefusal] at hask ⊢
      exact run_of_ask_error hask hfits

/-! ## 5. Guards -/

theorem put_of_not_isWrite (h : a.isWrite = false) : r.put a.offset a.data = r := by
  cases a with
  | write offset data => cases h
  | writeNumber width offset value => cases h
  | store width offset value => cases h
  | _ => rfl

theorem length_data (h : a.isWrite = true) : a.data.length = a.width := by
  cases a with
  | write offset data => rfl
  | writeNumber width offset value => exact length_toBytes width.bytes value
  | store width offset value => exact length_toBytes width.bytes value
  | _ => cases h

/-- **The ends of an access**, by its range and its offset. The order is that of the checks: a
buffer of more bytes than memory can have comes first, then the range, and then the alignment of an
atomic access. Only the last end answers or writes. -/
theorem run_cases (a : Access) (r : Region) :
    (a.Unaffordable ∧ r.size < a.offset + a.width ∧
      a.run r = (.error (.aborted .capacityOverflow), r)) ∨
    (¬a.Unaffordable ∧ r.size < a.offset + a.width ∧
      a.run r = (.error (.failed (.outOfBounds a.offset a.width r.size)), r)) ∨
    (¬a.Unaffordable ∧ a.offset + a.width ≤ r.size ∧ a.isAtomic = true ∧ ¬a.width ∣ a.offset ∧
      a.run r = (.error (.failed (.misalignedRegister a.offset a.width)), r)) ∨
    (¬a.Unaffordable ∧ a.offset + a.width ≤ r.size ∧ (a.isAtomic = true → a.width ∣ a.offset) ∧
      a.run r = (.ok (r.plain.answer a), r.put a.offset a.data)) := by
  -- a region that starts at address 0 has its offsets for addresses
  have hrun := run_eq (Nat.dvd_zero pageSize) a r
  by_cases hfits : a.Unaffordable
  · rw [if_pos hfits] at hrun
    exact .inl ⟨hfits, outside_of_unaffordable hfits r, hrun⟩
  · rw [if_neg hfits, refusal?, Nat.zero_add] at hrun
    by_cases hout : r.size < a.offset + a.width
    · rw [if_pos hout] at hrun
      exact .inr (.inl ⟨hfits, hout, hrun⟩)
    · have hin := Nat.not_lt.1 hout
      rw [if_neg hout] at hrun
      by_cases hal : a.isAtomic = true ∧ a.offset % a.width ≠ 0
      · rw [if_pos hal] at hrun
        have hoff : ¬a.width ∣ a.offset := fun h => hal.2 (Nat.mod_eq_zero_of_dvd h)
        exact .inr (.inr (.inl ⟨hfits, hin, hal.1, hoff, hrun⟩))
      · rw [if_neg hal] at hrun
        have haligned : a.isAtomic = true → a.width ∣ a.offset := fun ha =>
          Nat.dvd_of_mod_eq_zero (Decidable.byContradiction fun h => hal ⟨ha, h⟩)
        exact .inr (.inr (.inr ⟨hfits, hin, haligned, hrun⟩))

/-- How an access is guarded: when it fails and with what, and what it may change. Together the
fields say that a region is a plain array behind two checks, but for a buffer that is too large. -/
structure Guarded (a : Access) (r : Region) : Prop where
  answers_iff : (∃ answer, (a.run r).1 = .ok answer) ↔
    a.offset + a.width ≤ r.size ∧ (a.isAtomic = true → a.width ∣ a.offset)
  outOfBounds : ¬a.Unaffordable → r.size < a.offset + a.width →
    (a.run r).1 = .error (.failed (.outOfBounds a.offset a.width r.size))
  misaligned : a.offset + a.width ≤ r.size → a.isAtomic = true → ¬a.width ∣ a.offset →
    (a.run r).1 = .error (.failed (.misalignedRegister a.offset a.width))
  aborts_iff : ∀ abort, (a.run r).1 = .error (.aborted abort) ↔
    a.Unaffordable ∧ abort = .capacityOverflow
  keeps_of_halt : ∀ halt, (a.run r).1 = .error halt → (a.run r).2 = r
  keeps_size : (a.run r).2.size = r.size
  keeps_path : (a.run r).2.path = r.path
  /-- Only a write changes bytes, and only those of its range. -/
  keeps_cells : ∀ i, (a.isWrite = true → ¬(a.offset ≤ i ∧ i < a.offset + a.width)) →
    (a.run r).2.cells[i]? = r.cells[i]?

/-- An access halts and leaves the region, or it answers and leaves what it puts. -/
theorem run_leaves (a : Access) (r : Region) :
    (∃ halt, a.run r = (.error halt, r)) ∨
    (a.offset + a.width ≤ r.size ∧ ∃ answer, a.run r = (.ok answer, r.put a.offset a.data)) := by
  rcases run_cases a r with ⟨-, -, hrun⟩ | ⟨-, -, hrun⟩ | ⟨-, -, -, -, hrun⟩ | ⟨-, hin, -, hrun⟩
  · exact .inl ⟨_, hrun⟩
  · exact .inl ⟨_, hrun⟩
  · exact .inl ⟨_, hrun⟩
  · exact .inr ⟨hin, _, hrun⟩

theorem put_keeps_cells (hin : a.offset + a.width ≤ r.size) {i : Nat}
    (hi : a.isWrite = true → ¬(a.offset ≤ i ∧ i < a.offset + a.width)) :
    (r.put a.offset a.data).cells[i]? = r.cells[i]? := by
  rcases hwrite : a.isWrite with _ | _
  · rw [put_of_not_isWrite hwrite]
  · have hlen := length_data hwrite
    show (overwrite r.cells a.offset a.data)[i]? = _
    rw [getElem?_overwrite _ _ _ (by rw [hlen]; exact hin), hlen, if_neg (hi hwrite)]

/-- **Every access is guarded**: by its buffer, its range and its alignment, which are asked in this
order. The cases are those of `run_cases`, one for each guard and one for what passes all of them.
-/
theorem guarded (a : Access) (r : Region) : a.Guarded r where
  answers_iff := by
    rcases run_cases a r with ⟨-, hout, hrun⟩ | ⟨-, hout, hrun⟩ | ⟨-, -, ha, hal, hrun⟩ |
      ⟨-, hin, hal, hrun⟩
    · simpa [hrun] using fun hin => absurd hout (Nat.not_lt.2 hin)
    · simpa [hrun] using fun hin => absurd hout (Nat.not_lt.2 hin)
    · simpa [hrun] using fun _ => ⟨ha, hal⟩
    · simpa [hrun] using ⟨hin, hal⟩
  outOfBounds hfits hout := by
    rcases run_cases a r with ⟨hbuf, -⟩ | ⟨-, -, hrun⟩ | ⟨-, hin, -⟩ | ⟨-, hin, -⟩
    · exact absurd hbuf hfits
    · rw [hrun]
    · exact absurd hout (Nat.not_lt.2 hin)
    · exact absurd hout (Nat.not_lt.2 hin)
  misaligned hin ha hal := by
    rcases run_cases a r with ⟨-, hout, -⟩ | ⟨-, hout, -⟩ | ⟨-, -, -, -, hrun⟩ | ⟨-, -, hal', -⟩
    · exact absurd hout (Nat.not_lt.2 hin)
    · exact absurd hout (Nat.not_lt.2 hin)
    · rw [hrun]
    · exact absurd (hal' ha) hal
  aborts_iff abort := by
    rcases run_cases a r with ⟨hbuf, -, hrun⟩ | ⟨hbuf, -, hrun⟩ | ⟨hbuf, -, -, -, hrun⟩ |
      ⟨hbuf, -, -, hrun⟩
    · simp [hrun, hbuf, eq_comm]
    · simp [hrun, hbuf]
    · simp [hrun, hbuf]
    · simp [hrun, hbuf]
  keeps_of_halt halt hhalt := by
    rcases run_leaves a r with ⟨_, hrun⟩ | ⟨-, _, hrun⟩
    · rw [hrun]
    · rw [hrun] at hhalt
      cases hhalt
  keeps_size := by
    rcases run_leaves a r with ⟨_, hrun⟩ | ⟨-, _, hrun⟩
    · rw [hrun]
    · rw [hrun]
      exact Region.size_put r a.offset a.data
  keeps_path := by
    rcases run_leaves a r with ⟨_, hrun⟩ | ⟨-, _, hrun⟩ <;> rw [hrun]
    rfl
  keeps_cells i hi := by
    rcases run_leaves a r with ⟨_, hrun⟩ | ⟨hin, _, hrun⟩
    · rw [hrun]
    · rw [hrun]
      exact put_keeps_cells hin hi

/-! ## 6. Accesses in a row -/

/-- What a region answers where an array answers this: the same, unless a buffer comes first
that no memory holds. -/
def delivers (a : Access) (answer : Except Failure Reading) : Except Halt Reading :=
  if a.Unaffordable then .error (.aborted .capacityOverflow) else answer.mapError .failed

/-- One access does on a region what it does on the array of its bytes. -/
theorem run_as_plain (hbase : pageSize ∣ base) (a : Access) (r : Region) :
    (a.run r).1 = a.delivers (r.plain.perform base a).1 ∧
      (a.run r).2.plain = (r.plain.perform base a).2 := by
  rw [run_eq hbase, delivers, Plain.perform, Region.size_plain]
  by_cases hfits : a.Unaffordable
  · have hrefusal : a.refusal? base r.size = some (.outOfBounds a.offset a.width r.size) :=
      if_pos (outside_of_unaffordable hfits r)
    simp only [if_pos hfits, hrefusal, and_self]
  · simp only [if_neg hfits]
    rcases hrefusal : a.refusal? base r.size with _ | failure
    · exact ⟨rfl, plain_put_data (le_of_refusal? hrefusal)⟩
    · exact ⟨rfl, rfl⟩

theorem runAll_as_plain (hbase : pageSize ∣ base) (accesses : List Access) (r : Region) :
    (runAll accesses r).1 = List.zipWith delivers accesses (r.plain.performAll base accesses).1 ∧
      (runAll accesses r).2.plain = (r.plain.performAll base accesses).2 := by
  induction accesses generalizing r with
  | nil => exact ⟨rfl, rfl⟩
  | cons a rest ih =>
    obtain ⟨hanswer, hplain⟩ := run_as_plain hbase a r
    obtain ⟨hanswers, hplains⟩ := ih (a.run r).2
    rw [hplain] at hanswers hplains
    refine ⟨?_, hplains⟩
    show (a.run r).1 :: (runAll rest (a.run r).2).1 = _
    rw [hanswer, hanswers]
    rfl

theorem length_performAll (base : Nat) (accesses : List Access) (p : Plain) :
    (p.performAll base accesses).1.length = accesses.length := by
  induction accesses generalizing p with
  | nil => rfl
  | cons a rest ih => exact congrArg Nat.succ (ih _)

/-- All answers of an array are delivered if every buffer can be had, and only then. This is the one
place where a region and a plain array differ. -/
theorem delivers_all_iff {accesses : List Access} {answers : List (Except Failure Reading)}
    (hlen : answers.length = accesses.length) :
    List.zipWith delivers accesses answers = answers.map (Except.mapError Halt.failed) ↔
      ∀ a ∈ accesses, ¬a.Unaffordable := by
  induction accesses generalizing answers with
  | nil => simp [List.length_eq_zero_iff.1 hlen]
  | cons a rest ih =>
    cases answers with
    | nil => cases hlen
    | cons answer answers =>
      have hhead : a.delivers answer = answer.mapError Halt.failed ↔ ¬a.Unaffordable := by
        unfold delivers
        by_cases hfits : a.Unaffordable
        · rw [if_pos hfits]
          cases answer <;> simp [Except.mapError, hfits]
        · rw [if_neg hfits]
          exact iff_of_true rfl hfits
      rw [List.zipWith_cons_cons, List.map_cons, List.cons.injEq, hhead,
        ih (Nat.succ.inj hlen), List.forall_mem_cons]

/-- **A region is an array of bytes.** Any accesses in a row leave the bytes that they leave in
an array, and each is answered as there, or refused for its range or its address, except that
a read into an own buffer that no memory holds is an abort; without such reads all answers are
those of the array. Each access answers exactly if its range is inside and, if it is atomic, its
offset is a multiple of its width; it changes nothing if it does not answer, and nothing but
its range if it does. -/
theorem answers_as_plain (hbase : pageSize ∣ base) (accesses : List Access) (r : Region) :
    (runAll accesses r).2.plain = (r.plain.performAll base accesses).2 ∧
    (runAll accesses r).1 = List.zipWith delivers accesses (r.plain.performAll base accesses).1 ∧
    ((runAll accesses r).1 = (r.plain.performAll base accesses).1.map (·.mapError Halt.failed) ↔
      ∀ a ∈ accesses, ¬a.Unaffordable) ∧
    ∀ (a : Access) (s : Region), a.Guarded s := by
  obtain ⟨hanswers, hplain⟩ := runAll_as_plain hbase accesses r
  refine ⟨hplain, hanswers, ?_, guarded⟩
  rw [hanswers]
  exact delivers_all_iff (length_performAll base accesses r.plain)

/-- Sixteen bytes of zero. -/
def sixteen : Region where
  path := .under "/" "sixteen"
  cells := Array.replicate 16 0
  size_lt := by decide

/-- Numbers of several widths over each other, some of them off their range or alignment. -/
def overlapping : List Access :=
  [.writeNumber .eight 4 0x0102030405060708, .readNumber .two 5, .load .four 8, .store .four 6 7,
    .write 15 [1, 2], .read 10 3, .copyOut 18446744073709551615 1]

theorem overlapping_answers :
    pageSize ∣ 8192 ∧
    (runAll overlapping sixteen).1 =
      [.ok .done, .ok (.number 0x0607), .ok (.number 0x01020304),
        .error (.failed (.misalignedRegister 6 4)), .error (.failed (.outOfBounds 15 2 16)),
        .ok (.bytes [2, 1, 0]),
        .error (.failed (.outOfBounds 18446744073709551615 1 16))] := by
  have hbase : pageSize ∣ 8192 := by decide
  refine ⟨hbase, ?_⟩
  rw [(answers_as_plain hbase overlapping sixteen).2.1]
  decide +kernel

/-- A read of so many bytes into a buffer of the caller is refused, and into an own one it
is an abort. -/
theorem hugeCopy_aborts :
    sixteen.size < 0 + 18446744073709551615 ∧
    (run (.read 0 18446744073709551615) sixteen).1
      = .error (.failed (.outOfBounds 0 18446744073709551615 sixteen.size)) ∧
    (run (.copyOut 0 18446744073709551615) sixteen).1 = .error (.aborted .capacityOverflow) := by
  have hout : sixteen.size < 0 + 18446744073709551615 := by decide
  have hbuf : (copyOut 0 18446744073709551615).Unaffordable := by decide
  refine ⟨hout, (guarded (.read 0 18446744073709551615) sixteen).outOfBounds id hout, ?_⟩
  rw [run_of_unaffordable hbuf]

end Access

end DurableCalls
