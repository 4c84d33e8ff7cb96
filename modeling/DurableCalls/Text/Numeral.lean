/-
`Numeral.lean` -- decimal numerals of 64-bit words.

A numeral is one digit or more, after at most one plus sign. A numeral of a larger
number is not the numeral of a word.
-/
import DurableCalls.Word

set_option autoImplicit false

namespace DurableCalls.Text

/-- The value of a decimal digit. -/
def digit? (c : Char) : Option Nat :=
  if '0' ≤ c ∧ c ≤ '9' then some (c.toNat - '0'.toNat) else none

/-- The number that decimal digits stand for, behind those of `n`. -/
def digits? (n : Nat) : List Char → Option Nat
  | [] => some n
  | c :: rest => do digits? (n * 10 + (← digit? c)) rest

/-- The word that a numeral stands for. -/
def word? (cs : List Char) : Option Nat := do
  let digits := match cs with
    | '+' :: rest => rest
    | _ => cs
  if digits.isEmpty then none
  let n ← digits? 0 digits
  if n < wordLimit then some n else none

end DurableCalls.Text
