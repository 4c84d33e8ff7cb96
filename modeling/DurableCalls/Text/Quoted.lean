/-
`Quoted.lean` -- text between double quotes, with nothing hidden in it.

A quote and a backslash inside are escaped by a backslash. Four controls have letters,
and any other hidden character is written by its number.
-/
import DurableCalls.Text.Hex
import DurableCalls.Text.Hidden

set_option autoImplicit false

namespace DurableCalls.Text

/-- The hexadecimal digits of a number, without zeros in front. -/
def hexNumeral (n : Nat) : List Char := Nat.toDigits 16 n

def quoteChar (c : Char) : List Char :=
  if c = '"' ∨ c = '\\' then ['\\', c]
  else if c = '\t' then ['\\', 't']
  else if c = '\n' then ['\\', 'n']
  else if c = '\r' then ['\\', 'r']
  else if c = Char.ofNat 0 then ['\\', '0']
  else if isHidden c then ['\\', 'u', '\x7b'] ++ hexNumeral c.toNat ++ ['\x7d']
  else [c]

def quote (s : String) : String :=
  String.ofList ('"' :: s.toList.flatMap quoteChar ++ ['"'])

/-- Texts in quotes, as a list. -/
def quoteList (names : List String) : String := "[" ++ ", ".intercalate (names.map quote) ++ "]"

end DurableCalls.Text
