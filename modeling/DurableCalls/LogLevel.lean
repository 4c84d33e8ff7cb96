/-
`LogLevel.lean` -- how much is logged, and the spellings of it.
-/

set_option autoImplicit false

namespace DurableCalls

/-- How much is logged, from nothing to everything. -/
inductive LogLevel
  | off
  | error
  | warn
  | info
  | debug
  | trace
deriving DecidableEq, Repr

namespace LogLevel

def name : LogLevel → String
  | off => "off"
  | error => "error"
  | warn => "warn"
  | info => "info"
  | debug => "debug"
  | trace => "trace"

/-- The level that a text spells, in letters of either case or as a number. No level
has a letter that a character outside ASCII is the capital of. -/
def ofText? (text : String) : Option LogLevel :=
  match text.toLower with
  | "off" | "none" | "0" => some off
  | "error" | "err" | "1" => some error
  | "warn" | "warning" | "2" => some warn
  | "info" | "3" => some info
  | "debug" | "4" => some debug
  | "trace" | "5" => some trace
  | _ => none

/-- The directive that limits logging to this level and to the parts of this
program. -/
def filter : LogLevel → String
  | off => "off"
  | level => ",".intercalate
      (["nvstack_runtime", "nvstack_driver", "nvstack"].map (· ++ "=" ++ level.name))

theorem ofText?_name (level : LogLevel) : ofText? level.name = some level := by
  cases level <;> decide +kernel

end LogLevel

end DurableCalls
