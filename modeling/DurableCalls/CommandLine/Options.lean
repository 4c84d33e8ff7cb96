/-
`Options.lean` -- the options of the command line, and reading them from arguments.

An option is a flag or takes a value. A long option may have its value behind an
equals sign, a short one right behind its letter; otherwise the value is the next
argument, which may not look like an option. No option is given twice, and short
flags can be joined. Everything else is refused: a usage error says so by its exit
code alone.
-/

set_option autoImplicit false

namespace DurableCalls.CommandLine

/-- An option as it is spelled. -/
structure OptionSpec where
  long : String
  short : Option Char := none
  /-- Whether a text can be the value, for an option that takes one. -/
  accepts : Option (String → Bool) := none

/-- The options read so far. The value of a flag is its spelling. -/
structure Readings where
  /-- The options by name, with their values. -/
  given : List (String × String) := []
  /-- The first argument that is no option, and those behind it. -/
  rest : List String := []
deriving Repr

namespace Readings

def value? (r : Readings) (long : String) : Option String := r.given.lookup long

def has (r : Readings) (long : String) : Bool := (r.value? long).isSome

/-- The readings with one more option, if it is new. -/
def add (r : Readings) (long value : String) : Option Readings :=
  if r.has long then none else some { r with given := (long, value) :: r.given }

end Readings

/-- Whether an argument looks like an option, and so is no value. A lone dash does
not. -/
def looksLikeOption (arg : String) : Bool := arg.startsWith "-" && arg ≠ "-"

/-- The text before the first equals sign, and the text behind it. -/
def splitValue (cs : List Char) : List Char × Option (List Char) :=
  match cs.dropWhile (· ≠ '=') with
  | [] => (cs, none)
  | _ :: value => (cs.takeWhile (· ≠ '='), some value)

/-- Where a value is looked for: in the argument of its option, or in the arguments
behind it. The arguments that are left come with it. -/
def takeValue (own : Option (List Char)) (behind : List String) :
    Option (String × List String) :=
  match own, behind with
  | some value, behind => some (String.ofList value, behind)
  | none, value :: behind => if looksLikeOption value then none else some (value, behind)
  | none, [] => none

/-- Reads one long flag, or one option with a value of its own or without. -/
def readOption (spec : OptionSpec) (own : Option (List Char)) (behind : List String)
    (r : Readings) : Option (Readings × List String) := do
  match spec.accepts with
  | none =>
    if own.isSome then none
    return (← r.add spec.long ("--" ++ spec.long), behind)
  | some accepts =>
    let (value, behind) ← takeValue own behind
    if !accepts value then none
    return (← r.add spec.long value, behind)

/-- Reads a group of short options. One that takes a value ends the group, and so
does one after which `stops` holds. -/
def readGroup (specs : List OptionSpec) (stops : Readings → Bool) (behind : List String) :
    List Char → Readings → Option (Readings × List String)
  | [], r => some (r, behind)
  | c :: cs, r => do
    if stops r then return (r, behind)
    let spec ← specs.find? (·.short = some c)
    if spec.accepts.isSome then
      let own := match cs with
        | [] => none
        | '=' :: value => some value
        | value => some value
      readOption spec own behind r
    else
      readGroup specs stops behind cs (← r.add spec.long (String.ofList ['-', c]))

/-- Reads options in at most so many arguments, up to the first argument that is
none, or to the first after which `stops` holds. -/
def readWithin (specs : List OptionSpec) (stops : Readings → Bool) :
    (count : Nat) → List String → Readings → Option Readings
  | 0, _, r => some r
  | _, [], r => some r
  | count + 1, arg :: behind, r => do
    if !looksLikeOption arg then return { r with rest := arg :: behind }
    let (r, behind) ← match arg.toList with
      | '-' :: '-' :: name => do
        let (name, own) := splitValue name
        let spec ← specs.find? (·.long = String.ofList name)
        readOption spec own behind r
      | _ :: group => readGroup specs stops behind group r
      | [] => none
    if stops r then return r
    readWithin specs stops count behind r

/-- Reads options up to the first argument that is none. One after which `stops`
holds ends the reading, and nothing behind it is looked at. -/
def readOptions (specs : List OptionSpec) (stops : Readings → Bool) (args : List String) :
    Option Readings :=
  readWithin specs stops args.length args {}

end DurableCalls.CommandLine
