/-
`Path.lean` -- names of files: how messages quote them, and where they lead.

A path is walked step by step from the working directory, or from the root if it
starts with a slash. Empty steps say nothing, `.` stays, and `..` goes back to the
folder around. No folder is a link to another one, so a path that can be walked leads
to the place that its steps alone tell: two spellings of one place meet the same file
and the same lock.
-/
import DurableCalls.Text.Pieces

set_option autoImplicit false

namespace DurableCalls

/-- A file name as given. -/
structure Path where
  /-- How messages quote it. -/
  text : String
  /-- What the file system is asked for. -/
  name : String
deriving DecidableEq, Repr

namespace Path

def ofText (text : String) : Path := ⟨text, text⟩

def startsInSlash (name : String) : Bool := name.toList.head? = some '/'

def endsInSlash (name : String) : Bool := name.toList.getLast? = some '/'

def join (folder name : String) : String :=
  if folder = "" ∨ endsInSlash folder then folder ++ name else folder ++ "/" ++ name

/-- A path whose text also shows the directory that it is relative to. A path from the
root is relative to nothing. -/
def under (directory text : String) : Path :=
  if startsInSlash text then ofText text else ⟨join directory text, join "." text⟩

def child (folder : Path) (name : String) : Path := ⟨join folder.text name, join folder.name name⟩

/-! ## 1. Steps -/

/-- The steps of a path, `.` and `..` among them. -/
def steps (p : Path) : List String :=
  ((Text.pieces '/' p.name.toList).filter (· ≠ [])).map String.ofList

/-- The place that a path is walked from. -/
def start (p : Path) : List String := if startsInSlash p.name then ["/"] else []

def isFolderName (p : Path) : Bool := endsInSlash p.name

/-- Whether a step leads to a folder of the walk and names nothing new. -/
def isDot (step : String) : Bool := step = "." || step = ".."

/-- The folder around a place. Nothing is around the root, and the folders around the
working directory are known as such only. -/
def around (place : List String) : List String :=
  if place = ["/"] then place
  else if place.all (· = "..") then place ++ [".."]
  else place.dropLast

/-- The place that one step leads to. -/
def follow (place : List String) (step : String) : List String :=
  if step = "." then place
  else if step = ".." then around place
  else place ++ [step]

/-- The place that a path leads to. -/
def place (p : Path) : List String := p.steps.foldl follow p.start

/-- A detour through a folder leads to the same place. -/
example : (ofText "a//./../b/").place = (ofText "./b").place := by decide +kernel

/-- The steps of a path, and of each folder on its way, the longest way first. A folder
is known by its name, so no way but the first ends in `.`. -/
def ways (p : Path) : List (List String) :=
  let named := p.steps.filter (· ≠ ".")
  p.steps :: (List.range' 1 (named.length - 1)).reverse.map named.take

/-! ## 2. Names that no file system takes -/

def stepLimit : Nat := 255

def pathLimit : Nat := 4095

def isTooLong (step : String) : Bool := stepLimit < step.utf8ByteSize

end Path

end DurableCalls
