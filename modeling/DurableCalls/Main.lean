/-
`Main.lean` -- the `nvstack` program.

Reads the arguments, the environment and the files that the command names, lets
`CommandLine.run` answer, and brings the files and the outputs up to date. A file
stays locked while the program runs; one that somebody else has locked is held on
the disk that the command sees. Nothing is decided here.
-/
import DurableCalls.CommandLine

set_option autoImplicit false

namespace DurableCalls.Main

/-- The name of a place. -/
def nameOf : (place : List String) → String
  | "/" :: steps => "/" ++ "/".intercalate steps
  | steps => "/".intercalate steps

/-- What the program has in its hands: the disk, and the locks on its files. -/
structure Desk where
  disk : Disk := {}
  locks : List IO.FS.Handle := []

/-- The error number of a folder that was opened as a file. -/
def isFolderCode : UInt32 := 21

/-- Adds the file or the folder at a place, if there is one. -/
def look (desk : Desk) (place : List String) : IO Desk := do
  if desk.disk.isFolder place || desk.disk.files.contains place then return desk
  try
    let handle ← IO.FS.Handle.mk (nameOf place) .readWrite
    let free ← handle.tryLock
    let file : File := { cells := (← handle.readBinToEnd).data, held := !free }
    return {
      disk := { desk.disk with files := desk.disk.files.insert place file }
      locks := handle :: desk.locks }
  catch
    | .noFileOrDirectory .. => return desk
    | .inappropriateType _ code details =>
      if code = isFolderCode then
        return { desk with disk := { desk.disk with folders := place :: desk.disk.folders } }
      else throw (.inappropriateType none code details)
    | other => throw other

/-- Adds what is on the way to a path, up to the first thing that is no folder. A step
with too many bytes leads nowhere. -/
def lookAlong (desk : Desk) : (place steps : List String) → IO Desk
  | _, [] => return desk
  | place, step :: rest => do
    if Path.isTooLong step then return desk
    let next := Path.follow place step
    let desk ← look desk next
    if desk.disk.isFolder next then lookAlong desk next rest else return desk

/-- Makes the folders and writes the files that a command has changed. -/
def save (before after : Disk) : IO Unit := do
  for folder in after.folders do
    if !before.isFolder folder then IO.FS.createDirAll (nameOf folder)
  for (place, file) in after.files.entries do
    if (before.files.find? place).map File.cells ≠ some file.cells then
      IO.FS.writeBinFile (nameOf place) ⟨file.cells⟩

def environment : IO (String → Option String) := do
  let values ← Config.variableNames.mapM fun name => return (name, ← IO.getEnv name)
  return fun name => (values.find? (·.1 = name)).bind (·.2)

def run (args : List String) : IO UInt32 := do
  let env ← environment
  let paths := ((CommandLine.parse args).map (CommandLine.pathsOf env)).getD []
  let desk ← paths.foldlM (fun desk path => lookAlong desk path.start path.steps) {}
  let (answer, disk) := CommandLine.run env args desk.disk
  save desk.disk disk
  answer.stdout.forM IO.println
  answer.stderr.forM IO.eprintln
  return UInt32.ofNat answer.code

end DurableCalls.Main

def main (args : List String) : IO UInt32 := DurableCalls.Main.run args
