/-
`Disk.lean` -- files, folders and the exclusive lock behind every open region.

A region holds its file: until it is closed, nobody else creates or opens a region
over the same file. Opening hands out the first bytes of the file, and closing puts
them back and lifts the lock; what the file holds behind them stays.

What can be refused is refused before anything changes, with two exceptions: a file is
made and emptied before its size is asked for, and the folders on the way to a folder
stay when the last one cannot be made.
-/
import DurableCalls.Region
import DurableCalls.Table

set_option autoImplicit false

namespace DurableCalls

/-- A file: its bytes, and whether an open region holds it. -/
structure File where
  cells : Array UInt8
  held : Bool := false
deriving DecidableEq, Repr

/-- The files and the folders of a file system, by their places. -/
structure Disk where
  files : Table (List String) File := {}
  folders : List (List String) := []
deriving DecidableEq, Repr

namespace Disk

/-! ## 1. Walking -/

/-- The root, the working directory and the folders around it need no entry. -/
def isFolder (d : Disk) (place : List String) : Bool :=
  place = ["/"] || place.all (· = "..") || d.folders.contains place

/-- Walks through folders, and gives the place of the last one. -/
def walk (d : Disk) : (place : List String) → (steps : List String) → Except IoKind (List String)
  | place, [] => .ok place
  | place, step :: rest =>
    let next := Path.follow place step
    if Path.isTooLong step then .error .nameTooLong
    else if d.isFolder next then d.walk next rest
    else .error (if d.files.contains next then .notADirectory else .notFound)

/-- Refuses a path that is no name at all. -/
def checkName (p : Path) : Except IoKind Unit :=
  if p.name.toList.contains (Char.ofNat 0) then .error .nulInName
  else if Path.pathLimit < p.text.utf8ByteSize then .error .nameTooLong
  else .ok ()

/-- The file at a path, or none where a missing file can be made and is to be made. -/
def locate (d : Disk) (p : Path) (make : Bool) : Except IoKind (Option File) := do
  checkName p
  discard <| d.walk p.start p.steps.dropLast
  match p.steps.getLast? with
  | none => throw .isADirectory
  | some last =>
    -- a file that is to be made may not be spelled like a folder
    if Path.isDot last || (make && p.isFolderName) then throw .isADirectory
    if Path.isTooLong last then throw .nameTooLong
    if d.isFolder p.place then throw .isADirectory
    match d.files.find? p.place with
    | some file => if p.isFolderName then throw .notADirectory else return some file
    | none => if make then return none else throw .notFound

def has (d : Disk) (p : Path) : Bool :=
  match d.locate p false with
  | .ok _ => true
  | .error kind => kind = .isADirectory

/-! ## 2. Folders -/

/-- Makes a folder in a folder that is there. -/
def makeFolder (d : Disk) (start steps : List String) : Except IoKind Disk := do
  let parent ← d.walk start steps.dropLast
  match steps.getLast? with
  | none => throw .alreadyExists
  | some last =>
    let place := Path.follow parent last
    if Path.isTooLong last then throw .nameTooLong
    if Path.isDot last || d.isFolder place || d.files.contains place then throw .alreadyExists
    return { d with folders := d.folders ++ [place] }

/-- Makes a folder in a folder that is there, unless it is there itself. -/
def ensureFolder (d : Disk) (start steps : List String) : Except IoKind Disk :=
  match d.makeFolder start steps with
  | .error .alreadyExists =>
    -- what is there may be a file
    if (d.walk start steps).isOk then .ok d else .error .alreadyExists
  | made => made

/-- Makes the folder at the first of several ways, each of which leads to the folder
around the one before. -/
def ensureWays (d : Disk) (start : List String) :
    (ways : List (List String)) → Except IoKind Unit × Disk
  | [] => (.ok (), d)
  | steps :: shorter =>
    match d.ensureFolder start steps with
    | .ok d => (.ok (), d)
    | .error .notFound =>
      match d.ensureWays start shorter with
      | (.error kind, d) => (.error kind, d)
      | (.ok (), d) =>
        match d.ensureFolder start steps with
        | .ok d => (.ok (), d)
        | .error kind => (.error kind, d)
    | .error kind => (.error kind, d)

/-- Makes the folder at a path and the folders on the way to it. -/
def makeFolders (d : Disk) (p : Path) : Except IoKind Unit × Disk :=
  match checkName p with
  | .error kind => (.error kind, d)
  | .ok () => d.ensureWays p.start p.ways

/-! ## 3. Regions -/

def put (d : Disk) (p : Path) (file : File) : Disk :=
  { d with files := d.files.insert p.place file }

/-- A file has at most so many bytes. -/
def fileLimit : Nat := 17592186040320

def checkSize (size : Nat) : Except IoKind Unit :=
  if sizeLimit ≤ size then .error .sizeOutOfRange
  else if fileLimit < size then .error .fileTooLarge
  else .ok ()

theorem lt_sizeLimit_of_checkSize {size : Nat} (h : checkSize size = .ok ()) :
    size < sizeLimit := by
  unfold checkSize at h
  split at h
  next => cases h
  next hlt => exact Nat.lt_of_not_le hlt

/-- Creates a region of zeros over a file, which it makes or empties. The file is
emptied once the lock is taken, so the holder of a file never loses it. -/
def create (d : Disk) (p : Path) (size : Nat) : Except Failure Region × Disk :=
  if size = 0 then (.error (.setup (.emptyRegion p.text)), d)
  else match d.locate p true with
    | .error kind => (.error (.io p.text kind), d)
    | .ok file =>
      if (file.map File.held).getD false then (.error (.io p.text .wouldBlock), d)
      else match hsize : checkSize size with
        | .error kind => (.error (.io p.text kind), d.put p { cells := #[] })
        | .ok () =>
          let cells := Array.replicate size 0
          have hlt : cells.size < sizeLimit := by
            rw [Array.size_replicate]
            exact lt_sizeLimit_of_checkSize hsize
          (.ok { path := p, cells, size_lt := hlt }, d.put p { cells, held := true })

/-- Opens a region over the first `size` bytes of a file. No file is long enough for a
size beyond every offset, so the last refusal is that of memory alone. -/
def openFile (d : Disk) (p : Path) (size : Nat) : Except Failure Region × Disk :=
  match d.locate p false with
  | .error kind => (.error (.io p.text kind), d)
  | .ok none => (.error (.io p.text .notFound), d)
  | .ok (some file) =>
    if file.held then (.error (.io p.text .wouldBlock), d)
    else if file.cells.size < size then
      (.error (.setup (.shortFile p.text file.cells.size size)), d)
    else if hsize : size < sizeLimit then
      let cells := file.cells.extract 0 size
      have hlt : cells.size < sizeLimit :=
        Nat.lt_of_le_of_lt (by simp only [cells, Array.size_extract]; omega) hsize
      (.ok { path := p, cells, size_lt := hlt }, d.put p { file with held := true })
    else (.error (.io p.text .sizeOutOfRange), d)

def openOrCreate (d : Disk) (p : Path) (size : Nat) (fresh : Bool) :
    Except Failure Region × Disk :=
  if fresh then d.create p size else d.openFile p size

/-- Closes a region: its bytes are the first bytes of the file again, and the file
is free for another holder. -/
def close (d : Disk) (r : Region) : Disk :=
  let tail := match d.files.find? r.path.place with
    | some file => file.cells.extract r.size file.cells.size
    | none => #[]
  d.put r.path { cells := r.cells ++ tail }

end Disk

end DurableCalls
