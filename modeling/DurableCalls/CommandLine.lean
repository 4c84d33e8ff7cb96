/-
`CommandLine.lean` -- the `nvstack` command: what arguments ask for, and its answer.

The command runs the demonstration or restores its stacks, over files of the disk
that it is given. It answers with an exit code and with lines for the two outputs:
code 0 for success, 1 for a trouble, 2 for arguments that make no command, and 101
where an abort ends the program. Parsing and printing are pure.
-/
import DurableCalls.CommandLine.Options
import DurableCalls.CommandLine.Usage
import DurableCalls.Config.Environment
import DurableCalls.Queue
import DurableCalls.Workload

set_option autoImplicit false

namespace DurableCalls.CommandLine

/-! ## 1. Commands -/

/-- What both commands take. -/
structure Common where
  threads : Option Nat
  heap : String
  stackFolder : String
  fresh : Bool
deriving DecidableEq, Repr

/-- What a command line asks for. -/
inductive Command
  | exec (common : Common) (crash : Option Workload.CrashPlan)
  | recover (common : Common)
  /-- Print these lines. -/
  | print (lines : List String)
deriving DecidableEq, Repr

/-- The crash points by their names on the command line. -/
def crashPoints : List (String × FaultPoint) :=
  [("after-push", .afterFramePush), ("before-pop", .beforeFrameRemove),
    ("after-answer", .afterAnswerWrite)]

def crashPoint? (name : String) : Option FaultPoint :=
  (crashPoints.find? (·.1 = name)).map (·.2)

def globalOptions : List OptionSpec :=
  [{ long := "verbose", short := some 'v' }, { long := "help", short := some 'h' }]

def programOptions : List OptionSpec :=
  globalOptions ++ [{ long := "version", short := some 'V' }]

def commonOptions : List OptionSpec :=
  globalOptions ++
    [{ long := "threads", short := some 't',
       accepts := some fun text => (Text.word? text.toList).isSome },
     { long := "heap", accepts := some (· ≠ "") },
     { long := "stacks", accepts := some (· ≠ "") },
     { long := "init-heap" }]

def execOptions : List OptionSpec :=
  commonOptions ++
    [{ long := "crash-at", accepts := some fun text => (crashPoint? text).isSome },
     { long := "crash-in", accepts := some fun _ => true }]

/-- The common settings, if none is missing. -/
def commonOf (r : Readings) : Option Common := do
  return {
    threads := (r.value? "threads").bind fun text => Text.word? text.toList
    heap := ← r.value? "heap"
    stackFolder := ← r.value? "stacks"
    fresh := r.has "init-heap" }

/-- Reads the options of a command, and shows its help when asked for it. A command
takes no arguments beside its options; two dashes at the end say only that there are
no more of them. -/
def readCommand (specs : List OptionSpec) (summary help : List String)
    (build : Readings → Option Command) (args : List String) : Option Command := do
  let args := if args.getLast? = some "--" then args.dropLast else args
  let r ← readOptions specs (·.has "help") args
  match r.value? "help" with
  | some spelling => return .print (if spelling = "--help" then help else summary)
  | none =>
    if !r.rest.isEmpty then none
    build r

/-- Reads the arguments of `exec`. A crash function without a crash point makes no
sense. -/
def readExec : List String → Option Command :=
  readCommand execOptions execSummary execHelp fun r => do
    let common ← commonOf r
    match (r.value? "crash-at").bind crashPoint? with
    | some point =>
      return .exec common (some { point, function := (r.value? "crash-in").getD swapFunction })
    | none =>
      -- the default of the crash function counts as not given
      if r.has "crash-in" then none
      return .exec common none

def readRecover : List String → Option Command :=
  readCommand commonOptions recoverHelp recoverHelp fun r => return .recover (← commonOf r)

/-- What the arguments ask for, if they make a command. -/
def parse (args : List String) : Option Command := do
  let r ← readOptions programOptions (fun r => r.has "help" || r.has "version") args
  if r.has "help" then return .print programHelp
  if r.has "version" then return .print ["nvstack " ++ version]
  match r.rest with
  | "exec" :: args => readExec args
  | "recover" :: args => readRecover args
  | ["help"] => return .print programHelp
  | ["help", "help"] => return .print helpHelp
  | ["help", "exec"] => return .print execHelp
  | ["help", "recover"] => return .print recoverHelp
  | _ => none

/-! ## 2. Answers -/

/-- What a command leaves behind, its files apart. -/
structure Answer where
  code : Nat
  stdout : List String := []
  stderr : List String := []
deriving DecidableEq, Repr

def blanks (count : Nat) : String := "".pushn ' ' count

/-- The lines of a cause, behind a mark. The later lines stand below the first. -/
def causeLines (mark cause : String) : List String :=
  match Text.lines cause with
  | [] => []
  | first :: rest => (mark ++ first) :: rest.map (blanks mark.length ++ ·)

/-- What stands in front of a numbered cause. -/
def causeMark (i : Nat) : String :=
  let number := toString i
  blanks (5 - number.length) ++ number ++ ": "

/-- The lines that report a trouble. Causes are numbered when there are several. -/
def troubleLines (t : Trouble) : List String :=
  match t.chain with
  | [] => Text.lines "Error: "
  | top :: causes =>
    Text.lines ("Error: " ++ top) ++ match causes with
      | [] => []
      | [cause] => ["", "Caused by:"] ++ causeLines (blanks 4) cause
      | _ =>
        ["", "Caused by:"] ++ (causes.mapIdx fun i cause => causeLines (causeMark i) cause).flatten

def stopped : Stop → Answer
  | .trouble t => { code := 1, stderr := troubleLines t }
  | .aborted _ => { code := 101 }

def registerLine (r : Register) : String :=
  s!"register: <{r.owner.toNat}, {r.value.toNat}>"

def reportLine (r : WorkerReport) : String :=
  s!"worker {r.thread.toNat}: {r.completed} completed, {r.failed} failed" ++
    (if r.crashed then ", crashed" else "")

def outcomeLine (o : Outcome) : String :=
  s!"cas {o.before.toNat} -> {o.after.toNat}: " ++ (if o.succeeded then "ok" else "failed")

def execLines (s : Workload.ExecSummary) : List String :=
  s.reports.map reportLine ++ s.outcomes.map outcomeLine ++ [registerLine s.register]

def restoreLines (s : Workload.RestoreSummary) : List String :=
  s.recovered.mapIdx (fun i frames => s!"stack {i}: {frames} frames recovered") ++
    [registerLine s.register]

/-- The configuration of a command: the environment's, with the thread count that the
arguments give. -/
def configOf (env : String → Option String) (common : Common) : Config :=
  let config := Config.ofEnvironment env
  { config with threads := common.threads.getD config.threads }

def filesOf (common : Common) : Workload.Files where
  heap := .ofText common.heap
  stackFolder := .ofText common.stackFolder

/-- Every path that a command may touch. A configuration at fault touches none. -/
def pathsOf (env : String → Option String) : Command → List Path
  | .print _ => []
  | .exec common _ | .recover common =>
    let config := configOf env common
    let files := filesOf common
    match config.check with
    | .ok none => files.heap :: files.stackFolder :: (List.range config.threads).map files.stack
    | _ => []

/-- The answer with the lines that show a result. -/
def answerOf {α : Type} (lines : α → List String) : Except Stop α → Answer
  | .error stop => stopped stop
  | .ok a => { code := 0, stdout := lines a }

/-- Carries out a command on a disk. -/
def perform (env : String → Option String) (command : Command) (disk : Disk) : Answer × Disk :=
  match command with
  | .print lines => ({ code := 0, stdout := lines }, disk)
  | .exec common crash =>
    let (result, disk) :=
      Workload.exec (configOf env common) (filesOf common) common.fresh crash disk
    (answerOf execLines result, disk)
  | .recover common =>
    if common.fresh then
      (stopped (.trouble { cause := .words "--init-heap cannot be used with recover" }), disk)
    else
      let (result, disk) := Workload.restore (configOf env common) (filesOf common) disk
      (answerOf restoreLines result, disk)

/-- Runs the command line on a disk. -/
def run (env : String → Option String) (args : List String) (disk : Disk) : Answer × Disk :=
  match parse args with
  | none => ({ code := 2 }, disk)
  | some command => perform env command disk

end DurableCalls.CommandLine
