/-
`Usage.lean` -- what the command line says about itself.
-/

set_option autoImplicit false

namespace DurableCalls.CommandLine

def programHelp : List String :=
  ["Crash-consistent CAS workload over persistent stacks",
    "",
    "Usage: nvstack [OPTIONS] <COMMAND>",
    "",
    "Commands:",
    "  exec     Run the demonstration workload",
    "  recover  Restore the stacks left by a previous run",
    "  help     Print this message or the help of the given subcommand(s)",
    "",
    "Options:",
    "  -v, --verbose  Verbose output",
    "  -h, --help     Print help",
    "  -V, --version  Print version"]

def helpHelp : List String :=
  ["Print this message or the help of the given subcommand(s)",
    "",
    "Usage: nvstack help [COMMAND]...",
    "",
    "Arguments:",
    "  [COMMAND]...  Print help for the subcommand(s)"]

def execSummary : List String :=
  ["Run the demonstration workload",
    "",
    "Usage: nvstack exec [OPTIONS] --heap <HEAP> --stacks <STACKS>",
    "",
    "Options:",
    "  -t, --threads <THREADS>    Number of worker threads (default: NVSTACK_NUM_THREADS or CPU count)",
    "      --heap <HEAP>          Heap file",
    "      --stacks <STACKS>      Directory holding the per-thread stack files",
    "  -v, --verbose              Verbose output",
    "      --init-heap            Create and format a new heap",
    "      --crash-at <CRASH_AT>  Stop every worker at this point [possible values: after-push, before-pop, after-answer]",
    "      --crash-in <CRASH_IN>  Function on top of the stack when crashing [default: cas]",
    "  -h, --help                 Print help (see more with '--help')"]

/-- The long help of `exec`, which explains the crash points. -/
def execHelp : List String :=
  ["Run the demonstration workload",
    "",
    "Usage: nvstack exec [OPTIONS] --heap <HEAP> --stacks <STACKS>",
    "",
    "Options:",
    "  -t, --threads <THREADS>",
    "          Number of worker threads (default: NVSTACK_NUM_THREADS or CPU count)",
    "",
    "      --heap <HEAP>",
    "          Heap file",
    "",
    "      --stacks <STACKS>",
    "          Directory holding the per-thread stack files",
    "",
    "  -v, --verbose",
    "          Verbose output",
    "",
    "      --init-heap",
    "          Create and format a new heap",
    "",
    "      --crash-at <CRASH_AT>",
    "          Stop every worker at this point",
    "",
    "          Possible values:",
    "          - after-push:   Right after the callee's frame is durable",
    "          - before-pop:   Right before the callee's frame is removed",
    "          - after-answer: Right after an answer is written",
    "",
    "      --crash-in <CRASH_IN>",
    "          Function on top of the stack when crashing",
    "          ",
    "          [default: cas]",
    "",
    "  -h, --help",
    "          Print help (see a summary with '-h')"]

def recoverHelp : List String :=
  ["Restore the stacks left by a previous run",
    "",
    "Usage: nvstack recover [OPTIONS] --heap <HEAP> --stacks <STACKS>",
    "",
    "Options:",
    "  -t, --threads <THREADS>  Number of worker threads (default: NVSTACK_NUM_THREADS or CPU count)",
    "      --heap <HEAP>        Heap file",
    "      --stacks <STACKS>    Directory holding the per-thread stack files",
    "  -v, --verbose            Verbose output",
    "      --init-heap          Create and format a new heap",
    "  -h, --help               Print help"]

end DurableCalls.CommandLine
