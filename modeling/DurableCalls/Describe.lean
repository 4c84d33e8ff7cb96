/-
`Describe.lean` -- regions, hosts and contexts in one line, for diagnostics.
-/
import DurableCalls.Context
import DurableCalls.Text.Quoted

set_option autoImplicit false

namespace DurableCalls

/-- A description by the name of a kind and its fields. -/
def describeFields (kind : String) (fields : List (String × String)) : String :=
  kind ++ " \x7b " ++ ", ".intercalate (fields.map fun f => f.1 ++ ": " ++ f.2) ++ " \x7d"

def Mode.label : Mode → String
  | .execution => "Execution"
  | .recovery => "Recovery"

/-- The names of the registered functions, in order. -/
def Registry.sortedNames (r : Registry) : List String :=
  (Table.keys r).mergeSort fun a b => decide (a ≤ b)

def Region.describe (r : Region) : String :=
  describeFields "Region" [("path", Text.quote r.path.text), ("len", toString r.size)]

def Host.describe (s : Host) : String :=
  describeFields "SystemConfig" [
    ("registry", describeFields "FunctionRegistry"
      [("functions", Text.quoteList (Registry.sortedNames s.registry))]),
    ("mode", s.mode.label),
    ("thread_count", toString s.threads.toNat)]

def Context.describe (ctx : Context) : String :=
  describeFields "ExecutionContext" [
    ("thread_id", toString ctx.thread.toNat),
    ("mode", ctx.host.mode.label),
    ("stack", Text.quoteList ctx.stack.calls.names),
    ("heap", if ctx.heap.isSome then "true" else "false")]

end DurableCalls
