/-
`History.lean` -- whether the outcomes of swaps can be explained by one register.

Each swap that succeeded took the register from one value to another. Taken as
edges, they have to form one path from the initial value. `checkPath` asks for what
the degrees of such a path satisfy. `checkChain` is for histories in which each
value is installed once: there the path is a single chain, and the successes of each
thread have to lie along it in the thread's order.
-/

set_option autoImplicit false

namespace DurableCalls

/-- One observed swap. -/
structure Outcome where
  before : UInt32
  after : UInt32
  succeeded : Bool
deriving DecidableEq, Repr

namespace Outcome

def describe (o : Outcome) : String :=
  "CasOutcome \x7b value_from: " ++ toString o.before.toNat ++ ", value_to: " ++
    toString o.after.toNat ++ ", result: " ++ (if o.succeeded then "true" else "false") ++ " \x7d"

end Outcome

/-- Why a history is not explained. -/
inductive Rejection
  /-- The degrees of the values allow no path from the initial value. -/
  | unbalanced (init : UInt32)
  | selfLoop (value : UInt32)
  | installsInitial (value : UInt32)
  | duplicateTarget (value : UInt32)
  /-- Two successes replaced the same value. -/
  | branch (value : UInt32)
  /-- Some successes are not on the chain from the initial value. -/
  | disconnected (init : UInt32) (unreached : Nat)
  /-- Nothing changed the initial value, and a swap that expected it failed. -/
  | missedInitial (value : UInt32)
  /-- A thread's successes lie on the chain in another order. -/
  | outOfOrder (thread : Nat) (first second : Outcome)
deriving DecidableEq, Repr

namespace Rejection

def message : Rejection → String
  | unbalanced init => s!"successful transitions do not form a single path from {init.toNat}"
  | selfLoop value => s!"cas {value.toNat} -> {value.toNat} is a self-loop"
  | installsInitial value => s!"cas installs the initial value {value.toNat}"
  | duplicateTarget value => s!"value {value.toNat} is installed by more than one cas"
  | branch value => s!"value {value.toNat} was replaced by more than one successful cas"
  | disconnected init unreached =>
    s!"{unreached} successful cas are not reachable from {init.toNat}"
  | missedInitial value =>
    s!"cas from initial value {value.toNat} failed although nothing changed it"
  | outOfOrder thread first second =>
    s!"thread {thread} performed {first.describe} before {second.describe} " ++
      "but the chain orders them the other way"

end Rejection

namespace History

/-! ## 1. Degrees -/

def successes (outcomes : List Outcome) : List Outcome := outcomes.filter (·.succeeded)

/-- How many more successes replace a value than install it. -/
def balance (outcomes : List Outcome) (value : UInt32) : Int :=
  (successes outcomes).countP (·.before = value) - (successes outcomes).countP (·.after = value)

/-- The values that a success replaces or installs, each once. -/
def values (outcomes : List Outcome) : List UInt32 :=
  ((successes outcomes).flatMap fun o => [o.before, o.after]).eraseDups

/-- Accepts a history whose values are left as often as they are reached, except
that one path may start at the initial value and end elsewhere. -/
def checkPath (outcomes : List Outcome) (init : UInt32) : Except Rejection Unit :=
  let uneven := (values outcomes).filter (balance outcomes · ≠ 0)
  let starts := uneven.filter (balance outcomes · = 1)
  let ends := uneven.filter (balance outcomes · = -1)
  match starts, ends, uneven.length with
  | [], [], 0 => .ok ()
  | [start], [finish], 2 =>
    if start = init ∧ finish ≠ init then .ok () else .error (.unbalanced init)
  | _, _, _ => .error (.unbalanced init)

/-! ## 2. Chains -/

/-- A value and the value that replaced it. -/
abbrev Edge := UInt32 × UInt32

def edgeOf (o : Outcome) : Edge := (o.before, o.after)

/-- Refuses the first outcome that a history of fresh values cannot have, given the
outcomes before it: the values installed and the edges taken. -/
def checkFresh (init : UInt32) :
    (installed : List UInt32) → (edges : List Edge) → List Outcome → Except Rejection Unit
  | _, _, [] => .ok ()
  | installed, edges, o :: rest => do
    if o.before = o.after then throw (.selfLoop o.after)
    -- a failed swap takes up the value that it was to install, too
    if o.after = init then throw (.installsInitial init)
    if o.after ∈ installed then throw (.duplicateTarget o.after)
    if o.succeeded then
      if o.before ∈ edges.map (·.1) then throw (.branch o.before)
      checkFresh init (o.after :: installed) (edgeOf o :: edges) rest
    else checkFresh init (o.after :: installed) edges rest

/-- The chain of edges from a value on, cut off after so many edges. -/
def chainWithin (edges : List Edge) : (steps : Nat) → (value : UInt32) → List Edge
  | 0, _ => []
  | steps + 1, value =>
    match edges.find? (·.1 = value) with
    | none => []
    | some edge => edge :: chainWithin edges steps edge.2

/-- The chain of edges from a value on. Edges that `checkFresh` accepts have no cycle
that this value reaches, so the chain ends before it takes every edge twice. -/
def chainFrom (value : UInt32) (edges : List Edge) : List Edge :=
  chainWithin edges edges.length value

/-- Refuses the first two successes in a row that the chain has the other way. -/
def checkOrder (chain : List Edge) (thread : Nat) : List Outcome → Except Rejection Unit
  | first :: second :: rest => do
    if chain.idxOf (edgeOf first) ≥ chain.idxOf (edgeOf second) then
      throw (.outOfOrder thread first second)
    checkOrder chain thread (second :: rest)
  | _ => .ok ()

/-- Refuses the first thread whose successes the chain has in another order. -/
def checkThreads (chain : List Edge) : (thread : Nat) → List (List Outcome) →
    Except Rejection Unit
  | _, [] => .ok ()
  | thread, outcomes :: rest => do
    checkOrder chain thread (successes outcomes)
    checkThreads chain (thread + 1) rest

/-- Accepts the outcomes of several threads, each in its own order, if the swaps
install values of their own, the successes form one chain from the initial value,
and each thread's successes lie along it in order. -/
def checkChain (threads : List (List Outcome)) (init : UInt32) : Except Rejection Unit := do
  let outcomes := threads.flatten
  checkFresh init [] [] outcomes
  let edges := (successes outcomes).map edgeOf
  if edges.isEmpty then
    if outcomes.any (·.before = init) then throw (.missedInitial init)
    return ()
  let chain := chainFrom init edges
  -- no edge comes twice in the chain, so an equal number means that all are on it
  if chain.length ≠ edges.length then
    throw (.disconnected init (edges.length - chain.length))
  checkThreads chain 0 threads

end History

end DurableCalls
