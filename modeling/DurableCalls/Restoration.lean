/-
`Restoration.lean` -- replaying the calls that a crash left on a stack.

The calls are taken from the region again. Then the recovery entry point of the top
frame runs, its frame goes, and so on down to the root, which stays. A failure stops
the replay with the frame still there, so a later replay starts with the same frame.
-/
import DurableCalls.Call

set_option autoImplicit false

namespace DurableCalls

namespace Context

/-- Recovers the function of the top frame, and pops the frame. -/
def recoverTop (top : Placed) : Exec Unit := do
  let ctx ← get
  let entry ← Registry.entry ctx.host.registry top.frame.name true
  entry.run (callWithin ctx.depthBound) top.frame.args
  -- whatever frame is on top by now
  popFrame

/-- Recovers frame after frame down to the root, and counts them in a word. An entry
point that leaves frames behind makes further rounds, so only the range of the count
bounds how many there are; the count aborts when it leaves that range, and `rounds`
is never used up before. -/
def recoverFrames : (rounds recovered : Nat) → Exec Nat
  | 0, _ => Run.abort .addOverflow
  | rounds + 1, recovered => do
    match (← get).stack.calls.frames with
    | top :: _ :: _ =>
      recoverTop top
      let recovered ← addWord recovered 1
      recoverFrames rounds recovered
    | _ => return recovered

/-- Replays the suspended calls of a stack, and counts them. -/
def restore : Exec Nat := do
  if (← get).host.mode ≠ .recovery then Run.fail .illegalRecoveryCall
  reload
  recoverFrames wordLimit 0

end Context

end DurableCalls
