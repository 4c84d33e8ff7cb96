/-
`Queue.lean` -- the queues that the running program asks for.

A pool leaves open which queues can be made (`Channels`), and all that is proved of pools holds
whatever the answer is. The program that runs needs some answer, and this is the one it gets: a
stand-in for a part that is not in the sources, fitted to what has been seen of it. A queue is
refused if its places cannot be numbered twice over, or if they do not fit into a memory.
-/
import DurableCalls.Pool

set_option autoImplicit false

namespace DurableCalls

/-- The bytes that a place in a queue of tasks takes up. -/
def placeSize : Nat := 48

instance runningChannels : Channels where
  bounded capacity :=
    if sizeLimit ≤ capacity * 2 then .error (.raised "bounded channel capacity is too large")
    else if sizeLimit ≤ capacity * placeSize then .error .capacityOverflow
    else .ok ()

end DurableCalls
