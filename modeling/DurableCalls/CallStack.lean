/-
`CallStack.lean` -- the calls that are under way, as the running thread sees them.

The frames are kept newest first: the head is the running function, and the one
behind it is its caller, whose slot takes the answer.
-/
import DurableCalls.Frame

set_option autoImplicit false

namespace DurableCalls

/-- The frames of a thread, newest first. -/
structure CallStack where
  frames : List Placed := []
deriving DecidableEq, Repr

namespace CallStack

def empty : CallStack := {}

def depth (s : CallStack) : Nat := s.frames.length

def isEmpty (s : CallStack) : Bool := s.frames.isEmpty

/-- The frame of the running function. -/
def top? (s : CallStack) : Option Placed := s.frames.head?

def toList (s : CallStack) : List Placed := s.frames.reverse

def names (s : CallStack) : List String := s.toList.map (·.frame.name)

def stop (s : CallStack) : Except Halt Nat :=
  match s.frames with
  | [] => .ok 0
  | last :: _ => last.stop

/-- The slot that takes the answer of the running function: its caller's. -/
def answerSlot? (s : CallStack) : Option Nat :=
  match s.frames with
  | _ :: caller :: _ => some caller.slotAt
  | _ => none

/-- The stack with a frame on top. A frame may not start before the place where the
next frame of the stack starts. -/
def push (s : CallStack) (p : Placed) : Except Halt CallStack :=
  match s.frames with
  | [] => .ok { frames := [p] }
  | last :: _ => do
    if p.position < (← last.next) then .error (.aborted .frameOrder)
    else return { frames := p :: s.frames }

/-- The top frame, and the stack without it. -/
def pop? (s : CallStack) : Option (Placed × CallStack) :=
  match s.frames with
  | [] => none
  | last :: rest => some (last, { frames := rest })

end CallStack

end DurableCalls
