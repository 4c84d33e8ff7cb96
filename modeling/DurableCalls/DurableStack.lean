/-
`DurableStack.lean` -- a stack of frames in a region, and the calls it stands for.

A frame that is pushed is durable, with its own end marker, before the marker of the
frame below it is lowered. A scan from the start stops at the first end marker, so a
crash between the two writes hides the new frame and leaves the old stack. A pop is
one durable byte: the end marker on the new last frame.

`CallStack` is what the running thread sees of the region; `scan` rebuilds it from
the bytes alone.
-/
import DurableCalls.CallStack
import DurableCalls.Region

set_option autoImplicit false

namespace DurableCalls

/-! ## 1. Scanning -/

/-- The frame at an offset, and whether it is the last of its stack. -/
def readFrame (r : Region) (offset : Nat) : Except Halt (Frame × Bool) := do
  -- only the two lengths are read on trust; the range that they give is checked next
  let nameAt ← addWord offset Frame.nameLengthAt
  let nameLength ← r.readNumber 2 nameAt
  let argsAt ← addWord (← addWord nameAt 2) nameLength
  let argsLength ← r.readNumber 2 argsAt
  let size := Frame.overhead + nameLength + argsLength
  let (frame, marker) ← Frame.decode (← r.read offset size)
  if marker = stackEnd then return (frame, true)
  else if marker = frameEnd then return (frame, false)
  else throw (.failed (.corruptedMarker (offset + size - 1) marker))

/-- A frame is read only where it starts inside the region. -/
theorem lt_size_of_readFrame {r : Region} {offset : Nat} {out : Frame × Bool}
    (h : readFrame r offset = .ok out) : offset < r.size := by
  simp only [readFrame, bind, Except.bind, liftM, monadLift, MonadLift.monadLift] at h
  split at h
  next => cases h
  next nameAt hname =>
    have hat := (addWord_eq_ok.1 hname).2
    by_cases hle : nameAt + 2 ≤ r.size
    · simp only [Frame.nameLengthAt, slotSize] at hat
      omega
    · simp [Region.readNumber, Region.read, Region.check, hle, bind, Except.bind] at h

/-- Whether a scan met a marker byte that was never written. -/
def Halt.isBlankMarker : Halt → Bool
  | .failed (.corruptedMarker _ value) => value = 0
  | _ => false

/-- The frames from an offset on, on top of the calls below it. -/
def scanFrom (r : Region) (calls : CallStack) (offset : Nat) : Except Halt CallStack :=
  match _hread : readFrame r offset with
  | .error halt =>
    -- a blank file reads as a frame without name and arguments, and its marker is 0
    if offset = 0 ∧ halt.isBlankMarker then .ok calls else .error halt
  | .ok (frame, last) =>
    match _hnext : Placed.next ⟨frame, offset⟩ with
    | .error halt => .error halt
    | .ok next =>
      match calls.push ⟨frame, offset⟩ with
      | .error halt => .error halt
      | .ok calls => if last then .ok calls else scanFrom r calls next
termination_by r.size - offset
decreasing_by
  have := lt_size_of_readFrame _hread
  have : offset < next := Placed.position_lt_of_next _hnext
  omega

/-- The calls that a region stands for. A region whose first frame was never made
durable stands for none: its marker byte is still zero. -/
def scan (r : Region) : Except Halt CallStack := scanFrom r .empty 0

/-! ## 2. Pushing and popping -/

/-- A stack region, and the calls that its thread sees in it. -/
structure DurableStack where
  calls : CallStack
  region : Region
deriving DecidableEq, Repr

namespace DurableStack

def onRegion {α : Type} (m : Run Region α) : Run DurableStack α :=
  m.zoom fun ⟨calls, region⟩ => (region, fun region => ⟨calls, region⟩)

def persist (offset : Nat) (data : List UInt8) : Run DurableStack Unit :=
  onRegion (Region.persist offset data)

/-- The slot of a frame whose caller may have seeded it. -/
def seedSlot : Option (List UInt8) → Except Failure Slot
  | none => .ok .cleared
  | some seed => do
    checkAnswer seed.length
    return .seeded seed

/-- Refuses a frame that has no room at a position. -/
def checkRoom (s : DurableStack) (position size : Nat) : Except Halt Unit := do
  if s.region.size < (← addWord position size) then
    throw (.failed (.outOfBounds position size s.region.size))

/-- Pushes a frame durably, and gives its offset. -/
def push (frame : Frame) (seed : Option (List UInt8)) : Run DurableStack Nat := do
  let slot ← seedSlot seed
  let oldStop ← (← get).calls.stop
  let position ← alignUp oldStop
  (← get).checkRoom position frame.size
  -- the frame is the end of a stack of its own until the frame below it is lowered
  persist position (frame.encode slot stackEnd)
  Run.update fun s => do return { s with calls := ← s.calls.push ⟨frame, position⟩ }
  if 1 < (← get).calls.depth then
    persist (oldStop - 1) [frameEnd]
  return position

/-- Pops the last frame durably. The root frame stays. -/
def pop : Run DurableStack Placed := do
  match (← get).calls.frames with
  | last :: below :: rest =>
    -- the calls lose the frame first: what stops behind this has popped it
    modify fun s => { s with calls := { frames := below :: rest } }
    let stop ← below.stop
    persist (stop - 1) [stackEnd]
    return last
  | _ => Run.fail .firstFrameRemoval

def reload : Run DurableStack Unit :=
  Run.update fun s => do return { s with calls := ← scan s.region }

end DurableStack

end DurableCalls
