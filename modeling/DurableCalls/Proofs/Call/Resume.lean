/-
`Resume.lean` -- which recoveries a replay runs, and where the next one goes on.

A replay takes the frames from the region, newest first. For each of them it runs the recovery
entry point, and then the frame goes. The loop is told once more with the runs that it makes
(`restoreLogged`), each with the context that it begins in; without them it is the loop of the
program (`restoreLogged_snd`).

Nothing that an entry point does is looked into: it may call other functions, answer and write
where it likes in the slots, and over what lies behind the top frame. If each run that returns
leaves the frames that it found, then so many frames are left as have not been recovered. The
induction is on the frames above the root. A replay that stops has popped nothing since the last
run that returned; so the frame it stopped at is the top one in the region, and any later replay
begins there.
-/
import DurableCalls.Proofs.Call.Cramped

set_option autoImplicit false

namespace DurableCalls

open CallStack Region DurableStack

namespace DurableStack

/-! ## Stack regions in use -/

/-- The stacks that the operations on stacks lead to: pushes of frames that can be made, pops, and
answers into the slots of frames, as often as may be and whether they succeed or fail. -/
inductive Used (start : DurableStack) : DurableStack → Prop
  | start : Used start start
  | push {s : DurableStack} {frame : Frame} (used : Used start s) (name : String)
      (args : List UInt8) (made : Frame.make name args = .ok frame) (seed : Option (List UInt8)) :
      Used start (push frame seed s).2
  | pop {s : DurableStack} (used : Used start s) : Used start (pop s).2
  | answer {s : DurableStack} {p : Placed} (used : Used start s) (mem : p ∈ s.calls.frames)
      (bytes : List UInt8) (short : bytes.length ≤ slotSize) :
      Used start (persist p.slotAt bytes s).2

variable {start s : DurableStack} {r : Region} {calls : CallStack}

/-- As soon as something was pushed, the region reads back as the calls. Before that there is
nothing to read, and the stack is the one that it was at the start. -/
theorem Used.faithful_or (hempty : start.calls = .empty) (h : Used start s) :
    s.Faithful ∨ s = start := by
  have hstart : start.Mirrored := by
    rw [Mirrored, hempty]
    trivial
  induction h with
  | start => exact .inr rfl
  | @push s frame used name args made seed ih =>
    have hfits := (Frame.make_eq_ok_iff.1 made).2
    have hmirrored : s.Mirrored := ih.elim (·.mirrored) (· ▸ hstart)
    rcases push_cases hmirrored hfits seed with ⟨bytes, -, -, hpush⟩ | ⟨-, -, hpush⟩
      | ⟨-, hroom, hpush⟩
    · rw [hpush]
      exact ih
    · rw [hpush]
      exact ih
    · rw [hpush]
      exact .inl ((hmirrored.pushed hfits _ hroom).faithful (List.cons_ne_nil _ _))
  | pop used ih =>
    rcases ih with hfaithful | rfl
    · exact .inl hfaithful.pop.faithful
    · rw [pop_of_nil (by rw [hempty]; rfl)]
      exact .inr rfl
  | @answer s p used mem bytes short ih =>
    rcases ih with hfaithful | rfl
    · have hlen : bytes.length ≤ 8 := short
      have hslot := hfaithful.mirrored.slot_in mem
      have hin : p.slotAt + bytes.length ≤ s.region.size := by
        simp only [Placed.slotAt]
        omega
      rw [persist_of_in hin]
      exact .inl (hfaithful.put_slot mem hlen).faithful
    · rw [hempty] at mem
      cases mem

/-- A region holds fewer frames than a word counts. -/
theorem Mirrored.length_lt_wordLimit (h : s.Mirrored) : s.calls.frames.length < wordLimit := by
  have hwritten : s.region.Written stackEnd s.calls.frames := h
  have hlines := hwritten.length_le
  have hsize : s.region.size < 9223372036854775808 := s.region.size_lt
  simp only [lineSize, wordLimit] at hlines ⊢
  omega

/-- A region that reads back as some frames has room for one. -/
theorem room_of_scan (h : scan r = .ok calls) (hne : calls.frames ≠ []) : 13 ≤ r.size := by
  by_contra hroom
  have hcramped : Cramped ⟨.empty, r⟩ := ⟨rfl, Nat.not_le.1 hroom⟩
  rw [hcramped.eq_of_scan h] at hne
  exact hne rfl

/-- **A region that was used from zeros on reads back as the calls**, if it reads back as any.
Behind the first push the calls and the region agree. In front of it there are only zeros, and these
read back as no frames. -/
theorem Used.faithful (hblank : start.region.Blank) (hempty : start.calls = .empty)
    (h : Used start s) (hread : scan s.region = .ok calls) (hne : calls.frames ≠ []) :
    s.Faithful := by
  rcases h.faithful_or hempty with hfaithful | rfl
  · exact hfaithful
  · exact Fresh.faithful ⟨hblank, room_of_scan hread hne, hempty⟩

end DurableStack

namespace Context

/-! ## Replays with their runs -/

/-- A run of a recovery entry point, by the context that it begins in. What it was given and what it
found can be read off it, and it can be run again to see how it ends. -/
structure Invocation where
  entry : EntryPoint
  args : List UInt8
  ctx : Context

/-- How the run ends. -/
def Invocation.run (i : Invocation) : Except Halt Unit × Context :=
  i.entry.run (callWithin i.ctx.depthBound) i.args i.ctx

/-- Recovers frame after frame, and keeps the runs that this takes, the oldest one first. A run that
halts is the last of them. -/
def recoverFramesLogged : (rounds recovered : Nat) → Context →
    List Invocation × Except Halt Nat × Context
  | 0, _, ctx => ([], .error (.aborted .addOverflow), ctx)
  | rounds + 1, recovered, ctx =>
    match ctx.stack.calls.frames with
    | top :: _ :: _ =>
      match Registry.entry ctx.host.registry top.frame.name true with
      | .error failure => ([], .error (.failed failure), ctx)
      | .ok entry =>
        let i : Invocation := ⟨entry, top.frame.args, ctx⟩
        match i.run with
        | (.error halt, after) => ([i], .error halt, after)
        | (.ok (), after) =>
          match (do popFrame; addWord recovered 1 : Exec Nat) after with
          | (.error halt, popped) => ([i], .error halt, popped)
          | (.ok recovered, popped) =>
            let (log, result) := recoverFramesLogged rounds recovered popped
            (i :: log, result)
    | _ => ([], .ok recovered, ctx)

/-- Replays the suspended calls of a stack, with the runs that this takes. -/
def restoreLogged (ctx : Context) : List Invocation × Except Halt Nat × Context :=
  if ctx.host.mode ≠ .recovery then ([], .error (.failed .illegalRecoveryCall), ctx)
  else
    match reload ctx with
    | (.error halt, after) => ([], .error halt, after)
    | (.ok (), after) => recoverFramesLogged wordLimit 0 after

variable {registry : Registry} {ctx after : Context} {p root : Placed}
  {suspended below left done : List Placed} {rounds n : Nat}

theorem recoverFramesLogged_snd (rounds n : Nat) (ctx : Context) :
    (recoverFramesLogged rounds n ctx).2 = recoverFrames rounds n ctx := by
  induction rounds generalizing n ctx with
  | zero => rfl
  | succ rounds ih =>
    rw [recoverFrames, Run.bind_of_ok (Run.get_apply ctx), recoverFramesLogged]
    rcases ctx.stack.calls.frames with _ | ⟨top, _ | ⟨below, rest⟩⟩
    · rfl
    · rfl
    · simp only [recoverTop, Run.bind_apply, Run.get_apply, Run.lift_apply]
      cases Registry.entry ctx.host.registry top.frame.name true with
      | error failure => rfl
      | ok entry =>
        simp only [Run.mapError_ok, Invocation.run]
        rcases entry.run (callWithin ctx.depthBound) top.frame.args ctx with ⟨halt | -, after⟩
        · rfl
        · simp only
          rcases popFrame after with ⟨halt | -, popped⟩
          · rfl
          · simp only [Run.liftHalt_apply]
            cases addWord n 1 with
            | error halt => rfl
            | ok recovered => exact ih recovered popped

/-- **The runs are told of the program's own replay.** The log adds which recoveries were begun, and
leaving it out gives the replay that a worker runs. -/
theorem restoreLogged_snd (ctx : Context) : (restoreLogged ctx).2 = restore ctx := by
  rw [restore, Run.bind_of_ok (Run.get_apply ctx), restoreLogged]
  by_cases hmode : ctx.host.mode ≠ .recovery
  · rw [if_pos hmode, if_pos hmode]
    rfl
  · rw [if_neg hmode, if_neg hmode]
    show _ = (reload >>= fun _ => recoverFrames wordLimit 0) ctx
    rw [Run.bind_apply]
    rcases reload ctx with ⟨halt | -, after⟩
    · rfl
    · exact recoverFramesLogged_snd wordLimit 0 after

/-! ## What a replay finds -/

/-- The calls are these frames, newest first, and the region reads back as them. So a crash at this
point leaves just these frames to the next replay. -/
structure Holds (ctx : Context) (frames : List Placed) : Prop where
  frames_eq : ctx.stack.calls.frames = frames
  scan_eq : scan ctx.stack.region = .ok ⟨frames⟩

theorem holds_of_faithful {frames : List Placed} (h : ctx.stack.Faithful)
    (hframes : ctx.stack.calls.frames = frames) : ctx.Holds frames := by
  subst hframes
  exact ⟨rfl, h.scan_eq⟩

/-- A run of the recovery entry point of a frame, with the arguments in the frame, while the frame
is the top one and these are below it. -/
structure Invocation.Recovers (i : Invocation) (registry : Registry) (p : Placed)
    (below : List Placed) : Prop where
  holds : i.ctx.Holds (p :: below)
  entry_eq : Registry.entry registry p.frame.name true = .ok i.entry
  args_eq : i.args = p.frame.args

/-- The run leaves the frames that it found, if it returns. -/
def Invocation.LeavesFrames (i : Invocation) : Prop :=
  i.run.1 = .ok () → i.run.2.stack.calls.frames = i.ctx.stack.calls.frames

instance (i : Invocation) : Decidable i.LeavesFrames := inferInstanceAs (Decidable (_ → _))

/-- One run for each of these frames, newest first, and all of them returned. Each run found the
frames below its own still on the stack, among them those of the rest of the list. -/
inductive Recovered (registry : Registry) : (done below : List Placed) → List Invocation → Prop
  | nil {below : List Placed} : Recovered registry [] below []
  | cons {p : Placed} {done below : List Placed} {i : Invocation} {log : List Invocation}
      (recovers : i.Recovers registry p (done ++ below)) (returned : i.run.1 = .ok ())
      (rest : Recovered registry done below log) : Recovered registry (p :: done) below (i :: log)

/-- How a replay ends that has these frames left above the root: with none, with one that has no
recovery entry point, or with one whose recovery halts. -/
inductive ReplayEnd (registry : Registry) (root : Placed) (count : Nat) :
    (left : List Placed) → (last : List Invocation) → Except Halt Nat × Context → Prop
  | finished {after : Context} (holds : after.Holds [root]) :
      ReplayEnd registry root count [] [] (.ok count, after)
  | unknown {p : Placed} {left : List Placed} {after : Context}
      (unregistered : registry.find? p.frame.name = none)
      (holds : after.Holds (p :: left ++ [root])) :
      ReplayEnd registry root count (p :: left) []
        (.error (.failed (.unknownFunction p.frame.name)), after)
  | halted {p : Placed} {left : List Placed} {i : Invocation} {halt : Halt}
      (recovers : i.Recovers registry p (left ++ [root])) (run : i.run.1 = .error halt)
      (kept : i.run.2.stack.calls.frames = i.ctx.stack.calls.frames →
        i.run.2.Holds (p :: left ++ [root])) :
      ReplayEnd registry root count (p :: left) [i] (.error halt, i.run.2)

/-- An entry point keeps the stack faithful, however it ends. -/
theorem Invocation.run_follows (i : Invocation) (h : i.ctx.stack.Faithful) :
    Follows i.ctx i.run.2 :=
  EntryPoint.run_keeps (callWithin_keeps _) i.args i.entry i.ctx h

/-! ## One round -/

section Round

variable {top : Placed} {entry : EntryPoint} {halt : Halt}

theorem recoverFramesLogged_of_root (hframes : ctx.stack.calls.frames = [root]) :
    recoverFramesLogged (rounds + 1) n ctx = ([], .ok n, ctx) := by
  rw [recoverFramesLogged, hframes]

theorem recoverFramesLogged_of_unknown (hframes : ctx.stack.calls.frames = top :: below)
    (hne : below ≠ []) (hfind : ctx.host.registry.find? top.frame.name = none) :
    recoverFramesLogged (rounds + 1) n ctx
      = ([], .error (.failed (.unknownFunction top.frame.name)), ctx) := by
  obtain ⟨next, rest, rfl⟩ := List.exists_cons_of_ne_nil hne
  rw [recoverFramesLogged, hframes]
  simp only [Registry.entry, hfind]

theorem recoverFramesLogged_of_halt (hframes : ctx.stack.calls.frames = top :: below)
    (hne : below ≠ []) (hentry : Registry.entry ctx.host.registry top.frame.name true = .ok entry)
    (hrun : (Invocation.mk entry top.frame.args ctx).run = (.error halt, after)) :
    recoverFramesLogged (rounds + 1) n ctx
      = ([⟨entry, top.frame.args, ctx⟩], .error halt, after) := by
  obtain ⟨next, rest, rfl⟩ := List.exists_cons_of_ne_nil hne
  rw [recoverFramesLogged, hframes]
  simp only [hentry, hrun]

/-- The end of a round whose run has returned. -/
theorem recoverFramesLogged_of_ok (hframes : ctx.stack.calls.frames = top :: below)
    (hne : below ≠ []) (hentry : Registry.entry ctx.host.registry top.frame.name true = .ok entry)
    (hrun : (Invocation.mk entry top.frame.args ctx).run = (.ok (), after)) :
    recoverFramesLogged (rounds + 1) n ctx
      = match (do popFrame; addWord n 1 : Exec Nat) after with
        | (.error halt, popped) => ([⟨entry, top.frame.args, ctx⟩], .error halt, popped)
        | (.ok count, popped) => (⟨entry, top.frame.args, ctx⟩
            :: (recoverFramesLogged rounds count popped).1,
          (recoverFramesLogged rounds count popped).2) := by
  obtain ⟨next, rest, rfl⟩ := List.exists_cons_of_ne_nil hne
  rw [recoverFramesLogged, hframes]
  simp only [hentry, hrun]

/-- A round begins with the run for the top frame. -/
theorem recoverFramesLogged_head (hframes : ctx.stack.calls.frames = top :: below)
    (hne : below ≠ [])
    (hentry : Registry.entry ctx.host.registry top.frame.name true = .ok entry) :
    ∃ log, (recoverFramesLogged (rounds + 1) n ctx).1 = ⟨entry, top.frame.args, ctx⟩ :: log := by
  obtain ⟨next, rest, rfl⟩ := List.exists_cons_of_ne_nil hne
  rw [recoverFramesLogged, hframes]
  simp only [hentry]
  rcases (Invocation.mk entry top.frame.args ctx).run with ⟨halt | ⟨⟨⟩⟩, after⟩
  · exact ⟨[], rfl⟩
  · dsimp only
    split
    · exact ⟨[], rfl⟩
    · exact ⟨_, rfl⟩

/-- A frame with others below it can be popped. -/
theorem popFrame_of_cons (h : ctx.stack.Faithful) (hframes : ctx.stack.calls.frames = top :: below)
    (hne : below ≠ []) : ∃ popped, popFrame ctx = (.ok (), popped) ∧ Follows ctx popped ∧
      popped.stack.calls.frames = below := by
  have hfollows := popFrame_keeps ctx h
  rcases popFrame_cases h.mirrored with ⟨hshort, -⟩ | ⟨last, next, rest, hsome, hrun⟩
  · rw [hframes, List.length_cons] at hshort
    have hpos := List.length_pos_iff.2 hne
    omega
  · rw [hrun] at hfollows
    rw [hframes] at hsome
    obtain ⟨-, rfl⟩ := List.cons.inj hsome
    exact ⟨_, hrun, hfollows, rfl⟩

/-- The frame of a run that returns goes, if the run leaves the frames that it found. The pop behind
it succeeds, and the loop goes on with one round less and one frame more counted. -/
theorem recoverFramesLogged_of_leaves (h : ctx.stack.Faithful)
    (hframes : ctx.stack.calls.frames = top :: below) (hne : below ≠ [])
    (hentry : Registry.entry ctx.host.registry top.frame.name true = .ok entry)
    (hrun : (Invocation.mk entry top.frame.args ctx).run = (.ok (), after))
    (hkept : after.stack.calls.frames = ctx.stack.calls.frames) (hcount : n + 1 < wordLimit) :
    ∃ popped, Follows ctx popped ∧ popped.stack.calls.frames = below ∧
      ∀ rounds, recoverFramesLogged (rounds + 1) n ctx
        = (⟨entry, top.frame.args, ctx⟩ :: (recoverFramesLogged rounds (n + 1) popped).1,
          (recoverFramesLogged rounds (n + 1) popped).2) := by
  have hfollows := Invocation.run_follows ⟨entry, top.frame.args, ctx⟩ h
  rw [hrun] at hfollows
  obtain ⟨popped, hpop, hpopped, hbelow⟩ :=
    popFrame_of_cons hfollows.stack.faithful (hkept.trans hframes) hne
  have hround : (popFrame >>= fun _ => addWord n 1 : Exec Nat) after = (.ok (n + 1), popped) := by
    rw [Run.bind_of_ok hpop, Run.liftHalt_apply, addWord_eq hcount]
  refine ⟨popped, hfollows.trans hpopped, hbelow, fun rounds => ?_⟩
  rw [recoverFramesLogged_of_ok hframes hne hentry hrun]
  simp only [hround]

end Round

/-- A run that halts is the last one of its replay. -/
theorem replayEnd_of_halt {entry : EntryPoint} {halt : Halt} (h : ctx.stack.Faithful)
    (hframes : ctx.stack.calls.frames = p :: left ++ [root])
    (hentry : Registry.entry ctx.host.registry p.frame.name true = .ok entry)
    (hrun : (Invocation.mk entry p.frame.args ctx).run = (.error halt, after)) :
    ReplayEnd ctx.host.registry root n (p :: left) [⟨entry, p.frame.args, ctx⟩]
      (.error halt, after) := by
  have hfollows := Invocation.run_follows ⟨entry, p.frame.args, ctx⟩ h
  have hend : ReplayEnd ctx.host.registry root n (p :: left) [⟨entry, p.frame.args, ctx⟩]
      (.error halt, (Invocation.mk entry p.frame.args ctx).run.2) :=
    .halted ⟨holds_of_faithful h hframes, hentry, rfl⟩ (by rw [hrun]) fun hkept =>
      holds_of_faithful hfollows.stack.faithful (hkept.trans hframes)
  rwa [hrun] at hend

/-! ## The whole replay -/

/-- **A replay recovers frame after frame**, newest first, until none is left above the root or
one cannot be recovered. -/
theorem recoverFramesLogged_ends (h : ctx.stack.Faithful)
    (hframes : ctx.stack.calls.frames = suspended ++ [root]) (hrounds : suspended.length < rounds)
    (hcount : n + suspended.length < wordLimit)
    (hleaves : ∀ i ∈ (recoverFramesLogged rounds n ctx).1, i.LeavesFrames) :
    ∃ done left log last, suspended = done ++ left ∧
      (recoverFramesLogged rounds n ctx).1 = log ++ last ∧
      Recovered ctx.host.registry done (left ++ [root]) log ∧
      ReplayEnd ctx.host.registry root (n + done.length) left last
        (recoverFramesLogged rounds n ctx).2 := by
  induction suspended generalizing ctx n rounds with
  | nil =>
    obtain ⟨rounds, rfl⟩ := Nat.exists_eq_add_one_of_ne_zero (Nat.ne_zero_of_lt hrounds)
    rw [recoverFramesLogged_of_root hframes]
    exact ⟨[], [], [], [], rfl, rfl, .nil, .finished (holds_of_faithful h hframes)⟩
  | cons p suspended ih =>
    obtain ⟨rounds, rfl⟩ := Nat.exists_eq_add_one_of_ne_zero (Nat.ne_zero_of_lt hrounds)
    rw [List.length_cons] at hrounds hcount
    have hne : suspended ++ [root] ≠ [] := List.append_ne_nil_of_right_ne_nil _ (by simp)
    cases hfind : ctx.host.registry.find? p.frame.name with
    | none =>
      rw [recoverFramesLogged_of_unknown hframes hne hfind]
      exact ⟨[], p :: suspended, [], [], rfl, rfl, .nil,
        .unknown hfind (holds_of_faithful h hframes)⟩
    | some function =>
      have hentry : Registry.entry ctx.host.registry p.frame.name true = .ok function.recover := by
        rw [Registry.entry, hfind]
        rfl
      rcases hrun : (Invocation.mk function.recover p.frame.args ctx).run with ⟨halt | ⟨⟨⟩⟩, after⟩
      · rw [recoverFramesLogged_of_halt hframes hne hentry hrun]
        exact ⟨[], p :: suspended, [], _, rfl, rfl, .nil,
          replayEnd_of_halt h hframes hentry hrun⟩
      · -- the run is in the log, so it leaves the frames that it has found
        obtain ⟨_, hhead⟩ := recoverFramesLogged_head hframes hne hentry
        have hkept := hleaves _ (hhead ▸ List.mem_cons_self) (by rw [hrun])
        rw [hrun] at hkept
        have hnext : n + 1 < wordLimit := by omega
        obtain ⟨popped, hfollows, hbelow, hreturn⟩ :=
          recoverFramesLogged_of_leaves h hframes hne hentry hrun hkept hnext
        rw [hreturn] at hleaves ⊢
        obtain ⟨done, left, log, last, rfl, hlog, hrecovered, hend⟩ :=
          ih hfollows.stack.faithful hbelow (Nat.lt_of_succ_lt_succ hrounds) (by omega)
            fun i hi => hleaves i (List.mem_cons_of_mem _ hi)
        rw [hfollows.host_eq] at hrecovered hend
        rw [Nat.add_assoc, Nat.add_comm 1] at hend
        have hholds := holds_of_faithful h hframes
        rw [List.cons_append, List.append_assoc] at hholds
        exact ⟨p :: done, left, ⟨function.recover, p.frame.args, ctx⟩ :: log, last, rfl,
          congrArg _ hlog, .cons ⟨hholds, hentry, rfl⟩ (by rw [hrun]) hrecovered, hend⟩

/-! ## Where the next replay goes on -/

theorem reload_of_scan {calls : CallStack} (h : scan ctx.stack.region = .ok calls) :
    reload ctx = (.ok (), { ctx with stack := ⟨calls, ctx.stack.region⟩ }) := by
  rw [reload, onStack_apply, DurableStack.reload, Run.update_apply, h]
  rfl

theorem restoreLogged_of_scan {calls : CallStack} (hmode : ctx.host.mode = .recovery)
    (h : scan ctx.stack.region = .ok calls) :
    restoreLogged ctx
      = recoverFramesLogged wordLimit 0 { ctx with stack := ⟨calls, ctx.stack.region⟩ } := by
  rw [restoreLogged, if_neg fun hne => hne hmode, reload_of_scan h]

/-- Every replay of the region begins with the recovery of this frame, if it has one. -/
def NextRecovers (region : Region) (p : Placed) (below : List Placed) : Prop :=
  ∀ later : Context, later.stack.region = region → later.host.mode = .recovery →
    (∃ entry, Registry.entry later.host.registry p.frame.name true = .ok entry) →
    ∃ i log, (restoreLogged later).1 = i :: log ∧ i.Recovers later.host.registry p below

theorem Holds.nextRecovers (h : ctx.Holds (p :: below)) (hne : below ≠ []) :
    NextRecovers ctx.stack.region p below := by
  rintro later hregion hmode ⟨entry, hentry⟩
  have hscan : scan later.stack.region = .ok ⟨p :: below⟩ := by
    rw [hregion]
    exact h.scan_eq
  rw [restoreLogged_of_scan hmode hscan, show wordLimit = 18446744073709551615 + 1 from rfl]
  let loaded : Context := { later with stack := ⟨⟨p :: below⟩, later.stack.region⟩ }
  have hloaded : loaded.Holds (p :: below) := ⟨rfl, hscan⟩
  obtain ⟨log, hlog⟩ : ∃ log, (recoverFramesLogged (18446744073709551615 + 1) 0 loaded).1
      = ⟨entry, p.frame.args, loaded⟩ :: log := recoverFramesLogged_head rfl hne hentry
  exact ⟨_, log, hlog, hloaded, hentry, rfl⟩

/-- With the root alone a replay has nothing to do. -/
theorem restoreLogged_of_root (h : ctx.stack.Faithful) (hmode : ctx.host.mode = .recovery)
    (hframes : ctx.stack.calls.frames = [root]) : restoreLogged ctx = ([], .ok 0, ctx) := by
  rw [restoreLogged, if_neg fun hne => hne hmode, reload_apply h,
    show wordLimit = 18446744073709551615 + 1 from rfl]
  exact recoverFramesLogged_of_root hframes

/-- **A replay runs the recoveries of the suspended calls, newest first, and can be resumed.**
The region was written by operations on stacks, and reads back as a root with suspended calls
above it; the context may be any one in recovery mode. As far as recoveries return, they leave
the frames that they found.

Then the first runs of the replay are one recovery for each of the newest calls, with its
arguments, while it was the top one and the other calls were below it. They all returned, and
their frames are gone. The replay has either come to the root, or to a call that has no recovery,
or to one whose recovery halts, which is then its last run (`ReplayEnd`). If it has come to the
root, another replay runs nothing. If it leaves calls on the stack, then every later replay of
the region begins with the recovery of the topmost one. -/
theorem restore_resumes {start s : DurableStack} (hblank : start.region.Blank)
    (hempty : start.calls = .empty) (hused : start.Used s)
    (hread : scan s.region = .ok ⟨suspended ++ [root]⟩) (ctx : Context)
    (hregion : ctx.stack.region = s.region) (hmode : ctx.host.mode = .recovery)
    (hleaves : ∀ i ∈ (restoreLogged ctx).1, i.LeavesFrames) :
    ∃ done left log last, suspended = done ++ left ∧ (restoreLogged ctx).1 = log ++ last ∧
      Recovered ctx.host.registry done (left ++ [root]) log ∧
      ReplayEnd ctx.host.registry root done.length left last (restore ctx) ∧
      (left = [] → restoreLogged (restore ctx).2 = ([], .ok 0, (restore ctx).2)) ∧
      ∀ p rest, left = p :: rest → (restore ctx).2.Holds (p :: rest ++ [root]) →
        NextRecovers (restore ctx).2.stack.region p (rest ++ [root]) := by
  -- the calls that are read are those that the stopped process had
  have hfaithful := hused.faithful hblank hempty hread (by simp)
  have hcalls : s.calls = ⟨suspended ++ [root]⟩ :=
    Except.ok.inj (hfaithful.scan_eq.symm.trans hread)
  let loaded : Context := { ctx with stack := s }
  have hframes : loaded.stack.calls.frames = suspended ++ [root] := by
    rw [show loaded.stack.calls = ⟨suspended ++ [root]⟩ from hcalls]
  have hreplay : restoreLogged ctx = recoverFramesLogged wordLimit 0 loaded := by
    have hstack : (⟨⟨suspended ++ [root]⟩, ctx.stack.region⟩ : DurableStack) = s := by
      rw [hregion, ← hcalls]
    rw [restoreLogged_of_scan hmode (hregion ▸ hread), hstack]
  have hlength : suspended.length < wordLimit := by
    have hcounted := hfaithful.mirrored.length_lt_wordLimit
    rw [hcalls, List.length_append] at hcounted
    exact Nat.lt_of_add_right_lt hcounted
  have hfollows : Follows loaded (restore ctx).2 := by
    rw [← restoreLogged_snd, hreplay, recoverFramesLogged_snd]
    exact (recoverFrames_safe loaded wordLimit 0 loaded (.refl hfaithful)).1
  rw [hreplay] at hleaves ⊢
  obtain ⟨done, left, log, last, hsplit, hlog, hrecovered, hend⟩ :=
    recoverFramesLogged_ends hfaithful hframes hlength (by omega) hleaves
  rw [Nat.zero_add, ← hreplay, restoreLogged_snd] at hend
  refine ⟨done, left, log, last, hsplit, hlog, hrecovered, hend, fun hnone => ?_, ?_⟩
  · subst hnone
    generalize restore ctx = result at hend hfollows ⊢
    cases hend with
    | finished holds =>
      exact restoreLogged_of_root hfollows.stack.faithful (hfollows.host_eq ▸ hmode)
        holds.frames_eq
  · rintro p rest - hholds
    exact hholds.nextRecovers (List.append_ne_nil_of_right_ne_nil _ (by simp))

/-- The recovery of `f` calls `g`, and that of `g` answers. -/
def twoRecoveries : Registry :=
  (Table.empty.insert "f"
    ⟨.program .done, .program (.act (.call "g" (some [9]) {}) .done)⟩).insert "g"
    ⟨.program (.act (.answer [7]) .done), .program (.act (.answer [8]) .done)⟩

/-- Three lines with a root, a call of `f`, and one of `g`. -/
def suspendedLines : DurableStack :=
  (push ⟨"g", [1, 2]⟩ none (push ⟨"f", [1]⟩ none (push ⟨rootFunction, []⟩ none
    threeLines).2).2).2

theorem suspendedLines_used : threeLines.Used suspendedLines := by
  have h₀ : threeLines.Used threeLines := .start
  have h₁ := h₀.push rootFunction []
    (show Frame.make rootFunction [] = .ok ⟨rootFunction, []⟩ from rfl) none
  have h₂ := h₁.push "f" [1] (show Frame.make "f" [1] = .ok ⟨"f", [1]⟩ from rfl) none
  exact h₂.push "g" [1, 2] (show Frame.make "g" [1, 2] = .ok ⟨"g", [1, 2]⟩ from rfl) none

/-- A process that has found them. -/
def recovering : Context where
  host := ⟨twoRecoveries, .recovery, 1⟩
  thread := 0
  stack := ⟨.empty, suspendedLines.region⟩

/-- Both calls are recovered, although the recovery of `f` writes over what `g` has left. A second
replay finds the root frame alone and does nothing. -/
theorem recovering_resumes :
    (∀ i ∈ (restoreLogged recovering).1, i.LeavesFrames) ∧
    Recovered twoRecoveries [⟨⟨"g", [1, 2]⟩, 128⟩, ⟨⟨"f", [1]⟩, 64⟩] [⟨⟨rootFunction, []⟩, 0⟩]
      (restoreLogged recovering).1 ∧
    (restore recovering).1 = .ok 2 ∧
    (restore recovering).2.Holds [⟨⟨rootFunction, []⟩, 0⟩] ∧
    restoreLogged (restore recovering).2 = ([], .ok 0, (restore recovering).2) := by
  have hread : scan suspendedLines.region
      = .ok ⟨[⟨⟨"g", [1, 2]⟩, 128⟩, ⟨⟨"f", [1]⟩, 64⟩] ++ [⟨⟨rootFunction, []⟩, 0⟩]⟩ := by
    have hfaithful := (suspendedLines_used.faithful_or rfl).resolve_right (by decide +kernel)
    rw [hfaithful.scan_eq]
    decide +kernel
  have hregion : recovering.stack.region = suspendedLines.region := by rw [recovering]
  have hleaves : ∀ i ∈ (restoreLogged recovering).1, i.LeavesFrames := by decide +kernel
  have hreturns : (restore recovering).1 = .ok 2 := by decide +kernel
  obtain ⟨done, left, log, last, hsplit, hlog, hrecovered, hend, hagain, -⟩ :=
    restore_resumes threeLines_fresh.blank rfl suspendedLines_used hread recovering hregion rfl
      hleaves
  generalize restore recovering = result at hend hreturns hagain ⊢
  cases hend with
  | finished holds =>
    rw [List.append_nil] at hsplit hlog
    rw [hlog, hsplit]
    exact ⟨hlog ▸ hleaves, hrecovered, hreturns, holds, hagain rfl⟩
  | unknown => cases hreturns
  | halted => cases hreturns

end Context

end DurableCalls
