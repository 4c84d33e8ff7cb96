/-
`ReplayAmid.lean` -- the replay of a stopped task, amid those of others.

What a replay does to its own stack does not depend on the heap, and so it does not matter there
that others write to the heap between its steps (`Context.Amid`). It comes to the heap twice: for
the swap, if that has not answered, and for the answer. What the swap makes of a heap that others
write to is looked up in one place only (`SwapTask.Swapping`). So the replay goes through the same
frames as one without others, and what it writes are the writes of the swap and the answer
(`Amid.restoreSteps_performs`).
-/
import DurableCalls.Proofs.Call.Replay
import DurableCalls.Proofs.Swap.AmidOthers

set_option autoImplicit false

namespace DurableCalls

open CallStack Region HasHeap

/-- The recovery of the swap answers `yes` amid others, and these are the writes that it makes. -/
def SwapTask.Swapping (t : SwapTask) (threads thread : UInt32) (look : Region → Prop)
    (plan swapped : List Write) (yes : Bool) : Prop :=
  ∀ here, Performs look plan (fun answer _ all => answer = yes ∧ all = swapped)
    (t.swapBy threads thread).recoverSteps here []

/-- The write of an answer. -/
def SwapTask.publication (t : SwapTask) (yes : Bool) : Write :=
  ⟨t.answer.toNat, Builtin.verdict yes⟩

/-- The answer has a place on the heap, and its write is planned. Whatever the others make of the
heap, it stays a heap of that size. -/
structure SwapTask.Answers (t : SwapTask) (look : Region → Prop) (plan : List Write)
    (yes : Bool) : Prop where
  inside : ∀ heap, look heap → t.answer.toNat + 1 ≤ heap.size
  planned : t.publication yes ∈ plan

namespace Context

/-! ## Steps on the heap -/

section OnHeap

variable {α : Type} {look : Region → Prop} {plan made : List Write} {ctx : Context}
  {ends : α → Region → List Write → Prop} {t : Steps Region α} {here heap : Region}

/-- Steps on the heap leave the rest of the context. A context that lends its heap to them takes the
same writes, wherever others come between. -/
theorem within_performs (h : Performs look plan ends t here made) :
    Performs look plan (fun a after all => (∃ heap, after = lent ctx heap) ∧
      ∃ there, ends a there all) (t.within onHeap) (lent ctx heap) made := by
  induction t generalizing here heap made with
  | done a => exact ⟨⟨heap, rfl⟩, here, h⟩
  | step m rest ih =>
    intro next hlook
    obtain ⟨b, after, new, hrun, hheap, hnew, hrest⟩ := h next hlook
    cases hheap
    have hrun' : m (next.putAll made) = (.ok b, next.putAll (made ++ new)) := hrun
    refine ⟨b, lent ctx (next.putAll (made ++ new)), new, ?_, rfl, hnew, ih b hrest⟩
    have hlent : onHeap m (lent (lent ctx heap) (next.putAll made))
        = ((m (next.putAll made)).1, lent ctx (m (next.putAll made)).2) := onHeap_apply m rfl
    rw [hrun'] at hlent
    exact hlent

theorem onHeapSteps_performs (h : Performs look plan ends t here made) :
    Performs look plan (fun a after all => (∃ heap, after = lent ctx heap) ∧
      ∃ there, ends a there all) (onHeapSteps t) ctx made := by
  apply Performs.quiet
  intro heap _
  exact ⟨(), lent ctx (heap.putAll made), onHeap_apply _ rfl, rfl, within_performs h⟩

end OnHeap

/-! ## A thread without a hook -/

/-- Without a hook a run that ends or is stopped ends. -/
theorem Ends.calm {α : Type} {m : Exec α} {ctx : Context} {done : α → Context → Prop}
    {stopped : FaultPoint → Context → Prop} (h : Ends m ctx done stopped)
    (hcalm : ctx.hook = none) :
    ∃ a after, m ctx = (.ok a, after) ∧ after.hook = none ∧ done a after := by
  rcases h with ⟨a, after, hrun, hhook, hdone⟩ | ⟨-, -, -, -, hhook, -⟩
  · exact ⟨a, after, hrun, hhook hcalm, hdone⟩
  · exact absurd hcalm hhook

/-- The context of such a thread. It is the same whatever heap it is lent, since the heap is not its
own between two steps; everything else of it nobody else can change. -/
structure Amid (host : Host) (thread : UInt32) (frames : List Placed) (slot : UInt8)
    (ctx : Context) : Prop where
  hook_eq : ctx.hook = none
  stands : ∀ heap, At host thread frames slot heap (lent ctx heap)

/-- So far the thread has come, with these writes made. -/
def Comes (host : Host) (thread : UInt32) (frames : List Placed) (slot : UInt8) (ws : List Write)
    (_ : Unit) (after : Context) (all : List Write) : Prop :=
  Amid host thread frames slot after ∧ all = ws

/-- The thread is idle, with these writes made. -/
def Retires (host : Host) (thread : UInt32) (ws : List Write) (_ : Unit) (after : Context)
    (all : List Write) : Prop :=
  (∀ heap, Idle host thread heap (lent after heap)) ∧ all = ws

section Rules

variable {α β : Type} {host : Host} {thread : UInt32} {t : SwapTask}
  {frames frames' : List Placed} {slot slot' : UInt8} {heap : Region} {ctx : Context}
  {look : Region → Prop} {plan made ws : List Write} {yes : Bool}
  {ends : β → Context → List Write → Prop} {f : α → Steps Context β}

theorem At.amid (h : At host thread frames slot heap ctx) (hcalm : ctx.hook = none) :
    Amid host thread frames slot ctx :=
  ⟨hcalm, fun heap => h.withHeap heap⟩

theorem Amid.withHeap (h : Amid host thread frames slot ctx) (heap : Region) :
    Amid host thread frames slot (lent ctx heap) :=
  ⟨h.hook_eq, h.stands⟩

/-- A step that leaves the heap. -/
theorem Amid.step {m : Exec α} {a : α} (h : Amid host thread frames slot ctx)
    (hm : ∀ {heap : Region} {ctx : Context}, At host thread frames slot heap ctx →
      ctx.hook = none → ∃ after, m ctx = (.ok a, after) ∧ after.hook = none ∧
        At host thread frames' slot' heap after)
    (hf : ∀ after, Amid host thread frames' slot' after →
      Performs look plan ends (f a) after made) :
    Performs look plan ends (liftM m >>= f) ctx made := by
  apply Performs.quiet
  intro heap _
  obtain ⟨after, hrun, hcalm, hat⟩ := hm (h.stands (heap.putAll made)) h.hook_eq
  exact ⟨a, after, hrun, hat.stands.heap_eq, hf after (hat.amid hcalm)⟩

/-- A step that looks at the context. -/
theorem Amid.get {f : Context → Steps Context β} (h : Amid host thread frames slot ctx)
    (hf : ∀ heap after, At host thread frames slot heap after → after.hook = none →
      Performs look plan ends (f after) after made) :
    Performs look plan ends (get >>= f) ctx made := by
  apply Performs.quiet
  intro heap _
  exact ⟨_, _, Run.get_apply _, rfl, hf _ _ (h.stands (heap.putAll made)) h.hook_eq⟩

/-- A step that reads something from the stack. -/
theorem Amid.read {m : Exec α} {a : α} (h : Amid host thread frames slot ctx)
    (hm : ∀ {heap : Region} {ctx : Context}, At host thread frames slot heap ctx →
      m ctx = (.ok a, ctx))
    (hf : ∀ after, Amid host thread frames slot after →
      Performs look plan ends (f a) after made) :
    Performs look plan ends (liftM m >>= f) ctx made :=
  h.step (fun hat hcalm => ⟨_, hm hat, hcalm, hat⟩) hf

/-- A fault point. -/
theorem Amid.consult {f : Unit → Steps Context β} (h : Amid host thread frames slot ctx)
    (point : FaultPoint)
    (hf : ∀ after, Amid host thread frames slot after →
      Performs look plan ends (f ()) after made) :
    Performs look plan ends (liftM (Context.consult point) >>= f) ctx made :=
  h.step (fun hat hcalm => ⟨_, consult_of_no_hook point hcalm, hcalm, hat⟩) hf

/-- Steps on the heap that are known to answer so, and to have made these writes. -/
theorem Amid.onHeapSteps {u : Steps Region α} {here : Region} {a : α}
    (h : Amid host thread frames slot ctx)
    (hu : Performs look plan (fun b _ all => b = a ∧ all = ws) u here made)
    (hf : ∀ after, Amid host thread frames slot after → Performs look plan ends (f a) after ws) :
    Performs look plan ends (Context.onHeapSteps u >>= f) ctx made := by
  apply (onHeapSteps_performs hu).bind
  rintro _ _ _ ⟨⟨heap, rfl⟩, -, rfl, rfl⟩
  exact hf _ (h.withHeap heap)

/-- The answer goes to its place in the heap. -/
theorem Amid.publish {f : Unit → Steps Context β} (h : Amid host thread frames slot ctx)
    (ha : t.Answers look plan yes)
    (hf : ∀ after, Amid host thread frames slot after →
      Performs look plan ends (f ()) after (made ++ [t.publication yes])) :
    Performs look plan ends (liftM (Builtin.publish t (answerOf yes)) >>= f) ctx made := by
  apply Performs.step
  intro heap hlook
  have hin' : t.answer.toNat + 1 ≤ (heap.putAll made).size := by
    rw [size_putAll]
    exact ha.inside heap hlook
  refine ⟨(), _, [t.publication yes],
    (h.stands (heap.putAll made)).publish hin', ?_, ?_, hf _ (h.withHeap _)⟩
  · rw [putAll_append]
    rfl
  · exact List.cons_subset.2 ⟨ha.planned, List.nil_subset plan⟩

end Rules

section Frames

variable {host : Host} {thread : UInt32} {t : SwapTask} {frames : List Placed} {slot : UInt8}
  {heap : Region} {ctx : Context} {look : Region → Prop} {plan made swapped : List Write}
  {yes : Bool}

/-! ## The swap -/

/-- Without an answer the swap is recovered, step by step and with others between the steps. What it
answers was settled when the task was stopped. -/
theorem Amid.runRecoverSwap (hs : t.Swapping host.threads thread look plan swapped yes)
    (h : Amid host thread [swapFrame t, taskFrame t, rootFrame] unanswered ctx) :
    Performs look plan
      (Comes host thread [swapFrame t, taskFrame t, rootFrame] (answerOf yes) swapped)
      (Builtin.runRecoverSwapSteps t.swap.encode) ctx [] := by
  have hopen : ¬Builtin.answerByte [unanswered] ≤ 1 := by decide
  apply h.read (fun _ => decode_apply t _)
  intro _ h
  apply h.read (fun hat => hat.stands.readCurrentAnswer hat.slot_eq)
  intro _ h
  rw [if_neg hopen]
  apply h.get
  intro heap _ hat hcalm
  rw [hat.swapOf_eq]
  apply (hat.amid hcalm).onHeapSteps (hs heap)
  intro _ h
  apply Performs.ended
  apply h.step
  · intro heap ctx hat hcalm
    have hends : Ends (Context.writeAnswer (Builtin.verdict yes)) ctx
        (fun _ => At host thread [swapFrame t, taskFrame t, rootFrame] (answerOf yes) heap)
        (Stopped host thread t heap heap yes) := hat.writeAnswer
    obtain ⟨⟨⟩, after, hrun, hcalm', hafter⟩ := hends.calm hcalm
    exact ⟨after, hrun, hcalm', hafter⟩
  · intro _ h
    exact ⟨h, rfl⟩

/-- An answer that is there is final. -/
theorem Amid.runRecoverSwap_of_answered
    (h : Amid host thread [swapFrame t, taskFrame t, rootFrame] (answerOf yes) ctx) :
    Performs look plan
      (Comes host thread [swapFrame t, taskFrame t, rootFrame] (answerOf yes) made)
      (Builtin.runRecoverSwapSteps t.swap.encode) ctx made := by
  have hanswered : Builtin.answerByte [answerOf yes] ≤ 1 := answerOf_le yes
  apply h.read (fun _ => decode_apply t _)
  intro _ h
  apply h.read (fun hat => hat.stands.readCurrentAnswer hat.slot_eq)
  intro _ h
  rw [if_pos hanswered]
  exact ⟨h, rfl⟩

/-- The frame of the swap goes, and its answer stays. -/
theorem Amid.popSwap (h : Amid host thread [swapFrame t, taskFrame t, rootFrame] slot ctx) :
    Performs look plan (Comes host thread [taskFrame t, rootFrame] slot made) (liftM popFrame) ctx
      made := by
  apply Performs.ended
  apply h.step
  · intro heap ctx hat hcalm
    obtain ⟨after, hpop, hhook, hafter⟩ := hat.popSwap
    exact ⟨after, hpop, hhook.trans hcalm, hafter⟩
  · intro _ h
    exact ⟨h, rfl⟩

/-- The call of the recovery of the swap. -/
theorem Amid.callSwap {depth : Nat} (hs : t.Swapping host.threads thread look plan swapped yes)
    (hmode : host.mode = .recovery) (h : Amid host thread [taskFrame t, rootFrame] slot ctx) :
    Performs look plan (Comes host thread [taskFrame t, rootFrame] (answerOf yes) swapped)
      (callSteps (depth + 1) {
        name := swapFunction
        args := t.swap.encode
        options := { callerSeed := some [unanswered], recover := true } }) ctx [] := by
  have hmode' : true = true → host.mode = .recovery := fun _ => hmode
  apply h.step (fun hat hcalm => by
    obtain ⟨entered, henter, hhook, hentered⟩ := hat.enterSwap hmode'
    exact ⟨entered, henter, hhook.trans hcalm, hentered⟩)
  intro _ h
  apply h.consult
  intro _ h
  apply (h.runRecoverSwap hs).bind
  rintro _ _ _ ⟨h, rfl⟩
  apply h.consult
  intro _ h
  exact h.popSwap

/-! ## The task -/

/-- Without an answer the swap is called, and what it answers is published. The publication is the
last of the writes that are planned. -/
theorem Amid.runTask {depth : Nat} (hs : t.Swapping host.threads thread look plan swapped yes)
    (ha : t.Answers look plan yes) (hmode : host.mode = .recovery)
    (h : Amid host thread [taskFrame t, rootFrame] unanswered ctx) :
    Performs look plan
      (Comes host thread [taskFrame t, rootFrame] (answerOf yes)
        (swapped ++ [t.publication yes]))
      (Builtin.runTaskSteps (callSteps (depth + 1)) true t.encode) ctx [] := by
  have hopen : ¬Builtin.answerByte [unanswered] ≤ 1 := by decide
  apply h.read (fun _ => decodeTask_apply t _)
  intro _ h
  apply h.read (fun hat => hat.stands.readAnswer hat.slot_eq)
  intro _ h
  rw [if_neg hopen]
  apply (h.callSwap hs hmode).bind
  rintro _ _ _ ⟨h, rfl⟩
  apply h.read (fun hat => hat.stands.readAnswer hat.slot_eq)
  intro _ h
  apply Performs.ended
  apply h.publish ha
  intro _ h
  exact ⟨h, rfl⟩

/-- An answer that is there is published, and nothing is called. -/
theorem Amid.runTask_of_answered {call : SteppingCaller}
    (ha : t.Answers look plan yes)
    (h : Amid host thread [taskFrame t, rootFrame] (answerOf yes) ctx) :
    Performs look plan
      (Comes host thread [taskFrame t, rootFrame] (answerOf yes)
        (made ++ [t.publication yes]))
      (Builtin.runTaskSteps call true t.encode) ctx made := by
  have hanswered : Builtin.answerByte [answerOf yes] ≤ 1 := answerOf_le yes
  apply h.read (fun _ => decodeTask_apply t _)
  intro _ h
  apply h.read (fun hat => hat.stands.readAnswer hat.slot_eq)
  intro _ h
  rw [if_pos hanswered]
  apply h.publish ha
  intro _ h
  exact ⟨h, rfl⟩

/-- The frame of the task goes, and its thread is done. -/
theorem Amid.popTask (h : Amid host thread [taskFrame t, rootFrame] slot ctx) :
    Performs look plan (Retires host thread made) (liftM popFrame) ctx made := by
  apply Performs.ended
  apply Performs.quiet
  intro heap _
  obtain ⟨after, hpop, -, hidle⟩ := (h.stands (heap.putAll made)).popTask
  exact ⟨(), after, hpop, hidle.stands.heap_eq, fun next => hidle.withHeap next, rfl⟩

/-! ## One frame -/

/-- The recovery of a frame is one of the built-in ones, and then the frame goes. Only the run of
the entry point takes steps that others see; the pop is on the thread's own stack. -/
theorem Amid.recoverTop {ends : Unit → Context → List Write → Prop} {top : Placed}
    (h : Amid host thread frames slot ctx) (entry : Builtin)
    (hentry : host.Serves →
      Registry.entry host.registry top.frame.name true = .ok (.builtin entry))
    (hrun : ∀ depth after, Amid host thread frames slot after →
      Performs look plan ends
        (entry.runSteps (callSteps (depth + 1)) top.frame.args >>= fun _ => liftM popFrame) after
        made) :
    Performs look plan ends (recoverTopSteps top) ctx made := by
  apply h.get
  intro heap after hat hcalm
  rw [hat.stands.host_eq]
  apply (hat.amid hcalm).read
  · intro heap ctx hat
    rw [hentry hat.serves]
    exact Run.lift_apply _ ctx
  · intro _ h
    exact hrun _ _ h

theorem Amid.recoverSwapFrame (hs : t.Swapping host.threads thread look plan swapped yes)
    (h : Amid host thread [swapFrame t, taskFrame t, rootFrame] unanswered ctx) :
    Performs look plan (Comes host thread [taskFrame t, rootFrame] (answerOf yes) swapped)
      (recoverTopSteps (swapFrame t)) ctx [] := by
  apply h.recoverTop .recoverSwap fun hserves => hserves.swap_eq true
  intro _ _ h
  apply (h.runRecoverSwap hs).bind
  rintro _ _ _ ⟨h, rfl⟩
  exact h.popSwap

theorem Amid.recoverSwapFrame_of_answered
    (h : Amid host thread [swapFrame t, taskFrame t, rootFrame] (answerOf yes) ctx) :
    Performs look plan (Comes host thread [taskFrame t, rootFrame] (answerOf yes) made)
      (recoverTopSteps (swapFrame t)) ctx made := by
  apply h.recoverTop .recoverSwap fun hserves => hserves.swap_eq true
  intro _ _ h
  apply h.runRecoverSwap_of_answered.bind
  rintro _ _ _ ⟨h, rfl⟩
  exact h.popSwap

theorem Amid.recoverTaskFrame (hs : t.Swapping host.threads thread look plan swapped yes)
    (ha : t.Answers look plan yes) (hmode : host.mode = .recovery)
    (h : Amid host thread [taskFrame t, rootFrame] unanswered ctx) :
    Performs look plan
      (Retires host thread (swapped ++ [t.publication yes]))
      (recoverTopSteps (taskFrame t)) ctx [] := by
  apply h.recoverTop .recoverTask fun hserves => hserves.task_eq true
  intro _ _ h
  apply (h.runTask hs ha hmode).bind
  rintro _ _ _ ⟨h, rfl⟩
  exact h.popTask

theorem Amid.recoverTaskFrame_of_answered
    (ha : t.Answers look plan yes)
    (h : Amid host thread [taskFrame t, rootFrame] (answerOf yes) ctx) :
    Performs look plan (Retires host thread (made ++ [t.publication yes]))
      (recoverTopSteps (taskFrame t)) ctx made := by
  apply h.recoverTop .recoverTask fun hserves => hserves.task_eq true
  intro _ _ h
  apply (h.runTask_of_answered ha).bind
  rintro _ _ _ ⟨h, rfl⟩
  exact h.popTask

/-! ## Frame after frame -/

/-- One round of the replay, and the rounds behind it. -/
theorem Amid.recoverFrames_succ {top below : Placed} {rest : List Placed} {rounds n : Nat}
    {done : Context → List Write → Prop} {last : Nat → Context → List Write → Prop}
    (h : Amid host thread (top :: below :: rest) slot ctx) (hn : n + 1 < wordLimit)
    (htop : ∀ after, Amid host thread (top :: below :: rest) slot after →
      Performs look plan (fun _ => done) (recoverTopSteps top) after made)
    (hrest : ∀ after all heap, done after all →
      Performs look plan last (recoverFramesSteps rounds (n + 1)) (lent after heap) all) :
    Performs look plan last (recoverFramesSteps (rounds + 1) n) ctx made := by
  apply h.get
  intro heap after hat hcalm
  rw [hat.stands.frames_eq]
  apply (htop after (hat.amid hcalm)).bind
  intro _ after all hdone
  apply Performs.quiet
  intro heap _
  have hcount : (liftM (addWord n 1) : Exec Nat) (lent after (heap.putAll all))
      = (.ok (n + 1), lent after (heap.putAll all)) := by
    rw [Run.liftHalt_apply, addWord_eq hn]
  exact ⟨n + 1, _, hcount, rfl, hrest _ _ _ hdone⟩

/-- The root frame stays. -/
theorem recoverFrames_of_retired (hidle : ∀ heap, Idle host thread heap (lent ctx heap))
    (rounds n : Nat) :
    Performs look plan (fun m _ all => m = n ∧ all = made) (recoverFramesSteps (rounds + 1) n)
      ctx made := by
  apply Performs.quiet
  intro heap _
  refine ⟨_, _, Run.get_apply _, rfl, ?_⟩
  rw [(hidle (heap.putAll made)).stands.frames_eq]
  exact ⟨rfl, rfl⟩

/-- **The rounds finish the task**, and are as many as there are frames above the root. Where the
swap has answered it writes nothing more. -/
theorem Amid.recoverFrames {before settled heap : Region} {point : FaultPoint} {answer : Bool}
    (h : Amid host thread frames slot ctx) (hmode : host.mode = .recovery)
    (hsuspended : Suspended t before settled answer point frames slot heap)
    (hopen : point = .afterFramePush → t.Swapping host.threads thread look plan swapped yes)
    (hclosed : point ≠ .afterFramePush → swapped = [] ∧ yes = answer)
    (ha : t.Answers look plan yes) :
    Performs look plan
      (fun n _ all => n = frames.length - 1 ∧ all = swapped ++ [t.publication yes])
      (recoverFramesSteps wordLimit 0) ctx [] := by
  have hrounds : wordLimit = 18446744073709551613 + 1 + 1 + 1 := rfl
  have hretired : ∀ rounds n after all (heap : Region),
      Retires host thread (swapped ++ [t.publication yes]) () after all →
        Performs look plan (fun m _ all => m = n ∧ all = swapped ++ [t.publication yes])
          (recoverFramesSteps (rounds + 1) n) (lent after heap) all := by
    rintro rounds n after _ heap ⟨hidle, rfl⟩
    exact recoverFrames_of_retired hidle rounds n
  rw [hrounds]
  cases hsuspended with
  | called =>
    -- only the frame of the task is there, and no answer yet
    apply h.recoverFrames_succ (by decide)
    · intro _ h
      exact h.recoverTaskFrame (hopen rfl) ha hmode
    · exact hretired _ _
  | returned behind =>
    -- the swap has answered, so its frame is gone and the answer is published
    obtain ⟨rfl, rfl⟩ := hclosed behind
    apply h.recoverFrames_succ (by decide)
    · intro _ h
      exact h.recoverTaskFrame_of_answered ha
    · exact hretired _ _
  | swapping =>
    -- two rounds: the frame of the swap, and then that of the task
    apply h.recoverFrames_succ (by decide)
    · intro _ h
      exact h.recoverSwapFrame (hopen rfl)
    rintro _ _ heap ⟨h, rfl⟩
    apply (h.withHeap heap).recoverFrames_succ (by decide)
    · intro _ h
      exact h.recoverTaskFrame_of_answered ha
    · exact hretired _ _
  | answered behind =>
    obtain ⟨rfl, rfl⟩ := hclosed behind
    apply h.recoverFrames_succ (by decide)
    · intro _ h
      exact h.recoverSwapFrame_of_answered
    rintro _ _ heap ⟨h, rfl⟩
    apply (h.withHeap heap).recoverFrames_succ (by decide)
    · intro _ h
      exact h.recoverTaskFrame_of_answered ha
    · exact hretired _ _

/-- **A replay amid others** finishes the task, and counts the frames above the root. It begins
with what is durable, and with nothing in memory. -/
theorem At.restoreSteps_performs {host' : Host} {thread' : UInt32} {left : Context}
    {before settled met heap : Region} {point : FaultPoint} {answer : Bool}
    (hleft : At host' thread' frames slot met left) (hserves : host.Serves)
    (hmode : host.mode = .recovery) (hhost : ctx.host = host) (hthread : ctx.thread = thread)
    (hregion : ctx.stack.region = left.stack.region) (hcalm : ctx.hook = none)
    (hsuspended : Suspended t before settled answer point frames slot heap)
    (hopen : point = .afterFramePush → t.Swapping host.threads thread look plan swapped yes)
    (hclosed : point ≠ .afterFramePush → swapped = [] ∧ yes = answer)
    (ha : t.Answers look plan yes) :
    Performs look plan
      (fun n _ all => n = frames.length - 1 ∧ all = swapped ++ [t.publication yes])
      restoreSteps ctx [] := by
  have hne : frames ≠ [] := by cases hsuspended <;> exact List.cons_ne_nil _ _
  have hallowed : ∀ heap, ¬(lent ctx heap).host.mode ≠ .recovery := by
    intro heap hnot
    apply hnot
    show ctx.host.mode = .recovery
    rw [hhost, hmode]
  apply Performs.quiet
  intro first _
  refine ⟨_, _, Run.get_apply _, rfl, ?_⟩
  rw [if_neg (hallowed _)]
  apply Performs.quiet
  intro heap _
  have hhost' : (lent (lent ctx (first.putAll [])) (heap.putAll [])).host = host := hhost
  obtain ⟨loaded, hreload, hhook, hloaded⟩ :=
    hleft.reload hne hserves hhost' hthread hregion rfl
  exact ⟨(), loaded, hreload, hloaded.stands.heap_eq,
    (hloaded.amid (hhook.trans hcalm)).recoverFrames hmode hsuspended hopen hclosed ha⟩

end Frames

end Context

end DurableCalls
