/-
`Row.lean` -- calls that one frame makes, one after the other, and what they leave in its slot.

Every call writes its filler over the slot of its caller and then what its callee answers. So
after calls in a row the slot shows all the fillers and answers of the row, over what it showed
at the start (`CallsInRow.shows`), and the next callee starts with its own filler over that. A
filler without a seed is as long as the slot. A shorter one leaves the bytes behind it, and then
a callee starts with what an earlier one has answered there.

A call that is refused has no callee, but its filler may be in the slot all the same.
-/
import DurableCalls.Proofs.Call.Delivery

set_option autoImplicit false

namespace DurableCalls

open CallStack Region DurableStack Slot

namespace Context

variable {depth : Nat} {rest : List Placed} {p c caller : Placed} {slot bytes : List UInt8}
  {start ctx now after : Context} {request : CallRequest} {written : List (List UInt8)}

/-- What the top frame may come to by calls that return or are refused, with the byte strings that
these calls have put into its slot: a filler, and what a callee has answered. Between the calls
the frame may answer its own caller, and do whatever leaves the stack alone. -/
inductive CallsInRow (start : Context) : (written : List (List UInt8)) → Context → Prop
  | start : CallsInRow start [] start
  | call {written given : List (List UInt8)} {ctx after : Context} {request : CallRequest}
      (row : CallsInRow start written ctx) (returns : call request ctx = (.ok (), after))
      (answers : Answers ctx.depthBound request ctx given) :
      CallsInRow start (written ++ filler request.options :: given) after
  | refused {written : List (List UInt8)} {ctx : Context} {request : CallRequest}
      {failure : Failure} {top : Placed} (row : CallsInRow start written ctx)
      (caller : ctx.stack.calls.top? = some top)
      (fits : (filler request.options).length ≤ slotSize)
      (run : call request ctx
        = (.error (.failed failure), ctx.withSlot top (filler request.options))) :
      CallsInRow start (written ++ [filler request.options])
        (ctx.withSlot top (filler request.options))
  | answer {written : List (List UInt8)} {ctx after : Context} {bytes : List UInt8}
      (row : CallsInRow start written ctx) (run : writeAnswer bytes ctx = (.ok (), after)) :
      CallsInRow start written after
  | beside {α : Type} {written : List (List UInt8)} {ctx after : Context} {m : Exec α} {a : α}
      (row : CallsInRow start written ctx) (quiet : Quiet m) (run : m ctx = (.ok a, after)) :
      CallsInRow start written after

/-- A row goes on behind every call that is refused. If it was refused in its push, its filler is
one of the byte strings that are in the slot now; otherwise nothing was written. -/
theorem CallsInRow.of_refused {failure : Failure} (h : CallsInRow start written ctx)
    (hrun : enter request ctx = (.error (.failed failure), after)) :
    CallsInRow start written after ∨
      CallsInRow start (written ++ [filler request.options]) after := by
  have hcall := call_of_refused hrun
  obtain ⟨seeded, hrefusal, rfl, hseeded⟩ := enter_failed hrun
  cases hrefusal with
  | noPush made refused =>
    -- only the push refuses behind the filler
    cases htop : ctx.stack.calls.top? with
    | none => exact .inl h
    | some top =>
      rw [htop] at hcall hseeded
      exact .inr (.refused h htop (hseeded top rfl).1.2 hcall)
  | illegalRecovery => exact .inl h
  | unknownFunction => exact .inl h
  | oversized => exact .inl h
  | callerSeed => exact .inl h
  | noCaller => exact .inl h
  | slotOutside => exact .inl h

/-- The answers that a frame gives go to a slot below its own. So they are not among the byte
strings that its own slot shows. -/
theorem Shows.answering (h : Shows depth (c :: rest) c slot ctx)
    (hrun : writeAnswer bytes ctx = (.ok (), after)) :
    Shows depth (c :: rest) c slot after := by
  rcases writeAnswer_cases h.ready.faithful.mirrored bytes with ⟨failure, hrefused⟩ |
    ⟨top, below, others, hframes, hlen, hwrite⟩
  · rw [hrefused] at hrun
    cases hrun
  · -- the slot that takes the answer ends where the frame on top begins, or before
    have hin := h.ready.faithful.mirrored.slot_in (caller_mem hframes)
    have hwritten := h.ready.written
    rw [h.ready.frames_eq] at hframes
    cases hframes
    have hpast : below.past ≤ c.position := hwritten.endOf_le_position
    have hover := below.overhead_le_past
    have hagree : Agree c.position (c.position + slotSize) ctx.stack.region
        (ctx.withSlot below bytes).stack.region := agree_put (by omega) (.inr (by omega))
    have hbelow : below ∈ c :: below :: others := List.mem_cons_of_mem c List.mem_cons_self
    have hput : Shows depth (c :: below :: others) c slot (ctx.withSlot below bytes) := by
      refine ⟨h.ready.withSlot hbelow hlen, h.mem, ?_⟩
      rw [read_of_agree hagree]
      exact h.read_eq
    rw [hwrite] at hrun
    exact hput.quiet (Quiet.consult .afterAnswerWrite) hrun

/-- How deep calls may nest is a matter of the region alone. -/
theorem Shows.recount (h : Shows depth (c :: rest) c slot ctx) :
    Shows ctx.depthBound (c :: rest) c slot ctx :=
  ⟨⟨h.ready.faithful, h.ready.propagates, h.ready.frames_eq, Nat.le_add_left _ _⟩, h.mem, h.read_eq⟩

/-- What the callee of a call starts with. -/
theorem Shows.starting {entry : EntryPoint} {begun : Context}
    (h : Shows depth (c :: rest) c slot ctx) (hbegins : Begins request ctx entry begun) :
    Context.readCurrentAnswer slotSize begun
      = (.ok (overlayAll slot [filler request.options]), begun) := by
  have hcounted := h.recount
  obtain ⟨depth, hdepth⟩ : ∃ depth, ctx.depthBound = depth + 1 := ⟨_, rfl⟩
  rw [hdepth] at hcounted
  obtain ⟨-, -, p, hbegun⟩ := hcounted.begins hbegins
  have hread := hbegun.readCurrentAnswer (show 1 ≤ slotSize by decide) (Nat.le_refl _)
  rw [List.take_of_length_le (Nat.le_of_eq hbegun.length_eq)] at hread
  exact hread

/-- What a call leaves that returns. -/
theorem Shows.called (h : Shows depth (c :: rest) c slot ctx)
    (hcall : call request ctx = (.ok (), after)) :
    ∃ given, Answers ctx.depthBound request ctx given ∧
      Shows after.depthBound (c :: rest) c
        (overlayAll slot (filler request.options :: given)) after := by
  have hcounted := h.recount
  rw [call_apply] at hcall
  obtain ⟨depth, hdepth⟩ : ∃ depth, ctx.depthBound = depth + 1 := ⟨_, rfl⟩
  rw [hdepth] at hcounted hcall ⊢
  obtain ⟨given, hanswers, -, hafter⟩ := hcounted.returns hcall
  exact ⟨given, hanswers, hafter.recount⟩

/-- **A row of calls leaves its fillers and answers**, by induction on the row. A call that returns
adds its filler and the answers of its callee, and one that is refused at its push adds the filler
alone. What the frame itself answers in between goes to the slot below. -/
theorem CallsInRow.shows (hrow : CallsInRow ctx written now)
    (h : Shows depth (c :: rest) c slot ctx) :
    Shows now.depthBound (c :: rest) c (overlayAll slot written) now := by
  induction hrow with
  | start => exact h.recount
  | call row returns answers ih =>
    obtain ⟨given, hanswers, hafter⟩ := ih.called returns
    cases hanswers.unique answers
    rw [overlayAll_append]
    exact hafter
  | refused row caller fits run ih =>
    -- the frame on top is still the one that makes the calls
    rw [CallStack.top?, ih.ready.frames_eq] at caller
    cases caller
    rw [overlayAll_append]
    exact (ih.withSlot fits).recount
  | answer row run ih => exact (ih.answering run).recount
  | beside row quiet run ih => exact (ih.quiet quiet run).recount

/-- **What a callee sees of the calls before it.** Behind a row of calls that a frame has made,
the slot shows all that they have put there. The next callee starts with its filler over that,
and when it returns, its caller reads its answers over both. So where neither reaches a byte, an
earlier callee's answer is still seen, unless the byte was unanswered. This is so wherever the
region reads back as the calls, as it does behind all operations over a blank region
(`Reachable.faithful_of_blank`). -/
theorem row_sees_iff (hfaithful : ctx.stack.Faithful) (hpropagates : ctx.host.registry.Propagates)
    (hcaller : ctx.stack.calls.top? = some caller) (hrow : CallsInRow ctx written now) :
    ∃ first before : List UInt8, readAnswer slotSize ctx = (.ok first, ctx) ∧
      before = overlayAll first written ∧ readAnswer slotSize now = (.ok before, now) ∧
      (∀ request entry begun, Begins request now entry begun →
        readCurrentAnswer slotSize begun
          = (.ok (overlayAll before [filler request.options]), begun) ∧
        (ComesFrom [filler request.options] (overlayAll before [filler request.options]) ↔
          ClearBehind [filler request.options] before)) ∧
      ∀ request after, call request now = (.ok (), after) →
        ∃ given, Answers now.depthBound request now given ∧
          readAnswer slotSize after
            = (.ok (overlayAll before (filler request.options :: given)), after) ∧
          (ComesFrom (filler request.options :: given)
              (overlayAll before (filler request.options :: given)) ↔
            ClearBehind (filler request.options :: given) before) := by
  obtain ⟨rest, hframes⟩ := List.head?_eq_some_iff.1 hcaller
  have hready : Ready ctx.depthBound (caller :: rest) ctx :=
    ⟨hfaithful, hpropagates, hframes, Nat.le_add_left _ _⟩
  obtain ⟨first, hfirst⟩ := Shows.exists_of_ready hready List.mem_cons_self
  have hnow := hrow.shows hfirst
  refine ⟨first, overlayAll first written, hfirst.readWhole, rfl, hnow.readWhole, ?_, ?_⟩
  · intro request entry begun hbegins
    exact ⟨hnow.starting hbegins, comesFrom_overlayAll_iff⟩
  · intro request after hcall
    obtain ⟨given, hanswers, hafter⟩ := hnow.called hcall
    exact ⟨given, hanswers, hafter.readWhole, comesFrom_overlayAll_iff⟩

/-- Fills the slot of its caller. -/
def answeringWhole : EntryPoint := .program (.act (.answer [1, 2, 3, 4, 5, 6, 7, 8]) .done)

/-- Answers nothing. -/
def answeringNothing : EntryPoint := .program .done

def wholeAndNothing : Registry :=
  (Table.empty.insert "f" ⟨answeringWhole, answeringWhole⟩).insert "g"
    ⟨answeringNothing, answeringNothing⟩

theorem wholeAndNothing_propagates : wholeAndNothing.Propagates := by
  have hempty : Registry.Propagates .empty := fun _ _ hfind => by cases hfind
  have hwhole : answeringWhole.Propagates := trivial
  have hnothing : answeringNothing.Propagates := trivial
  exact (hempty.insert "f" hwhole hwhole).insert "g" hnothing hnothing

/-- A context over the three lines. -/
def beforeRow : Context where
  host := ⟨wholeAndNothing, .execution, 1⟩
  thread := 0
  stack := threeLines

theorem make_beforeRow :
    make ⟨wholeAndNothing, .execution, 1⟩ 0 threeLines.region = .ok beforeRow := rfl

/-- The same with a root frame, which makes the calls of the row. -/
def rowStart : Context := (Operation.run (.pushRoot rootFunction) beforeRow).2

theorem rowStart_faithful : rowStart.stack.Faithful := by
  have hreached : Reachable beforeRow rowStart := Reachable.start.step (.pushRoot rootFunction)
  exact hreached.faithful_of_blank threeLines_fresh.blank threeLines_fresh.room make_beforeRow

theorem rowStart_propagates : rowStart.host.registry.Propagates := by
  have hregistry : rowStart.host.registry = wholeAndNothing := by decide +kernel
  rw [hregistry]
  exact wholeAndNothing_propagates

theorem rowStart_top : rowStart.stack.calls.top? = some ⟨⟨rootFunction, []⟩, 0⟩ := by
  decide +kernel

/-- Behind the call of `f`. -/
def rowAnswered : Context := (call ⟨"f", [], {}⟩ rowStart).2

theorem rowStart_returns : call ⟨"f", [], {}⟩ rowStart = (.ok (), rowAnswered) :=
  Prod.ext (by decide +kernel) (by rw [rowAnswered])

/-- Where `f` starts, and where it has answered. -/
def rowRunning : Context := (enter ⟨"f", [], {}⟩ rowStart).2

def rowWritten : Context := (writeAnswer [1, 2, 3, 4, 5, 6, 7, 8] rowRunning).2

theorem rowStart_begins : Begins ⟨"f", [], {}⟩ rowStart answeringWhole rowRunning := by
  refine ⟨rowRunning, Prod.ext (by decide +kernel) (by rw [rowRunning]), ?_⟩
  exact consult_of_no_hook .afterFramePush (Option.isNone_iff_eq_none.1 (by decide +kernel))

/-- The call of `f` has put its answer into the slot that was cleared for it. -/
theorem rowAnswered_inRow :
    CallsInRow rowStart [filler {}, [1, 2, 3, 4, 5, 6, 7, 8]] rowAnswered := by
  have hwrite : writeAnswer [1, 2, 3, 4, 5, 6, 7, 8] rowRunning = (.ok (), rowWritten) :=
    Prod.ext (by decide +kernel) (by rw [rowWritten])
  have hanswers : Answers rowStart.depthBound ⟨"f", [], {}⟩ rowStart
      [[1, 2, 3, 4, 5, 6, 7, 8]] := by
    refine rowStart_begins.answers rowWritten fun caller => .inProgram ?_
    have hstep : Program.Step caller [] (.act (.answer [1, 2, 3, 4, 5, 6, 7, 8]) .done) rowRunning
        [[1, 2, 3, 4, 5, 6, 7, 8]] .done rowWritten := .action hwrite
    exact .step hstep .here
  exact .call .start rowStart_returns hanswers

/-- A call of `g` with a filler of one byte, behind the call of `f`. -/
def shortCall : CallRequest := ⟨"g", [], { callerSeed := some [0xCC] }⟩

def shortRunning : Context := (enter shortCall rowAnswered).2

def rowUncleared : Context := (call shortCall rowAnswered).2

theorem rowAnswered_returns : call shortCall rowAnswered = (.ok (), rowUncleared) :=
  Prod.ext (by decide +kernel) (by rw [rowUncleared])

theorem rowAnswered_begins : Begins shortCall rowAnswered answeringNothing shortRunning := by
  refine ⟨shortRunning, Prod.ext (by decide +kernel) (by rw [shortRunning]), ?_⟩
  exact consult_of_no_hook .afterFramePush (Option.isNone_iff_eq_none.1 (by decide +kernel))

/-- **A callee sees an earlier callee's answer** behind a filler that is shorter than the slot,
and its caller reads it when the call has returned. -/
theorem shortFiller_showsEarlier :
    rowStart.stack.Faithful ∧ rowStart.host.registry.Propagates ∧
    CallsInRow rowStart [filler {}, [1, 2, 3, 4, 5, 6, 7, 8]] rowAnswered ∧
    call shortCall rowAnswered = (.ok (), rowUncleared) ∧
    Answers rowAnswered.depthBound shortCall rowAnswered [] ∧
    Begins shortCall rowAnswered answeringNothing shortRunning ∧
    (readCurrentAnswer slotSize shortRunning).1 = .ok [0xCC, 2, 3, 4, 5, 6, 7, 8] ∧
    ¬ComesFrom [filler shortCall.options] [0xCC, 2, 3, 4, 5, 6, 7, 8] ∧
    (readAnswer slotSize rowUncleared).1 = .ok [0xCC, 2, 3, 4, 5, 6, 7, 8] ∧
    ¬ComesFrom (filler shortCall.options :: []) [0xCC, 2, 3, 4, 5, 6, 7, 8] := by
  have hanswers : Answers rowAnswered.depthBound shortCall rowAnswered [] :=
    rowAnswered_begins.answers shortRunning fun _ => .inProgram .here
  -- the second byte is one of the answer of `f`
  have hstale : ¬ComesFrom [filler shortCall.options] [0xCC, 2, 3, 4, 5, 6, 7, 8] := by
    intro hall
    rcases hall 1 (by decide) with ⟨bytes, hmem, hreach, -⟩ | hblank
    · rw [List.mem_singleton.1 hmem] at hreach
      exact absurd hreach (by decide)
    · exact absurd hblank (by decide)
  exact ⟨rowStart_faithful, rowStart_propagates, rowAnswered_inRow, rowAnswered_returns, hanswers,
    rowAnswered_begins, by decide +kernel, hstale, by decide +kernel, hstale⟩

theorem rowAnswered_sees_iff :
    rowStart.stack.Faithful ∧ rowStart.host.registry.Propagates ∧
    rowStart.stack.calls.top? = some ⟨⟨rootFunction, []⟩, 0⟩ ∧
    CallsInRow rowStart [filler {}, [1, 2, 3, 4, 5, 6, 7, 8]] rowAnswered ∧
    Begins shortCall rowAnswered answeringNothing shortRunning ∧
    call shortCall rowAnswered = (.ok (), rowUncleared) ∧
    ∃ first before : List UInt8, readAnswer slotSize rowStart = (.ok first, rowStart) ∧
      before = overlayAll first [filler {}, [1, 2, 3, 4, 5, 6, 7, 8]] ∧
      readAnswer slotSize rowAnswered = (.ok before, rowAnswered) ∧
      readCurrentAnswer slotSize shortRunning
        = (.ok (overlayAll before [filler shortCall.options]), shortRunning) ∧
      (ComesFrom [filler shortCall.options] (overlayAll before [filler shortCall.options]) ↔
        ClearBehind [filler shortCall.options] before) ∧
      ∃ given, Answers rowAnswered.depthBound shortCall rowAnswered given ∧
        readAnswer slotSize rowUncleared
          = (.ok (overlayAll before (filler shortCall.options :: given)), rowUncleared) ∧
        (ComesFrom (filler shortCall.options :: given)
            (overlayAll before (filler shortCall.options :: given)) ↔
          ClearBehind (filler shortCall.options :: given) before) := by
  obtain ⟨first, before, hfirst, hbefore, hread, hbegins, hreturns⟩ :=
    row_sees_iff rowStart_faithful rowStart_propagates rowStart_top rowAnswered_inRow
  obtain ⟨hseen, hclear⟩ := hbegins _ _ _ rowAnswered_begins
  exact ⟨rowStart_faithful, rowStart_propagates, rowStart_top, rowAnswered_inRow,
    rowAnswered_begins, rowAnswered_returns, first, before, hfirst, hbefore, hread, hseen, hclear,
    hreturns _ _ rowAnswered_returns⟩

end Context

end DurableCalls
