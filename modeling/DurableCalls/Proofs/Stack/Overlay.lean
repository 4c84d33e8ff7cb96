/-
`Overlay.lean` -- answers that are written over each other in a slot.

An answer goes over the first bytes of a slot and leaves those behind it. So a slot shows, byte
by byte, the last answer that was long enough to reach the byte, and what was there before if
none was. It shows nothing but the answers exactly if the bytes that none of them reaches were
unanswered before (`comesFrom_overlayAll_iff`).
-/
import DurableCalls.Proofs.Stack.Slots

set_option autoImplicit false

namespace DurableCalls

namespace Slot

/-- The bytes of a slot with an answer written over the first of them. -/
def overlay (slot bytes : List UInt8) : List UInt8 := bytes ++ slot.drop bytes.length

/-- The bytes of a slot with answer after answer written over them. -/
def overlayAll (slot : List UInt8) (answers : List (List UInt8)) : List UInt8 :=
  answers.foldl overlay slot

/-- Each of the answers is one that a slot takes: it has 1 to 8 bytes. -/
def AnswersFit (answers : List (List UInt8)) : Prop :=
  ∀ bytes ∈ answers, 1 ≤ bytes.length ∧ bytes.length ≤ slotSize

variable {slot bytes : List UInt8} {answers more : List (List UInt8)} {i : Nat}

theorem answersFit_nil : AnswersFit [] := List.forall_mem_nil _

theorem answersFit_cons : AnswersFit (bytes :: answers) ↔
    (1 ≤ bytes.length ∧ bytes.length ≤ slotSize) ∧ AnswersFit answers :=
  List.forall_mem_cons

theorem answersFit_append :
    AnswersFit (answers ++ more) ↔ AnswersFit answers ∧ AnswersFit more :=
  List.forall_mem_append

theorem getElem?_overlay (slot bytes : List UInt8) (i : Nat) :
    (overlay slot bytes)[i]? = if i < bytes.length then bytes[i]? else slot[i]? := by
  rw [overlay]
  by_cases hi : i < bytes.length
  · rw [if_pos hi, List.getElem?_append_left hi]
  · have hsum : bytes.length + (i - bytes.length) = i := by omega
    rw [if_neg hi, List.getElem?_append_right (by omega), List.getElem?_drop, hsum]

/-- An answer as long as the slot leaves nothing of it. -/
theorem overlay_of_length_le (h : slot.length ≤ bytes.length) : overlay slot bytes = bytes := by
  rw [overlay, List.drop_eq_nil_of_le h, List.append_nil]

@[simp] theorem overlayAll_cons (slot bytes : List UInt8) (answers : List (List UInt8)) :
    overlayAll slot (bytes :: answers) = overlayAll (overlay slot bytes) answers := rfl

theorem overlayAll_append (slot : List UInt8) (answers more : List (List UInt8)) :
    overlayAll slot (answers ++ more) = overlayAll (overlayAll slot answers) more :=
  List.foldl_append

/-- A byte that no answer reaches is what it was. -/
theorem getElem?_overlayAll_of_le (h : ∀ bytes ∈ answers, bytes.length ≤ i) :
    (overlayAll slot answers)[i]? = slot[i]? := by
  induction answers generalizing slot with
  | nil => rfl
  | cons bytes answers ih =>
    have hfirst := h bytes List.mem_cons_self
    rw [overlayAll_cons, ih fun next hnext => h next (List.mem_cons_of_mem bytes hnext),
      getElem?_overlay, if_neg (Nat.not_lt.2 hfirst)]

/-- A byte that some answer reaches is one of an answer. -/
theorem exists_getElem?_overlayAll (h : ∃ bytes ∈ answers, i < bytes.length) :
    ∃ bytes ∈ answers, i < bytes.length ∧ (overlayAll slot answers)[i]? = bytes[i]? := by
  induction answers generalizing slot with
  | nil =>
    obtain ⟨bytes, hmem, -⟩ := h
    cases hmem
  | cons bytes answers ih =>
    by_cases hlater : ∃ bytes ∈ answers, i < bytes.length
    · obtain ⟨last, hmem, hreach, heq⟩ := ih hlater
      exact ⟨last, List.mem_cons_of_mem bytes hmem, hreach, heq⟩
    · -- this is the last one that reaches the byte
      have hle : ∀ next ∈ answers, next.length ≤ i := fun next hnext =>
        Nat.not_lt.1 fun hlt => hlater ⟨next, hnext, hlt⟩
      obtain ⟨first, hmem, hreach⟩ := h
      have hfirst : i < bytes.length := by
        rcases List.mem_cons.1 hmem with rfl | hnext
        · exact hreach
        · exact absurd hreach (Nat.not_lt.2 (hle first hnext))
      refine ⟨bytes, List.mem_cons_self, hfirst, ?_⟩
      rw [overlayAll_cons, getElem?_overlayAll_of_le hle, getElem?_overlay, if_pos hfirst]

/-- Each byte of a slot is one of these answers, or it is unanswered. -/
def ComesFrom (answers : List (List UInt8)) (slot : List UInt8) : Prop :=
  ∀ i, i < slotSize →
    (∃ bytes ∈ answers, i < bytes.length ∧ slot[i]? = bytes[i]?) ∨ slot[i]? = some unanswered

/-- The bytes of a slot that none of these answers reaches are unanswered. -/
def ClearBehind (answers : List (List UInt8)) (slot : List UInt8) : Prop :=
  ∀ i, i < slotSize → (∀ bytes ∈ answers, bytes.length ≤ i) → slot[i]? = some unanswered

/-- **When a slot shows nothing but these answers**: the bytes that they do not reach were
unanswered before. -/
theorem comesFrom_overlayAll_iff :
    ComesFrom answers (overlayAll slot answers) ↔ ClearBehind answers slot := by
  constructor
  · intro h i hi hle
    rcases h i hi with ⟨bytes, hmem, hreach, -⟩ | hblank
    · exact absurd hreach (Nat.not_lt.2 (hle bytes hmem))
    · rw [← hblank, getElem?_overlayAll_of_le hle]
  · intro h i hi
    by_cases hreach : ∃ bytes ∈ answers, i < bytes.length
    · exact .inl (exists_getElem?_overlayAll hreach)
    · have hle : ∀ bytes ∈ answers, bytes.length ≤ i := fun bytes hmem =>
        Nat.not_lt.1 fun hlt => hreach ⟨bytes, hmem, hlt⟩
      rw [getElem?_overlayAll_of_le hle]
      exact .inr (h i hi hle)

theorem toList_cleared : cleared.toList = List.replicate slotSize unanswered := by decide

end Slot

/-- **What a slot holds once it was written to**: the new bytes, and behind them what it held
before. A short write does not clear the rest of the slot. -/
theorem Region.read_put_overlay {r : Region} {offset : Nat} {slot bytes : List UInt8}
    (h : r.read offset slotSize = .ok slot) (hlen : bytes.length ≤ slotSize) :
    (r.put offset bytes).read offset slotSize = .ok (Slot.overlay slot bytes) := by
  have hslot : slot.length = slotSize := (read_eq_ok_iff.1 h).2.1
  have hold : (slot.take bytes.length).length = bytes.length := by
    rw [List.length_take]
    omega
  -- the slot, cut behind what the answer goes over
  rw [← List.take_append_drop bytes.length slot, ← List.nil_append (_ ++ _)] at h
  exact read_put_within h hold

end DurableCalls
