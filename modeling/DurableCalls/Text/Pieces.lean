/-
`Pieces.lean` -- a text cut at every mark, and the lines of a text.

Nothing is lost in a cut but the marks, and no piece has a mark in it. A text without
marks is one piece, and so is the empty text.
-/

set_option autoImplicit false

namespace DurableCalls.Text

/-- The pieces of a text between its marks. -/
def pieces (mark : Char) : List Char → List (List Char)
  | [] => [[]]
  | c :: cs =>
    if c = mark then [] :: pieces mark cs
    else match pieces mark cs with
      | piece :: rest => (c :: piece) :: rest
      | [] => [[c]]

/-- No piece has a mark in it. -/
theorem notMem_of_mem_pieces {mark : Char} {cs piece : List Char}
    (h : piece ∈ pieces mark cs) : mark ∉ piece := by
  induction cs generalizing piece with
  | nil =>
    rw [pieces, List.mem_singleton] at h
    rw [h]
    exact List.not_mem_nil
  | cons c cs ih =>
    rw [pieces] at h
    by_cases hc : c = mark
    · rw [if_pos hc] at h
      rcases List.mem_cons.1 h with rfl | h
      · exact List.not_mem_nil
      · exact ih h
    · rw [if_neg hc] at h
      split at h
      next head rest heq =>
        rcases List.mem_cons.1 h with rfl | h
        · intro hm
          rcases List.mem_cons.1 hm with rfl | hm
          · exact hc rfl
          · exact ih (heq ▸ List.mem_cons_self) hm
        · exact ih (heq ▸ List.mem_cons_of_mem _ h)
      next =>
        rw [List.mem_singleton] at h
        rw [h]
        intro hm
        exact hc (List.mem_singleton.1 hm).symm

/-- A piece without the carriage return at its end, if it has one. -/
def dropReturn (piece : List Char) : List Char :=
  if piece.getLast? = some '\r' then piece.dropLast else piece

/-- The lines of a text that is followed by a newline. A carriage return right before a
newline belongs to the line break. -/
def lines (text : String) : List String :=
  (pieces '\n' text.toList).map fun piece => String.ofList (dropReturn piece)

/-- An empty line is a line. -/
example : lines "a\r\n\nb\r" = ["a", "", "b"] := by decide +kernel

end DurableCalls.Text
