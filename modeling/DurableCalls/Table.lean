/-
`Table.lean` -- finite maps as bindings in the order of their first making.

Replacing a binding keeps its place, so the keys come in the order in which they
were first bound, whatever happened to their values since.
-/

set_option autoImplicit false

namespace DurableCalls

/-- A finite map, kept as its bindings. -/
structure Table (κ α : Type) where
  entries : List (κ × α) := []
deriving DecidableEq, Repr

namespace Table

variable {κ α : Type} [DecidableEq κ]

def empty : Table κ α := {}

/-- The value bound to a key. -/
def find? (t : Table κ α) (k : κ) : Option α := (t.entries.find? (·.1 = k)).map (·.2)

def contains (t : Table κ α) (k : κ) : Bool := (t.find? k).isSome

def keys (t : Table κ α) : List κ := t.entries.map (·.1)

def values (t : Table κ α) : List α := t.entries.map (·.2)

def size (t : Table κ α) : Nat := t.entries.length

/-- The bindings with `k` bound to `a`, in its old place or at the end. -/
def insertEntry (k : κ) (a : α) : List (κ × α) → List (κ × α)
  | [] => [(k, a)]
  | (k', b) :: rest => if k' = k then (k, a) :: rest else (k', b) :: insertEntry k a rest

/-- The map that binds `k` to `a` and agrees elsewhere. -/
def insert (t : Table κ α) (k : κ) (a : α) : Table κ α := ⟨insertEntry k a t.entries⟩

def erase (t : Table κ α) (k : κ) : Table κ α := ⟨t.entries.filter (·.1 ≠ k)⟩

theorem find?_insertEntry (k k' : κ) (a : α) (entries : List (κ × α)) :
    ((insertEntry k a entries).find? (·.1 = k')).map (·.2) =
      if k = k' then some a else (entries.find? (·.1 = k')).map (·.2) := by
  induction entries with
  | nil => by_cases h : k = k' <;> simp [insertEntry, h]
  | cons e rest ih =>
    obtain ⟨k₀, b⟩ := e
    by_cases h₀ : k₀ = k
    · subst h₀
      by_cases h : k₀ = k' <;> simp [insertEntry, h]
    · by_cases h₁ : k₀ = k'
      · subst h₁
        simp [insertEntry, h₀, Ne.symm h₀]
      · simp only [insertEntry, h₀, if_false, List.find?_cons, h₁, decide_false]
        exact ih

theorem find?_insert (t : Table κ α) (k k' : κ) (a : α) :
    (t.insert k a).find? k' = if k = k' then some a else t.find? k' :=
  find?_insertEntry k k' a t.entries

end Table

end DurableCalls
