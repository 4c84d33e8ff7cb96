/-
`Walk.lean` -- the walk along the chain ends by itself.

The check numbers the successes in a loop that has no bound: it looks up what has replaced
the current value, gives that edge the next number and goes on from the new value, until
nothing has replaced the value (`Walk`). A map of transitions may well lead around in a
circle. But the walk begins at the initial value. If no value is installed twice, and this
one never, then what it comes by is a path without repetitions (`PathFrom.nodup_afters`),
and such a path has no more steps than there are successes.

`chainFrom` stops after as many steps as there are edges. It is the chain of this walk
(`walk_ends`), so the bound cuts nothing off.
-/
import DurableCalls.Proofs.History.Chains
import DurableCalls.Table

set_option autoImplicit false

namespace DurableCalls

/-- A key that is new goes to the end of the bindings. -/
theorem Table.entries_insert_of_notMem {κ α : Type} [DecidableEq κ] {t : Table κ α} {k : κ}
    (h : k ∉ t.keys) (a : α) : (t.insert k a).entries = t.entries ++ [(k, a)] := by
  obtain ⟨entries⟩ := t
  show Table.insertEntry k a entries = entries ++ [(k, a)]
  induction entries with
  | nil => rfl
  | cons entry rest ih =>
    simp only [Table.keys, List.map_cons, List.mem_cons, not_or] at h
    rw [Table.insertEntry, if_neg (Ne.symm h.1), ih h.2, List.cons_append]

/-- If the keys are bound to the numbers of their places, then each of them finds its first one. -/
theorem Table.find?_zipIdx {κ : Type} [DecidableEq κ] [BEq κ] [LawfulBEq κ] {keys : List κ}
    {t : Table κ Nat} {first : Nat} (hentries : t.entries = keys.zipIdx first) {k : κ}
    (hmem : k ∈ keys) : t.find? k = some (first + keys.idxOf k) := by
  rw [Table.find?, hentries]
  clear hentries
  induction keys generalizing first with
  | nil => cases hmem
  | cons head keys ih =>
    rw [List.zipIdx_cons, List.find?_cons]
    by_cases hhead : head = k
    · simp only [hhead, decide_true, Option.map_some, List.idxOf_cons_self, Nat.add_zero]
    · have hrest := (List.mem_cons.1 hmem).resolve_left (Ne.symm hhead)
      simp only [decide_eq_false hhead]
      rw [ih hrest, List.idxOf_cons_ne _ hhead, Nat.add_right_comm, Nat.add_assoc]

namespace History

/-! ## The loop -/

/-- What each value was replaced by. -/
def transitions (outcomes : List Outcome) : Table UInt32 UInt32 :=
  (successes outcomes).foldl (fun next o => next.insert o.before o.after) .empty

/-- A walk along transitions: the value that it has come to, and the numbers of the edges
that it has taken. -/
structure Walk where
  current : UInt32
  position : Table Edge Nat
deriving DecidableEq, Repr

namespace Walk

def start (init : UInt32) : Walk := ⟨init, .empty⟩

@[simp] theorem current_start (init : UInt32) : (start init).current = init := rfl

@[simp] theorem entries_start (init : UInt32) : (start init).position.entries = [] := rfl

@[simp] theorem size_start (init : UInt32) : (start init).position.size = 0 := rfl

/-- Takes the edge that leads on from the current value, if there is one, and gives it the
next number. -/
def step? (next : Table UInt32 UInt32) (w : Walk) : Option Walk :=
  (next.find? w.current).map fun after =>
    ⟨after, w.position.insert (w.current, after) w.position.size⟩

/-- Takes so many steps. There is no walk of more steps than lead on. -/
def after? (next : Table UInt32 UInt32) : (steps : Nat) → Walk → Option Walk
  | 0, w => some w
  | steps + 1, w => (w.step? next).bind (after? next steps)

/-- The last step may be told apart from those before it. -/
theorem after?_succ (next : Table UInt32 UInt32) (steps : Nat) (w : Walk) :
    w.after? next (steps + 1) = (w.after? next steps).bind (step? next) := by
  induction steps generalizing w with
  | zero => simp only [after?, Option.bind_some, Option.bind_fun_some]
  | succ steps ih =>
    rw [after?, after?, Option.bind_assoc]
    exact Option.bind_congr fun w' _ => ih w'

end Walk

variable {init value : UInt32} {outcomes : List Outcome} {edges : List Edge} {steps more : Nat}
  {next : Table UInt32 UInt32} {w : Walk}

/-! ## The map and the edges -/

/-- If no value was replaced twice, then it does not matter in which order the transitions
went into the map: it finds the one edge that leads on. -/
theorem find?_transitions (hnodup : ((successes outcomes).map (·.before)).Nodup)
    (value : UInt32) : (transitions outcomes).find? value
      = (((successes outcomes).map edgeOf).find? (·.1 = value)).map (·.2) := by
  -- told of any list of successes, on top of any map
  have hfold : ∀ (taken : List Outcome) (known : Table UInt32 UInt32),
      (taken.map (·.before)).Nodup →
      (taken.foldl (fun next o => next.insert o.before o.after) known).find? value
        = (((taken.map edgeOf).find? (·.1 = value)).map (·.2)).or (known.find? value) := by
    intro taken
    induction taken with
    | nil => intro known _; rfl
    | cons o taken ih =>
      intro known hnodup
      rw [List.map_cons, List.nodup_cons] at hnodup
      rw [List.foldl_cons, ih _ hnodup.2, Table.find?_insert, List.map_cons]
      by_cases hvalue : o.before = value
      · have hnone : (taken.map edgeOf).find? (·.1 = value) = none := by
          refine List.find?_eq_none.2 fun edge hedge hfound => ?_
          obtain ⟨p, hp, rfl⟩ := List.mem_map.1 hedge
          have hsame : p.before = o.before := (of_decide_eq_true hfound).trans hvalue.symm
          exact hnodup.1 (hsame ▸ List.mem_map_of_mem hp)
        rw [hnone, if_pos hvalue]
        simp only [List.find?_cons, edgeOf, decide_eq_true hvalue]
        rfl
      · simp only [if_neg hvalue, List.find?_cons, edgeOf, decide_eq_false hvalue]
  rw [transitions, hfold _ _ hnodup]
  exact Option.or_none

/-! ## The chain within a bound -/

/-- A smaller bound cuts the chain off earlier. -/
theorem chainWithin_eq_take (edges : List Edge) (steps more : Nat) (value : UInt32) :
    chainWithin edges steps value = (chainWithin edges (steps + more) value).take steps := by
  induction steps generalizing value with
  | zero => rw [List.take_zero, chainWithin]
  | succ steps ih =>
    rw [Nat.add_right_comm, chainWithin, chainWithin]
    cases edges.find? (·.1 = value) with
    | none => rfl
    | some edge => exact congrArg (edge :: ·) (ih edge.2)

/-- The values behind the initial one, and with it. -/
theorem nodup_chainWithin (hfresh : Fresh init outcomes) (steps : Nat) :
    (init :: (chainWithin ((successes outcomes).map edgeOf) steps init).map (·.2)).Nodup := by
  have hpath := pathFrom_chainWithin ((successes outcomes).map edgeOf) steps init
  have hmem : ∀ o ∈ (chainWithin ((successes outcomes).map edgeOf) steps init).map successOf,
      o ∈ outcomes := by
    intro o ho
    obtain ⟨edge, hedge, rfl⟩ := List.mem_map.1 ho
    exact (mem_successes.1 (mem_successes_of_edge (mem_of_mem_chainWithin hedge))).1
  have honce := List.inj_on_of_nodup_map hfresh.once
  have hnodup := hpath.nodup_afters (fun o ho p hp => honce (hmem o ho) (hmem p hp))
    fun o ho => hfresh.away o (hmem o ho)
  rw [List.map_map] at hnodup
  refine List.nodup_cons.2 ⟨fun hinit => ?_, hnodup⟩
  obtain ⟨edge, hedge, hafter⟩ := List.mem_map.1 hinit
  exact hfresh.away _ (hmem _ (List.mem_map_of_mem hedge)) hafter

/-- **No bound makes the chain longer than there are successes.** The chain comes by no value twice,
so each success is on it once at most. That is why the check may stop after so many steps. -/
theorem length_chainWithin_le (hfresh : Fresh init outcomes) (steps : Nat) :
    (chainWithin ((successes outcomes).map edgeOf) steps init).length
      ≤ (successes outcomes).length := by
  have hnodup := ((nodup_chainWithin hfresh steps).of_cons).of_map
  have hsub := List.subperm_of_subset hnodup fun edge hedge => mem_of_mem_chainWithin hedge
  have hle := hsub.length_le
  rwa [List.length_map] at hle

/-- So the bound that the check sets cuts nothing off. -/
theorem chainFrom_eq_chainWithin (hfresh : Fresh init outcomes) (more : Nat) :
    chainFrom init ((successes outcomes).map edgeOf)
      = chainWithin ((successes outcomes).map edgeOf) ((successes outcomes).length + more)
          init := by
  rw [chainFrom, List.length_map, chainWithin_eq_take _ _ more,
    List.take_of_length_le (length_chainWithin_le hfresh _)]

/-! ## The loop along the chain -/

/-- What the walk comes to, step by step, if the bound of the chain is not reached: where the
chain ends, the walk does. -/
theorem current_after? (hnext : ∀ value, next.find? value = (edges.find? (·.1 = value)).map (·.2))
    (hlength : (chainWithin edges more w.current).length < more) (steps : Nat) :
    (w.after? next steps).map (·.current)
      = (w.current :: (chainWithin edges more w.current).map (·.2))[steps]? := by
  induction steps generalizing w more with
  | zero => rfl
  | succ steps ih =>
    obtain ⟨more, rfl⟩ : ∃ n, more = n + 1 := ⟨more - 1, by omega⟩
    rw [Walk.after?, Walk.step?, hnext, List.getElem?_cons_succ]
    rw [chainWithin] at hlength ⊢
    cases hfind : edges.find? (·.1 = w.current) with
    | none => rfl
    | some edge =>
      rw [hfind] at hlength
      exact ih (w := ⟨edge.2, _⟩) (Nat.lt_of_succ_lt_succ hlength)

/-- The edges of the chain get the next numbers, in their order, if none of them has one yet. The
induction is on the number of steps. -/
theorem position_after? (hnext : ∀ value, next.find? value = (edges.find? (·.1 = value)).map (·.2))
    (hfresh : (w.position.keys ++ chainWithin edges more w.current).Nodup) :
    ∃ done, w.after? next (chainWithin edges more w.current).length = some done ∧
      done.position.entries = w.position.entries
        ++ (chainWithin edges more w.current).zipIdx w.position.size := by
  induction more generalizing w with
  | zero => exact ⟨w, rfl, (List.append_nil _).symm⟩
  | succ more ih =>
    rw [chainWithin] at hfresh ⊢
    cases hfind : edges.find? (·.1 = w.current) with
    | none => exact ⟨w, rfl, (List.append_nil _).symm⟩
    | some edge =>
      have hedge : (w.current, edge.2) = edge :=
        Prod.ext (of_decide_eq_true (List.find?_some hfind :)).symm rfl
      simp only [hfind] at hfresh ⊢
      -- the edge is new, so it goes behind the others
      have hnew : edge ∉ w.position.keys := fun hmem =>
        List.disjoint_of_nodup_append hfresh hmem List.mem_cons_self
      have hentries : (w.position.insert edge w.position.size).entries
          = w.position.entries ++ [(edge, w.position.size)] := Table.entries_insert_of_notMem hnew _
      have hkeys : (w.position.insert edge w.position.size).keys = w.position.keys ++ [edge] := by
        rw [Table.keys, hentries, List.map_append]
        rfl
      have hsize : (w.position.insert edge w.position.size).size = w.position.size + 1 := by
        rw [Table.size, hentries, List.length_append]
        rfl
      obtain ⟨done, hdone, hnumbers⟩ := ih (w := ⟨edge.2, w.position.insert edge w.position.size⟩)
        (by rw [hkeys, List.append_assoc]; exact hfresh)
      refine ⟨done, ?_, ?_⟩
      · rw [List.length_cons, Walk.after?, Walk.step?, hnext, hfind]
        simp only [Option.map_some, Option.bind_some, hedge]
        exact hdone
      · rw [hnumbers, hentries, hsize, List.zipIdx_cons, List.append_assoc]
        rfl

/-! ## The walk of the check -/

/-- **The walk along the chain ends by itself.** If the outcomes have passed the checks in
front of it, it comes by the values of a chain, each of them once, and after the last one
nothing leads on. The chain has no more edges than there are successes. They are numbered
from 0 on, in the order of the walk and none of them twice. And it is the chain that the check
goes by, which tells the numbers by the places of the edges in it. -/
theorem walk_ends (threads : List (List Outcome)) (init : UInt32)
    (hchecks : checkFresh init [] [] threads.flatten = .ok ()) :
    ∃ chain : List Edge,
      chain.length ≤ (successes threads.flatten).length ∧
      (init :: chain.map (·.2)).Nodup ∧
      (∀ steps, ((Walk.start init).after? (transitions threads.flatten) steps).map (·.current)
        = (init :: chain.map (·.2))[steps]?) ∧
      (∃ done, (Walk.start init).after? (transitions threads.flatten) chain.length = some done ∧
        done.step? (transitions threads.flatten) = none ∧
        done.position.entries = chain.zipIdx ∧ done.position.keys.Nodup ∧
        ∀ edge ∈ chain, done.position.find? edge = some (chain.idxOf edge)) ∧
      PathFrom init (chain.map successOf) ∧
      chain = chainFrom init ((successes threads.flatten).map edgeOf) := by
  obtain ⟨hfresh, hnodup⟩ := checkFresh_eq_ok_iff.1 hchecks
  have hnext := find?_transitions hnodup
  have hchain := chainFrom_eq_chainWithin hfresh 1
  have hlength := length_chainWithin_le hfresh ((successes threads.flatten).length + 1)
  have hvalues := nodup_chainWithin hfresh ((successes threads.flatten).length + 1)
  have hpath := pathFrom_chainWithin ((successes threads.flatten).map edgeOf)
    ((successes threads.flatten).length + 1) init
  have hcurrent := current_after? (w := Walk.start init) hnext (Nat.lt_succ_of_le hlength)
  -- no edge has a number yet
  have hunnumbered : ((Walk.start init).position.keys
      ++ chainWithin ((successes threads.flatten).map edgeOf)
        ((successes threads.flatten).length + 1) (Walk.start init).current).Nodup :=
    hvalues.of_cons.of_map
  obtain ⟨done, hdone, hnumbers⟩ := position_after? hnext hunnumbered
  simp only [Walk.current_start, Walk.entries_start, Walk.size_start, List.nil_append, ← hchain]
    at hlength hvalues hpath hcurrent hdone hnumbers
  refine ⟨_, hlength, hvalues, hcurrent, ⟨done, hdone, ?_, hnumbers, ?_, fun edge hedge => ?_⟩,
    hpath, rfl⟩
  · -- one step more would come to a value behind the last one
    have hbehind := hcurrent ((chainFrom init ((successes threads.flatten).map edgeOf)).length + 1)
    rw [Walk.after?_succ, hdone, List.getElem?_eq_none (by simp)] at hbehind
    exact Option.map_eq_none_iff.1 hbehind
  · have hkeys : done.position.keys
        = chainFrom init ((successes threads.flatten).map edgeOf) := by
      rw [Table.keys, hnumbers]
      exact List.zipIdx_map_fst _ _
    rw [hkeys]
    exact hvalues.of_cons.of_map
  · have hfind := Table.find?_zipIdx hnumbers hedge
    rwa [Nat.zero_add] at hfind

/-- Two threads whose successes are a chain of three edges, with a failure beside them. -/
theorem walk_ends_threeEdges :
    let threads : List (List Outcome) :=
      [[⟨1, 2, true⟩, ⟨3, 4, true⟩], [⟨2, 9, false⟩, ⟨2, 3, true⟩]]
    checkFresh 1 [] [] threads.flatten = .ok () ∧
    chainFrom 1 ((successes threads.flatten).map edgeOf) = [(1, 2), (2, 3), (3, 4)] ∧
    ∃ done, (Walk.start 1).after? (transitions threads.flatten) 3 = some done ∧
      done.step? (transitions threads.flatten) = none ∧
      done.position.entries = [((1, 2), 0), ((2, 3), 1), ((3, 4), 2)] := by
  intro threads
  have hchecks : checkFresh 1 [] [] threads.flatten = .ok () := by decide
  have hchain :
      chainFrom 1 ((successes threads.flatten).map edgeOf) = [(1, 2), (2, 3), (3, 4)] := by
    decide
  obtain ⟨_, -, -, -, ⟨done, hdone, hend, hnumbers, -⟩, -, rfl⟩ := walk_ends threads 1 hchecks
  rw [hchain] at hdone hnumbers
  exact ⟨hchecks, hchain, done, hdone, hend, hnumbers⟩

end History

end DurableCalls
