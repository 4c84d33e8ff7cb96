/-
`Exclusive.lean` -- no file has two regions.

A disk grants a file to one holder at a time: what is asked in front of a region is whether
its file is held, and only then is the file emptied or mapped. So whatever is created, opened
and dropped, and in whatever order (`Move`), the live regions are over different files
(`Exclusive`), and a file is held exactly as long as one of them is live, apart from the files
that somebody else has held from the start.

A call that is refused comes back with the disk as it was (`Barred.openOrCreate_eq`). The only
refusal behind the lock is that of a size that no file has. It comes when the file is empty
already, and the lock is gone again (`cases_of_openOrCreate_eq_error`).
-/
import Mathlib.Data.List.InsertIdx
import Mathlib.Data.List.Nodup
import DurableCalls.Proofs.Disk.Reopening

set_option autoImplicit false

namespace DurableCalls

namespace Disk

variable {d d' : Disk} {p : Path} {place : List String} {file : File} {r : Region} {size : Nat}
  {failure : Failure} {fresh : Bool}

/-! ## 1. Locks -/

/-- Somebody holds the file at a place. -/
def IsHeld (d : Disk) (place : List String) : Prop :=
  ∃ file, d.files.find? place = some file ∧ file.held = true

theorem not_isHeld_iff :
    ¬d.IsHeld place ↔ ∀ file, d.files.find? place = some file → file.held = false := by
  simp only [IsHeld, not_exists, not_and, Bool.not_eq_true]

theorem isHeld_put : (d.put p file).IsHeld place ↔
    if p.place = place then file.held = true else d.IsHeld place := by
  unfold IsHeld
  rw [find?_put]
  by_cases h : p.place = place
  · simp only [if_pos h, Option.some.injEq, exists_eq_left']
  · simp only [if_neg h]

/-- What a path that leads to a file finds there. -/
theorem Reaches.locate_eq (h : d.Reaches p) (make : Bool) :
    d.locate p make = match d.files.find? p.place with
      | some file => .ok (some file)
      | none => if make then .ok none else .error .notFound := by
  obtain ⟨place, hwalk⟩ := h.walked
  obtain ⟨last, hlast, hdot, hlong⟩ := h.last
  simp only [Disk.locate, h.named, hwalk, hlast, hdot, hlong, h.not_folder, h.file_name,
    bind, Except.bind, Functor.discard, Functor.mapConst, Except.map, Function.comp,
    Bool.and_false, Bool.or_false, Bool.false_eq_true, if_false]
  rfl

/-! ## 2. Ways to a region -/

/-- The constructors of regions. -/
inductive Opening
  | create
  | openFile
  | openOrCreate (fresh : Bool)
deriving DecidableEq, Repr

namespace Opening

def run : Opening → Disk → Path → (size : Nat) → Except Failure Region × Disk
  | create, d, p, size => d.create p size
  | openFile, d, p, size => d.openFile p size
  | openOrCreate fresh, d, p, size => d.openOrCreate p size fresh

/-- Whether the file is made or emptied. -/
def isFresh : Opening → Bool
  | create => true
  | openFile => false
  | openOrCreate fresh => fresh

/-- There are two ways to a region under three names. -/
theorem run_eq (how : Opening) (d : Disk) (p : Path) (size : Nat) :
    how.run d p size = d.openOrCreate p size how.isFresh := by
  cases how <;> rfl

end Opening

/-- A call that gives a region has found its file free, and holds it now. -/
theorem unheld_of_openOrCreate (h : d.openOrCreate p size fresh = (.ok r, d')) :
    ¬d.IsHeld p.place := by
  rw [not_isHeld_iff]
  cases fresh with
  | true => exact (create_eq_ok h).2.1
  | false =>
    rcases openFile_cases d p size with ⟨f, hrun⟩ | ⟨file, _, -, hfile, hheld, -, -, -, hrun⟩
    · rw [openOrCreate, if_neg Bool.false_ne_true, hrun] at h
      cases h
    · intro file' hfile'
      rw [hfile] at hfile'
      cases hfile'
      exact hheld

/-- **Refusals.** A call that is refused leaves the disk, except that a fresh file of a size
that no file has stays behind empty and free. -/
theorem cases_of_openOrCreate_eq_error
    (h : d.openOrCreate p size fresh = (.error failure, d')) :
    d' = d ∨
    (fresh = true ∧ ¬d.IsHeld p.place ∧ d.Reaches p ∧
      (∃ kind, checkSize size = .error kind ∧ failure = .io p.text kind) ∧
      d' = d.put p { cells := #[] }) := by
  cases fresh with
  | false =>
    rcases openFile_cases d p size with ⟨f, hrun⟩ | ⟨_, _, -, -, -, -, -, -, hrun⟩
    · rw [openOrCreate, if_neg Bool.false_ne_true, hrun] at h
      cases h
      exact .inl rfl
    · rw [openOrCreate, if_neg Bool.false_ne_true, hrun] at h
      cases h
  | true =>
    -- at h] a creation checks the size, the path and the lock before it writes
    rw [openOrCreate, if_pos rfl, create] at h
    by_cases hzero : size = 0
    · rw [if_pos hzero] at h
      cases h
      exact .inl rfl
    rw [if_neg hzero] at h
    cases hlocate : d.locate p true with
    | error kind =>
      rw [hlocate] at h
      cases h
      exact .inl rfl
    | ok found =>
      obtain ⟨hreaches, hfile⟩ := reaches_of_locate hlocate (.inl rfl)
      rw [hlocate] at h
      simp only at h
      by_cases hheld : (found.map File.held).getD false = true
      · rw [if_pos hheld] at h
        cases h
        exact .inl rfl
      rw [if_neg hheld] at h
      have hunheld : ¬d.IsHeld p.place := by
        rintro ⟨file, hfound, hlocked⟩
        rw [← hfile, hfound] at hheld
        exact hheld hlocked
      split at h
      next kind hsize =>
        -- the file was emptied by then, and only its new size is refused
        cases h
        exact .inr ⟨rfl, hunheld, hreaches, ⟨kind, hsize, rfl⟩, rfl⟩
      next => cases h

/-- What bars the way to a region, and what the caller is told. In all of these cases the files that
are there keep their bytes and their locks. -/
inductive Barred (d : Disk) (p : Path) (size : Nat) : (fresh : Bool) → Failure → Prop
  | empty (hsize : size = 0) : Barred d p size true (.setup (.emptyRegion p.text))
  | held {fresh : Bool} (hreaches : d.Reaches p) (hheld : d.IsHeld p.place)
      (hsize : fresh = true → size ≠ 0) : Barred d p size fresh (.io p.text .wouldBlock)
  | missing (hreaches : d.Reaches p) (hnone : d.files.find? p.place = none) :
      Barred d p size false (.io p.text .notFound)
  | short {file : File} (hreaches : d.Reaches p) (hfile : d.files.find? p.place = some file)
      (hfree : file.held = false) (hshort : file.cells.size < size) :
      Barred d p size false (.setup (.shortFile p.text file.cells.size size))

/-- A call that is barred changes nothing. -/
theorem Barred.openOrCreate_eq (h : Barred d p size fresh failure) :
    d.openOrCreate p size fresh = (.error failure, d) := by
  cases h with
  | empty hsize => rw [openOrCreate, if_pos rfl, create, if_pos hsize]
  | held hreaches hheld hsize =>
    obtain ⟨file, hfile, hlocked⟩ := hheld
    cases fresh with
    | true =>
      rw [openOrCreate, if_pos rfl, create, if_neg (hsize rfl), hreaches.locate_eq, hfile]
      exact if_pos hlocked
    | false =>
      rw [openOrCreate, if_neg Bool.false_ne_true, openFile, hreaches.locate_eq, hfile]
      exact if_pos hlocked
  | missing hreaches hnone =>
    rw [openOrCreate, if_neg Bool.false_ne_true, openFile, hreaches.locate_eq, hnone]
    rfl
  | short hreaches hfile hfree hshort =>
    rw [openOrCreate, if_neg Bool.false_ne_true, openFile, hreaches.locate_eq, hfile]
    simp only [hfree, Bool.false_eq_true, if_false, if_pos hshort]

/-- A region of any size that a file may have is created over a free file. Together with what bars a
call this says exactly when a call succeeds. -/
theorem exists_create (hreaches : d.Reaches p) (hfree : ¬d.IsHeld p.place) (hsize : size ≠ 0)
    (hcheck : checkSize size = .ok ()) : ∃ r d', d.create p size = (.ok r, d') := by
  have hlocate : d.locate p true = .ok (d.files.find? p.place) := by
    rw [hreaches.locate_eq]
    cases d.files.find? p.place <;> rfl
  have hunlocked : ¬((d.files.find? p.place).map File.held).getD false = true := by
    intro hlocked
    cases hfile : d.files.find? p.place with
    | none =>
      rw [hfile] at hlocked
      cases hlocked
    | some file =>
      rw [hfile] at hlocked
      exact hfree ⟨file, hfile, hlocked⟩
  rw [create, if_neg hsize, hlocate]
  simp only [if_neg hunlocked]
  split
  next kind herror =>
    rw [hcheck] at herror
    cases herror
  next => exact ⟨_, _, rfl⟩

/-- A region is opened over the first bytes of a free file that has as many. -/
theorem exists_openFile (hreaches : d.Reaches p) (hfile : d.files.find? p.place = some file)
    (hfree : file.held = false) (hle : size ≤ file.cells.size) (hlt : size < sizeLimit) :
    ∃ r d', d.openFile p size = (.ok r, d') ∧ r.cells = file.cells.extract 0 size := by
  rw [openFile, hreaches.locate_eq, hfile]
  simp only [hfree, Bool.false_eq_true, if_false, if_neg (Nat.not_lt.2 hle)]
  rw [dif_pos hlt]
  exact ⟨_, _, rfl, rfl⟩

/-- The file of a region is there and long enough, and its path leads to it. -/
def Backs (d : Disk) (r : Region) : Prop :=
  d.Reaches r.path ∧
    ∃ file, d.files.find? r.path.place = some file ∧ r.size ≤ file.cells.size

theorem Backs.put (h : d.Backs r) (hne : p.place ≠ r.path.place) : (d.put p file).Backs r := by
  obtain ⟨hreaches, file', hfile, hle⟩ := h
  exact ⟨hreaches.of_folders rfl, file', by rw [find?_put, if_neg hne]; exact hfile, hle⟩

end Disk

/-! ## 3. Regions that come and go -/

/-- A disk and the live regions over its files. A region is live from the constructor that gave it
until it is dropped, and it is written to in between. -/
structure Holdings where
  disk : Disk
  live : List Region := []

/-- What is done with regions. They are named by their places in the list of the live ones, and a
move that names none of them does nothing. -/
inductive Move
  | take (how : Disk.Opening) (p : Path) (size : Nat)
  | write (i offset : Nat) (data : List UInt8)
  | drop (i : Nat)

namespace Holdings

open Disk

variable {d : Disk} {s : Holdings} {p : Path} {r : Region} {i size : Nat}

/-- The places of the live regions. -/
def places (s : Holdings) : List (List String) := s.live.map (·.path.place)

/-- The number in a move counts the live regions. -/
def step (s : Holdings) : Move → Holdings
  | .take how p size =>
    match how.run s.disk p size with
    | (.ok r, d) => ⟨d, s.live ++ [r]⟩
    | (.error _, d) => { s with disk := d }
  | .write i offset data =>
    match s.live[i]? with
    | some r => { s with live := s.live.set i (Region.write offset data r).2 }
    | none => s
  | .drop i =>
    match s.live[i]? with
    | some r => ⟨s.disk.close r, s.live.eraseIdx i⟩
    | none => s

/-- The holdings after all moves, from no regions at all. -/
def after (d : Disk) (moves : List Move) : Holdings := moves.foldl step ⟨d, []⟩

/-! ## 4. Exclusive holdings -/

/-- No two live regions are over one file, and they hold theirs, besides those that somebody
held on the disk before. -/
structure Exclusive (d : Disk) (s : Holdings) : Prop where
  folders_eq : s.disk.folders = d.folders
  nodup : s.places.Nodup
  held_iff : ∀ place, s.disk.IsHeld place ↔ d.IsHeld place ∨ place ∈ s.places
  foreign : ∀ r ∈ s.live, ¬d.IsHeld r.path.place
  backed : ∀ r ∈ s.live, s.disk.Backs r

namespace Exclusive

theorem start (d : Disk) : Exclusive d ⟨d, []⟩ where
  folders_eq := rfl
  nodup := List.nodup_nil
  held_iff place := by simp [places]
  foreign r hr := by cases hr
  backed r hr := by cases hr

theorem mem_places (hr : r ∈ s.live) : r.path.place ∈ s.places :=
  List.mem_map_of_mem hr

theorem getElem?_places (hr : s.live[i]? = some r) : s.places[i]? = some r.path.place := by
  rw [places, List.getElem?_map, hr]
  rfl

theorem ne_of_free (h : Exclusive d s) {place : List String} (hfree : ¬s.disk.IsHeld place)
    (hr : r ∈ s.live) : place ≠ r.path.place := by
  rintro rfl
  exact hfree ((h.held_iff _).2 (.inr (mem_places hr)))

/-- A place that no live region is at may get another free file. -/
theorem put (h : Exclusive d s) {file : File} (hfree : ¬s.disk.IsHeld p.place)
    (hunlocked : file.held = false) : Exclusive d { s with disk := s.disk.put p file } where
  folders_eq := h.folders_eq
  nodup := h.nodup
  held_iff place := by
    rw [isHeld_put]
    by_cases hplace : p.place = place
    · subst hplace
      rw [if_pos rfl, hunlocked]
      exact iff_of_false Bool.false_ne_true fun hor => hfree ((h.held_iff _).2 hor)
    · rw [if_neg hplace]
      exact h.held_iff place
  foreign := h.foreign
  backed r hr := (h.backed r hr).put (h.ne_of_free hfree hr)

/-- A region that is taken is over a file of its own: the file was free before, so no live region is
over it, and it is held now. -/
theorem take (h : Exclusive d s) {tail : Array UInt8} (hreaches : s.disk.Reaches r.path)
    (hfree : ¬s.disk.IsHeld r.path.place) :
    Exclusive d ⟨s.disk.put r.path { cells := r.cells ++ tail, held := true }, s.live ++ [r]⟩ where
  folders_eq := h.folders_eq
  nodup := by
    have hnew : r.path.place ∉ s.places := fun hmem => hfree ((h.held_iff _).2 (.inr hmem))
    show (List.map _ (s.live ++ [r])).Nodup
    rw [List.map_append, List.nodup_append]
    refine ⟨h.nodup, List.nodup_singleton _, ?_⟩
    rintro place hplace _ hlast rfl
    rw [List.map_singleton, List.mem_singleton] at hlast
    exact hnew (hlast ▸ hplace)
  held_iff place := by
    have hplaces : place ∈ List.map (·.path.place) (s.live ++ [r])
        ↔ place ∈ s.places ∨ place = r.path.place := by
      rw [List.map_append, List.mem_append, List.map_singleton, List.mem_singleton]
      rfl
    show (s.disk.put _ _).IsHeld place ↔ d.IsHeld place ∨ place ∈ List.map _ (s.live ++ [r])
    rw [isHeld_put, hplaces]
    by_cases hplace : r.path.place = place
    · simp [hplace]
    · rw [if_neg hplace, h.held_iff place]
      simp [Ne.symm hplace]
  foreign r' hr' := by
    rcases List.mem_append.1 hr' with hr' | hr'
    · exact h.foreign r' hr'
    · rw [List.mem_singleton.1 hr']
      exact fun hheld => hfree ((h.held_iff _).2 (.inl hheld))
  backed r' hr' := by
    rcases List.mem_append.1 hr' with hr' | hr'
    · exact (h.backed r' hr').put (h.ne_of_free hfree hr')
    · rw [List.mem_singleton.1 hr']
      refine ⟨hreaches.of_folders rfl, _, by rw [find?_put, if_pos rfl], ?_⟩
      rw [Region.size, Array.size_append]
      omega

/-- A region may be replaced by one of the same size over the same file. -/
theorem set (h : Exclusive d s) {r' : Region} (hr : s.live[i]? = some r)
    (hpath : r'.path = r.path) (hsize : r'.size = r.size) :
    Exclusive d { s with live := s.live.set i r' } := by
  have hplaces : List.map (·.path.place) (s.live.set i r') = s.places := by
    obtain ⟨hlt, hplace⟩ := List.getElem?_eq_some_iff.1 (getElem?_places hr)
    rw [List.map_set, hpath, ← hplace]
    exact List.set_getElem_self hlt
  have hlive : ∀ r'' ∈ s.live.set i r', r'' ∈ s.live ∨ r'' = r' := fun _ =>
    List.mem_or_eq_of_mem_set
  have hmem : r ∈ s.live := List.mem_of_getElem? hr
  refine ⟨h.folders_eq, ?_, fun place => ?_, fun r'' hr'' => ?_, fun r'' hr'' => ?_⟩
  · show (List.map _ (s.live.set i r')).Nodup
    rw [hplaces]
    exact h.nodup
  · show s.disk.IsHeld place ↔ d.IsHeld place ∨ place ∈ List.map _ (s.live.set i r')
    rw [hplaces]
    exact h.held_iff place
  · rcases hlive r'' hr'' with hold | rfl
    · exact h.foreign r'' hold
    · rw [hpath]
      exact h.foreign r hmem
  · rcases hlive r'' hr'' with hold | rfl
    · exact h.backed r'' hold
    · rw [Backs, hpath, hsize]
      exact h.backed r hmem

/-- What is left when a region is dropped are the places of the others. No two live regions are over
one file, so exactly one place goes. -/
theorem mem_places_drop (h : Exclusive d s) (hr : s.live[i]? = some r) (place : List String) :
    place ∈ List.map (·.path.place) (s.live.eraseIdx i) ↔
      place ∈ s.places ∧ place ≠ r.path.place := by
  have hi := getElem?_places hr
  obtain ⟨hlt, -⟩ := List.getElem?_eq_some_iff.1 hi
  rw [← List.eraseIdx_map, List.mem_eraseIdx_iff_getElem?]
  -- no place comes twice, so to be at another index is to be another place
  show (∃ j, j ≠ i ∧ s.places[j]? = some place) ↔ _
  constructor
  · rintro ⟨j, hne, hj⟩
    refine ⟨List.mem_of_getElem? hj, ?_⟩
    rintro rfl
    exact hne ((List.getElem?_inj hlt h.nodup).1 (hi.trans hj.symm)).symm
  · rintro ⟨hmem, hne⟩
    obtain ⟨j, hj⟩ := List.mem_iff_getElem?.1 hmem
    refine ⟨j, ?_, hj⟩
    rintro rfl
    rw [hi] at hj
    exact hne (Option.some.inj hj).symm

/-- A drop frees one file and leaves the others to their regions. -/
theorem drop (h : Exclusive d s) (hr : s.live[i]? = some r) :
    Exclusive d ⟨s.disk.close r, s.live.eraseIdx i⟩ := by
  obtain ⟨tail, hclose⟩ := close_eq_put s.disk r
  have hmem : r ∈ s.live := List.mem_of_getElem? hr
  have hothers : ∀ r' ∈ s.live.eraseIdx i, r.path.place ≠ r'.path.place := fun r' hr' =>
    ((h.mem_places_drop hr r'.path.place).1 (List.mem_map_of_mem hr')).2.symm
  rw [hclose]
  refine ⟨h.folders_eq, ?_, fun place => ?_,
    fun r' hr' => h.foreign r' (List.mem_of_mem_eraseIdx hr'),
    fun r' hr' => (h.backed r' (List.mem_of_mem_eraseIdx hr')).put (hothers r' hr')⟩
  · show (List.map _ (s.live.eraseIdx i)).Nodup
    rw [← List.eraseIdx_map]
    exact h.nodup.sublist (List.eraseIdx_sublist _ i)
  · show (s.disk.put _ _).IsHeld place ↔
      d.IsHeld place ∨ place ∈ List.map _ (s.live.eraseIdx i)
    rw [isHeld_put, h.mem_places_drop hr]
    -- the place of the region is free, and what is said of the others stays
    by_cases hplace : r.path.place = place
    · subst hplace
      rw [if_pos rfl]
      exact iff_of_false Bool.false_ne_true
        fun hor => hor.elim (h.foreign r hmem) fun hgone => hgone.2 rfl
    · rw [if_neg hplace, h.held_iff place]
      simp [Ne.symm hplace]

/-- **No move gives a file a second region.** A file is opened or made for a region only while
nobody holds its lock, and a region that is dropped gives its lock back. A move that is refused may
leave a file that it has made, but no lock. -/
theorem step (h : Exclusive d s) (move : Move) : Exclusive d (s.step move) := by
  cases move with
  | take how p size =>
    -- a refused creation may leave an empty file behind, and that one is free
    rw [Holdings.step, how.run_eq]
    rcases hrun : s.disk.openOrCreate p size how.isFresh with ⟨failure | r, d'⟩
    · rcases cases_of_openOrCreate_eq_error hrun with rfl | ⟨-, hfree, -, -, rfl⟩
      · exact h
      · exact h.put hfree rfl
    · have hfree := unheld_of_openOrCreate hrun
      obtain ⟨hreaches, rfl, -, tail, rfl⟩ := openOrCreate_eq_ok hrun
      exact h.take hreaches hfree
  | write i offset data =>
    rw [Holdings.step]
    cases hr : s.live[i]? with
    | none => exact h
    | some r =>
      refine h.set hr ?_ ?_
      · rw [Region.write_apply]
        split <;> rfl
      · rw [Region.write_apply]
        split
        · exact Region.size_put r offset data
        · rfl
  | drop i =>
    rw [Holdings.step]
    cases hr : s.live[i]? with
    | none => exact h
    | some r => exact h.drop hr

theorem after (d : Disk) (moves : List Move) : Exclusive d (after d moves) := by
  have hrun : ∀ {s : Holdings}, Exclusive d s → Exclusive d (moves.foldl Holdings.step s) := by
    induction moves with
    | nil => exact id
    | cons move rest ih => exact fun h => ih (h.step move)
  exact hrun (start d)

/-- A second region of a file is refused until the first one is dropped. -/
example : let p := Path.ofText "r"
    (Holdings.after {} [.take .create p 64, .take .openFile p 8, .take .create p 8]).live.length
      = 1 ∧
    (Holdings.after {} [.take .create p 64, .drop 0, .take .openFile p 64]).places = [["r"]] := by
  decide +kernel

end Exclusive

/-! ## 5. After any moves -/

/-- A refused call takes no lock and lifts none. -/
theorem isHeld_of_refused {how : Opening} {failure : Failure} {d' : Disk}
    (h : how.run d p size = (.error failure, d')) (place : List String) :
    d'.IsHeld place ↔ d.IsHeld place := by
  rw [how.run_eq] at h
  rcases cases_of_openOrCreate_eq_error h with rfl | ⟨-, hfree, -, -, rfl⟩
  · rfl
  · rw [isHeld_put]
    by_cases hplace : p.place = place
    · subst hplace
      rw [if_pos rfl]
      exact iff_of_false Bool.false_ne_true hfree
    · rw [if_neg hplace]

/-- What was a region's file is free once the region is dropped, and its first bytes are the
region's. -/
theorem free_of_drop (hr : s.live[i]? = some r) :
    ¬(s.step (.drop i)).disk.IsHeld r.path.place ∧
      ∃ tail, (s.step (.drop i)).disk.files.find? r.path.place
        = some { cells := r.cells ++ tail } := by
  have hstep : s.step (.drop i) = ⟨s.disk.close r, s.live.eraseIdx i⟩ := by
    rw [Holdings.step, hr]
  obtain ⟨tail, hfile⟩ := close_stores s.disk r
  rw [hstep]
  refine ⟨not_isHeld_iff.2 fun file hfound => ?_, tail, hfile⟩
  rw [hfile] at hfound
  cases hfound
  rfl

/-- **Region exclusivity.** After any constructor calls, writes and drops:
no two live regions are over one file, and exactly their files are held, besides those that
somebody else held from the start;
a call that is barred (by an empty size, a held file, a missing one or a short one) changes
neither the disk nor a region, and whatever call is refused, it leaves the locks as they
are, and the disk too unless no file has the size that it asks for;
and the file of a region is free as soon as the region is dropped: by any path that leads
there it is opened with the bytes of the region, or created anew. -/
theorem regions_exclusive (d : Disk) (moves : List Move) :
    let s := after d moves
    s.places.Nodup ∧
    (∀ place, s.disk.IsHeld place ↔ d.IsHeld place ∨ place ∈ s.places) ∧
    (∀ r ∈ s.live, ¬d.IsHeld r.path.place) ∧
    (∀ (how : Opening) p size failure, Barred s.disk p size how.isFresh failure →
      how.run s.disk p size = (.error failure, s.disk) ∧ s.step (.take how p size) = s) ∧
    (∀ (how : Opening) p size failure d', how.run s.disk p size = (.error failure, d') →
      (∀ place, d'.IsHeld place ↔ s.disk.IsHeld place) ∧
      (d' = s.disk ∨
        (how.isFresh = true ∧ ¬s.disk.IsHeld p.place ∧ s.disk.Reaches p ∧
          (∃ kind, checkSize size = .error kind ∧ failure = .io p.text kind) ∧
          d' = s.disk.put p { cells := #[] }))) ∧
    (∀ i r, s.live[i]? = some r →
      let freed := (s.step (.drop i)).disk
      ¬freed.IsHeld r.path.place ∧ freed.Reaches r.path ∧
      ∀ p, freed.Reaches p → p.place = r.path.place →
        (∀ size ≤ r.size, ∃ r' d', freed.openFile p size = (.ok r', d') ∧
          r'.cells = r.cells.extract 0 size) ∧
        (∀ size, size ≠ 0 → checkSize size = .ok () →
          ∃ r' d', freed.create p size = (.ok r', d'))) := by
  intro s
  have h : Exclusive d s := .after d moves
  refine ⟨h.nodup, h.held_iff, h.foreign, fun how p size failure hbarred => ?_,
    fun how p size failure d' hrun => ⟨isHeld_of_refused hrun, ?_⟩, fun i r hr => ?_⟩
  · have hrun : how.run s.disk p size = (.error failure, s.disk) := by
      rw [how.run_eq]
      exact hbarred.openOrCreate_eq
    exact ⟨hrun, by rw [Holdings.step, hrun]⟩
  · rw [how.run_eq] at hrun
    exact cases_of_openOrCreate_eq_error hrun
  · intro freed
    obtain ⟨hfree, tail, hfile⟩ := free_of_drop hr
    have hreaches : freed.Reaches r.path :=
      (h.backed r (List.mem_of_getElem? hr)).1.of_folders
        ((h.step (.drop i)).folders_eq.trans h.folders_eq.symm)
    refine ⟨hfree, hreaches, fun p hp hplace => ⟨fun size hle => ?_, fun size hsize hcheck => ?_⟩⟩
    · have hfile' : freed.files.find? p.place = some { cells := r.cells ++ tail } := by
        rw [hplace]
        exact hfile
      have hle' : size ≤ (r.cells ++ tail).size := by
        rw [Array.size_append]
        exact Nat.le_trans hle (Nat.le_add_right _ _)
      obtain ⟨r', d', hopen, hcells⟩ :=
        exists_openFile hp hfile' rfl hle' (Nat.lt_of_le_of_lt hle r.size_lt)
      refine ⟨r', d', hopen, ?_⟩
      have hrest : tail.extract (0 - r.cells.size) (size - r.cells.size) = #[] := by
        have hnone : size - r.cells.size = 0 := Nat.sub_eq_zero_of_le hle
        rw [hnone, Nat.zero_sub, Array.extract_zero]
      rw [hcells, Array.extract_append, hrest, Array.append_empty]
    · exact exists_create hp (by rw [hplace]; exact hfree) hsize hcheck

end Holdings

end DurableCalls
