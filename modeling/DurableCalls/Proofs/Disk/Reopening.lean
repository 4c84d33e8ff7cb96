/-
`Reopening.lean` -- a region that was closed is opened again as it was.

A disk *stores* a region if the region's bytes are the first bytes of its file and nobody
holds the file. Closing a region stores it (`close_stores`), and so does not disturb a region
over another file. Opening a stored region gives the very region (`Stores.open_eq`), as long
as its path leads to the file. It does so from the moment in which it was opened first
(`Reaches`): the folders that are made in between are none of the files (`Grows`).
-/
import DurableCalls.Disk
import DurableCalls.Proofs.Region.Contents

set_option autoImplicit false

namespace DurableCalls

namespace Disk

variable {d d' d'' : Disk} {p : Path} {place : List String} {file : File} {r r' : Region}
  {size : Nat} {make fresh : Bool}

theorem find?_put (d : Disk) (p : Path) (file : File) (place : List String) :
    (d.put p file).files.find? place
      = if p.place = place then some file else d.files.find? place :=
  Table.find?_insert d.files p.place place file

/-! ## Paths that lead to a file -/

/-- The path can be walked, and it may name a file. Whether there is a file is not asked: this is
what a constructor needs of the path before it looks for one. -/
structure Reaches (d : Disk) (p : Path) : Prop where
  named : checkName p = .ok ()
  walked : ∃ place, d.walk p.start p.steps.dropLast = .ok place
  last : ∃ last, p.steps.getLast? = some last ∧ Path.isDot last = false ∧
    Path.isTooLong last = false
  not_folder : d.isFolder p.place = false
  file_name : p.isFolderName = false

/-- Where a file is found or can be made, the path leads to it. What is found is then the file at
the place of the path, however the path was written. -/
theorem reaches_of_locate {found : Option File} (h : d.locate p make = .ok found)
    (hmade : make = true ∨ found ≠ none) :
    d.Reaches p ∧ d.files.find? p.place = found := by
  obtain ⟨⟨⟩, hname, h⟩ := exists_of_bind_eq_ok h
  obtain ⟨⟨⟩, hwalk, h⟩ := exists_of_bind_eq_ok h
  -- what makes a lookup fail is excluded in the order in which it is checked
  have hwalked : ∃ place, d.walk p.start p.steps.dropLast = .ok place := by
    cases hrun : d.walk p.start p.steps.dropLast with
    | ok place => exact ⟨place, rfl⟩
    | error kind =>
      rw [hrun] at hwalk
      cases hwalk
  cases hlast : p.steps.getLast? with
  | none =>
    rw [hlast] at h
    cases h
  | some last =>
    rw [hlast] at h
    simp only at h
    by_cases hdot : (Path.isDot last || (make && p.isFolderName)) = true
    · rw [if_pos hdot] at h
      cases h
    rw [if_neg hdot] at h
    by_cases hlong : Path.isTooLong last = true
    · rw [if_pos hlong] at h
      cases h
    rw [if_neg hlong] at h
    by_cases hfolder : d.isFolder p.place = true
    · rw [if_pos hfolder] at h
      cases h
    rw [if_neg hfolder] at h
    simp only [Bool.or_eq_true, Bool.and_eq_true, not_or, not_and, Bool.not_eq_true] at hdot
    -- only whether the path names a folder is left, and a file that is there answers that as well
    have hreaches : p.isFolderName = false → d.Reaches p := fun hname' =>
      ⟨hname, hwalked, ⟨last, hlast, hdot.1, by simpa using hlong⟩, by simpa using hfolder, hname'⟩
    cases hfile : d.files.find? p.place with
    | some file =>
      rw [hfile] at h
      by_cases hname' : p.isFolderName = true
      · simp only [if_pos hname'] at h
        cases h
      · simp only [if_neg hname'] at h
        cases h
        exact ⟨hreaches (by simpa using hname'), rfl⟩
    | none =>
      rw [hfile] at h
      by_cases hmake : make = true
      · simp only [if_pos hmake] at h
        cases h
        exact ⟨hreaches (hdot.2 hmake), rfl⟩
      · simp only [if_neg hmake] at h
        cases h

theorem Reaches.locate (h : d.Reaches p) (hfile : d.files.find? p.place = some file) :
    d.locate p false = .ok (some file) := by
  obtain ⟨place, hwalk⟩ := h.walked
  obtain ⟨last, hlast, hdot, hlong⟩ := h.last
  simp only [Disk.locate, h.named, hwalk, hlast, hdot, hlong, h.not_folder, hfile, h.file_name,
    bind, Except.bind, Functor.discard, Functor.mapConst, Except.map, Function.comp,
    Bool.false_and, Bool.or_false, Bool.false_eq_true, if_false]
  rfl

theorem walk_mono (h : ∀ place, d.isFolder place = true → d'.isFolder place = true) :
    ∀ (steps place : List String) {last : List String},
    d.walk place steps = .ok last → d'.walk place steps = .ok last
  | [], _, _, hrun => hrun
  | step :: rest, place, last, hrun => by
    rw [Disk.walk] at hrun ⊢
    by_cases hlong : Path.isTooLong step = true
    · rw [if_pos hlong] at hrun
      cases hrun
    · rw [if_neg hlong] at hrun ⊢
      by_cases hfolder : d.isFolder (Path.follow place step) = true
      · rw [if_pos hfolder] at hrun
        rw [if_pos (h _ hfolder)]
        exact walk_mono h rest _ hrun
      · rw [if_neg hfolder] at hrun
        cases hrun

theorem isFolder_of_folders (h : d'.folders = d.folders) (place : List String) :
    d'.isFolder place = d.isFolder place := by
  rw [isFolder, isFolder, h]

/-- Only the folders decide whether a path can lead to a file. -/
theorem Reaches.of_folders (hp : d.Reaches p) (h : d'.folders = d.folders) : d'.Reaches p := by
  obtain ⟨place, hwalk⟩ := hp.walked
  refine ⟨hp.named, ⟨place, walk_mono (fun place hfolder => ?_) _ _ hwalk⟩, hp.last, ?_,
    hp.file_name⟩
  · rw [isFolder_of_folders h]
    exact hfolder
  · rw [isFolder_of_folders h]
    exact hp.not_folder

/-! ## Folders -/

/-- More folders, none of them at the place of a file. Making the folder of the stacks leaves the
disk like this, and so the heap file that was opened before is where it was. -/
structure Grows (d d' : Disk) : Prop where
  files_eq : d'.files = d.files
  folder : ∀ place, d.isFolder place = true → d'.isFolder place = true
  kept : ∀ place, d.files.contains place = true → d'.isFolder place = true →
    d.isFolder place = true

namespace Grows

theorem refl : Grows d d := ⟨rfl, fun _ => id, fun _ _ => id⟩

theorem trans (h : Grows d d') (h' : Grows d' d'') : Grows d d'' := by
  refine ⟨h'.files_eq.trans h.files_eq, fun place hp => h'.folder place (h.folder place hp),
    fun place hfile hp => h.kept place hfile (h'.kept place ?_ hp)⟩
  rw [h.files_eq]
  exact hfile

/-- A path that leads to a file goes on doing so. -/
theorem reaches (h : Grows d d') (hp : d.Reaches p)
    (hfile : d.files.contains p.place = true) : d'.Reaches p := by
  obtain ⟨place, hwalk⟩ := hp.walked
  refine ⟨hp.named, ⟨place, walk_mono h.folder _ _ hwalk⟩, hp.last, ?_, hp.file_name⟩
  cases hfolder : d'.isFolder p.place with
  | false => rfl
  | true =>
    have hbefore := h.kept p.place hfile hfolder
    rw [hp.not_folder] at hbefore
    cases hbefore

end Grows

theorem grows_of_makeFolder {start steps : List String} (h : d.makeFolder start steps = .ok d') :
    Grows d d' := by
  obtain ⟨parent, -, h⟩ := exists_of_bind_eq_ok h
  cases hlast : steps.getLast? with
  | none =>
    rw [hlast] at h
    cases h
  | some last =>
    rw [hlast] at h
    simp only at h
    -- a folder is made where there is nothing yet, so no file goes
    by_cases hlong : Path.isTooLong last = true
    · rw [if_pos hlong] at h
      cases h
    rw [if_neg hlong] at h
    by_cases hthere : (Path.isDot last || d.isFolder (Path.follow parent last)
        || d.files.contains (Path.follow parent last)) = true
    · rw [if_pos hthere] at h
      cases h
    rw [if_neg hthere] at h
    cases h
    simp only [Bool.or_eq_true, not_or, Bool.not_eq_true] at hthere
    refine ⟨rfl, fun place hp => ?_, fun place hfile hp => ?_⟩
    · simp only [isFolder, Bool.or_eq_true, List.contains_eq_mem, List.mem_append,
        decide_eq_true_eq] at hp ⊢
      exact hp.imp_right Or.inl
    · simp only [isFolder, Bool.or_eq_true, List.contains_eq_mem, List.mem_append,
        decide_eq_true_eq, List.mem_singleton] at hp ⊢
      rcases hp with hp | hp | rfl
      · exact .inl hp
      · exact .inr hp
      · rw [hthere.2] at hfile
        cases hfile

theorem grows_of_ensureFolder {start steps : List String}
    (h : d.ensureFolder start steps = .ok d') : Grows d d' := by
  rw [ensureFolder] at h
  split at h
  · split at h
    · cases h
      exact .refl
    · cases h
  · exact grows_of_makeFolder h

theorem ensureWays_grows (start : List String) : ∀ (ways : List (List String)) (d : Disk),
    Grows d (d.ensureWays start ways).2
  | [], _ => .refl
  | steps :: shorter, d => by
    rw [ensureWays]
    cases hfirst : d.ensureFolder start steps with
    | ok made => exact grows_of_ensureFolder hfirst
    | error kind =>
      have hrest := ensureWays_grows start shorter d
      cases kind with
      | notFound =>
        rcases hshorter : d.ensureWays start shorter with ⟨_ | ⟨⟩, mid⟩
        · rw [hshorter] at hrest
          exact hrest
        · rw [hshorter] at hrest
          simp only
          cases hlast : mid.ensureFolder start steps with
          | ok made => exact hrest.trans (grows_of_ensureFolder hlast)
          | error kind => exact hrest
      | _ => exact .refl

theorem makeFolders_grows (d : Disk) (p : Path) : Grows d (d.makeFolders p).2 := by
  rw [makeFolders]
  split
  · exact .refl
  · exact ensureWays_grows _ _ _

/-! ## Opening -/

theorem openFile_cases (d : Disk) (p : Path) (size : Nat) :
    (∃ f, d.openFile p size = (.error f, d)) ∨
    ∃ file r, d.Reaches p ∧ d.files.find? p.place = some file ∧ file.held = false ∧
      size ≤ file.cells.size ∧ r.path = p ∧ r.cells = file.cells.extract 0 size ∧
      d.openFile p size = (.ok r, d.put p { file with held := true }) := by
  cases hlocate : d.locate p false with
  | error kind => exact .inl ⟨_, by rw [openFile, hlocate]⟩
  | ok found =>
    cases found with
    | none => exact .inl ⟨_, by rw [openFile, hlocate]⟩
    | some file =>
      obtain ⟨hreaches, hfile⟩ := reaches_of_locate hlocate (.inr (Option.some_ne_none file))
      rw [openFile, hlocate]
      simp only
      -- an open file is refused for its lock, for its size, or for a size that no region has
      by_cases hheld : file.held = true
      · exact .inl ⟨_, by rw [if_pos hheld]⟩
      rw [if_neg hheld]
      by_cases hshort : file.cells.size < size
      · exact .inl ⟨_, by rw [if_pos hshort]⟩
      rw [if_neg hshort]
      by_cases hsize : size < sizeLimit
      · rw [dif_pos hsize]
        exact .inr ⟨file, _, hreaches, hfile, by simpa using hheld, Nat.le_of_not_lt hshort, rfl,
          rfl, rfl⟩
      · exact .inl ⟨_, by rw [dif_neg hsize]⟩

/-- A file that is created was held by nobody. What comes out is a region of zeros over it, and the
file on the disk is held from then on. -/
theorem create_eq_ok (h : d.create p size = (.ok r, d')) :
    d.Reaches p ∧ (∀ file, d.files.find? p.place = some file → file.held = false) ∧
      r.path = p ∧ r.cells = Array.replicate size 0 ∧
      d' = d.put p { cells := r.cells, held := true } := by
  rw [create] at h
  by_cases hzero : size = 0
  · rw [if_pos hzero] at h
    cases h
  rw [if_neg hzero] at h
  cases hlocate : d.locate p true with
  | error kind =>
    rw [hlocate] at h
    cases h
  | ok found =>
    obtain ⟨hreaches, hfile⟩ := reaches_of_locate hlocate (.inl rfl)
    rw [hlocate] at h
    simp only at h
    -- a file that is not there yet is held by nobody
    by_cases hheld : (found.map File.held).getD false = true
    · rw [if_pos hheld] at h
      cases h
    rw [if_neg hheld] at h
    split at h
    · cases h
    · cases h
      refine ⟨hreaches, fun file hfound => ?_, rfl, rfl, rfl⟩
      rw [← hfile, hfound] at hheld
      simpa using hheld

/-- Where a region is opened, its file is held, and no other file is touched. -/
theorem openOrCreate_eq_ok (h : d.openOrCreate p size fresh = (.ok r, d')) :
    d.Reaches p ∧ r.path = p ∧ r.size = size ∧
      ∃ tail, d' = d.put p { cells := r.cells ++ tail, held := true } := by
  cases fresh with
  | true =>
    obtain ⟨hreaches, -, hpath, hcells, rfl⟩ := create_eq_ok h
    refine ⟨hreaches, hpath, by rw [Region.size, hcells, Array.size_replicate], #[], ?_⟩
    rw [Array.append_empty]
  | false =>
    rcases openFile_cases d p size with ⟨f, hrun⟩
      | ⟨file, r', hreaches, -, -, hsize, hpath, hcells, hrun⟩
    · rw [openOrCreate, if_neg Bool.false_ne_true, hrun] at h
      cases h
    · rw [openOrCreate, if_neg Bool.false_ne_true, hrun] at h
      cases h
      refine ⟨hreaches, hpath, ?_, file.cells.extract size file.cells.size, ?_⟩
      · rw [Region.size, hcells, Array.size_extract]
        omega
      · have hwhole : r.cells ++ file.cells.extract size file.cells.size = file.cells := by
          rw [hcells, Array.extract_append_extract, Nat.zero_min, Nat.max_eq_right hsize,
            Array.extract_size]
        rw [hwhole]

/-! ## Closing -/

/-- The first bytes of a file that nobody holds are those of a region. -/
def Stores (d : Disk) (r : Region) : Prop :=
  ∃ tail, d.files.find? r.path.place = some { cells := r.cells ++ tail }

theorem close_eq_put (d : Disk) (r : Region) :
    ∃ tail, d.close r = d.put r.path { cells := r.cells ++ tail } :=
  ⟨_, rfl⟩

theorem close_stores (d : Disk) (r : Region) : (d.close r).Stores r := by
  obtain ⟨tail, hclose⟩ := close_eq_put d r
  refine ⟨tail, ?_⟩
  rw [hclose, find?_put, if_pos rfl]

theorem Stores.put (h : d.Stores r) (hne : p.place ≠ r.path.place) (file : File) :
    (d.put p file).Stores r := by
  obtain ⟨tail, hfile⟩ := h
  exact ⟨tail, by rw [find?_put, if_neg hne, hfile]⟩

theorem Stores.close (h : d.Stores r) (hne : r'.path.place ≠ r.path.place) :
    (d.close r').Stores r := by
  obtain ⟨tail, hclose⟩ := close_eq_put d r'
  rw [hclose]
  exact h.put hne _

theorem region_ext (hpath : r'.path = r.path) (hcells : r'.cells = r.cells) : r' = r := by
  cases r
  cases r'
  cases hpath
  cases hcells
  rfl

/-- A stored region is opened as it was. -/
theorem Stores.eq_of_open (h : d.Stores r) (hopen : d.openFile r.path r.size = (.ok r', d')) :
    r' = r ∧ ∃ tail, d' = d.put r.path { cells := r.cells ++ tail, held := true } := by
  obtain ⟨tail, hfile⟩ := h
  rcases openFile_cases d r.path r.size with ⟨f, hrun⟩
    | ⟨file, r'', -, hfile', -, hsize, hpath, hcells, hrun⟩
  · rw [hrun] at hopen
    cases hopen
  · rw [hrun] at hopen
    cases hopen
    rw [hfile] at hfile'
    cases hfile'
    refine ⟨region_ext hpath ?_, tail, rfl⟩
    rw [hcells, Region.size, Array.extract_append_left, Array.extract_size]

theorem Stores.open_eq (h : d.Stores r) (hreaches : d.Reaches r.path) :
    ∃ tail, d.openFile r.path r.size
      = (.ok r, d.put r.path { cells := r.cells ++ tail, held := true }) := by
  obtain ⟨tail, hfile⟩ := id h
  have hshort : ¬(r.cells ++ tail).size < r.size := by
    rw [Array.size_append, Region.size]
    omega
  have hlt : r.size < sizeLimit := r.size_lt
  rcases hopen : d.openFile r.path r.size with ⟨f | r', d'⟩
  · rw [openFile, hreaches.locate hfile] at hopen
    simp only [Bool.false_eq_true, if_false, if_neg hshort] at hopen
    rw [dif_pos hlt] at hopen
    cases hopen
  · obtain ⟨rfl, tail', rfl⟩ := h.eq_of_open hopen
    exact ⟨tail', rfl⟩

end Disk

end DurableCalls
