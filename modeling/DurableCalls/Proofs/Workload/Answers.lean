/-
`Answers.lean` -- the blocks that tasks answer to, from taking them to giving them back.

Before the tasks run, each is given a block that was not taken, and its first byte tells that
there is no answer (`Taking`). When they have run, the blocks with an answer are given back,
and nothing else is (`collectAll_finishes`): a block goes if and only if there is an outcome
of its task. The reserved block may be among those that were taken, where a heap says that it
is free; it is not given back, and the collection stops at it.
-/
import DurableCalls.Workload
import DurableCalls.Proofs.Allocator.Taken
import DurableCalls.Proofs.Context.Finishes

set_option autoImplicit false

namespace DurableCalls

open Region Allocator BlockHeap

namespace Workload

variable {α : Type} {config : Config} {first mid : BlockHeap} {bench : Bench}

/-! ## Runs on the heap -/

theorem onBlocks_of_ok {during : List String} {m : Run BlockHeap α} {a : α} {s : BlockHeap}
    (h : m bench.blocks = (.ok a, s)) :
    onBlocks during m bench = (.ok a, { bench with blocks := s }) := by
  rw [onBlocks, h]
  rfl

theorem onBlocks_of_error {during : List String} {m : Run BlockHeap α} {halt : Halt} {s : BlockHeap}
    (h : m bench.blocks = (.error halt, s)) :
    onBlocks during m bench = (.error (stopOf during halt), { bench with blocks := s }) := by
  rw [onBlocks, h]
  rfl

theorem onHeap_of_ok {m : Run Region Unit} {heap : Region}
    (h : m bench.blocks.heap = (.ok (), heap)) :
    onHeap m bench = (.ok (), { bench with blocks.heap := heap }) := by
  refine onBlocks_of_ok ?_
  rw [BlockHeap.onHeap, Run.zoom_apply]
  show ((m bench.blocks.heap).1, BlockHeap.mk _ (m bench.blocks.heap).2) = _
  rw [h]

/-! ## Entries -/

/-- A transition, and the block for the answer of its task. The tasks of a run are told by such
entries, since the block says where the task answers and the transition says the rest. -/
structure Entry where
  transition : UInt32 × UInt32
  block : Nat

namespace Entry

/-- Where the block starts. -/
def start (config : Config) (e : Entry) : Nat := e.block * (config.blockSize + 1)

def task (config : Config) (e : Entry) : SwapTask where
  swap := {
    register := UInt64.ofNat config.registerAt
    expected := e.transition.1
    new := e.transition.2
    matrix := UInt64.ofNat config.matrixAt }
  answer := UInt64.ofNat (e.start config)

/-- What the first byte of the block tells of the task. -/
def outcome? (config : Config) (heap : Region) (e : Entry) : Option Outcome :=
  match heap.cells[e.start config]? with
  | none => none
  | some value =>
    if value = unanswered then none
    else some { before := e.transition.1, after := e.transition.2, succeeded := value = 1 }

variable {e e' : Entry} {heap heap' : Region}

theorem start_eq {a : Allocator} (h : a.blockSize = config.blockSize) (e : Entry) :
    e.start config = a.blockStart e.block := by
  rw [start, blockStart, h]

theorem outcome?_congr (h : heap'.cells[e.start config]? = heap.cells[e.start config]?) :
    e.outcome? config heap' = e.outcome? config heap := by
  rw [outcome?, outcome?, h]

theorem outcome?_of_unanswered (h : heap.cells[e.start config]? = some unanswered) :
    e.outcome? config heap = none := by
  rw [outcome?, h]
  exact if_pos rfl

theorem start_lt {a : Allocator} (hfits : a.FitsIn heap) (hsize : a.blockSize = config.blockSize)
    (hn : e.block ≤ a.maxBorder) : e.start config < heap.size :=
  start_eq hsize e ▸ hfits.blockStart_lt hn

/-- The offset is a word, so the task answers there. -/
theorem answer_toNat {a : Allocator} (hfits : a.FitsIn heap)
    (hsize : a.blockSize = config.blockSize) (hn : e.block ≤ a.maxBorder) :
    (e.task config).answer.toNat = e.start config := by
  have hlt := start_lt hfits hsize hn
  have hbound := heap.size_lt
  rw [← Region.size] at hbound
  exact UInt64.toNat_ofNat_of_lt' (by
    simp only [start, sizeLimit, UInt64.size] at *
    omega)

end Entry

/-- The blocks of entries. -/
def blocks (es : List Entry) : Finset Nat := (es.map Entry.block).toFinset

theorem mem_blocks {es : List Entry} {e : Entry} (he : e ∈ es) : e.block ∈ blocks es :=
  List.mem_toFinset.2 (List.mem_map_of_mem he)

theorem blocks_mono {es es' : List Entry} (h : es ⊆ es') : blocks es ⊆ blocks es' := by
  intro n hn
  obtain ⟨e, he, rfl⟩ := List.mem_map.1 (List.mem_toFinset.1 hn)
  exact mem_blocks (h he)

theorem blocks_concat (es : List Entry) (e : Entry) :
    blocks (es ++ [e]) = insert e.block (blocks es) := by
  rw [blocks, blocks, List.map_append, List.toFinset_append, List.map_singleton,
    List.toFinset_cons, List.toFinset_nil, insert_empty_eq, Finset.union_comm, Finset.insert_eq]

/-! ## Taking blocks -/

/-- Blocks have been taken for these entries, and nothing is answered yet. The blocks are new and
different ones, and nothing behind the blocks has been written. -/
structure Taking (config : Config) (first : BlockHeap) (es : List Entry) (s : BlockHeap) :
    Prop where
  scanned : s.allocator.Scanned s.heap
  recorded : es ≠ [] → s.allocator.Recorded s.heap
  blockSize_eq : s.allocator.blockSize = config.blockSize
  maxBorder_eq : s.allocator.maxBorder = config.maxBlocks
  nodup : (es.map Entry.block).Nodup
  new : ∀ e ∈ es, e.block ≤ config.maxBlocks ∧ e.block ∉ first.allocator.taken
  taken_eq : s.allocator.taken = first.allocator.taken ∪ blocks es
  blank : ∀ e ∈ es, s.heap.cells[e.start config]? = some unanswered
  path_eq : s.heap.path = first.heap.path
  behind : ∀ lo hi, (config.maxBlocks + 1) * (config.blockSize + 1) ≤ lo →
    Agree lo hi first.heap s.heap

theorem taking_nil (h : first.allocator.Scanned first.heap)
    (hsize : first.allocator.blockSize = config.blockSize)
    (hmax : first.allocator.maxBorder = config.maxBlocks) : Taking config first [] first where
  scanned := h
  recorded hne := absurd rfl hne
  blockSize_eq := hsize
  maxBorder_eq := hmax
  nodup := List.nodup_nil
  new _ he := absurd he List.not_mem_nil
  taken_eq := (Finset.union_empty _).symm
  blank _ he := absurd he List.not_mem_nil
  path_eq := rfl
  behind _ _ _ := .refl

/-- One more block, whose first byte is written. -/
theorem Taking.taken {es : List Entry} {s t : BlockHeap} {e : Entry} (h : Taking config first es s)
    (hn : e.block ≤ s.allocator.maxBorder) (hnew : e.block ∉ s.allocator.taken)
    (hshifted : Shifted s t (insert e.block s.allocator.taken)) :
    Taking config first (es ++ [e])
      ⟨t.allocator, t.heap.put (e.start config) [unanswered]⟩ := by
  have hsize : t.allocator.blockSize = config.blockSize :=
    hshifted.blockSize_eq.trans h.blockSize_eq
  have hmax : t.allocator.maxBorder = config.maxBlocks :=
    hshifted.maxBorder_eq.trans h.maxBorder_eq
  have hpayload := hshifted.recorded.fits.payload
  have hin : e.start config + [unanswered].length ≤ t.heap.size :=
    Entry.start_lt hshifted.recorded.fits hsize (hshifted.maxBorder_eq ▸ hn)
  -- the answer is the first byte of a payload, so the trailers are those from before
  have hrecorded : t.allocator.Recorded (t.heap.put (e.start config) [unanswered]) := by
    have hinside : 0 + [unanswered].length ≤ t.allocator.blockSize := by
      rw [List.length_singleton]
      omega
    rw [Entry.start_eq hsize] at hin ⊢
    exact hshifted.recorded.put_payload hinside hin
  have hcells := getElem?_overwrite t.heap.cells (e.start config) [unanswered] hin
  rw [h.taken_eq, Finset.mem_union, not_or] at hnew
  have hblock : ∀ e' ∈ es, e'.block ≠ e.block := fun e' he' heq =>
    hnew.2 (heq ▸ mem_blocks he')
  refine ⟨hrecorded.scanned, fun _ => hrecorded, hsize, hmax, ?_, ?_, ?_, ?_, ?_, ?_⟩
  · rw [List.map_append, List.nodup_append]
    refine ⟨h.nodup, List.nodup_singleton _, fun a ha b hb => ?_⟩
    obtain ⟨e', he', rfl⟩ := List.mem_map.1 ha
    obtain ⟨e'', he'', rfl⟩ := List.mem_map.1 hb
    rw [List.mem_singleton.1 he'']
    exact hblock e' he'
  · intro e' he'
    rcases List.mem_append.1 he' with he' | he'
    · exact h.new e' he'
    · rw [List.mem_singleton.1 he', ← h.maxBorder_eq]
      exact ⟨hn, hnew.1⟩
  · show t.allocator.taken = _
    rw [hshifted.taken_eq, h.taken_eq, blocks_concat, Finset.union_insert]
  · -- the byte of the new entry was just written, and those of the others were not touched
    intro e' he'
    refine (hcells (e'.start config)).trans ?_
    rw [List.length_singleton]
    by_cases hsame : e'.start config = e.start config
    · rw [if_pos ⟨Nat.le_of_eq hsame.symm, by omega⟩, hsame, Nat.sub_self, List.getElem?_cons_zero]
    · rw [if_neg fun hrange => hsame (by omega)]
      rcases List.mem_append.1 he' with he' | he'
      · rw [Entry.start_eq h.blockSize_eq, hshifted.trailers.first_byte h.scanned.fits.payload,
          ← Entry.start_eq h.blockSize_eq]
        exact h.blank e' he'
      · exact absurd (by rw [List.mem_singleton.1 he']) hsame
  · exact hshifted.trailers.path_eq.trans h.path_eq
  · -- behind the span of the blocks nothing has changed
    intro lo hi hlo
    have hspan : (s.allocator.maxBorder + 1) * (s.allocator.blockSize + 1) ≤ lo := by
      rw [h.maxBorder_eq, h.blockSize_eq]
      exact hlo
    have hbelow : e.start config + [unanswered].length ≤ lo := by
      have hlt := s.allocator.trailerStart_lt_blockStart (Nat.lt_succ_of_le hn)
      have hle := s.allocator.blockStart_le_trailerStart e.block
      rw [Entry.start_eq h.blockSize_eq, List.length_singleton]
      exact Nat.le_trans (Nat.lt_of_le_of_lt hle hlt) hspan
    exact ((h.behind lo hi hlo).trans (hshifted.trailers.behind hspan)).trans
      (agree_put hin (.inr hbelow))

/-- What a preparation stops with. -/
def exhausted : Stop :=
  .trouble { during := ["no heap block for a task answer"], cause := .failure .heapExhausted }

/-- The task of a transition has a new block, unless all are taken. The first byte of the block is
cleared before the task is made, so an answer in it is one of this run. -/
theorem prepare_finishes {es : List Entry} (h : Taking config first es bench.blocks)
    (t : UInt32 × UInt32) :
    Finishes (prepare config t) bench
      (fun task after => ∃ e s, e.transition = t ∧ task = e.task config ∧
        after = { bench with blocks := s } ∧ Taking config first (es ++ [e]) s)
      (fun stop after => stop = exhausted ∧ after = bench ∧
        bench.blocks.allocator.taken.card = config.maxBlocks + 1) := by
  rcases alloc_takes h.scanned with ⟨hfull, hrun⟩ | ⟨n, s, hrun, hn, hnew, hshifted⟩
  · rw [h.maxBorder_eq] at hfull
    exact .of_error (e := exhausted) (bindState_of_error (onBlocks_of_error hrun)) ⟨rfl, rfl, hfull⟩
  · have htaken := h.taken (e := ⟨t, n⟩) hn hnew hshifted
    have hstart : bench.blocks.allocator.blockStart n = Entry.start config ⟨t, n⟩ :=
      (Entry.start_eq h.blockSize_eq ⟨t, n⟩).symm
    have hin : Entry.start config ⟨t, n⟩ + [unanswered].length ≤ s.heap.size :=
      Entry.start_lt hshifted.recorded.fits (hshifted.blockSize_eq.trans h.blockSize_eq)
        (hshifted.maxBorder_eq ▸ hn)
    have hpersist : Region.persist (Entry.start config ⟨t, n⟩) [unanswered] s.heap
        = (.ok (), s.heap.put (Entry.start config ⟨t, n⟩) [unanswered]) := by
      rw [persist_eq_write, write_apply, if_pos hin]
    rw [hstart] at hrun
    refine .step (onBlocks_of_ok hrun) (.step (onHeap_of_ok hpersist) ?_)
    exact .of_ok rfl ⟨⟨t, n⟩, _, rfl, rfl, rfl, htaken⟩

/-- **The tasks of all transitions**, unless the blocks run out. The induction is on the transitions
that are left. If there is no block for one of them, then the blocks of those before it stay taken.
-/
theorem prepareAll_finishes : ∀ (ts : List (UInt32 × UInt32)) {es : List Entry} {bench : Bench},
    Taking config first es bench.blocks →
    Finishes (ts.mapM (prepare config)) bench
      (fun tasks after => ∃ more s, more.map Entry.transition = ts ∧
        tasks = more.map (Entry.task config) ∧ after = { bench with blocks := s } ∧
        Taking config first (es ++ more) s)
      (fun stop after => stop = exhausted ∧ ∃ more s, more.length < ts.length ∧
        after = { bench with blocks := s } ∧ Taking config first (es ++ more) s ∧
        s.allocator.taken.card = config.maxBlocks + 1)
  | [], es, bench, h => by
    rw [List.mapM_nil]
    exact .of_ok rfl ⟨[], bench.blocks, rfl, rfl, rfl, by rw [List.append_nil]; exact h⟩
  | t :: ts, es, bench, h => by
    rw [List.mapM_cons]
    refine .bind ((prepare_finishes h t).mono (fun _ _ => id) ?_) ?_
    · rintro stop after ⟨rfl, rfl, hfull⟩
      exact ⟨rfl, [], after.blocks, Nat.succ_pos _, rfl, by rw [List.append_nil]; exact h, hfull⟩
    rintro _ _ ⟨e, s, rfl, rfl, rfl, hs⟩
    refine .bind ((prepareAll_finishes ts hs).mono (fun _ _ => id) ?_) ?_
    · rintro stop after ⟨rfl, more, s', hlen, rfl, hs', hfull⟩
      refine ⟨rfl, e :: more, s', Nat.succ_lt_succ hlen, rfl, ?_, hfull⟩
      rw [List.append_cons]
      exact hs'
    rintro _ _ ⟨more, s', rfl, rfl, rfl, hs'⟩
    refine .of_ok rfl ⟨e :: more, s', rfl, rfl, rfl, ?_⟩
    rw [List.append_cons]
    exact hs'

/-! ## Giving them back -/

/-- The entries whose tasks have answered. -/
def answered (config : Config) (heap : Region) (es : List Entry) : List Entry :=
  es.filter fun e => (e.outcome? config heap).isSome

theorem blocks_answered_subset (config : Config) (heap : Region) (es : List Entry) :
    blocks (answered config heap es) ⊆ blocks es :=
  blocks_mono List.filter_sublist.subset

/-- What a collection stops with, at the reserved block. -/
def notGiven : Stop := .trouble { cause := .failure (.invalidBlock 0) }

/-- The block of an answer is given back, if there is an answer. Otherwise it stays allocated, and
nobody keeps its number. Only the release of the reserved block is refused. -/
theorem collect_finishes {e : Entry} (h : bench.blocks.allocator.Recorded bench.blocks.heap)
    (hsize : bench.blocks.allocator.blockSize = config.blockSize)
    (htaken : e.block ∈ bench.blocks.allocator.taken) :
    Finishes (collect (e.task config)) bench
      (fun found after => found = e.outcome? config bench.blocks.heap ∧
        ∃ s, after = { bench with blocks := s } ∧ Shifted bench.blocks s
          (if found.isSome then bench.blocks.allocator.taken.erase e.block
            else bench.blocks.allocator.taken))
      (fun stop after => e.block = 0 ∧ stop = notGiven ∧ after = bench) := by
  have hn : e.block ≤ bench.blocks.allocator.maxBorder :=
    Nat.le_trans (mem_taken.1 htaken).1 h.border_le
  have hanswer := Entry.answer_toNat h.fits hsize hn
  have hlt : e.start config < bench.blocks.heap.cells.size := Entry.start_lt h.fits hsize hn
  have hcell := Array.getElem?_eq_getElem hlt
  have hread : (liftM (orStop [] (bench.blocks.heap.readByte (e.task config).answer.toNat :
      Except Halt UInt8)) : BenchRun UInt8) bench
        = (.ok bench.blocks.heap.cells[e.start config], bench) := by
    rw [hanswer, readByte_of_getElem? hcell]
    rfl
  have houtcome : e.outcome? config bench.blocks.heap
      = if bench.blocks.heap.cells[e.start config] = unanswered then none
        else some ⟨e.transition.1, e.transition.2,
          decide (bench.blocks.heap.cells[e.start config] = 1)⟩ := by
    rw [Entry.outcome?, hcell]
  refine .step (a := bench) rfl (.step hread ?_)
  -- = unanswered] an answer is what is no longer the cleared byte
  by_cases hsilent : bench.blocks.heap.cells[e.start config] = unanswered
  · rw [if_pos hsilent] at houtcome
    rw [if_pos hsilent]
    refine .of_ok rfl ⟨houtcome.symm, bench.blocks, rfl, ?_⟩
    exact shifted_of_recorded h
  · rw [if_neg hsilent] at houtcome
    rw [if_neg hsilent]
    -- a heap of others can have handed out the reserved block, which is never given back
    rcases Nat.eq_zero_or_pos e.block with hzero | hpos
    · have hfree : BlockHeap.free (e.task config).answer.toNat bench.blocks
          = (.error (.failed (.invalidBlock 0)), bench.blocks) := by
        have hstart : bench.blocks.allocator.blockStart 0 = 0 := Nat.zero_mul _
        rw [hanswer, Entry.start_eq hsize, hzero, free_zero h, hstart]
      exact .of_error (bindState_of_error (onBlocks_of_error hfree)) ⟨hzero, rfl, rfl⟩
    · obtain ⟨s, hfree, hshifted⟩ := free_gives h htaken hpos
      rw [← Entry.start_eq hsize, ← hanswer] at hfree
      exact .step (onBlocks_of_ok hfree) (.of_ok rfl ⟨houtcome.symm, s, rfl, hshifted⟩)

/-- **The blocks of all answers are given back**, up to the reserved one. A task without an answer
keeps its block. The reserved block can be taken over a heap that was left with it freed; then it
cannot be freed, and the collection ends there. -/
theorem collectAll_finishes (hpayload : 1 ≤ config.blockSize)
    (hsize : mid.allocator.blockSize = config.blockSize) :
    ∀ (es : List Entry) {bench : Bench} {now : Finset Nat}, Shifted mid bench.blocks now →
    (es.map Entry.block).Nodup → (∀ e ∈ es, e.block ∈ now) →
    Finishes ((es.map (Entry.task config)).filterMapM collect) bench
      (fun outcomes after => outcomes = es.filterMap (Entry.outcome? config mid.heap) ∧
        ∃ s, after = { bench with blocks := s } ∧
          Shifted mid s (now \ blocks (answered config mid.heap es)))
      (fun stop after => 0 ∈ blocks es ∧ stop = notGiven ∧ ∃ s given,
        given ⊆ blocks (answered config mid.heap es) ∧ after = { bench with blocks := s } ∧
          Shifted mid s (now \ given))
  | [], bench, now, h, _, _ => by
    rw [List.map_nil, List.filterMapM_nil]
    refine .of_ok rfl ⟨rfl, bench.blocks, rfl, ?_⟩
    rw [answered, List.filter_nil, blocks, List.map_nil, List.toFinset_nil, Finset.sdiff_empty]
    exact h
  | e :: es, bench, now, h, hnodup, hmem => by
    obtain ⟨hnotin, hnodup'⟩ := List.nodup_cons.1 hnodup
    have hsize' : bench.blocks.allocator.blockSize = config.blockSize := h.blockSize_eq.trans hsize
    have htaken : e.block ∈ bench.blocks.allocator.taken := by
      rw [h.taken_eq]
      exact hmem e List.mem_cons_self
    -- the releases of other blocks have left the answer of this one
    have houtcome : e.outcome? config bench.blocks.heap = e.outcome? config mid.heap := by
      refine Entry.outcome?_congr ?_
      rw [Entry.start_eq hsize]
      exact h.trailers.first_byte (hsize ▸ hpayload) _
    rw [List.map_cons, List.filterMapM_cons]
    refine .bind ((collect_finishes h.recorded hsize' htaken).mono (fun _ _ => id) ?_) ?_
    · rintro _ _ ⟨hzero, rfl, rfl⟩
      refine ⟨hzero ▸ mem_blocks List.mem_cons_self, rfl, _, ∅, Finset.empty_subset _, rfl, ?_⟩
      rw [Finset.sdiff_empty]
      exact h
    rintro found _ ⟨hfound, s, rfl, hs⟩
    rw [houtcome] at hfound
    rw [h.taken_eq] at hs
    have hs' := h.trans hs
    -- without an answer the block stays where it is
    cases found with
    | none =>
      have hanswered : answered config mid.heap (e :: es) = answered config mid.heap es := by
        rw [answered, List.filter_cons, ← hfound]
        rfl
      rw [hanswered, List.filterMap_cons, ← hfound]
      have hnow : Shifted mid ({ bench with blocks := s } : Bench).blocks now := hs'
      have hothers : ∀ e' ∈ es, e'.block ∈ now := fun e' he' =>
        hmem e' (List.mem_cons_of_mem _ he')
      exact (collectAll_finishes hpayload hsize es hnow hnodup' hothers).mono (fun _ _ => id)
        fun _ _ ⟨hzero, hrest⟩ => ⟨blocks_mono (List.subset_cons_self _ _) hzero, hrest⟩
    | some outcome =>
      have hanswered : blocks (answered config mid.heap (e :: es))
          = insert e.block (blocks (answered config mid.heap es)) := by
        rw [answered, List.filter_cons, ← hfound, blocks]
        exact List.toFinset_cons
      have hsdiff : ∀ given : Finset Nat, now.erase e.block \ given = now \ insert e.block given :=
        fun given => by rw [Finset.erase_sdiff_comm, Finset.sdiff_insert]
      have hnow : Shifted mid ({ bench with blocks := s } : Bench).blocks (now.erase e.block) := hs'
      have hothers : ∀ e' ∈ es, e'.block ∈ now.erase e.block := fun e' he' =>
        Finset.mem_erase.2 ⟨fun heq => hnotin (by rw [← heq]; exact List.mem_map_of_mem he'),
          hmem e' (List.mem_cons_of_mem _ he')⟩
      have hrest := collectAll_finishes hpayload hsize es hnow hnodup' hothers
      rw [hanswered, List.filterMap_cons, ← hfound]
      refine .bind (hrest.mono (fun _ _ => id) ?_) ?_
      · rintro _ _ ⟨hzero, rfl, s', given, hgiven, rfl, hs''⟩
        exact ⟨blocks_mono (List.subset_cons_self _ _) hzero, rfl, s', _,
          Finset.insert_subset_insert _ hgiven, rfl, hsdiff given ▸ hs''⟩
      · rintro _ _ ⟨rfl, s', rfl, hs''⟩
        exact .of_ok rfl ⟨rfl, s', rfl, hsdiff _ ▸ hs''⟩

end Workload

end DurableCalls
