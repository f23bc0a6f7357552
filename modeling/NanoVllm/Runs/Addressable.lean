import NanoVllm.Blocks.Ancestry
import NanoVllm.Runs.Reachable
import NanoVllm.Steps.Sparing

set_option autoImplicit false

namespace NanoVllm

open Python Raising Naming

/-- Block `b` can be found: its hash has an owner with the same tokens and lineage, its ancestors are in the pool,
and a new request whose prompt goes on after its chain is matched with this owner. -/
structure Addressable (xxh64 : XxHash) (m : BlockManager) (b : BlockId) : Prop where
  indexed : ∃ o, m.hashToBlockId (m.blocks b).hash = some o ∧ (m.blocks o).tokenIds = (m.blocks b).tokenIds ∧
    (m.blocks o).lineage = (m.blocks b).lineage
  rooted : ∃ tokens, Ancestry m b tokens
  reached : ∀ (i : SeqId) (tokens prompt : List Token) (params : SamplingParams) (seq : Sequence),
    Ancestry m b tokens → Sequence.init xxh64 i prompt params m.blockSize = .ok seq → tokens <+: prompt →
    tokens.length < prompt.length →
    ∃ front o rest, m.matchPrefix seq = .ok (front ++ o :: rest) ∧
      (front.length + 1) * m.blockSize = tokens.length ∧ m.hashToBlockId (m.blocks b).hash = some o

theorem Addressable.owned {xxh64 : XxHash} {m : BlockManager} {b : BlockId} (h : Addressable xxh64 m b) :
    m.hashToBlockId (m.blocks b).hash ≠ none := by
  obtain ⟨o, found, -⟩ := h.indexed
  rw [found]
  exact Option.some_ne_none o

/-- The runs in which no `_allocate_block` takes the page that the index names for a hash while another page has the
same hash. `u` is the state after decode preemption. -/
inductive SparingRun (xxh64 : XxHash) (config : Config) : Scheduler → Finset SeqId → Prop
  | init {s : Scheduler} (made : Scheduler.init config = .ok s) : SparingRun xxh64 config s ∅
  | add {s s' : Scheduler} {ids : Finset SeqId} {i : SeqId} {tokenIds : List Token} {params : SamplingParams}
      {seq : Sequence} (past : SparingRun xxh64 config s ids) (absent : i ∉ ids)
      (made : Sequence.init xxh64 i tokenIds params config.kvcacheBlockSize = .ok seq)
      (run : Scheduler.add seq s = .ok () s') : SparingRun xxh64 config s' (insert i ids)
  | step {s u t w : Scheduler} {ids : Finset SeqId} {batch : List SeqId} (past : SparingRun xxh64 config s ids)
      (step : Step xxh64 s batch t w) (preempted : Scheduler.preemptDecodeTail s.resetCounters = .ok () u)
      (sparing : Sparing batch u t) : SparingRun xxh64 config w ids

section Addressable

open Scheduler

variable {cache : Cache} {xxh64 : XxHash} {config : Config} {s u t w : Scheduler} {ids : Finset SeqId}
  {batch : List SeqId} {b : BlockId}

theorem Turn.tokens {seq seq' : Sequence} (turn : Turn xxh64 config seq seq') : seq.tokenIds <+: seq'.tokenIds := by
  cases turn with
  | ends tokenId complete stop => exact Sequence.appended_tokens xxh64 seq tokenId
  | grows tokenId complete more => exact Sequence.appended_tokens xxh64 seq tokenId
  | advances rest => exact List.prefix_rfl

theorem SparingRun.reachable (run : SparingRun xxh64 config s ids) : Reachable xxh64 config s ids := by
  induction run with
  | init made => exact .init made
  | add past absent made run ih => exact ih.add absent made run
  | step past step preempted sparing ih => exact ih.step step

theorem Inv.batch_mem (h : Inv cache s ids) (step : Step xxh64 s batch t w) : ∀ i ∈ batch, i ∈ ids := by
  obtain ⟨prefill, input, scheduled⟩ := h.scheduled step.scheduled
  intro i listed
  rw [scheduled.order] at listed
  exact (scheduled.shape.member listed).1

theorem Inv.step_tokens (h : Inv cache s ids) (step : Step xxh64 s batch t w) (i : SeqId) :
    (s.seqs i).tokenIds <+: (w.seqs i).tokenIds := by
  obtain ⟨prefill, input, samples, scheduled, advanced, -⟩ := h.step step
  obtain ⟨-, -, -, -, tokens, -⟩ := Sequence.request_eq (scheduled.request i)
  rw [← tokens]
  by_cases turn : i ∈ prefill ++ t.running
  · exact (advanced.turn i turn).tokens
  · rw [advanced.others i turn]

theorem Inv.preempt_follows (h : Inv cache s ids) (cached : Cached xxh64 s.pool ids)
    (preempted : Scheduler.preemptDecodeTail s.resetCounters = .ok () u) : Cached.Follows xxh64 s.pool u.pool ids := by
  obtain ⟨u', tail, run, inv, moved, -⟩ := Inv.preemptDecodeTail h.reset
  cases preempted.symm.trans run
  have kept := Cached.preemptDecodeTailFrom (s := s.resetCounters) cached (fun i runs => (h.running_mem runs).1) preempted
  have size : u.blockManager.blockSize = s.blockManager.blockSize := by
    rw [inv.size, h.size, show u.config = s.config from moved.config]
  refine ⟨kept, size, fun i => ?_⟩
  obtain ⟨-, -, -, -, tokens, -⟩ := Sequence.request_eq (moved.request i)
  exact tokens

theorem SparingRun.cached (run : SparingRun xxh64 config s ids)
    (distinct : Distinct xxh64 config.kvcacheBlockSize s.seqs ids) : Cached xxh64 s.pool ids := by
  induction run with
  | init made =>
      obtain ⟨manager, created, made⟩ := except_bind_ok made
      rw [except_pure_ok] at made
      subst made
      exact Cached.init created _
  | @add s s' ids i tokenIds params seq past absent made run ih =>
      obtain ⟨cache, inv, same⟩ := past.reachable.inv
      obtain ⟨wf, fresh, name, -⟩ := Sequence.init_ok made
      obtain ⟨-, value⟩ := add_run run
      subst name
      subst value
      have before : Cached xxh64 s.pool ids := by
        refine ih (distinct.mono (Finset.subset_insert _ _) (fun j member => ?_))
        have other : j ≠ seq.seqId := fun self => absent (self ▸ member)
        change (s.seqs j).tokenIds <+: ((s.setSeq seq.seqId seq).seqs j).tokenIds
        rw [setSeq_seqs_of_ne s _ other]
      refine before.enter absent ?_ fresh.table (Sequence.Hashed.init made)
      rw [pool_manager, inv.size, same]
      exact wf
  | @step s u t w ids batch past step preempted sparing ih =>
      obtain ⟨cache, inv, same⟩ := past.reachable.inv
      obtain ⟨tokenIds, logitsIndices, -, run⟩ := step.sampled
      have before := distinct.mono (Finset.Subset.refl ids) (fun i _ => inv.step_tokens step i)
      have paused := inv.preempt_follows (ih before) preempted
      rw [← same, ← inv.size] at before
      have members := inv.batch_mem step
      exact (sparing.follows paused.cached members (paused.distinct before)).cached.postprocess members run

theorem SparingRun.sole_step (run : SparingRun xxh64 config s ids)
    (distinct : Distinct xxh64 config.kvcacheBlockSize s.seqs ids) (step : Step xxh64 s batch t w)
    (preempted : Scheduler.preemptDecodeTail s.resetCounters = .ok () u) (sole : u.blockManager.Sole) :
    SparingRun xxh64 config w ids := by
  obtain ⟨cache, inv, same⟩ := run.reachable.inv
  obtain ⟨u', calls, run', -, traced, scheduled⟩ := inv.schedule_traced step.scheduled
  cases preempted.symm.trans run'
  have paused := inv.preempt_follows (run.cached distinct) preempted
  rw [← same, ← inv.size] at distinct
  have sparing := traced.sparing paused.cached scheduled (inv.batch_mem step) (paused.distinct distinct) sole
  exact run.step step preempted sparing.1

/-- In a sparing run every published page stays addressable. -/
theorem cached_blocks_addressable (run : SparingRun xxh64 config s ids)
    (distinct : Distinct xxh64 config.kvcacheBlockSize s.seqs ids) (within : b < s.blockManager.numBlocks)
    (published : (s.blockManager.blocks b).hash ≠ -1) : Addressable xxh64 s.blockManager b := by
  obtain ⟨chain, held, find⟩ := run.cached distinct
  constructor
  case indexed =>
    obtain ⟨o, found, link⟩ := find.indexed b within published
    exact ⟨o, found, congrArg Link.segment link, congrArg Link.identity link⟩
  case rooted => exact find.ancestry held within published
  case reached =>
    intro i tokens prompt params seq ancestry made starts longer
    obtain ⟨wf, fresh, -, same, -⟩ := Sequence.init_ok made
    rw [← same] at starts longer
    exact find.matchPrefix_reaches held ancestry wf fresh (Sequence.Hashed.init made) starts longer

theorem SparingRun.sole_event (run : SparingRun xxh64 config s ids)
    (distinct : Distinct xxh64 config.kvcacheBlockSize s.seqs ids)
    (preempted : Scheduler.preemptDecodeTail s.resetCounters = .ok () u) (sole : u.blockManager.Sole)
    (tokenIds : List Token) (step : (Event.step tokenIds).run xxh64 s = .ok () w) : SparingRun xxh64 config w ids := by
  obtain ⟨batch, t, step⟩ := Event.step_run step
  exact run.sole_step distinct step preempted sole

theorem Distinct.of_bounded {size : Nat} {seqs : SeqId → Sequence} (positive : 0 < size)
    (bounded : ∀ i ∈ ids, ∀ j ∈ ids, ∀ k < (seqs i).tokenIds.length, ∀ l < (seqs j).tokenIds.length,
      chainHash xxh64 size (seqs i).tokenIds (k + 1) = chainHash xxh64 size (seqs j).tokenIds (l + 1) →
      (seqs i).tokenIds.take ((k + 1) * size) = (seqs j).tokenIds.take ((l + 1) * size)) :
    Distinct xxh64 size seqs ids := by
  have inside {k length : Nat} (fits : (k + 1) * size ≤ length) : k < length :=
    (Nat.le_mul_of_pos_right (k + 1) positive).trans fits
  intro i memberI j memberJ k l fitsI fitsJ
  exact bounded i memberI j memberJ k (inside fitsI) l (inside fitsJ)

end Addressable

-- A prompt of two pages, which take two of four unused blocks.
theorem cached_blocks_addressable_fresh :
    ∃ s, SparingRun pageHash
        { maxNumBatchedTokens := 8
          maxNumSeqs := 2
          maxModelLen := 8
          kvcacheBlockSize := 1
          numKvcacheBlocks := 4
          kvcacheBlockSize_pos := Nat.one_pos } s {0} ∧
      Addressable pageHash s.blockManager 1 := by
  have start : Scheduler.init
      { maxNumBatchedTokens := 8
        maxNumSeqs := 2
        maxModelLen := 8
        kvcacheBlockSize := 1
        numKvcacheBlocks := 4
        kvcacheBlockSize_pos := Nat.one_pos } = .ok _ := rfl
  have request : Sequence.init pageHash 0 [1, 2] {} 1 = .ok _ := rfl
  have added := (@SparingRun.init pageHash _ _ start).add (by decide : 0 ∉ (∅ : Finset SeqId)) request
    (run_final (by decide +kernel))
  have served := added.sole_event (Distinct.of_bounded Nat.one_pos (by decide +kernel))
    (run_final (by decide +kernel)) (by decide +kernel) [5] (run_final (by decide +kernel))
  exact ⟨_, served, cached_blocks_addressable served (Distinct.of_bounded Nat.one_pos (by decide +kernel))
    (by decide +kernel) (by decide +kernel)⟩

/-- Two requests publish the prefix `[1]` as pages 0 and 1. Page 1 is the owner of its hash when it is recycled, and
page 0, which is still in use, is lost. -/
theorem recycled_duplicate_unaddressable :
    ∃ s seq, Reachable pageHash
        { maxNumBatchedTokens := 8
          maxNumSeqs := 3
          maxModelLen := 8
          kvcacheBlockSize := 1
          numKvcacheBlocks := 3
          kvcacheBlockSize_pos := Nat.one_pos } s {0, 1} ∧
      Distinct pageHash 1 s.seqs {0, 1} ∧ 0 < s.blockManager.numBlocks ∧ (s.blockManager.blocks 0).hash ≠ -1 ∧
      0 ∈ s.blockManager.usedBlockIds ∧ s.blockManager.hashToBlockId (s.blockManager.blocks 0).hash = none ∧
      Ancestry s.blockManager 0 [1] ∧ Sequence.init pageHash 2 [1, 9] {} 1 = .ok seq ∧
      s.blockManager.matchPrefix seq = .ok [] ∧ ¬Addressable pageHash s.blockManager 0 := by
  have start : Scheduler.init
      { maxNumBatchedTokens := 8
        maxNumSeqs := 3
        maxModelLen := 8
        kvcacheBlockSize := 1
        numKvcacheBlocks := 3
        kvcacheBlockSize_pos := Nat.one_pos } = .ok _ := rfl
  have run := Reachable.play pageHash start
    [.add 0 [1] { maxTokens := 4 }, .add 1 [1] { maxTokens := 1 }, .step [5, 6], .step [7], .step [8]] (by decide)
    (run_final (by decide +kernel))
  refine ⟨_, _, run, Distinct.of_bounded Nat.one_pos (by decide +kernel), by decide +kernel, by decide +kernel,
    by decide +kernel, by decide +kernel, ?_, rfl, by decide +kernel, fun found => found.owned (by decide +kernel)⟩
  exact Ancestry.first (by decide +kernel) (by decide +kernel) (by decide +kernel) (by decide +kernel)

end NanoVllm
