import Mathlib.Algebra.Order.BigOperators.Group.List
import NanoVllm.Model.Warmup
import NanoVllm.Runs.Slots

set_option autoImplicit false

namespace NanoVllm

open Python Raising Torch

namespace ModelRunner

variable {xxh64 : XxHash} {config : Config} {counter : SeqId} {seqs : List Sequence}

theorem sum_warmupLengths (config : Config) :
    (warmupLengths config).sum = min config.maxNumBatchedTokens (config.maxNumSeqs * config.maxModelLen) := by
  simp only [warmupLengths]
  generalize min config.maxNumBatchedTokens (config.maxNumSeqs * config.maxModelLen) = tokens
  have whole := Nat.div_add_mod' tokens config.maxModelLen
  rw [List.sum_append, List.sum_replicate_nat]
  by_cases even : tokens % config.maxModelLen = 0
  · rw [if_neg (not_not.mpr even), List.sum_nil]
    omega
  · rw [if_pos even, List.sum_singleton]
    omega

theorem length_warmupLengths (positive : 0 < config.maxModelLen) : (warmupLengths config).length =
    pagesFor config.maxModelLen (min config.maxNumBatchedTokens (config.maxNumSeqs * config.maxModelLen)) := by
  simp only [warmupLengths]
  rw [List.length_append, List.length_replicate]
  split
  next partial' => rw [pagesFor_of_mod_ne positive partial', List.length_singleton]
  next even => rw [pagesFor_of_mod positive (not_not.mp even), List.length_nil, Nat.add_zero]

theorem warmupLengths_bounds (positive : 0 < config.maxModelLen) :
    ∀ length ∈ warmupLengths config, 0 < length ∧ length ≤ config.maxModelLen := by
  simp only [warmupLengths]
  intro length listed
  rcases List.mem_append.mp listed with full | rest
  · rw [List.eq_of_mem_replicate full]
    exact ⟨positive, le_rfl⟩
  · split at rest
    next partial' =>
      rw [List.mem_singleton.mp rest]
      exact ⟨Nat.pos_of_ne_zero partial', (Nat.mod_lt _ positive).le⟩
    next => cases rest

/-- Sequences without pages of the lengths of the warmup, all of whose tokens are new. -/
structure WarmsUp (config : Config) (seqs : List Sequence) : Prop where
  lengths : seqs.map Sequence.numTokens = warmupLengths config
  fresh : ∀ seq ∈ seqs, seq.blockTable = [] ∧ seq.numCachedTokens = 0 ∧ seq.numNewTokens = seq.numTokens ∧
    seq.numTokens = seq.tokenIds.length

theorem init_all {lengths : List (Nat × Nat)} (made : List.Forall₂ (fun length seq =>
      Sequence.init xxh64 (counter + length.2) (List.replicate length.1 0) {} config.kvcacheBlockSize = .ok seq)
        lengths seqs) :
    seqs.map Sequence.numTokens = lengths.map Prod.fst ∧
      ∀ seq ∈ seqs, seq.blockTable = [] ∧ seq.numCachedTokens = 0 ∧ seq.numTokens = seq.tokenIds.length := by
  induction made with
  | nil => simp
  | cons first later ih =>
      obtain ⟨wf, fresh, -, tokens, -⟩ := Sequence.init_ok first
      rw [List.map_cons, List.map_cons, ih.1, List.forall_mem_cons]
      refine ⟨?_, ⟨fresh.table, fresh.cached, wf.tokens⟩, ih.2⟩
      rw [wf.tokens, tokens, List.length_replicate]

theorem warmupSeqs_run (xxh64 : XxHash) (counter : SeqId) (positive : 0 < config.maxModelLen) :
    ∃ seqs, warmupSeqs xxh64 config counter = .ok seqs ∧ WarmsUp config seqs := by
  have each : ∀ length ∈ (warmupLengths config).zipIdx, ∃ seq, Sequence.init xxh64 (counter + length.2)
      (List.replicate length.1 0) {} config.kvcacheBlockSize = .ok seq := by
    intro length listed
    have some' := (warmupLengths_bounds positive length.1 (List.fst_mem_of_mem_zipIdx listed)).1
    exact Sequence.init_run _ _ _ config.kvcacheBlockSize_pos (by simpa using some'.ne')
  obtain ⟨seqs, run, made⟩ := mapM_ok each
  obtain ⟨lengths, fresh⟩ := init_all made
  refine ⟨seqs.map allNew, ?_, ?_, List.forall_mem_map.mpr (fun seq listed => ?_)⟩
  · rw [warmupSeqs, require_of positive.ne', pure_bind, run]
    rfl
  · rw [List.zipIdx_map_fst] at lengths
    rw [List.map_map, ← lengths]
    rfl
  · obtain ⟨table, cached, tokens⟩ := fresh seq listed
    exact ⟨table, cached, rfl, tokens⟩

theorem WarmsUp.prepare (h : WarmsUp config seqs) (some' : seqs ≠ []) (size : Nat) :
    ∃ input, prepareModelInput size seqs seqs.length = .ok input ∧
      input.inputIds.length = (warmupLengths config).sum ∧ logitsRows input = seqs.length := by
  have cacheless : seqs.any (fun seq => !seq.blockTable.isEmpty) = false := by
    rw [List.any_eq_false]
    intro seq listed
    simp [(h.fresh seq listed).1]
  rw [prepareModelInput, require_of some', pure_bind, require_of le_rfl, pure_bind]
  simp only [List.drop_length, cacheless, List.not_mem_nil, false_implies, implies_true, Bool.false_eq_true, false_and,
    not_false_eq_true, require_of, pure_bind, if_false]
  refine ⟨_, rfl, ?_, ?_⟩
  · have each (seq : Sequence) (listed : seq ∈ seqs) :
        (slice seq.tokenIds seq.numCachedTokens seq.numContextTokens).length = seq.numTokens := by
      obtain ⟨-, cached, new, tokens⟩ := h.fresh seq listed
      rw [length_slice, Sequence.numContextTokens, cached, new, ← tokens]
      omega
    rw [← h.lengths, List.length_flatMap, List.map_congr_left each]
  · simp [logitsRows]

end ModelRunner

section Run

open Scheduler

variable {xxh64 : XxHash} {config : Config} {s t : Scheduler} {ids : Finset SeqId} {batch prefill : List SeqId}

theorem BatchContract.tokens_le (h : BatchContract config t batch prefill) :
    (batch.map (fun i => (t.seqs i).numNewTokens)).sum ≤
      min config.maxNumBatchedTokens (config.maxNumSeqs * config.maxModelLen) := by
  have short : ∀ new ∈ batch.map (fun i => (t.seqs i).numNewTokens), new ≤ config.maxModelLen := by
    refine List.forall_mem_map.mpr (fun i listed => ?_)
    have positive := h.positive i listed
    have last := h.positions i listed ((t.seqs i).numCachedTokens + (t.seqs i).numNewTokens - 1)
      (List.mem_range'_1.mpr (by omega))
    omega
  have product := List.sum_le_card_nsmul _ _ short
  rw [List.length_map] at product
  change _ ≤ batch.length * config.maxModelLen at product
  have seats : batch.length ≤ config.maxNumSeqs := (Nat.le_add_right _ _).trans h.seats
  exact le_min h.tokens (product.trans (Nat.mul_le_mul_right _ seats))

theorem LogitsOf.length_le {rows : List Nat} (logits : LogitsOf t batch rows) : rows.length ≤ batch.length := by
  have inside : rows ⊆ List.range batch.length := by
    intro k listed
    obtain ⟨i, entry, -⟩ := (logits.exact' k).mp listed
    exact List.mem_range.mpr (List.getElem?_eq_some_iff.mp entry).1
  have bound := (List.subperm_of_subset logits.once inside).length_le
  rwa [List.length_range] at bound

/-- No batch has more query tokens than the warmup; its rows of logits are bounded by the limits of a batch only. -/
theorem warmup_tokens (xxh64 : XxHash) (counter : SeqId) (budget : 0 < config.maxNumBatchedTokens)
    (seats : 0 < config.maxNumSeqs) (length : 0 < config.maxModelLen) :
    ∃ seqs input, ModelRunner.warmupSeqs xxh64 config counter = .ok seqs ∧
      ModelRunner.prepareModelInput config.kvcacheBlockSize seqs seqs.length = .ok input ∧
      seqs.length ≤ config.maxNumSeqs ∧ (∀ seq ∈ seqs, seq.numTokens ≤ config.maxModelLen) ∧
      ModelRunner.logitsRows input = seqs.length ∧
      ∀ s ids batch t, Reachable xxh64 config s ids → schedule s = .ok batch t →
        ∃ input', ModelRunner.prepareModelInput config.kvcacheBlockSize (batch.map t.seqs) t.numScheduledPrefillSeqs =
            .ok input' ∧
          input'.inputIds.length ≤ input.inputIds.length ∧
          ModelRunner.logitsRows input' ≤ min config.maxNumSeqs config.maxNumBatchedTokens ∧
          (min config.maxNumSeqs config.maxNumBatchedTokens ≤ seqs.length →
            ModelRunner.logitsRows input' ≤ ModelRunner.logitsRows input) := by
  obtain ⟨seqs, built, warms⟩ := ModelRunner.warmupSeqs_run xxh64 counter length
  have count : seqs.length = (ModelRunner.warmupLengths config).length := by rw [← warms.lengths, List.length_map]
  have positive : 0 < (ModelRunner.warmupLengths config).length := by
    rw [ModelRunner.length_warmupLengths length]
    exact pagesFor_pos length (lt_min budget (Nat.mul_pos seats length))
  obtain ⟨input, prepared, tokens, rows⟩ := warms.prepare (List.length_pos_iff.mp (count ▸ positive))
    config.kvcacheBlockSize
  refine ⟨seqs, input, built, prepared, ?_, ?_, rows, fun s ids batch t past run => ?_⟩
  · rw [count, ModelRunner.length_warmupLengths length, pagesFor_le length]
    exact min_le_right _ _
  · intro seq listed
    have member := List.mem_map_of_mem (f := Sequence.numTokens) listed
    rw [warms.lengths] at member
    exact (ModelRunner.warmupLengths_bounds length _ member).2
  · obtain ⟨packable, prepared⟩ := past.packable run
    obtain ⟨cache, inv, same⟩ := past.inv
    obtain ⟨prefill, input', scheduled⟩ := inv.scheduled run
    obtain ⟨prefill', -, contract⟩ := inv.contract (same ▸ past.seated) run
    have packed := scheduled.prepared
    rw [same] at packed contract
    rw [prepared] at packed
    cases packed
    obtain ⟨found, need, logits⟩ := scheduled.logits
    have few : ModelRunner.logitsRows (ModelRunner.packed config.kvcacheBlockSize (batch.map t.seqs)
        t.numScheduledPrefillSeqs) ≤ min config.maxNumSeqs config.maxNumBatchedTokens := by
      rw [ModelRunner.logitsRows, need]
      exact logits.length_le.trans (le_min ((Nat.le_add_right _ _).trans contract.seats) contract.length_le)
    refine ⟨_, prepared, ?_, few, fun enough => few.trans (enough.trans rows.ge)⟩
    rw [packable.length_inputIds, tokens, ModelRunner.sum_warmupLengths, List.map_map]
    exact contract.tokens_le

def warmupConfig : Config :=
  { maxNumBatchedTokens := 8
    maxNumSeqs := 4
    maxModelLen := 96
    kvcacheBlockSize := 2
    numKvcacheBlocks := 8
    kvcacheBlockSize_pos := Nat.zero_lt_two }

theorem warmup_tokens_single : ∃ seqs,
    ModelRunner.warmupSeqs pageHash { warmupConfig with maxNumSeqs := 1 } 0 = .ok seqs ∧ seqs.map Sequence.numTokens = [8] ∧ ∀ s ids batch t, Reachable pageHash { warmupConfig with maxNumSeqs := 1 } s ids →
      schedule s = .ok batch t → ∃ input, ModelRunner.prepareModelInput 2 (batch.map t.seqs) t.numScheduledPrefillSeqs =
        .ok input ∧ input.inputIds.length ≤ 8 ∧ ModelRunner.logitsRows input ≤ 1 := by
  obtain ⟨seqs, input, built, prepared, -, -, rows, bound⟩ :=
    @warmup_tokens { warmupConfig with maxNumSeqs := 1 } pageHash 0 (by decide) (by decide) (by decide)
  have value : ModelRunner.warmupSeqs pageHash { warmupConfig with maxNumSeqs := 1 } 0 = .ok _ := rfl
  obtain rfl := Except.ok.inj (value.symm.trans built)
  obtain rfl := Except.ok.inj prepared
  refine ⟨_, built, rfl, fun s ids batch t past run => ?_⟩
  obtain ⟨input', prepared', tokens, -, logits⟩ := bound s ids batch t past run
  exact ⟨input', prepared', tokens, (logits (by decide)).trans rows.le⟩

-- One sequence of eight tokens warms up for four short requests.
theorem warmup_rows_exceeded : ∃ seqs input s t input',
    ModelRunner.warmupSeqs pageHash warmupConfig 0 = .ok seqs ∧
      ModelRunner.prepareModelInput 2 seqs seqs.length = .ok input ∧
      Reachable pageHash warmupConfig s {1, 2, 3, 4} ∧ schedule s = .ok [1, 2, 3, 4] t ∧
      ModelRunner.prepareModelInput 2 ([1, 2, 3, 4].map t.seqs) t.numScheduledPrefillSeqs = .ok input' ∧
      ModelRunner.logitsRows input = 1 ∧ ModelRunner.logitsRows input' = 4 := by
  have start : Scheduler.init warmupConfig = .ok _ := rfl
  have past := Reachable.play pageHash start
    [.add 1 [1, 2] {}, .add 2 [3, 4] {}, .add 3 [5, 6] {}, .add 4 [7, 8] {}] (by decide) (run_final (by decide +kernel))
  exact ⟨_, _, _, _, _, rfl, rfl, past, run_value (by decide +kernel),
    (past.packable (run_value (a := [1, 2, 3, 4]) (by decide +kernel))).2, rfl, by decide +kernel⟩

end Run

end NanoVllm
