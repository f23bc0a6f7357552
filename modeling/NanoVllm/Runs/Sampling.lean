import NanoVllm.Model.Sampler
import NanoVllm.Parallel.Vocab
import NanoVllm.Runs.Slots

set_option autoImplicit false

namespace NanoVllm

open Python Raising Torch Finset

variable {R : Type}

-- The logits of the hidden row `p`.
def Executor.logitsAt [CommRing R] (exec : Executor R) (input : ModelRunner.ModelInput) (p : Nat)
    (v : Fin exec.vocabSize) : R :=
  ∑ c ∈ range exec.hiddenSize, (exec.hiddenStates input).entry p c * exec.weight.entry v c

-- The packed place of the last query token of row `k`.
def lastPlace (seqs : List Sequence) (k : Nat) : Nat := ((seqs.map Sequence.numNewTokens).take (k + 1)).sum - 1

-- The token that row `k` of the batch gets in row `j` of the sampler.
def Executor.drawn [CommRing R] (exec : Executor R) (size : Nat) (seqs : List Sequence) (n : Nat) (j k : Nat) : Token :=
  exec.sampleRow j exec.vocabSize (exec.logitsAt (ModelRunner.packed size seqs n) (lastPlace seqs k))
    ((seqs.map Sequence.temperature).getD k 0)

theorem Executor.sharded (exec : Executor R) : ∃ size, exec.vocabSize = exec.tpSize * size ∧
    ∀ r < exec.tpSize, exec.lmHead r =
      VocabParallelEmbedding.onRank r exec.tpSize size (exec.weight.rowBlock size r) := by
  have divides : exec.tpSize ∣ exec.vocabSize := by
    obtain ⟨memory, created, made, -⟩ := exec.lmHead_loaded 0 exec.tpSize_pos
    unfold VocabParallelEmbedding.init at made
    split at made
    next fits => exact Nat.dvd_of_mod_eq_zero fits.2
    next => cases made
  obtain ⟨size, whole⟩ := divides
  refine ⟨size, whole, fun r below => ?_⟩
  obtain ⟨memory, created, made, loaded⟩ := exec.lmHead_loaded r below
  rw [whole, VocabParallelEmbedding.init_eq exec.tpSize_pos memory] at made
  cases made
  rw [VocabParallelEmbedding.load_eq below (whole ▸ exec.weight_shape) memory] at loaded
  exact (Option.some.inj loaded).symm

namespace Packable

variable {size n : Nat} {seqs : List Sequence}

theorem lastPlace_eq (h : Packable size seqs n) {k : Nat} {seq : Sequence} (entry : seqs[k]? = some seq) :
    lastPlace seqs k = ((seqs.map Sequence.numNewTokens).take k).sum + (seq.numNewTokens - 1) ∧
      ((seqs.map Sequence.numNewTokens).take (k + 1)).sum = lastPlace seqs k + 1 := by
  obtain ⟨inside, value⟩ := List.getElem?_eq_some_iff.mp entry
  have new := h.new seq (List.mem_of_getElem? entry)
  have next := List.sum_take_succ (seqs.map Sequence.numNewTokens) k (by simpa using inside)
  rw [List.getElem_map, value] at next
  rw [lastPlace, next]
  constructor <;> omega

theorem lastPlace_lt (h : Packable size seqs n) {k : Nat} (below : k < seqs.length) :
    lastPlace seqs k < (ModelRunner.packed size seqs n).inputIds.length := by
  have last := (h.lastPlace_eq (List.getElem?_eq_getElem below)).2
  have total := List.sum_take_add_sum_drop (seqs.map Sequence.numNewTokens) (k + 1)
  rw [h.length_inputIds]
  omega

theorem lastIndices (h : Packable size seqs n) {rows : List Nat} (inside : ∀ k ∈ rows, k < seqs.length) :
    ParallelLMHead.lastIndices (ModelRunner.packed size seqs n).queryStartLoc (some rows) =
      some (rows.map (fun k => (lastPlace seqs k : Int))) := by
  refine mapM_some (fun k listed => ?_)
  have below := inside k listed
  have last := (h.lastPlace_eq (List.getElem?_eq_getElem below)).2
  have starts : (ModelRunner.packed size seqs n).queryStartLoc = offsets (seqs.map Sequence.numNewTokens) := rfl
  rw [starts, List.getElem?_map, List.getElem?_tail, List.getElem?_eq_getElem (by simpa using below), getElem_offsets,
    last, Option.map_some]
  refine congrArg some ?_
  omega

theorem runModel [CommRing R] (h : Packable size seqs n) (exec : Executor R) {rows : List Nat}
    (logits : (ModelRunner.packed size seqs n).seqNeedComputeLogits = some rows)
    (inside : ∀ k ∈ rows, k < seqs.length) :
    ∃ entry : Nat → Nat → R, exec.runModel (ModelRunner.packed size seqs n) =
        .ok ⟨rows.length, exec.vocabSize, entry⟩ ∧
      ∀ j k, rows[j]? = some k → (fun v : Fin exec.vocabSize => entry j v) =
        exec.logitsAt (ModelRunner.packed size seqs n) (lastPlace seqs k) := by
  obtain ⟨shard, whole, sharded⟩ := exec.sharded
  obtain ⟨tokens, width⟩ := exec.hiddenStates_shape (ModelRunner.packed size seqs n)
  have selected : (exec.hiddenStates (ModelRunner.packed size seqs n)).select
      (rows.map (fun k => (lastPlace seqs k : Int))) = some ⟨rows.length, exec.hiddenSize, fun j c =>
        (exec.hiddenStates (ModelRunner.packed size seqs n)).entry ((rows.map (lastPlace seqs)).getD j 0) c⟩ := by
    rw [Tensor.select, if_pos]
    · rw [List.length_map, width]
      refine congrArg some (congrArg (Tensor.mk _ _) (funext₂ (fun j c => ?_)))
      have place : (rows.map (fun k => (lastPlace seqs k : Int))).getD j 0 =
          ((rows.map (lastPlace seqs)).getD j 0 : Nat) := by
        simp only [List.getD_eq_getElem?_getD, List.getElem?_map]
        cases rows[j]? <;> rfl
      rw [place, if_neg (by omega), Int.toNat_natCast]
    · refine List.forall_mem_map.mpr (fun k listed => ?_)
      have below := h.lastPlace_lt (inside k listed)
      rw [tokens]
      omega
  obtain ⟨⟨tall, wide, entry⟩, product, run, linear, same, rfl, rfl⟩ := ParallelLMHead.forward_ok exec.tpSize_pos
    (by rw [← whole, width]; exact exec.weight_shape) sharded (h.lastIndices inside) selected
  rw [Tensor.linear_eq exec.weight_shape.2.symm] at linear
  cases linear
  refine ⟨entry, ?_, fun j k row => funext (fun v => ?_)⟩
  · rw [Executor.runModel, logits, run, whole]
    rfl
  · have inside := (List.getElem?_eq_some_iff.mp row).1
    refine (same.entry j inside v (v.2.trans_eq whole)).trans ?_
    simp only [List.getD_eq_getElem?_getD, List.getElem?_map, row, Option.map_some, Option.getD_some]
    rfl

theorem execute [CommRing R] (h : Packable size seqs n) (exec : Executor R) {rows : List Nat}
    (logits : (ModelRunner.packed size seqs n).seqNeedComputeLogits = some rows)
    (inside : ∀ k ∈ rows, k < seqs.length) :
    exec.run size seqs n =
      .ok ((rows.zipIdx).map (fun row => exec.drawn size seqs n row.2 row.1), some rows) := by
  obtain ⟨entry, run, values⟩ := h.runModel exec logits inside
  have temperatures : Executor.prepareSample seqs (some rows) =
      .ok (rows.map (fun k => (seqs.map Sequence.temperature).getD k 0)) := by
    have found : rows.mapM (fun k => (seqs.map Sequence.temperature)[k]?) =
        some (rows.map (fun k => (seqs.map Sequence.temperature).getD k 0)) := by
      refine mapM_some (fun k listed => ?_)
      have below : k < (seqs.map Sequence.temperature).length := by simpa using inside k listed
      rw [List.getD_eq_getElem?_getD, List.getElem?_eq_getElem below, Option.getD_some]
    simp only [Executor.prepareSample, found]
    rfl
  rw [Executor.run, h.prepared, except_ok_bind, logits, temperatures, except_ok_bind, run, except_ok_bind,
    Executor.sampler, require_of (Or.inl (List.length_map _)), pure_bind]
  refine congrArg (fun tokenIds => Except.ok (tokenIds, some rows)) (List.ext_getElem (by simp) (fun j _ below => ?_))
  have below : j < rows.length := by simpa using below
  have place : (if (rows.map (fun k => (seqs.map Sequence.temperature).getD k 0)).length = 1 then 0 else j) = j := by
    rw [List.length_map]
    split <;> omega
  simp only [List.getElem_map, List.getElem_range, List.getElem_zipIdx, Nat.zero_add, place, Executor.drawn,
    values j rows[j] (List.getElem?_eq_getElem below)]
  rw [List.getD_eq_getElem?_getD, List.getElem?_map, List.getElem?_eq_getElem below, Option.map_some, Option.getD_some]

theorem last_token (h : Packable size seqs n) {k : Nat} {seq : Sequence} (entry : seqs[k]? = some seq)
    (complete : seq.numContextTokens = seq.numTokens) (tokens : seq.tokenIds.length = seq.numTokens) :
    ∃ first, (ModelRunner.packed size seqs n).queryStartLoc[k]? = some first ∧ first ≤ lastPlace seqs k ∧
      (ModelRunner.packed size seqs n).queryStartLoc[k + 1]? = some (lastPlace seqs k + 1) ∧
      (ModelRunner.packed size seqs n).positions[lastPlace seqs k]? = some (seq.numTokens - 1) ∧
      (ModelRunner.packed size seqs n).inputIds[lastPlace seqs k]? = seq.tokenIds.getLast? := by
  obtain ⟨inside, -⟩ := List.getElem?_eq_some_iff.mp entry
  obtain ⟨place, next⟩ := h.lastPlace_eq entry
  have listed := List.mem_of_getElem? entry
  have new := h.new seq listed
  have offset (r : Nat) (within : r ≤ seqs.length) : (ModelRunner.packed size seqs n).queryStartLoc[r]? =
      some ((seqs.map Sequence.numNewTokens).take r).sum := by
    have starts : (ModelRunner.packed size seqs n).queryStartLoc = offsets (seqs.map Sequence.numNewTokens) := rfl
    rw [starts, List.getElem?_eq_getElem (by simp; omega), getElem_offsets]
  rw [Sequence.numContextTokens] at complete
  refine ⟨_, offset k inside.le, by omega, next ▸ offset (k + 1) inside, ?_, ?_⟩
  · rw [place]
    refine (packed_row (fun seq _ => List.length_range') entry (by omega)).trans ?_
    rw [List.getElem?_range' (by omega)]
    refine congrArg some ?_
    omega
  · rw [place]
    refine (packed_row (fun seq listed => h.length_slice listed) entry (by omega)).trans ?_
    rw [Python.slice, List.getElem?_drop, Sequence.numContextTokens, complete, ← tokens, List.take_length,
      List.getLast?_eq_getElem?]
    refine congrArg (seq.tokenIds[·]?) ?_
    omega

end Packable

/-- The rows whose logits are computed are those of the requests that are in the KV cache as a whole after the step. -/
structure Selects (t : Scheduler) (batch : List SeqId) (rows : List Nat) : Prop where
  once : rows.Nodup
  whole : ∀ k, k ∈ rows ↔ ∃ i, batch[k]? = some i ∧ (t.seqs i).numContextTokens = (t.seqs i).numTokens
  decode : ∀ k < batch.length, t.numScheduledPrefillSeqs ≤ k → k ∈ rows

/-- The token of row `j` of the sampler comes from the hidden row `p` of the last token of request `i`, and request `i`
gets it. -/
structure Delivers [CommRing R] (exec : Executor R) (input : ModelRunner.ModelInput) (t w : Scheduler) (j k : Nat)
    (i : SeqId) (p : Nat) (token : Token) : Prop where
  row : ∃ first, input.queryStartLoc[k]? = some first ∧ first ≤ p ∧ input.queryStartLoc[k + 1]? = some (p + 1)
  position : input.positions[p]? = some ((t.seqs i).numTokens - 1)
  last : input.inputIds[p]? = (t.seqs i).tokenIds.getLast?
  drawn : token = exec.sampleRow j exec.vocabSize (exec.logitsAt input p) (t.seqs i).temperature
  appended : (w.seqs i).tokenIds = (t.seqs i).tokenIds ++ [token]

theorem Sequence.sampled_tokens {xxh64 : XxHash} {config : Config} {seq : Sequence} {tokenId : Token} :
    (seq.sampled xxh64 config tokenId).settled.tokenIds = seq.tokenIds ++ [tokenId] := by
  unfold Sequence.sampled Sequence.settled
  split <;> split <;> rfl

theorem Turn.tokens_of_rest {xxh64 : XxHash} {config : Config} {seq seq' : Sequence}
    (turn : Turn xxh64 config seq seq') (rest : ¬seq.Complete) : seq'.tokenIds = seq.tokenIds := by
  cases turn with
  | ends tokenId complete stop => exact absurd complete rest
  | grows tokenId complete more => exact absurd complete rest
  | advances rest => rfl

section Run

open Scheduler

variable [CommRing R] {xxh64 : XxHash} {config : Config} {s t : Scheduler} {ids : Finset SeqId} {batch : List SeqId}

/-- Each sampled token comes from the request that it is appended to, and only complete requests get one. -/
theorem sampled_for_request (past : Reachable xxh64 config s ids) (run : schedule s = .ok batch t) (exec : Executor R) :
    ∃ input rows tokenIds w,
      ModelRunner.prepareModelInput config.kvcacheBlockSize (batch.map t.seqs) t.numScheduledPrefillSeqs = .ok input ∧
      exec.run config.kvcacheBlockSize (batch.map t.seqs) t.numScheduledPrefillSeqs = .ok (tokenIds, some rows) ∧
      tokenIds.length = rows.length ∧ postprocess xxh64 batch tokenIds rows t = .ok () w ∧ Selects t batch rows ∧
      (∀ j k token, rows[j]? = some k → tokenIds[j]? = some token → ∃ i p, batch[k]? = some i ∧
        Delivers exec input t w j k i p token) ∧
      ∀ i, (∀ k ∈ rows, batch[k]? ≠ some i) → (w.seqs i).tokenIds = (t.seqs i).tokenIds := by
  obtain ⟨packable, prepared⟩ := past.packable run
  obtain ⟨cache, inv, same⟩ := past.inv
  obtain ⟨prefill, input, scheduled⟩ := inv.scheduled run
  have shape := scheduled.shape
  obtain ⟨rows, found, logits⟩ := scheduled.logits
  have packed := scheduled.prepared
  rw [same, prepared] at packed
  cases packed
  have inside (k : Nat) (listed : k ∈ rows) : k < (batch.map t.seqs).length := by
    obtain ⟨i, entry, -⟩ := (logits.exact' k).mp listed
    rw [List.length_map]
    exact (List.getElem?_eq_some_iff.mp entry).1
  have executed := packable.execute exec found inside
  have count : (rows.zipIdx.map (fun row => exec.drawn config.kvcacheBlockSize (batch.map t.seqs)
      t.numScheduledPrefillSeqs row.2 row.1)).length = rows.length := by simp
  have logits' : LogitsOf t (prefill ++ t.running) rows := scheduled.order ▸ logits
  obtain ⟨w, post, advanced, -⟩ := @Batch.postprocess _ xxh64 _ _ _ shape _ scheduled.resident _ _ logits' count
  rw [← scheduled.order] at post
  have selects : Selects t batch rows := by
    refine ⟨logits.once, logits.exact', fun k below decode => ?_⟩
    rw [shape.counted] at decode
    have entry : batch[k]? = t.running[k - prefill.length]? := by
      rw [scheduled.order, List.getElem?_append_right decode]
    have runs := List.mem_of_getElem? (entry.symm.trans (List.getElem?_eq_getElem below))
    exact (logits.exact' k).mpr ⟨_, List.getElem?_eq_getElem below, (shape.running _ runs).1⟩
  refine ⟨_, rows, _, w, prepared, executed, count, post, selects, fun j k token row sampled => ?_, fun i unsampled => ?_⟩
  · obtain ⟨i, entry, complete⟩ := (logits.exact' k).mp (List.mem_of_getElem? row)
    have entry' : (batch.map t.seqs)[k]? = some (t.seqs i) := by rw [List.getElem?_map, entry, Option.map_some]
    have listed : i ∈ prefill ++ t.running := scheduled.order ▸ List.mem_of_getElem? entry
    obtain ⟨chain, kept⟩ := shape.kept
    have wf := kept.held.wf i (shape.member listed).1
    obtain ⟨first, start, le, stop, position, last⟩ := packable.last_token entry' complete wf.tokens.symm
    have drawn : token = exec.drawn config.kvcacheBlockSize (batch.map t.seqs) t.numScheduledPrefillSeqs j k := by
      rw [List.getElem?_map, List.getElem?_zipIdx, row] at sampled
      simpa using sampled.symm
    refine ⟨i, _, entry, ⟨first, start, le, stop⟩, position, last, ?_, ?_⟩
    · rw [drawn, Executor.drawn, List.getD_eq_getElem?_getD, List.getElem?_map, entry']
      rfl
    · have listed : (i, token) ∈ samplesOf (prefill ++ t.running) rows (rows.zipIdx.map (fun row =>
          exec.drawn config.kvcacheBlockSize (batch.map t.seqs) t.numScheduledPrefillSeqs row.2 row.1)) := by
        have pair : (k, token) ∈ rows.zip _ := List.mem_of_getElem? (i := j)
          (List.getElem?_zip_eq_some.mpr ⟨row, sampled⟩)
        exact List.mem_map.mpr ⟨(k, i, token), mem_placed.mpr ⟨pair, scheduled.order ▸ entry⟩, rfl⟩
      rw [advanced.sampled _ listed, Sequence.sampled_tokens]
  · by_cases listed : i ∈ prefill ++ t.running
    · refine (advanced.turn i listed).tokens_of_rest (fun complete => ?_)
      obtain ⟨k, entry⟩ := List.mem_iff_getElem?.mp (scheduled.order ▸ listed)
      exact unsampled k ((logits.exact' k).mpr ⟨i, entry, complete⟩) entry
    · rw [advanced.others i listed]

end Run

-- Two ranks with two tokens each; a hidden row is its token.
def tinyExecutor : Executor Int :=
  { tpSize := 2
    vocabSize := 2 * 2
    hiddenSize := 1
    weight := ⟨4, 1, fun i _ => i⟩
    lmHead := fun r => VocabParallelEmbedding.onRank r 2 2 (Tensor.rowBlock ⟨4, 1, fun i _ => i⟩ 2 r)
    hiddenStates := fun input => ⟨input.inputIds.length, 1, fun i _ => input.inputIds.getD i 0⟩
    sampleRow := fun row vocabSize logits temperature =>
      row + ((List.finRange vocabSize).map logits).sum + temperature.num
    tpSize_pos := Nat.zero_lt_two
    weight_shape := ⟨rfl, rfl⟩
    lmHead_loaded := fun r below => ⟨fun _ _ => 0, VocabParallelEmbedding.onRank r 2 2 ⟨2, 1, fun _ _ => 0⟩,
      VocabParallelEmbedding.init_eq Nat.zero_lt_two _, VocabParallelEmbedding.load_eq below ⟨rfl, rfl⟩ _⟩
    hiddenStates_shape := fun _ => ⟨rfl, rfl⟩ }

-- A completed prefill, a partial one and a decode request.
theorem sampled_for_request_mixed :
    ∃ s t rows tokenIds w, Reachable pageHash pagedConfig s {0, 1, 2} ∧ Scheduler.schedule s = .ok [1, 2, 0] t ∧
      [1, 2, 0].map (fun i => ((t.seqs i).numContextTokens, (t.seqs i).numTokens)) = [(5, 5), (2, 7), (4, 4)] ∧
      tinyExecutor.run 2 ([1, 2, 0].map t.seqs) t.numScheduledPrefillSeqs = .ok (tokenIds, some rows) ∧
      Scheduler.postprocess pageHash [1, 2, 0] tokenIds rows t = .ok () w ∧ Selects t [1, 2, 0] rows := by
  have start : Scheduler.init pagedConfig = .ok _ := rfl
  have past := Reachable.play pageHash start
    [.add 0 [1, 2, 3] {}, .step [11], .add 1 [4, 5, 6, 7, 8] {}, .add 2 [9, 10, 11, 12, 13, 14, 15] {}] (by decide)
    (run_final (by decide +kernel))
  obtain ⟨input, rows, tokenIds, w, -, executed, -, post, selects, -⟩ :=
    sampled_for_request past (run_value (a := [1, 2, 0]) (by decide +kernel)) tinyExecutor
  exact ⟨_, _, rows, tokenIds, w, past, run_value (by decide +kernel), by decide +kernel, executed, post, selects⟩

end NanoVllm
