import NanoVllm.Inference.Batches

set_option autoImplicit false

namespace NanoVllm

open Python Raising Torch Paged Causal

variable {R : Type} {tpSize limit : Nat} {part : ModelShape} {w : ModelWeights R} {model : Qwen3ForCausalLM R}
  {attention : HeadAttention R} {silu : R → R} {size n : Nat} {seqs : List Sequence} {rows : List Nat}

def completeRows (seqs : List Sequence) : List Nat :=
  (seqs.zipIdx.filter (fun entry => ModelRunner.needsLogits entry.1)).map Prod.snd

theorem mem_completeRows {row : Nat} : row ∈ completeRows seqs ↔
    ∃ seq, seqs[row]? = some seq ∧ ModelRunner.needsLogits seq = true := by
  simp only [completeRows, List.mem_map, List.mem_filter, Prod.exists, List.mem_zipIdx_iff_getElem?]
  constructor
  · rintro ⟨seq, _, ⟨entry, needs⟩, rfl⟩
    exact ⟨seq, entry, needs⟩
  · rintro ⟨seq, entry, needs⟩
    exact ⟨seq, row, ⟨entry, needs⟩, rfl⟩

namespace Packable

-- The last query of a sequence, as a row of the batch.
def lastRow (seqs : List Sequence) (row : Nat) : Nat := ((seqs.map Sequence.numNewTokens).take (row + 1)).sum - 1

theorem lastRow_query (h : Packable size seqs n) {row : Nat} {seq : Sequence} (entry : seqs[row]? = some seq) :
    (queriesOf size seqs)[lastRow seqs row]? = some (.at size seq (seq.numContextTokens - 1)) := by
  obtain ⟨inside, value⟩ := List.getElem?_eq_some_iff.mp entry
  have new := h.new seq (List.mem_of_getElem? entry)
  have next := List.sum_take_succ (seqs.map Sequence.numNewTokens) row (by simpa using inside)
  rw [List.getElem_map, value] at next
  have place : lastRow seqs row = ((seqs.map Sequence.numNewTokens).take row).sum + (seq.numNewTokens - 1) := by
    rw [lastRow, next]
    omega
  have lengths : ∀ seq ∈ seqs,
      ((List.range' seq.numCachedTokens seq.numNewTokens).map (Query.at size seq)).length = seq.numNewTokens := by simp
  rw [place, queriesOf, packed_row lengths entry (by omega), List.getElem?_map, List.getElem?_range' (by omega)]
  simp only [Option.map_some, Sequence.numContextTokens, Nat.one_mul]
  congr 2
  omega

theorem lastIndices_eq (h : Packable size seqs n) (known : ∀ row ∈ rows, row < seqs.length) :
    ParallelLMHead.lastIndices (ModelRunner.packed size seqs n).queryStartLoc (some rows) =
      some ((rows.map (lastRow seqs)).map Nat.cast) := by
  rw [List.map_map]
  refine mapM_some (fun row listed => ?_)
  have inside := known row listed
  have new := h.new _ (List.getElem_mem inside)
  have next := List.sum_take_succ (seqs.map Sequence.numNewTokens) row (by simpa using inside)
  rw [List.getElem_map] at next
  have start : (ModelRunner.packed size seqs n).queryStartLoc[row + 1]? =
      some ((seqs.map Sequence.numNewTokens).take (row + 1)).sum := by
    change (offsets _)[row + 1]? = _
    rw [List.getElem?_eq_getElem (by simp; omega), getElem_offsets]
  rw [List.getElem?_map, List.getElem?_tail, start, Option.map_some, Function.comp_apply, lastRow]
  congr 1
  omega

end Packable

section Select

variable [CommRing R]

theorem ModelLoaded.lmHead_rows (loaded : ModelLoaded tpSize part w model) (positive : 0 < tpSize) {x : Tensor R}
    (width : x.cols = part.hiddenSize) {places : List Nat} (inside : ∀ place ∈ places, place < x.rows)
    {starts : List Nat} (last : ParallelLMHead.lastIndices starts (some rows) = some (places.map Nat.cast)) :
    ∃ logits, ParallelLMHead.forward tpSize model.lmHead (some starts) (some rows) x 0 = some (some logits) ∧
      logits.HasShape places.length (tpSize * part.vocabSize) ∧
      ∀ (k place : Nat), places[k]? = some place → ∀ c < tpSize * part.vocabSize,
        logits.entry k c = Torch.project w.lmHead none (x.row part.hiddenSize place) c := by
  have within : ∀ i ∈ places.map (Nat.cast : Nat → Int), -(x.rows : Int) ≤ i ∧ i < x.rows := by
    refine List.forall_mem_map.mpr (fun place listed => ?_)
    have below := inside place listed
    omega
  have taken : x.select (places.map Nat.cast) = some _ := if_pos within
  obtain ⟨logits, logits', run, projected, same, shape⟩ :=
    ParallelLMHead.forward_ok positive (width.symm ▸ loaded.headShape) loaded.lmHead last taken
  obtain ⟨whole, projected', -, entries⟩ := @Tensor.linear_rows R part.hiddenSize
    ⟨(places.map (Nat.cast : Nat → Int)).length, x.cols, fun t c =>
      x.entry (if (places.map (Nat.cast : Nat → Int)).getD t 0 < 0 then
        (places.map (Nat.cast : Nat → Int)).getD t 0 + x.rows else (places.map (Nat.cast : Nat → Int)).getD t 0).toNat c⟩
    _ w.lmHead none width loaded.headShape.2 (by simp)
  rw [projected, Option.some.injEq] at projected'
  subst projected'
  refine ⟨logits, run, ⟨shape.1.trans (List.length_map ..), shape.2⟩, fun k place entry c col => ?_⟩
  have row : k < logits.rows := by
    rw [shape.1]
    exact (List.length_map (Nat.cast : Nat → Int)).symm ▸ (List.getElem?_eq_some_iff.mp entry).1
  have index : (places.map (Nat.cast : Nat → Int)).getD k 0 = place := by
    rw [List.getD_eq_getElem?_getD, List.getElem?_map, entry]
    rfl
  have natural : ¬(place : Int) < 0 := by omega
  rw [same.entry k row c (shape.2.symm ▸ col), entries]
  refine congrArg (fun v => Torch.project w.lmHead none v c) (funext (fun j => ?_))
  simp only [Tensor.row, index, natural, if_false, Int.toNat_natCast]

theorem ModelLoaded.batched_plain (loaded : ModelLoaded tpSize part w model) (positive : 0 < tpSize)
    {runtime : AttentionRuntime R (part.heads.size .q)} (holds : runtime.Holds part.heads limit)
    {context : AttentionContext runtime} (batched : Batched attention part.heads limit context (queriesOf size seqs))
    (h : Packable size seqs n) (once : (seqs.flatMap (ModelRunner.seqSlots size)).Nodup)
    (known : ∀ seq ∈ seqs, ∀ token ∈ seq.tokenIds, 0 ≤ token ∧ token < (tpSize * part.vocabSize : Nat))
    {label : Cache} (resident : ∀ seq ∈ seqs, ∀ p < seq.numContextTokens,
      execute label (ModelRunner.packed size seqs n) seqs (ModelRunner.slotAt size seq p) = seq.tokenIds.take (p + 1))
    {caches : List (Nat → KVCaches R)}
    (mirror : MirrorsAll (fun tokenIds => tokenIds.map (w.embed (part.times tpSize))) label
      (plainLayers (part.times tpSize) silu attention w.layers) (caches.map (slotEntry tpSize part.heads))) :
    ∃ hiddenStates logits caches', model.model.forward silu tpSize context (ModelRunner.packed size seqs n).inputIds
        (ModelRunner.packed size seqs n).positions (heldCaches caches) = .ok (hiddenStates, heldCaches caches') ∧
      ParallelLMHead.forward tpSize model.lmHead (some (ModelRunner.packed size seqs n).queryStartLoc)
        (some (completeRows seqs)) hiddenStates 0 = some (some logits) ∧
      logits.HasShape (completeRows seqs).length (tpSize * part.vocabSize) ∧
      (∀ (k row : Nat) (seq : Sequence), (completeRows seqs)[k]? = some row → seqs[row]? = some seq →
        ∀ c < tpSize * part.vocabSize, logits.entry k c =
          w.logits (part.times tpSize) silu attention (seq.tokenIds.take seq.numContextTokens) c) ∧
      MirrorsAll (fun tokenIds => tokenIds.map (w.embed (part.times tpSize)))
        (execute label (ModelRunner.packed size seqs n) seqs)
        (plainLayers (part.times tpSize) silu attention w.layers) (caches'.map (slotEntry tpSize part.heads)) := by
  have inside := batched.inside
  rw [h.queries_slots] at inside
  have labelled := h.labelled once (fun slot listed => (inside slot listed).1) resident
  have tokens : ∀ query ∈ queriesOf size seqs,
      query.tokenIds ≠ [] ∧ 0 ≤ query.token ∧ query.token < (tpSize * part.vocabSize : Nat) := by
    intro query listed
    obtain ⟨seq, member, p, -, below, rfl⟩ := mem_queriesOf.mp listed
    have inside : p < seq.tokenIds.length := below.trans_le (h.within seq member)
    refine ⟨?_, ?_⟩
    · simp only [Query.at, ne_eq, List.take_eq_nil_iff, Nat.succ_ne_zero, false_or]
      exact List.ne_nil_of_length_pos (Nat.zero_lt_of_lt inside)
    · rw [Query.token_at inside]
      exact known seq member _ (List.getElem_mem inside)
  obtain ⟨hiddenStates, caches', run, shape, lasts, mirror'⟩ :=
    loaded.forward_plain positive holds batched labelled tokens mirror
  rw [h.queries_tokens, h.queries_positions] at run
  have rows : ∀ row ∈ completeRows seqs, row < seqs.length := by
    intro row listed
    obtain ⟨seq, entry, -⟩ := mem_completeRows.mp listed
    exact (List.getElem?_eq_some_iff.mp entry).1
  have inside : ∀ place ∈ (completeRows seqs).map (Packable.lastRow seqs), place < hiddenStates.rows := by
    refine List.forall_mem_map.mpr (fun row listed => ?_)
    rw [shape.1]
    exact (List.getElem?_eq_some_iff.mp (h.lastRow_query (List.getElem?_eq_getElem (rows row listed)))).1
  obtain ⟨logits, projected, logitsShape, entries⟩ :=
    loaded.lmHead_rows positive shape.2 inside (h.lastIndices_eq rows)
  refine ⟨hiddenStates, logits, caches', run, projected, ?shape, ?entries, mirror'⟩
  case shape => rwa [List.length_map] at logitsShape
  case entries =>
    intro k row seq needed entry c col
    have place : ((completeRows seqs).map (Packable.lastRow seqs))[k]? = some (Packable.lastRow seqs row) := by
      rw [List.getElem?_map, needed]
      rfl
    have last := lasts _ _ (h.lastRow_query entry)
    have context := Nat.sub_add_cancel (Nat.add_pos_right seq.numCachedTokens (h.new seq (List.mem_of_getElem? entry)))
    simp only [Query.at] at last
    rw [show seq.numContextTokens - 1 + 1 = seq.numContextTokens from context] at last
    rw [entries k _ place c col, ModelWeights.logits, List.getLastD_eq_getLast?, last]
    rfl

theorem ModelLoaded.runModel_plain (loaded : ModelLoaded tpSize part w model) (positive : 0 < tpSize)
    {runtime : AttentionRuntime R (part.heads.size .q)} (holds : runtime.Holds part.heads limit)
    (computes : runtime.backend.Computes size (attendCaches attention part.heads))
    (paged : runtime.cacheShape.blockSize = size) (h : Packable size seqs n)
    (once : (seqs.flatMap (ModelRunner.seqSlots size)).Nodup)
    (bounded : ∀ seq ∈ seqs, ∀ b ∈ seq.blockTable, b < runtime.cacheShape.numBlocks)
    (few : (seqs.map Sequence.numNewTokens).sum ≤ limit)
    (known : ∀ seq ∈ seqs, ∀ token ∈ seq.tokenIds, 0 ≤ token ∧ token < (tpSize * part.vocabSize : Nat))
    {label : Cache} (resident : ∀ seq ∈ seqs, ∀ p < seq.numContextTokens,
      execute label (ModelRunner.packed size seqs n) seqs (ModelRunner.slotAt size seq p) = seq.tokenIds.take (p + 1))
    {caches : List (Nat → KVCaches R)}
    (mirror : MirrorsAll (fun tokenIds => tokenIds.map (w.embed (part.times tpSize))) label
      (plainLayers (part.times tpSize) silu attention w.layers) (caches.map (slotEntry tpSize part.heads))) :
    ∃ logits caches', ModelRunner.runModel silu tpSize model runtime (ModelRunner.packed size seqs n)
        (heldCaches caches) = .ok (some logits, heldCaches caches') ∧
      logits.HasShape (completeRows seqs).length (tpSize * part.vocabSize) ∧
      (∀ (k row : Nat) (seq : Sequence), (completeRows seqs)[k]? = some row → seqs[row]? = some seq →
        ∀ c < tpSize * part.vocabSize, logits.entry k c =
          w.logits (part.times tpSize) silu attention (seq.tokenIds.take seq.numContextTokens) c) ∧
      MirrorsAll (fun tokenIds => tokenIds.map (w.embed (part.times tpSize)))
        (execute label (ModelRunner.packed size seqs n) seqs)
        (plainLayers (part.times tpSize) silu attention w.layers) (caches'.map (slotEntry tpSize part.heads)) := by
  obtain ⟨plan, built, batched⟩ := h.batched computes once bounded few paged
  obtain ⟨hiddenStates, logits, caches', run, projected, shape, entries, mirror'⟩ :=
    loaded.batched_plain positive holds batched h once known resident mirror
  refine ⟨logits, caches', ?_, shape, entries, mirror'⟩
  have needed : (ModelRunner.packed size seqs n).seqNeedComputeLogits = some (completeRows seqs) := rfl
  simp only [ModelRunner.runModel, built, except_ok_bind, run, needed, projected]
  rfl

end Select

end NanoVllm
