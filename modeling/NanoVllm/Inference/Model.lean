import NanoVllm.Inference.Layers
import NanoVllm.Parallel.Vocab

set_option autoImplicit false

namespace NanoVllm

open Python Raising Torch Causal

variable {R : Type} {tpSize limit : Nat} {part : ModelShape} {w : ModelWeights R} {model : Qwen3ForCausalLM R}
  {attention : HeadAttention R} {queries : List Query} {label label' : Int → List Token} {silu : R → R}

structure ModelLoaded [Zero R] (tpSize : Nat) (part : ModelShape) (w : ModelWeights R) (model : Qwen3ForCausalLM R) :
    Prop where
  layers : List.Forall₂ (LayerLoaded tpSize part) w.layers model.model.layers
  some' : w.layers ≠ []
  embedTokens : ∀ r < tpSize, model.model.embedTokens r =
    .onRank r tpSize part.vocabSize (w.embedTokens.rowBlock part.vocabSize r)
  embedShape : w.embedTokens.HasShape (tpSize * part.vocabSize) part.hiddenSize
  lmHead : ∀ r < tpSize, model.lmHead r = .onRank r tpSize part.vocabSize (w.lmHead.rowBlock part.vocabSize r)
  headShape : w.lmHead.HasShape (tpSize * part.vocabSize) part.hiddenSize
  norm : model.model.norm = w.norm

def heldCaches (caches : List (Nat → KVCaches R)) : List (LayerCaches R) := caches.map (fun held r => some (held r))

theorem Prefixes.pass {X K : Type} {rowsOf : List Token → List X} (prefixes : Prefixes rowsOf) {layer : Layer X K} :
    Prefixes (fun tokenIds => layer.pass (rowsOf tokenIds)) where
  length tokenIds := Layer.length_pass.trans (prefixes.length tokenIds)
  take n tokenIds := by rw [prefixes.take, Layer.pass_take]

section Layers

variable [Ring R] {ws : List (LayerWeights R)} {layers : List (Qwen3DecoderLayer R)}

theorem forwardLayers_plain (loaded : List.Forall₂ (LayerLoaded tpSize part) ws layers) (positive : 0 < tpSize)
    {runtime : AttentionRuntime R (part.heads.size .q)} (holds : runtime.Holds part.heads limit)
    {context : AttentionContext runtime} (batched : Batched attention part.heads limit context queries)
    (labelled : Labelled queries label label') {hiddenStates : Tensor R} {residual : Option (Tensor R)}
    (shape : hiddenStates.HasShape queries.length part.hiddenSize)
    (shape' : ∀ r ∈ residual, r.HasShape queries.length part.hiddenSize)
    {rowsOf : List Token → List (Fin part.hiddenSize → R)} (prefixes : Prefixes rowsOf)
    (stream : Lasts rowsOf queries (streamRow part.hiddenSize hiddenStates residual)) {caches : List (Nat → KVCaches R)}
    (mirror : MirrorsAll rowsOf label (plainLayers (part.times tpSize) silu attention ws)
      (caches.map (slotEntry tpSize part.heads))) :
    ∃ hiddenStates' residual' caches', Qwen3Model.forwardLayers silu tpSize context (queries.map Query.position)
        (layers.zip (heldCaches caches)) hiddenStates residual = .ok (hiddenStates', residual', heldCaches caches') ∧
      hiddenStates'.HasShape queries.length part.hiddenSize ∧
      (∀ r ∈ residual', r.HasShape queries.length part.hiddenSize) ∧ (ws ≠ [] ∨ residual ≠ none → residual' ≠ none) ∧
      Lasts (fun tokenIds => run (plainLayers (part.times tpSize) silu attention ws) (rowsOf tokenIds)) queries
        (streamRow part.hiddenSize hiddenStates' residual') ∧
      MirrorsAll rowsOf label' (plainLayers (part.times tpSize) silu attention ws)
        (caches'.map (slotEntry tpSize part.heads)) := by
  induction loaded generalizing hiddenStates residual rowsOf caches with
  | nil =>
      obtain rfl : caches = [] := List.map_eq_nil_iff.mp mirror
      exact ⟨hiddenStates, residual, [], rfl, shape, shape', fun given => given.resolve_left (fun some' => some' rfl),
        stream, rfl⟩
  | @cons w layer ws layers first later ih =>
      cases caches with
      | nil => exact absurd mirror id
      | cons held caches =>
          obtain ⟨mirror, mirrors⟩ := mirror
          obtain ⟨hiddenStates₁, residual₁, held', run, shape₁, shape₁', stream₁, mirror'⟩ :=
            first.forward_plain positive silu holds batched labelled shape shape' prefixes stream mirror
          obtain ⟨hiddenStates', residual', caches', run', shape', each, some', stream', mirrors'⟩ :=
            ih shape₁ (by rintro r ⟨⟩; exact shape₁') prefixes.pass stream₁ mirrors
          refine ⟨hiddenStates', residual', held' :: caches', ?_, shape', each, fun _ => some' (Or.inr (by simp)),
            stream', mirror', mirrors'⟩
          change (layer.forward _ _ _ _ _ _ _ >>= _) = _
          rw [run, except_ok_bind]
          change (Qwen3Model.forwardLayers _ _ _ _ (layers.zip (heldCaches caches)) _ _ >>= _) = _
          rw [run']
          rfl

end Layers

section Forward

variable [CommRing R]

theorem ModelLoaded.embed_rows (loaded : ModelLoaded tpSize part w model) (positive : 0 < tpSize)
    (known : ∀ query ∈ queries, query.tokenIds ≠ [] ∧ 0 ≤ query.token ∧ query.token < (tpSize * part.vocabSize : Nat)) :
    ∃ y, VocabParallelEmbedding.forward tpSize model.model.embedTokens (queries.map Query.token) = some y ∧
      y.HasShape queries.length part.hiddenSize ∧
      Lasts (fun tokenIds => tokenIds.map (w.embed (part.times tpSize))) queries (streamRow part.hiddenSize y none) := by
  obtain ⟨y, y', run, looked, same⟩ := VocabParallelEmbedding.forward_ok positive loaded.embedShape.1
    (List.forall_mem_map.mpr (fun query listed => (known query listed).2)) loaded.embedTokens
  unfold Tensor.embedding at looked
  split at looked
  next =>
    cases looked
    have rows : y.rows = queries.length := same.rows.trans (List.length_map ..)
    have width : y.cols = part.hiddenSize := same.cols.trans loaded.embedShape.2
    refine ⟨y, run, ⟨rows, width⟩, fun t query entry => ?_⟩
    have inside : t < queries.length := (List.getElem?_eq_some_iff.mp entry).1
    have token : (queries.map Query.token).getD t 0 = query.token := by
      rw [List.getD_eq_getElem?_getD, List.getElem?_map, entry]
      rfl
    have last : query.tokenIds.getLast? = some query.token := by
      have some' := (known query (List.mem_of_getElem? entry)).1
      rw [Query.token, List.getLastD_eq_getLast?, List.getLast?_eq_getLast_of_ne_nil some']
      rfl
    rw [List.getLast?_map, last, streamRow, same.row width (rows.symm ▸ inside)]
    refine congrArg some (funext (fun c => ?_))
    exact congrArg (fun token : Token => w.embedTokens.entry token.toNat c) token.symm
  next => cases looked

theorem ModelLoaded.forward_plain (loaded : ModelLoaded tpSize part w model) (positive : 0 < tpSize)
    {runtime : AttentionRuntime R (part.heads.size .q)} (holds : runtime.Holds part.heads limit)
    {context : AttentionContext runtime} (batched : Batched attention part.heads limit context queries)
    (labelled : Labelled queries label label')
    (known : ∀ query ∈ queries, query.tokenIds ≠ [] ∧ 0 ≤ query.token ∧ query.token < (tpSize * part.vocabSize : Nat))
    {caches : List (Nat → KVCaches R)}
    (mirror : MirrorsAll (fun tokenIds => tokenIds.map (w.embed (part.times tpSize))) label
      (plainLayers (part.times tpSize) silu attention w.layers) (caches.map (slotEntry tpSize part.heads))) :
    ∃ hiddenStates caches', model.model.forward silu tpSize context (queries.map Query.token)
        (queries.map Query.position) (heldCaches caches) = .ok (hiddenStates, heldCaches caches') ∧
      hiddenStates.HasShape queries.length part.hiddenSize ∧
      Lasts (w.plain (part.times tpSize) silu attention) queries (hiddenStates.row part.hiddenSize) ∧
      MirrorsAll (fun tokenIds => tokenIds.map (w.embed (part.times tpSize))) label'
        (plainLayers (part.times tpSize) silu attention w.layers) (caches'.map (slotEntry tpSize part.heads)) := by
  obtain ⟨embedded, looked, shape, stream⟩ := loaded.embed_rows positive known
  have prefixes : Prefixes (fun tokenIds => tokenIds.map (w.embed (part.times tpSize))) :=
    ⟨fun _ => List.length_map .., fun _ _ => List.map_take ..⟩
  obtain ⟨hiddenStates, residual, caches', run, shape', each, some', stream', mirror'⟩ :=
    forwardLayers_plain loaded.layers positive holds batched labelled shape (by rintro r ⟨⟩) prefixes stream mirror
  obtain ⟨residual, rfl⟩ := Option.ne_none_iff_exists'.mp (some' (Or.inl loaded.some'))
  obtain ⟨output, sum, normed, outputShape, -, rows⟩ :=
    RMSNorm.forwardInplace_ok model.model.norm shape' (each residual rfl)
  refine ⟨output, caches', ?run, outputShape, fun t query entry => ?last, mirror'⟩
  case run =>
    simp only [Qwen3Model.forward, looked, ofTensor, pure_bind, run, except_ok_bind, normed]
    rfl
  case last =>
    rw [ModelWeights.plain, List.getLast?_map, stream' t query entry, (rows t).2, (rows t).1, loaded.norm]
    rfl

end Forward

end NanoVllm
