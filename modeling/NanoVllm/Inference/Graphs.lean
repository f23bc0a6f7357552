import NanoVllm.Inference.Runs
import NanoVllm.Model.Replay
import NanoVllm.Runs.Graph

set_option autoImplicit false

namespace NanoVllm

open Python Raising Torch Paged

variable {α β κ R : Type}

/-- A graph wrapper attends to the pages of its last plan, whatever its buffers held before. -/
structure GraphOps.Reads (size : Nat) (ops : GraphOps α β κ) (attend : κ → α → List Int → β) : Prop where
  run : ∀ (held : ops.Held) {rows : List Row} {pages : PagePlan} {caches : κ} {q : List α} {out : List β},
    Feasible size rows → (∀ row ∈ rows, row.count = 1) → pages.Describes rows (Row.filled size) → q.length = rows.length →
    out.length = q.length → ops.run (ops.plan held pages) caches q out = .ok (attention size (attend caches) rows q)

structure GraphBuffers.Sized {Held : Type} (buffers : GraphBuffers Held) (size : Nat) : Prop where
  inputIds : buffers.staticInputIds.length = size
  positions : buffers.staticPositions.length = size
  slotMapping : buffers.staticSlotMapping.length = size
  queryStartLoc : buffers.queryStartLoc.length = size + 1

theorem copyData_ok {dst src : List α} (same : src.length = dst.length) : copyData dst src = .ok src := by
  rw [copyData, copyInto, require_of (Or.inl same), pure_bind, if_pos same]
  rfl

section Replay

variable {Held : Type} {planWrapper : Held → PagePlan → Held} {size n : Nat} {seqs : List Sequence}
  {buffers : GraphBuffers Held}

-- What the copies for a batch of decode requests leave in the buffers.
def GraphBuffers.filled (planWrapper : Held → PagePlan → Held) (buffers : GraphBuffers Held) (size : Nat)
    (seqs : List Sequence) : GraphBuffers Held :=
  { staticInputIds := (ModelRunner.packed size seqs 0).inputIds
    staticPositions := (ModelRunner.packed size seqs 0).positions
    staticSlotMapping := (ModelRunner.packed size seqs 0).slotMapping
    queryStartLoc := (flashInferOf size seqs 0).queryStartLoc.data
    wrapper := planWrapper buffers.wrapper (Packable.planOf seqs (Packable.lastLens size seqs)) }

namespace Packable

theorem filled_sized (h : Packable size seqs 0) : (buffers.filled planWrapper size seqs).Sized seqs.length where
  inputIds := h.length_inputIds.trans h.numNewTokens_decode
  positions := by
    have positions : (ModelRunner.packed size seqs 0).positions.length = _ := length_positions
    exact positions.trans h.numNewTokens_decode
  slotMapping := h.length_slotMapping.trans h.numNewTokens_decode
  queryStartLoc := by simp [GraphBuffers.filled, flashInferOf, cudaTensor]

theorem copied (h : Packable size seqs 0) (sized : buffers.Sized seqs.length) :
    buffers.copied planWrapper (ModelRunner.packed size seqs 0).attentionMetadata (decodePlanOf size seqs)
        (ModelRunner.packed size seqs 0).inputIds (ModelRunner.packed size seqs 0).positions =
      .ok (buffers.filled planWrapper size seqs) := by
  have filled := @filled_sized _ planWrapper _ _ buffers h
  change (copyData _ (buffers.filled planWrapper size seqs).queryStartLoc >>= fun _ =>
    copyData _ (buffers.filled planWrapper size seqs).staticInputIds >>= fun _ =>
    copyData _ (buffers.filled planWrapper size seqs).staticPositions >>= fun _ =>
    copyData _ (buffers.filled planWrapper size seqs).staticSlotMapping >>= _) = _
  rw [copyData_ok (filled.queryStartLoc.trans sized.queryStartLoc.symm), except_ok_bind,
    copyData_ok (filled.inputIds.trans sized.inputIds.symm), except_ok_bind,
    copyData_ok (filled.positions.trans sized.positions.symm), except_ok_bind,
    copyData_ok (filled.slotMapping.trans sized.slotMapping.symm), except_ok_bind, GraphBuffers.filled,
    ← @pagesOf_plan 0 seqs]
  rfl

theorem batched_replay (h : Packable size seqs 0) [Zero R] {attention : HeadAttention R} {heads : HeadShape}
    (graphs : GraphRuntime R (heads.size .q)) (reads : graphs.graph.Reads size (attendCaches attention heads))
    (buffers : GraphBuffers graphs.graph.Held)
    (once : (seqs.flatMap (ModelRunner.seqSlots size)).Nodup)
    (bounded : ∀ seq ∈ seqs, ∀ b ∈ seq.blockTable, b < graphs.runtime.cacheShape.numBlocks) {limit : Nat}
    (tokens : (seqs.map Sequence.numNewTokens).sum ≤ limit) (paged : graphs.runtime.cacheShape.blockSize = size) :
    Batched attention heads limit
      (⟨(buffers.filled graphs.graph.plan size seqs).metadata seqs.length,
          (buffers.filled graphs.graph.plan size seqs).wrapper⟩ :
        AttentionContext (graphs.captured (buffers.filled graphs.graph.plan size seqs).wrapper seqs.length))
      (queriesOf size seqs) := by
  have single : ∀ row ∈ seqs.map Sequence.pagedRow, row.count = 1 :=
    List.forall_mem_map.mpr (fun seq listed => h.decode seq listed)
  refine ⟨length_queries.trans_le tokens, h.queries_slots.symm, ?once, ?inside, ?forward⟩
  case once => rwa [h.queries_slots]
  case inside =>
    intro slot listed
    rw [h.queries_slots] at listed
    change _ ∧ slot < (graphs.runtime.cacheShape.numBlocks * graphs.runtime.cacheShape.blockSize : Nat)
    rw [paged]
    exact h.slots_inside bounded slot listed
  case forward =>
    intro cacheless caches q length
    rw [length_queries] at length
    have tokens : q.length = seqs.length := length.trans h.numNewTokens_decode
    have output := (graphs.output_length seqs.length).trans tokens.symm
    have run := @reads.run buffers.wrapper _ _ caches q (graphs.output seqs.length)
      (h.feasible h.some' (fun _ listed => listed)) single (describes (h.lastLens_eq (fun _ listed => listed)))
      (tokens.trans (List.length_map _).symm) output
    change (require ((graphs.output seqs.length).length = q.length) _ >>= fun _ =>
      graphs.graph.run (graphs.graph.plan buffers.wrapper _) caches q _) = _
    rw [require_of output, pure_bind, run, attention_eq (by rwa [counts_pagedRow]), h.queries_contexts,
      List.zipWith_map_right]

end Packable

end Replay

section Selected

theorem GraphRank.replayed_self {Held : Type} {rank : GraphRank Held} {batchSize : Nat} {state : DecodeGraphState}
    {buffers : GraphBuffers Held} :
    (rank.replayed batchSize state buffers).buffers batchSize = buffers := Function.update_self ..

theorem GraphRank.replayed_of_ne {Held : Type} {rank : GraphRank Held} {batchSize : Nat} {state : DecodeGraphState}
    {buffers : GraphBuffers Held} {size : Int} (other : size ≠ batchSize) :
    (rank.replayed batchSize state buffers).buffers size = rank.buffers size :=
  Function.update_of_ne other ..

variable [CommRing R] {silu : R → R} {tpSize width : Nat} {model : Qwen3ForCausalLM R} {graphs : GraphRuntime R width}
  {input : ModelRunner.ModelInput} {plan : AttentionPlan} {caches : List (LayerCaches R)} {stats stats' : CudagraphStats}
  {rank : GraphRank graphs.graph.Held}

namespace ModelRunner

theorem forwardSelected_eager (selected : rank.runner.selectRuntimeMode ⟨some input.attentionMetadata, some plan⟩
    input.inputIds.length stats = .ok (.eager, none) stats') :
    forwardSelected silu tpSize model graphs rank input plan caches stats = (do
      let result ← model.model.forward silu tpSize (⟨input.attentionMetadata, plan⟩ : AttentionContext graphs.eager)
        input.inputIds input.positions caches
      pure (result, rank, stats')) := by
  rw [forwardSelected, selected]

theorem forwardSelected_replay {state state' : DecodeGraphState} {stats'' : CudagraphStats}
    {buffers : GraphBuffers graphs.graph.Held}
    (selected : rank.runner.selectRuntimeMode ⟨some input.attentionMetadata, some plan⟩ input.inputIds.length stats =
      .ok (.fullGraph, some state) stats')
    (replayed : rank.runner.replayFullDecodeGraph state ⟨some input.attentionMetadata, some plan⟩ input.inputIds.length
      input.positions.length stats' = .ok state' stats'')
    (copied : (rank.buffers state.batchSize).copied graphs.graph.plan input.attentionMetadata plan input.inputIds
      input.positions = .ok buffers) :
    forwardSelected silu tpSize model graphs rank input plan caches stats = (do
      let result ← replay silu tpSize model graphs state.batchSize buffers caches
      pure (result, rank.replayed state.batchSize state' buffers, stats'')) := by
  simp only [forwardSelected, selected, replayed, copied, except_ok_bind]

theorem runModelGraphs_ok {hiddenStates : Tensor R} {caches' : List (LayerCaches R)} {rank' : GraphRank graphs.graph.Held}
    {logits : Option (Tensor R)} (planned : graphs.backend.buildPlan input.attentionMetadata none = .ok plan)
    (hidden : forwardSelected silu tpSize model graphs rank input plan caches stats =
      .ok ((hiddenStates, caches'), rank', stats'))
    (projected : ParallelLMHead.forward tpSize model.lmHead (some input.queryStartLoc) input.seqNeedComputeLogits
      hiddenStates 0 = some logits) :
    runModelGraphs silu tpSize model graphs rank input caches stats = .ok ((logits, caches'), rank', stats') := by
  simp only [runModelGraphs, planned, except_ok_bind, hidden, projected]
  rfl

end ModelRunner

end Selected

/-- A deployment on one rank, with unified FlashInfer and CUDA graphs. -/
structure GraphDeployment (R : Type) [CommRing R] (config : GraphConfig) extends Deployment R config.config where
  wrappers : Wrappers
  ops : FlashInferOps (Fin (part.heads.size .q) → R) (Fin (part.heads.size .q) → R) (KVCaches R)
  selected : runtime.backend = FlashInferBackend.backend ⟨config.config.kvcacheBlockSize, .unified, wrappers⟩ ops
  kernels : FlashInferKernels config.config.kvcacheBlockSize wrappers ops (attendCaches attention part.heads)
  enabled : config.cudagraphMode = .fullDecodeOnly
  single : config.tensorParallelSize = 1
  ranks : tpSize = config.tensorParallelSize
  wrapper : (kvIndptr indices lastPageLen : Nat) → GraphWrapper
  -- A wrapper takes every plan that its buffers have places for.
  accepts : ∀ rows capacity lasts kvIndptr indices lastPageLen, kvIndptr.length = rows → indices.length ≤ capacity →
    lastPageLen.length = lasts → (wrapper rows capacity lasts).plan kvIndptr indices lastPageLen = .ok ()
  graph : GraphOps (Fin (part.heads.size .q) → R) (Fin (part.heads.size .q) → R) (KVCaches R)
  reads : graph.Reads config.config.kvcacheBlockSize (attendCaches attention part.heads)
  output : (batchSize : Nat) → List (Fin (part.heads.size .q) → R)
  output_length : ∀ batchSize, (output batchSize).length = batchSize

namespace GraphDeployment

variable [CommRing R] {config : GraphConfig} (d : GraphDeployment R config)

def flashInfer : FlashInferBackend := ⟨config.config.kvcacheBlockSize, .unified, d.wrappers⟩

def graphs : GraphRuntime R (d.part.heads.size .q) where
  runtime := d.runtime
  backend := d.flashInfer
  ops := d.ops
  graph := d.graph
  output := d.output
  output_length := d.output_length

-- `run` of the rank, up to the sampler.
def forwardGraphs (rank : GraphRank d.graph.Held) (input : ModelRunner.ModelInput) (caches : List (Nat → KVCaches R))
    (stats : CudagraphStats) :
    Except PyError ((Option (Tensor R) × List (LayerCaches R)) × GraphRank d.graph.Held × CudagraphStats) :=
  ModelRunner.runModelGraphs d.silu d.tpSize d.model d.graphs rank input (heldCaches caches) stats

/-- The graphs are captured, and their buffers have the sizes of the buckets. -/
structure Captured (rank : GraphRank d.graph.Held) : Prop where
  ready : Ready config d.flashInfer d.wrapper rank.runner
  sized : ∀ size : Nat, Retained config size → (rank.buffers size).Sized size

end GraphDeployment

/-- The states between steps of a rank with CUDA graphs. At first the caches and the buffers hold anything. -/
inductive GraphInference [CommRing R] (xxh64 : XxHash) {config : GraphConfig} (d : GraphDeployment R config) :
    List (Nat → KVCaches R) → GraphRank d.graph.Held → CudagraphStats → Scheduler → Finset SeqId → Prop
  | init {caches : List (Nat → KVCaches R)} {rank : GraphRank d.graph.Held} {stats : CudagraphStats} {s : Scheduler}
      (allocated : caches.length = d.weights.layers.length)
      (captured : GraphRunner.init config d.flashInfer d.wrapper true = .ok rank.runner)
      (sized : ∀ size : Nat, Retained config size → (rank.buffers size).Sized size)
      (made : Scheduler.init config.config = .ok s) : GraphInference xxh64 d caches rank stats s ∅
  | add {caches : List (Nat → KVCaches R)} {rank : GraphRank d.graph.Held} {stats : CudagraphStats} {s s' : Scheduler}
      {ids : Finset SeqId} {i : SeqId} {tokenIds : List Token} {params : SamplingParams} {seq : Sequence}
      (past : GraphInference xxh64 d caches rank stats s ids) (absent : i ∉ ids) (known : d.Known tokenIds)
      (made : Sequence.init xxh64 i tokenIds params config.config.kvcacheBlockSize = .ok seq)
      (run : Scheduler.add seq s = .ok () s') : GraphInference xxh64 d caches rank stats s' (insert i ids)
  | step {caches caches' : List (Nat → KVCaches R)} {rank rank' : GraphRank d.graph.Held} {stats stats' : CudagraphStats}
      {s t w : Scheduler} {ids : Finset SeqId} {batch : List SeqId} {input : ModelRunner.ModelInput}
      {logits : Option (Tensor R)} {tokenIds : List Token} {rows : List Nat}
      (past : GraphInference xxh64 d caches rank stats s ids) (scheduled : Scheduler.schedule s = .ok batch t)
      (prepared : ModelRunner.prepareModelInput config.config.kvcacheBlockSize (batch.map t.seqs)
        t.numScheduledPrefillSeqs = .ok input)
      (forward : d.forwardGraphs rank input caches stats = .ok ((logits, heldCaches caches'), rank', stats'))
      (needed : input.seqNeedComputeLogits = some rows) (known : d.Known tokenIds)
      (run : Scheduler.postprocess xxh64 batch tokenIds rows t = .ok () w) :
      GraphInference xxh64 d caches' rank' stats' w ids

section Forward

variable [CommRing R] {config : GraphConfig} {d : GraphDeployment R config} {rank : GraphRank d.graph.Held} {size n : Nat}
  {seqs : List Sequence}

omit [CommRing R] in
theorem AttentionRuntime.Holds.withBackend {width : Nat} {runtime : AttentionRuntime R width} {heads : HeadShape}
    {limit : Nat} (holds : runtime.Holds heads limit)
    (backend : AttentionBackend (Fin width → R) (Fin width → R) (KVCaches R)) :
    ({ runtime with backend } : AttentionRuntime R width).Holds heads limit :=
  ⟨holds.kv_pos, holds.dim_pos, holds.groups, holds.cacheHeads, holds.int32, holds.stores⟩

theorem GraphDeployment.eager_computes (d : GraphDeployment R config) :
    d.graphs.eager.backend.Computes config.config.kvcacheBlockSize (attendCaches d.attention d.part.heads) :=
  @flashInfer_computes _ _ _ d.flashInfer d.ops _ d.kernels

theorem Packable.planned {backend : FlashInferBackend} (h : Packable backend.blockSize seqs n) {plan : AttentionPlan}
    (built : backend.buildPlan (metadataOf true backend.blockSize seqs n) none = .ok plan) :
    ∃ route, (n = 0 → route = .decode) ∧ plan = ⟨batchTypeOf seqs n, route, metadataOf true backend.blockSize seqs n,
      flashInferOf backend.blockSize seqs n⟩ := by
  rw [h.buildPlan rfl] at built
  obtain ⟨route, routed, made⟩ := except_bind_ok built
  refine ⟨route, fun none => ?_, ((except_pure_ok _ _).mp made).symm⟩
  subst none
  obtain ⟨_, -, routed⟩ := except_bind_ok routed
  exact ((except_pure_ok _ _).mp routed).symm

/-- What the forward pass of a batch gives on a rank with graphs, and what it leaves in their buffers. -/
structure GraphDeployment.Answers (d : GraphDeployment R config) (seqs : List Sequence) (n : Nat) (label : Cache)
    (rank rank' : GraphRank d.graph.Held) (logits : Tensor R) (caches' : List (Nat → KVCaches R)) : Prop where
  shape : logits.HasShape (completeRows seqs).length d.shape.vocabSize
  entries : ∀ (k row : Nat) (seq : Sequence), (completeRows seqs)[k]? = some row → seqs[row]? = some seq →
    ∀ c < d.shape.vocabSize, logits.entry k c = d.logits (seq.tokenIds.take seq.numContextTokens) c
  caching : d.Caching (execute label (ModelRunner.packed config.config.kvcacheBlockSize seqs n) seqs) caches'
  captured : d.Captured rank'
  replayed : n = 0 ∧ seqs.length ∈ config.cudagraphBatchSizes → rank'.buffers seqs.length =
    (rank.buffers seqs.length).filled d.graph.plan config.config.kvcacheBlockSize seqs
  eager : ¬(n = 0 ∧ seqs.length ∈ config.cudagraphBatchSizes) → rank' = rank

section Batch

variable {label : Cache} {caches : List (Nat → KVCaches R)} (captured : d.Captured rank)
  (short : ∀ seq ∈ seqs, seq.numContextTokens ≤ config.config.maxModelLen)
  (few : seqs.length ≤ min config.config.maxNumSeqs config.config.maxNumBatchedTokens)
  (caching : d.Caching label caches)
include captured short few caching

namespace Deployment.Takes

theorem forward_eager (takes : d.Takes label seqs n) (outside : ¬(n = 0 ∧ seqs.length ∈ config.cudagraphBatchSizes))
    (stats : CudagraphStats) : ∃ logits caches' stats',
      d.forwardGraphs rank (ModelRunner.packed config.config.kvcacheBlockSize seqs n) caches stats =
        .ok ((some logits, heldCaches caches'), rank, stats') ∧ d.Answers seqs n label rank rank logits caches' := by
  have h := takes.packable
  obtain ⟨plan, built, batched⟩ := h.batched d.eager_computes takes.once takes.bounded takes.tokens d.paged
  obtain ⟨route, decodes, rfl⟩ := @Packable.planned _ _ d.flashInfer h _ built
  obtain ⟨stats', selected⟩ := captured.ready.selectRuntimeMode d.enabled d.single rfl h short few decodes stats
  rw [if_neg outside] at selected
  obtain ⟨hiddenStates, logits, caches', run, projected, shape, entries, mirror⟩ :=
    d.loaded.batched_plain d.positive (d.holds.withBackend _) batched h takes.once takes.known takes.resident caching
  refine ⟨logits, caches', stats', ?_, ⟨shape, entries, mirror, captured, fun both => absurd both outside, fun _ => rfl⟩⟩
  have hidden : ModelRunner.forwardSelected d.silu d.tpSize d.model d.graphs rank
      (ModelRunner.packed config.config.kvcacheBlockSize seqs n) _ (heldCaches caches) stats =
        .ok ((hiddenStates, heldCaches caches'), rank, stats') :=
    (ModelRunner.forwardSelected_eager selected).trans (congrArg (· >>= _) run)
  exact ModelRunner.runModelGraphs_ok built hidden projected

theorem forward_replay (takes : d.Takes label seqs 0) (listed : seqs.length ∈ config.cudagraphBatchSizes)
    (stats : CudagraphStats) : ∃ logits caches' rank' stats',
      d.forwardGraphs rank (ModelRunner.packed config.config.kvcacheBlockSize seqs 0) caches stats =
        .ok ((some logits, heldCaches caches'), rank', stats') ∧ d.Answers seqs 0 label rank rank' logits caches' := by
  have h := takes.packable
  obtain ⟨plan, built, -⟩ := @d.eager_computes.forward _ _ true h
  obtain ⟨route, decodes, rfl⟩ := @Packable.planned _ _ d.flashInfer h _ built
  obtain rfl := decodes rfl
  obtain ⟨old, found⟩ := captured.ready.kept seqs.length ⟨listed, few⟩
  obtain ⟨stats₁, selected⟩ := captured.ready.selectRuntimeMode d.enabled d.single rfl h short few decodes stats
  rw [if_pos ⟨rfl, listed⟩, found] at selected
  obtain ⟨-, state', stats₂, replayed⟩ := @Packable.replay config d.wrapper seqs old rank.runner h short d.accepts stats₁
  have copied := @Packable.copied _ d.graph.plan _ _ _ h (captured.sized seqs.length ⟨listed, few⟩)
  -- The captured kernels read the buffers, which now hold what the eager forward pass would be given.
  have batched := h.batched_replay d.graphs d.reads (rank.buffers seqs.length) takes.once takes.bounded takes.tokens
    d.paged
  obtain ⟨hiddenStates, logits, caches', run, projected, shape, entries, mirror⟩ :=
    d.loaded.batched_plain d.positive (d.holds.withBackend _) batched h takes.once takes.known takes.resident caching
  have hidden : ModelRunner.forwardSelected d.silu d.tpSize d.model d.graphs rank
      (ModelRunner.packed config.config.kvcacheBlockSize seqs 0) _ (heldCaches caches) stats =
        .ok ((hiddenStates, heldCaches caches'), rank.replayed seqs.length state'
          ((rank.buffers seqs.length).filled d.graph.plan config.config.kvcacheBlockSize seqs), stats₂) :=
    (ModelRunner.forwardSelected_replay selected replayed copied).trans (congrArg (· >>= _) run)
  refine ⟨logits, caches', _, stats₂, ModelRunner.runModelGraphs_ok built hidden projected,
    ⟨shape, entries, mirror, ⟨captured.ready.replay found replayed, ?sized⟩, fun _ => GraphRank.replayed_self,
      fun outside => absurd ⟨rfl, listed⟩ outside⟩⟩
  case sized =>
    intro size retained
    by_cases self : (size : Int) = seqs.length
    · obtain rfl := Int.ofNat_inj.mp self
      rw [GraphRank.replayed_self]
      exact h.filled_sized
    · rw [GraphRank.replayed_of_ne self]
      exact captured.sized size retained

theorem forward_graphs (takes : d.Takes label seqs n) (stats : CudagraphStats) : ∃ logits caches' rank' stats',
      d.forwardGraphs rank (ModelRunner.packed config.config.kvcacheBlockSize seqs n) caches stats =
        .ok ((some logits, heldCaches caches'), rank', stats') ∧ d.Answers seqs n label rank rank' logits caches' := by
  by_cases graph : n = 0 ∧ seqs.length ∈ config.cudagraphBatchSizes
  · obtain ⟨rfl, listed⟩ := graph
    exact takes.forward_replay captured short few caching listed stats
  · obtain ⟨logits, caches', stats', run, answers⟩ := takes.forward_eager captured short few caching graph stats
    exact ⟨logits, caches', rank, stats', run, answers⟩

end Deployment.Takes

end Batch

end Forward

section Runs

open Scheduler

variable [CommRing R] {xxh64 : XxHash} {config : GraphConfig} {d : GraphDeployment R config}
  {caches : List (Nat → KVCaches R)} {rank : GraphRank d.graph.Held} {stats : CudagraphStats} {s t : Scheduler}
  {ids : Finset SeqId} {batch : List SeqId}

/-- What `run_model` gives for a scheduled batch. Exactly the batches of decode requests that have a bucket replay its
graph, which leaves their tokens in the buffer. -/
structure GraphDeployment.Forwarded (d : GraphDeployment R config) (t : Scheduler) (batch : List SeqId)
    (input : ModelRunner.ModelInput) (rank rank' : GraphRank d.graph.Held) (caches caches' : List (Nat → KVCaches R))
    (stats : CudagraphStats) (rows : List Nat) (logits : Tensor R) : Prop where
  prepared : ModelRunner.prepareModelInput config.config.kvcacheBlockSize (batch.map t.seqs) t.numScheduledPrefillSeqs =
    .ok input
  forward : ∃ stats', d.forwardGraphs rank input caches stats = .ok ((some logits, heldCaches caches'), rank', stats')
  needed : input.seqNeedComputeLogits = some rows
  complete : LogitsOf t batch rows
  shape : logits.HasShape rows.length d.shape.vocabSize
  entries : ∀ (k row : Nat) (i : SeqId), rows[k]? = some row → batch[row]? = some i → ∀ c < d.shape.vocabSize,
    logits.entry k c = d.logits (t.seqs i).tokenIds c
  replayed : t.numScheduledPrefillSeqs = 0 ∧ batch.length ∈ config.cudagraphBatchSizes →
    (rank'.buffers batch.length).staticInputIds = input.inputIds
  eager : ¬(t.numScheduledPrefillSeqs = 0 ∧ batch.length ∈ config.cudagraphBatchSizes) → rank' = rank

theorem GraphDeployment.step (holding : d.Holding xxh64 caches s ids) (captured : d.Captured rank)
    (run : schedule s = .ok batch t) (stats : CudagraphStats) :
    ∃ rank' caches' logits, d.Forwarded t batch
        (ModelRunner.packed config.config.kvcacheBlockSize (batch.map t.seqs) t.numScheduledPrefillSeqs) rank rank' caches
        caches' stats (completeRows (batch.map t.seqs)) logits ∧
      d.Captured rank' ∧ ∀ tokenIds w, d.Known tokenIds →
        Scheduler.postprocess xxh64 batch tokenIds (completeRows (batch.map t.seqs)) t = .ok () w →
        d.Holding xxh64 caches' w ids := by
  obtain ⟨label, served, caching, before⟩ := holding
  obtain ⟨takes, completes⟩ := served.takes before run
  obtain ⟨inv, same⟩ := served.inv
  obtain ⟨prefill, -, contract⟩ := inv.contract (same ▸ served.reachable.seated) run
  rw [same] at contract
  have length : (batch.map t.seqs).length = batch.length := List.length_map ..
  have few : (batch.map t.seqs).length ≤ min config.config.maxNumSeqs config.config.maxNumBatchedTokens := by
    have seats := contract.seats
    rw [length]
    exact le_min (by omega) contract.length_le
  have short : ∀ seq ∈ batch.map t.seqs, seq.numContextTokens ≤ config.config.maxModelLen :=
    List.forall_mem_map.mpr (fun i scheduled => contract.context_le scheduled)
  obtain ⟨logits, caches', rank', stats', forward, answers⟩ := takes.forward_graphs captured short few caching stats
  have prepared := takes.packable.prepared
  refine ⟨rank', caches', logits, ⟨prepared, ⟨stats', forward⟩, rfl, completes.complete, answers.shape,
    completes.entries answers.entries, fun graph => ?_, length ▸ answers.eager⟩, answers.captured, ?_⟩
  · have filled := answers.replayed (length.symm ▸ graph)
    obtain ⟨none, -⟩ := graph
    rw [length] at filled
    rw [filled, none]
    rfl
  · intro tokenIds w known done
    exact Deployment.Holding.processed served before run prepared completes.complete answers.caching known done

theorem GraphInference.holding (past : GraphInference xxh64 d caches rank stats s ids) :
    d.Holding xxh64 caches s ids ∧ d.Captured rank := by
  induction past with
  | init allocated captured sized made =>
      exact ⟨.init allocated made, ⟨Ready.init d.enabled d.single rfl captured, sized⟩⟩
  | add past absent known made run ih => exact ⟨ih.1.add absent known made run, ih.2⟩
  | @step _ _ _ _ stats _ _ _ _ _ _ _ _ _ _ past scheduled prepared forward needed known run ih =>
      obtain ⟨rank', caches', logits', forwarded, captured, after⟩ :=
        GraphDeployment.step ih.1 ih.2 scheduled stats
      have packed := forwarded.prepared
      rw [prepared] at packed
      cases packed
      obtain ⟨stats', passed⟩ := forwarded.forward
      rw [forward] at passed
      obtain ⟨results, ranks⟩ := Prod.mk.inj (Except.ok.inj passed)
      obtain rfl := heldCaches_injective (Prod.mk.inj results).2
      obtain ⟨rfl, -⟩ := Prod.mk.inj ranks
      have rows := forwarded.needed
      rw [needed] at rows
      cases rows
      exact ⟨after _ _ known run, captured⟩

theorem GraphInference.stepped (past : GraphInference xxh64 d caches rank stats s ids) (run : schedule s = .ok batch t)
    {tokenIds : List Token} {w : Scheduler} (known : d.Known tokenIds)
    (processed : Scheduler.postprocess xxh64 batch tokenIds (completeRows (batch.map t.seqs)) t = .ok () w) :
    ∃ caches' rank' stats', GraphInference xxh64 d caches' rank' stats' w ids := by
  obtain ⟨holding, captured⟩ := past.holding
  obtain ⟨rank', caches', logits, forwarded, -⟩ := GraphDeployment.step holding captured run stats
  obtain ⟨stats', forward⟩ := forwarded.forward
  exact ⟨caches', rank', stats', past.step run forwarded.prepared forward forwarded.needed known processed⟩

/-- Whether a batch replays a graph or not, in every run its rows get the logits that the plain model gives the tokens of
their requests. -/
theorem replays_plain (past : GraphInference xxh64 d caches rank stats s ids) (run : schedule s = .ok batch t) :
    ∃ input rank' caches' rows logits, d.Forwarded t batch input rank rank' caches caches' stats rows logits := by
  obtain ⟨holding, captured⟩ := past.holding
  obtain ⟨rank', caches', logits, forwarded, -⟩ := GraphDeployment.step holding captured run stats
  exact ⟨_, rank', caches', _, logits, forwarded⟩

end Runs

end NanoVllm
