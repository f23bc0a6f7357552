import NanoVllm.Model.CudaGraph
import NanoVllm.Model.Decoder

set_option autoImplicit false

namespace NanoVllm

open Python Raising Torch

variable {R α β κ : Type} {width : Nat}

/-- FlashInfer's wrapper of a captured graph: what its buffers may hold, what a `plan` makes of it, and `run`. -/
structure GraphOps (α β κ : Type) where
  Held : Type
  plan : Held → PagePlan → Held
  run : Held → κ → (q : List α) → (out : List β) → Except PyError (List β)

structure GraphBuffers (Held : Type) where
  staticInputIds : List Token
  staticPositions : List Nat
  staticSlotMapping : List Int
  queryStartLoc : List Int
  wrapper : Held

-- `dst.copy_(src)`
def copyData (dst src : List α) : Except PyError (List α) := do
  copyInto dst.length src.length
  pure (if src.length = dst.length then src else src.flatMap (List.replicate dst.length))

namespace GraphBuffers

variable {Held : Type}

-- The copies of `plan_full_decode_graph`, which has checked the plan, and of `replay_full_decode_graph`.
def copied (planWrapper : Held → PagePlan → Held) (buffers : GraphBuffers Held) (metadata : CommonAttentionMetadata)
    (plan : AttentionPlan) (inputIds : List Token) (positions : List Nat) : Except PyError (GraphBuffers Held) :=
  match plan.metadata.kvIndptr, plan.metadata.pageIndices, plan.metadata.lastPageLen with
  | some kvIndptr, some indices, some lastPageLen => do
      let queryStartLoc ← copyData buffers.queryStartLoc plan.metadata.queryStartLoc.data
      let staticInputIds ← copyData buffers.staticInputIds inputIds
      let staticPositions ← copyData buffers.staticPositions positions
      let staticSlotMapping ← copyData buffers.staticSlotMapping metadata.slotMapping.data
      pure
        { staticInputIds
          staticPositions
          staticSlotMapping
          queryStartLoc
          wrapper := planWrapper buffers.wrapper ⟨kvIndptr.data, indices.data, lastPageLen.data⟩ }
  | _, _, _ => throw (.assertionError .attentionBackend "metadata.kv_indptr is not None")

-- The metadata of the capture, in which the slot mapping is the buffer itself.
def metadata (buffers : GraphBuffers Held) (batchSize : Nat) : CommonAttentionMetadata :=
  { numPrefillSeqs := 0
    numDecodeSeqs := batchSize
    numPrefillTokens := 0
    numDecodeTokens := batchSize
    queryStartLoc := cudaTensor ((List.range (batchSize + 1)).map Nat.cast)
    seqLens := cudaTensor (List.replicate batchSize 1)
    slotMapping := cudaTensor buffers.staticSlotMapping
    blockTables := some ⟨.int32, .cuda, 1, List.replicate batchSize [0]⟩
    maxQLen := 1
    maxKvLen := 1
    blockCounts := List.replicate batchSize 1
    numKvBlocks := batchSize
    numPrefillKvBlocks := 0
    trusted := true }

end GraphBuffers

-- `forward` while a graph state is active. It takes the wrapper and the output of the state; its plan is what the
-- wrapper holds after `plan_full_decode_graph`.
def FlashInferBackend.activated (self : FlashInferBackend) (ops : GraphOps α β κ) (held : ops.Held) (output : List β) :
    AttentionBackend α β κ where
  Plan := ops.Held
  buildPlan common := do
    let plan ← self.buildPlan common none
    match plan.metadata.kvIndptr, plan.metadata.pageIndices, plan.metadata.lastPageLen with
    | some kvIndptr, some indices, some lastPageLen =>
        pure (ops.plan held ⟨kvIndptr.data, indices.data, lastPageLen.data⟩)
    | _, _, _ => throw (.valueError "paged FlashInfer requires page metadata")
  forward _ q caches held :=
    match caches with
    | none => throw (.runtimeError "full decode graph requires allocated KV cache")
    | some caches => do
        require (output.length = q.length)
          (PyError.runtimeError "decode graph attention output does not match query shape")
        ops.run held caches q output

structure GraphRank (Held : Type) where
  runner : GraphRunner
  buffers : Int → GraphBuffers Held

-- A replay leaves its plan in the state and its inputs in the buffers.
def GraphRank.replayed {Held : Type} (rank : GraphRank Held) (batchSize : Nat) (state : DecodeGraphState)
    (buffers : GraphBuffers Held) : GraphRank Held :=
  { runner := { rank.runner with decodeGraphStates := rank.runner.decodeGraphStates.insert batchSize state }
    buffers := Function.update rank.buffers batchSize buffers }

/-- What the graphs of a rank share with its eager forward pass, and what they have of their own. -/
structure GraphRuntime (R : Type) (width : Nat) where
  runtime : AttentionRuntime R width
  backend : FlashInferBackend
  ops : FlashInferOps (Fin width → R) (Fin width → R) (KVCaches R)
  graph : GraphOps (Fin width → R) (Fin width → R) (KVCaches R)
  -- What the output buffer of a bucket holds.
  output : (batchSize : Nat) → List (Fin width → R)
  output_length : ∀ batchSize, (output batchSize).length = batchSize

namespace GraphRuntime

-- The runtime outside of a graph.
def eager (graphs : GraphRuntime R width) : AttentionRuntime R width :=
  { graphs.runtime with backend := graphs.backend.backend graphs.ops }

-- The runtime of the captured forward pass.
def captured (graphs : GraphRuntime R width) (held : graphs.graph.Held) (batchSize : Nat) : AttentionRuntime R width :=
  { graphs.runtime with backend := graphs.backend.activated graphs.graph held (graphs.output batchSize) }

end GraphRuntime

namespace ModelRunner

variable [Ring R] (silu : R → R) (tpSize : Nat) (self : Qwen3ForCausalLM R) (graphs : GraphRuntime R width)

-- A replay repeats the captured forward pass on what the buffers hold now; its result is `static_hidden_output`.
def replay (batchSize : Nat) (buffers : GraphBuffers graphs.graph.Held) (caches : List (LayerCaches R)) :
    Except PyError (Tensor R × List (LayerCaches R)) :=
  self.model.forward silu tpSize
    (⟨buffers.metadata batchSize, buffers.wrapper⟩ : AttentionContext (graphs.captured buffers.wrapper batchSize))
    buffers.staticInputIds buffers.staticPositions caches

-- The part of `run_model` in the mode that it selects, with the plan of the batch.
def forwardSelected (rank : GraphRank graphs.graph.Held) (input : ModelInput) (plan : AttentionPlan)
    (caches : List (LayerCaches R)) (stats : CudagraphStats) :
    Except PyError ((Tensor R × List (LayerCaches R)) × GraphRank graphs.graph.Held × CudagraphStats) :=
  let context : Context := ⟨some input.attentionMetadata, some plan⟩
  match rank.runner.selectRuntimeMode context input.inputIds.length stats with
  | .error e _ => throw e
  | .ok (.eager, _) stats => do
      let result ← self.model.forward silu tpSize (⟨input.attentionMetadata, plan⟩ : AttentionContext graphs.eager)
        input.inputIds input.positions caches
      pure (result, rank, stats)
  | .ok (.fullGraph, none) _ => throw (raised "graph_state is not None")
  | .ok (.fullGraph, some state) stats =>
      match rank.runner.replayFullDecodeGraph state context input.inputIds.length input.positions.length stats with
      | .error e _ => throw e
      | .ok state' stats => do
          let buffers ← (rank.buffers state.batchSize).copied graphs.graph.plan input.attentionMetadata plan
            input.inputIds input.positions
          let result ← replay silu tpSize self graphs state.batchSize buffers caches
          pure (result, rank.replayed state.batchSize state' buffers, stats)

-- `run_model` of all ranks, which are in the same state.
def runModelGraphs (rank : GraphRank graphs.graph.Held) (input : ModelInput) (caches : List (LayerCaches R))
    (stats : CudagraphStats) :
    Except PyError ((Option (Tensor R) × List (LayerCaches R)) × GraphRank graphs.graph.Held × CudagraphStats) := do
  let plan ← graphs.backend.buildPlan input.attentionMetadata none
  let ((hiddenStates, caches), rank, stats) ← forwardSelected silu tpSize self graphs rank input plan caches stats
  let logits ← ofTensor (ParallelLMHead.forward tpSize self.lmHead (some input.queryStartLoc)
    input.seqNeedComputeLogits hiddenStates 0)
  pure ((logits, caches), rank, stats)

end ModelRunner

end NanoVllm
