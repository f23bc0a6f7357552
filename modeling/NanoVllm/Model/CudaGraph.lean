import NanoVllm.Model.AttentionBackend

set_option autoImplicit false

namespace NanoVllm

open Python Raising Torch

inductive CUDAGraphPolicy where
  | none
  | fullDecodeOnly
  deriving DecidableEq, Repr

inductive RuntimeExecutionMode where
  | eager
  | fullGraph
  deriving DecidableEq, Repr

/-- The fields of `Config` that the CUDA graphs depend on. -/
structure GraphConfig where
  config : Config
  cudagraphMode : CUDAGraphPolicy := .fullDecodeOnly
  cudagraphBatchSizes : List Nat := [1, 2, 4, 8, 16, 32, 64]
  tensorParallelSize : Nat := 1
  cudagraphBatchSizes_pos : ∀ size ∈ cudagraphBatchSizes, 0 < size := by decide

structure GraphWrapper where
  plan : (kvIndptr indices lastPageLen : List Int) → Except PyError Unit

/-- `_FlashInferFullDecodeGraphState`; of a buffer it keeps the number of places. -/
structure AttentionGraphState where
  batchSize : Nat
  pageIndicesCapacity : Nat
  wrapper : GraphWrapper
  queryStartLocBuffer : Nat
  plan : Option AttentionPlan := none

structure DecodeGraphState where
  batchSize : Nat
  attentionState : AttentionGraphState
  -- Whether the graph was captured.
  cudaGraph : Bool
  staticInputIds : Nat
  staticPositions : Nat
  staticSlotMapping : Nat

structure CudagraphStats where
  fullGraphReplaySteps : Nat := 0
  eagerFallbackSteps : Nat := 0
  graphBucketHits : Nat := 0
  graphBucketMisses : Nat := 0

structure Context where
  attentionMetadata : Option CommonAttentionMetadata
  attentionPlan : Option AttentionPlan

abbrev Dispatch := EStateM PyError CudagraphStats

-- `dst.copy_(src)` for the numbers of entries of two tensors; one entry is copied everywhere.
def copyInto (dst src : Nat) : Except PyError Unit :=
  require (src = dst ∨ src = 1) (PyError.runtimeError "The size of the tensors must match")

def IntTensor.isCudaInt32 (x : IntTensor) : Bool := decide (x.dtype = .int32) && decide (x.device = .cuda)

namespace FlashInferBackend

def createFullDecodeGraphState (backend : FlashInferBackend)
    (wrapper : (kvIndptr indices lastPageLen : Nat) → GraphWrapper)
    (batchSize pageIndicesCapacity : Nat) (device : DeviceType) : Except PyError AttentionGraphState := do
  require (backend.supportsFullDecodeGraph = true)
    (PyError.runtimeError "full decode CUDA Graph requires unified FlashInfer attention")
  require (¬(batchSize ≤ 0 ∨ pageIndicesCapacity < batchSize))
    (PyError.valueError "graph state requires positive batch and page capacity")
  require (device = .cuda) (PyError.valueError "full decode graph state must be on CUDA")
  pure
    { batchSize
      pageIndicesCapacity
      wrapper := wrapper (batchSize + 1) pageIndicesCapacity batchSize
      queryStartLocBuffer := batchSize + 1 }

-- What only untrusted metadata has checked.
def untrustedFits (blockSize batchSize : Nat) (qIndptr kvIndptr indices lastPageLen : List Int) : Bool :=
  decide (qIndptr.head? = some 0) && decide (qIndptr.getLast? = some (batchSize : Int)) &&
    decide (kvIndptr.head? = some 0) && decide (kvIndptr.getLast? = some (indices.length : Int)) &&
    (diffs qIndptr).all (fun count => decide (count = 1)) &&
    lastPageLen.all (fun length => decide (0 < length) && decide (length ≤ blockSize))

def fullDecodeGraphMetadataFits (backend : FlashInferBackend) (state : AttentionGraphState) (plan : AttentionPlan) :
    Bool :=
  let common := plan.common
  let metadata := plan.metadata
  if plan.batchType ≠ .pureDecode ∨ plan.route ≠ .decode then false
  else match metadata.kvIndptr, metadata.pageIndices, metadata.lastPageLen with
    | some kvIndptr, some indices, some lastPageLen =>
        decide (common.numPrefillSeqs = 0) && decide (common.numPrefillTokens = 0) &&
          decide (common.numDecodeTokens = state.batchSize) && decide (common.numDecodeSeqs = state.batchSize) &&
          decide (metadata.queryStartLoc.numel = state.batchSize + 1) &&
          decide (kvIndptr.numel = state.batchSize + 1) && decide (lastPageLen.numel = state.batchSize) &&
          decide (indices.numel ≤ state.pageIndicesCapacity) &&
          [metadata.queryStartLoc, kvIndptr, indices, lastPageLen].all IntTensor.isCudaInt32 &&
          (if common.trusted then
            decide (metadata.numPages = indices.numel) && decide (metadata.numPrefillPages = 0)
          else untrustedFits backend.blockSize state.batchSize metadata.queryStartLoc.data kvIndptr.data indices.data
            lastPageLen.data) &&
          common.slotMapping.isCudaInt32 && decide (common.slotMapping.numel = state.batchSize)
    | _, _, _ => false

def planFullDecodeGraph (backend : FlashInferBackend) (state : AttentionGraphState) (plan : AttentionPlan) :
    Except PyError AttentionGraphState := do
  require (backend.fullDecodeGraphMetadataFits state plan = true)
    (PyError.valueError "attention plan does not fit full decode graph state")
  match plan.metadata.kvIndptr, plan.metadata.pageIndices, plan.metadata.lastPageLen with
  | some kvIndptr, some indices, some lastPageLen => do
      copyInto state.queryStartLocBuffer plan.metadata.queryStartLoc.numel
      state.wrapper.plan kvIndptr.data indices.data lastPageLen.data
      pure { state with plan := some plan }
  | none, _, _ => throw (.assertionError .attentionBackend "metadata.kv_indptr is not None")
  | _, none, _ => throw (.assertionError .attentionBackend "metadata.page_indices is not None")
  | _, _, none => throw (.assertionError .attentionBackend "metadata.last_page_len is not None")

end FlashInferBackend

structure GraphRunner where
  cudagraphPolicy : CUDAGraphPolicy
  worldSize : Nat
  attentionBackend : FlashInferBackend
  decodeGraphStates : Dict Int DecodeGraphState

namespace GraphRunner

-- `full_decode_graph_capable`, where `claimed` tells whether the process had no capture session before.
def fullDecodeGraphCapable (config : GraphConfig) (backend : FlashInferBackend) (claimed : Bool) : Bool :=
  decide (config.cudagraphMode = .fullDecodeOnly) && decide (config.tensorParallelSize = 1) &&
    backend.supportsFullDecodeGraph &&
    config.cudagraphBatchSizes.any (fun size =>
      decide (size ≤ min config.config.maxNumSeqs config.config.maxNumBatchedTokens)) && claimed

def addDecodeGraphState (config : GraphConfig) (backend : FlashInferBackend)
    (wrapper : (kvIndptr indices lastPageLen : Nat) → GraphWrapper) (states : Dict Int DecodeGraphState)
    (batchSize : Nat) : Except PyError (Dict Int DecodeGraphState) :=
  if min config.config.maxNumSeqs config.config.maxNumBatchedTokens < batchSize then pure states
  else do
    let maxPagesPerRequest := pagesFor config.config.kvcacheBlockSize config.config.maxModelLen
    let attentionState ← backend.createFullDecodeGraphState wrapper batchSize (batchSize * maxPagesPerRequest) .cuda
    pure (states.insert batchSize
      { batchSize
        attentionState
        cudaGraph := false
        staticInputIds := batchSize
        staticPositions := batchSize
        staticSlotMapping := batchSize })

def initializeDecodeGraphStates (config : GraphConfig) (backend : FlashInferBackend)
    (wrapper : (kvIndptr indices lastPageLen : Nat) → GraphWrapper) : Except PyError (Dict Int DecodeGraphState) :=
  config.cudagraphBatchSizes.foldlM (addDecodeGraphState config backend wrapper) Dict.empty

-- What `capture_full_decode_graphs` leaves when it captures the graph of every state.
def captured (states : Dict Int DecodeGraphState) : Dict Int DecodeGraphState :=
  fun size => (states size).map (fun state => { state with cudaGraph := true })

-- The runner at the end of `__init__`
def init (config : GraphConfig) (backend : FlashInferBackend)
    (wrapper : (kvIndptr indices lastPageLen : Nat) → GraphWrapper) (claimed : Bool) : Except PyError GraphRunner := do
  let states ← (if fullDecodeGraphCapable config backend claimed then initializeDecodeGraphStates config backend wrapper
    else pure Dict.empty)
  pure
    { cudagraphPolicy := config.cudagraphMode
      worldSize := config.tensorParallelSize
      attentionBackend := backend
      decodeGraphStates := captured states }

def graphMetadataFits (runner : GraphRunner) (state : DecodeGraphState) (context : Context) : Bool :=
  match context.attentionMetadata, context.attentionPlan with
  | some metadata, some plan =>
      [metadata.queryStartLoc, metadata.seqLens, metadata.slotMapping].all IntTensor.isCudaInt32 &&
        decide (metadata.queryStartLoc.numel = state.batchSize + 1) &&
        decide (metadata.seqLens.numel = state.batchSize) && decide (metadata.slotMapping.numel = state.batchSize) &&
        (match metadata.blockTables with
        | some blockTables => decide (blockTables.dtype = .int32) && decide (blockTables.device = .cuda) &&
            decide (blockTables.rows.length = state.batchSize)
        | none => false) &&
        (metadata.trusted ||
          (decide (metadata.queryStartLoc.data.head? = some 0) &&
            decide (metadata.queryStartLoc.data.getLast? = some (state.batchSize : Int)) &&
            metadata.seqLens.data.all (fun length => decide (0 < length)) &&
            metadata.slotMapping.data.all (fun slot => decide (-1 ≤ slot)))) &&
        runner.attentionBackend.fullDecodeGraphMetadataFits state.attentionState plan
  | _, _ => false

def eagerFallback : Dispatch (RuntimeExecutionMode × Option DecodeGraphState) := do
  modify (fun stats => { stats with eagerFallbackSteps := stats.eagerFallbackSteps + 1 })
  pure (.eager, none)

-- `inputIds` is the number of the packed tokens.
def selectRuntimeMode (runner : GraphRunner) (context : Context) (inputIds : Nat) :
    Dispatch (RuntimeExecutionMode × Option DecodeGraphState) :=
  if runner.cudagraphPolicy = .none then pure (.eager, none)
  else match context.attentionPlan, context.attentionMetadata with
    | some plan, some metadata =>
        let qIndptr := metadata.queryStartLoc
        let numRequests := metadata.numDecodeSeqs
        if plan.batchType ≠ .pureDecode then eagerFallback
        else if ¬runner.attentionBackend.supportsFullDecodeGraph then eagerFallback
        else if runner.worldSize ≠ 1 then eagerFallback
        else if metadata.numPrefillSeqs ≠ 0 then eagerFallback
        else if metadata.numPrefillTokens ≠ 0 then eagerFallback
        else if metadata.numDecodeTokens ≠ numRequests then eagerFallback
        else if (inputIds : Int) ≠ numRequests then eagerFallback
        else if (qIndptr.numel : Int) ≠ numRequests + 1 then eagerFallback
        else if ¬metadata.trusted ∧ ¬∀ count ∈ diffs qIndptr.data, count = 1 then eagerFallback
        else match runner.decodeGraphStates numRequests with
          | none => do
              modify (fun stats => { stats with graphBucketMisses := stats.graphBucketMisses + 1 })
              eagerFallback
          | some graphState => do
              modify (fun stats => { stats with graphBucketHits := stats.graphBucketHits + 1 })
              if ¬graphState.cudaGraph then eagerFallback
              else if ¬runner.graphMetadataFits graphState context then eagerFallback
              else pure (.fullGraph, some graphState)
    | _, _ => eagerFallback

-- `inputIds` and `positions` are the numbers of their entries.
def replayFullDecodeGraph (runner : GraphRunner) (state : DecodeGraphState) (context : Context)
    (inputIds positions : Nat) : Dispatch DecodeGraphState :=
  match context.attentionMetadata, context.attentionPlan with
  | some metadata, some plan => do
      let attentionState ← ofExcept (runner.attentionBackend.planFullDecodeGraph state.attentionState plan)
      ofExcept (copyInto state.staticInputIds inputIds)
      ofExcept (copyInto state.staticPositions positions)
      ofExcept (copyInto state.staticSlotMapping metadata.slotMapping.numel)
      require (state.cudaGraph = true) (ModelRunner.raised "state.cuda_graph is not None")
      modify (fun stats => { stats with fullGraphReplaySteps := stats.fullGraphReplaySteps + 1 })
      pure { state with attentionState }
  | _, _ => throw (.runtimeError "decode graph replay requires attention metadata and plan")

end GraphRunner

end NanoVllm
