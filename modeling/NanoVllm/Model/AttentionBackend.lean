import NanoVllm.Model.ModelRunner
import NanoVllm.Shared.Ragged

set_option autoImplicit false

namespace NanoVllm

open Python Raising Torch

inductive DType where
  | int32
  | int64
  deriving DecidableEq, Repr

inductive DeviceType where
  | cpu
  | cuda
  deriving DecidableEq, Repr

structure IntTensor where
  dtype : DType
  device : DeviceType
  data : List Int
  deriving DecidableEq, Repr

structure IntMatrix where
  dtype : DType
  device : DeviceType
  columns : Nat
  rows : List (List Int)
  deriving DecidableEq, Repr

namespace IntTensor

def numel (x : IntTensor) : Nat := x.data.length

-- `x[i].item()`
def item (x : IntTensor) (i : Int) : Except PyError Int :=
  match x.data[(if i < 0 then i + x.numel else i).toNat]? with
  | some value => pure value
  | none => throw (.indexError "index is out of bounds for dimension 0")

end IntTensor

structure CommonAttentionMetadata where
  numPrefillSeqs : Int
  numDecodeSeqs : Int
  numPrefillTokens : Int
  numDecodeTokens : Int
  queryStartLoc : IntTensor
  seqLens : IntTensor
  slotMapping : IntTensor
  blockTables : Option IntMatrix := none
  maxQLen : Int := 0
  maxKvLen : Int := 0
  blockCounts : List Int := []
  numKvBlocks : Int := 0
  numPrefillKvBlocks : Int := 0
  trusted : Bool := false
  deriving DecidableEq, Repr

namespace CommonAttentionMetadata

def numSeqs (common : CommonAttentionMetadata) : Int := common.numPrefillSeqs + common.numDecodeSeqs

def numQueryTokens (common : CommonAttentionMetadata) : Int := common.numPrefillTokens + common.numDecodeTokens

end CommonAttentionMetadata

-- `torch.tensor(data, dtype=torch.int32).cuda()`
def cudaTensor (data : List Int) : IntTensor := ⟨.int32, .cuda, data⟩

-- The metadata that `prepare_model_input` puts into the context.
def ModelRunner.ModelInput.attentionMetadata (input : ModelRunner.ModelInput) : CommonAttentionMetadata :=
  { numPrefillSeqs := input.numPrefillSeqs
    numDecodeSeqs := input.numDecodeSeqs
    numPrefillTokens := input.numPrefillTokens
    numDecodeTokens := input.numDecodeTokens
    queryStartLoc := cudaTensor (input.queryStartLoc.map Nat.cast)
    seqLens := cudaTensor (input.seqLens.map Nat.cast)
    slotMapping := cudaTensor input.slotMapping
    blockTables := input.blockTables.map (fun rows =>
      { dtype := .int32
        device := .cuda
        columns := (rows.headD []).length
        rows })
    maxQLen := input.maxQLen
    maxKvLen := input.maxKvLen
    blockCounts := input.blockCounts.map Nat.cast
    numKvBlocks := input.numKvBlocks
    numPrefillKvBlocks := input.numPrefillKvBlocks
    trusted := true }

inductive BatchType where
  | purePrefill
  | pureDecode
  | mixed
  deriving DecidableEq, Repr

inductive AttentionRoute where
  | warmup
  | prefill
  | decode
  | mixedUnified
  | mixedSplit
  deriving DecidableEq, Repr

structure FlashInferMetadata where
  queryStartLoc : IntTensor
  kvIndptr : Option IntTensor
  pageIndices : Option IntTensor
  lastPageLen : Option IntTensor
  numPages : Int
  numPrefillPages : Int
  deriving DecidableEq, Repr

def FlashInferMetadata.isCacheless (metadata : FlashInferMetadata) : Bool := metadata.pageIndices.isNone

structure AttentionPlan where
  batchType : BatchType
  route : AttentionRoute
  common : CommonAttentionMetadata
  metadata : FlashInferMetadata
  deriving DecidableEq, Repr

section Validation

def intFields (common : CommonAttentionMetadata) : List (String × Int) :=
  [("num_prefill_seqs", common.numPrefillSeqs), ("num_decode_seqs", common.numDecodeSeqs),
    ("num_prefill_tokens", common.numPrefillTokens), ("num_decode_tokens", common.numDecodeTokens),
    ("max_q_len", common.maxQLen), ("max_kv_len", common.maxKvLen), ("num_kv_blocks", common.numKvBlocks),
    ("num_prefill_kv_blocks", common.numPrefillKvBlocks)]

def tensorFields (common : CommonAttentionMetadata) : List (String × IntTensor) :=
  [("query_start_loc", common.queryStartLoc), ("seq_lens", common.seqLens), ("slot_mapping", common.slotMapping)]

def validateInt (field : String × Int) : Except PyError Unit :=
  require (0 ≤ field.2) (PyError.valueError ("common." ++ field.1 ++ " must be non-negative"))

def validateTensor (requireCuda : Bool) (field : String × IntTensor) : Except PyError Unit := do
  require (field.2.dtype = .int32) (PyError.typeError ("common." ++ field.1 ++ " must have dtype torch.int32"))
  require (requireCuda = true → field.2.device = .cuda)
    (PyError.valueError ("common." ++ field.1 ++ " must be on CUDA"))

-- The values that only untrusted metadata has checked.
def validateValues (common : CommonAttentionMetadata) : Except PyError Unit := do
  let first ← common.queryStartLoc.item 0
  require (first = 0) (PyError.valueError "query_start_loc must start at zero")
  let last ← common.queryStartLoc.item (-1)
  require (last = common.numQueryTokens) (PyError.valueError "query_start_loc must end at num_query_tokens")
  require (common.numDecodeSeqs ≠ 0 →
      ∀ length ∈ (diffs common.queryStartLoc.data).drop common.numPrefillSeqs.toNat, length = 1)
    (PyError.valueError "every decode sequence must have one query token")
  require (∀ length ∈ common.seqLens.data, 0 < length)
    (PyError.valueError "all KV sequence lengths must be positive")

def validateBlockTables (common : CommonAttentionMetadata) (requireCuda : Bool) (blockTables : IntMatrix) :
    Except PyError Unit := do
  require (blockTables.dtype = .int32) (PyError.typeError "common.block_tables must have dtype torch.int32")
  require ((blockTables.rows.length : Int) = common.numSeqs)
    (PyError.valueError "block_tables row count must equal number of sequences")
  require (requireCuda = true → blockTables.device = .cuda)
    (PyError.valueError "common.block_tables must be on CUDA")

def validateCommonMetadata (common : CommonAttentionMetadata) (requireCuda : Bool) : Except PyError Unit := do
  (intFields common).forM validateInt
  require (0 < common.numSeqs) (PyError.valueError "attention metadata must contain at least one sequence")
  require (common.numDecodeTokens = common.numDecodeSeqs)
    (PyError.valueError "decode suffix must contain one query token per sequence")
  (tensorFields common).forM (validateTensor requireCuda)
  require ((common.queryStartLoc.numel : Int) = common.numSeqs + 1)
    (PyError.valueError "query_start_loc length must equal number of sequences + 1")
  require ((common.seqLens.numel : Int) = common.numSeqs)
    (PyError.valueError "seq_lens length must equal number of sequences")
  require ((common.slotMapping.numel : Int) = common.numQueryTokens)
    (PyError.valueError "slot_mapping length must equal number of query tokens")
  (if common.trusted then pure () else validateValues common)
  match common.blockTables with
  | none => pure ()
  | some blockTables => validateBlockTables common requireCuda blockTables

def classifyBatch (common : CommonAttentionMetadata) : Except PyError BatchType :=
  if common.numPrefillSeqs = 0 then
    if common.numDecodeSeqs ≤ 0 then throw (.valueError "pure decode batch must contain decode requests")
    else pure .pureDecode
  else if common.numDecodeSeqs = 0 then pure .purePrefill
  else pure .mixed

end Validation

inductive AttentionMode where
  | unified
  | split
  deriving DecidableEq, Repr

structure Wrappers where
  prefillPlan : (qIndptr kvIndptr indices lastPageLen : List Int) → Except PyError Unit
  decodePlan : (kvIndptr indices lastPageLen : List Int) → Except PyError Unit
  mixedPlan : Option ((qIndptr kvIndptr indices seqLens : List Int) → Except PyError Unit)

structure PagePlan where
  kvIndptr : List Int
  indices : List Int
  lastPageLen : List Int

structure FlashInferBackend where
  blockSize : Nat
  attentionMode : AttentionMode
  wrappers : Wrappers

namespace FlashInferBackend

def supportsFullDecodeGraph (backend : FlashInferBackend) : Bool := backend.attentionMode = .unified

-- The part of the metadata that the two branches of `build_metadata` find in different ways.
structure Pages where
  kvIndptr : IntTensor
  pageIndices : IntTensor
  numPages : Int
  numPrefillPages : Int

def trustedPages (common : CommonAttentionMetadata) (blockTables : IntMatrix) : Except PyError Pages := do
  require ((common.blockCounts.length : Int) = common.numSeqs)
    (PyError.valueError "trusted block_counts length must equal num_seqs")
  require (∀ count ∈ common.blockCounts, 0 < count ∧ count ≤ blockTables.columns)
    (PyError.valueError "trusted block_counts contains an invalid row count")
  let kvIndptr : IntTensor := ⟨.int32, blockTables.device, offsets common.blockCounts⟩
  let pageIndices : IntTensor := ⟨blockTables.dtype, blockTables.device,
    (blockTables.rows.zip common.blockCounts).flatMap (fun row => row.1.take row.2.toNat)⟩
  let total ← kvIndptr.item (-1)
  require (common.numKvBlocks = total) (PyError.valueError "trusted num_kv_blocks must match block_counts")
  let expectedPrefillPages ← kvIndptr.item common.numPrefillSeqs
  require (common.numPrefillKvBlocks = expectedPrefillPages)
    (PyError.valueError "trusted num_prefill_kv_blocks must match block_counts")
  pure
    { kvIndptr
      pageIndices
      numPages := common.numKvBlocks
      numPrefillPages := common.numPrefillKvBlocks }

def countedPages (blockSize : Nat) (common : CommonAttentionMetadata) (blockTables : IntMatrix) :
    Except PyError Pages := do
  let pageCounts := common.seqLens.data.map (fun length => (length + blockSize - 1) / (blockSize : Int))
  let validPages := pageCounts.map (fun count =>
    (List.range blockTables.columns).map (fun (column : Nat) => decide ((column : Int) < count)))
  let pageIndices : IntTensor :=
    ⟨blockTables.dtype, blockTables.device, maskedSelect blockTables.rows validPages⟩
  require (∀ page ∈ pageIndices.data, 0 ≤ page)
    (PyError.valueError "block_tables contains an invalid page index")
  pure
    { kvIndptr := ⟨.int32, common.seqLens.device, 0 :: cumsum pageCounts⟩
      pageIndices
      numPages := pageIndices.numel
      numPrefillPages := (pageCounts.take common.numPrefillSeqs.toNat).sum }

def buildMetadata (backend : FlashInferBackend) (common : CommonAttentionMetadata) :
    Except PyError FlashInferMetadata := do
  validateCommonMetadata common true
  match common.blockTables with
  | none =>
      pure
        { queryStartLoc := common.queryStartLoc
          kvIndptr := none
          pageIndices := none
          lastPageLen := none
          numPages := 0
          numPrefillPages := 0 }
  | some blockTables => do
      let pages ← (if common.trusted then trustedPages common blockTables
        else countedPages backend.blockSize common blockTables)
      let lastPageLen := common.seqLens.data.map (fun length => (length - 1) % (backend.blockSize : Int) + 1)
      pure
        { queryStartLoc := common.queryStartLoc
          kvIndptr := some pages.kvIndptr
          pageIndices := some pages.pageIndices
          lastPageLen := some ⟨.int32, common.seqLens.device, lastPageLen⟩
          numPages := pages.numPages
          numPrefillPages := pages.numPrefillPages }

-- The consistency checks of `build_plan`
def checkPages (common : CommonAttentionMetadata) (numPages : Int) (qIndptr kvIndptr indices : IntTensor) :
    Except PyError Unit :=
  if common.trusted then
    require (numPages = indices.numel)
      (PyError.valueError "trusted FlashInfer page count does not match indices")
  else do
    let first ← qIndptr.item 0
    require (first = 0) (PyError.valueError "query_start_loc must start at zero")
    let first ← kvIndptr.item 0
    require (first = 0) (PyError.valueError "FlashInfer KV indptr must start at zero")
    let last ← kvIndptr.item (-1)
    require (last = indices.numel) (PyError.valueError "FlashInfer KV indptr does not match page indices")

def planRoute (wrappers : Wrappers) (batchType : BatchType) (common : CommonAttentionMetadata)
    (numPrefillPages : Int) (qIndptr kvIndptr indices lastPageLen : List Int) : Except PyError AttentionRoute := do
  match batchType with
  | .purePrefill =>
      wrappers.prefillPlan qIndptr kvIndptr indices lastPageLen
      pure .prefill
  | .pureDecode =>
      wrappers.decodePlan kvIndptr indices lastPageLen
      pure .decode
  | .mixed =>
      match wrappers.mixedPlan with
      | some mixedPlan =>
          mixedPlan qIndptr kvIndptr indices common.seqLens.data
          pure .mixedUnified
      | none =>
          let seqs := common.numPrefillSeqs.toNat
          let pages := numPrefillPages.toNat
          wrappers.prefillPlan (qIndptr.take (seqs + 1)) (kvIndptr.take (seqs + 1)) (indices.take pages)
            (lastPageLen.take seqs)
          wrappers.decodePlan ((kvIndptr.drop seqs).map (fun offset => offset - numPrefillPages))
            (indices.drop pages) (lastPageLen.drop seqs)
          pure .mixedSplit

def buildPlan (backend : FlashInferBackend) (common : CommonAttentionMetadata)
    (given : Option FlashInferMetadata) : Except PyError AttentionPlan := do
  let metadata ← match given with
    | some metadata => pure metadata
    | none => backend.buildMetadata common
  let batchType ← classifyBatch common
  if metadata.isCacheless then
    pure
      { batchType
        route := .warmup
        common
        metadata }
  else
    match metadata.kvIndptr, metadata.pageIndices, metadata.lastPageLen with
    | some kvIndptr, some indices, some lastPageLen => do
        checkPages common metadata.numPages metadata.queryStartLoc kvIndptr indices
        let route ← planRoute backend.wrappers batchType common metadata.numPrefillPages
          metadata.queryStartLoc.data kvIndptr.data indices.data lastPageLen.data
        pure
          { batchType
            route
            common
            metadata }
    | none, _, _ => throw (.assertionError .attentionBackend "kv_indptr is not None")
    | _, none, _ => throw (.assertionError .attentionBackend "indices is not None")
    | _, _, none => throw (.assertionError .attentionBackend "last_page_len is not None")

end FlashInferBackend

/-- What the kernels leave in the rows of the view that they write, for the query rows that they get. -/
structure Kernels (α β : Type) where
  prefillRun : (q : List α) → (out : List β) → Except PyError (List β)
  decodeRun : (q : List α) → (out : List β) → Except PyError (List β)
  mixedRun : Option ((q : List α) → (out : List β) → Except PyError (List β))
  prefillRun_inPlace : ∀ {q out rows}, prefillRun q out = .ok rows → rows.length = out.length
  decodeRun_inPlace : ∀ {q out rows}, decodeRun q out = .ok rows → rows.length = out.length

namespace FlashInferBackend

-- `forward` with a KV cache and outside of a graph; `output` is the reused buffer, of the length of `q`.
def forwardPaged {α β : Type} (kernels : Kernels α β) (q : List α) (output : List β) (plan : AttentionPlan) :
    Except PyError (List β) := do
  require (plan.metadata.isCacheless = false) (PyError.valueError "paged FlashInfer requires page metadata")
  require ((q.length : Int) = plan.common.numQueryTokens)
    (PyError.valueError "query token count does not match the attention plan")
  match plan.route with
  | .prefill => kernels.prefillRun q output
  | .decode => kernels.decodeRun q output
  | .mixedUnified =>
      match kernels.mixedRun with
      | some mixedRun => mixedRun q output
      | none => throw (.runtimeError "planned unified mixed attention wrapper is unavailable")
  | .mixedSplit => do
      let split := plan.common.numPrefillTokens.toNat
      let output ← (if plan.common.numPrefillSeqs ≠ 0 then do
          let rows ← kernels.prefillRun (q.take split) (output.take split)
          pure (rows ++ output.drop split)
        else pure output)
      (if plan.common.numDecodeSeqs ≠ 0 then do
          let rows ← kernels.decodeRun (q.drop split) (output.drop split)
          pure (output.take split ++ rows)
        else pure output)
  | .warmup => throw (.runtimeError "invalid planned FlashInfer attention route")

end FlashInferBackend

end NanoVllm
