import NanoVllm.Model.AttentionBackend

set_option autoImplicit false

namespace NanoVllm

open Python Raising Torch

structure FlashAttentionMetadata where
  queryStartLoc : IntTensor
  kvStartLoc : Option IntTensor
  blockTables : Option IntMatrix
  maxQLen : Int
  maxKvLen : Int
  deriving DecidableEq, Repr

structure FlashAttentionPlan where
  batchType : BatchType
  route : AttentionRoute
  common : CommonAttentionMetadata
  metadata : FlashAttentionMetadata
  deriving DecidableEq, Repr

/-- The arguments of `_flash_attn_varlen_func` in its paged mode, apart from the tensors. -/
structure VarlenArgs where
  cuSeqlensQ : List Int
  cuSeqlensK : List Int
  maxSeqlenQ : Int
  maxSeqlenK : Int
  blockTable : List (List Int)
  deriving DecidableEq, Repr

namespace FlashAttentionBackend

def buildMetadata (common : CommonAttentionMetadata) : Except PyError FlashAttentionMetadata := do
  validateCommonMetadata common true
  match common.blockTables with
  | none =>
      pure
        { queryStartLoc := common.queryStartLoc
          kvStartLoc := some common.queryStartLoc
          blockTables := none
          maxQLen := common.maxQLen
          maxKvLen := common.maxKvLen }
  | some blockTables =>
      pure
        { queryStartLoc := common.queryStartLoc
          kvStartLoc := some ⟨.int32, common.seqLens.device, 0 :: cumsum common.seqLens.data⟩
          blockTables := some blockTables
          maxQLen := common.maxQLen
          maxKvLen := common.maxKvLen }

def planRoute (metadata : FlashAttentionMetadata) (batchType : BatchType) : AttentionRoute :=
  if metadata.blockTables.isNone then .warmup
  else match batchType with
    | .purePrefill => .prefill
    | .pureDecode => .decode
    | .mixed => .mixedUnified

def buildPlan (common : CommonAttentionMetadata) (given : Option FlashAttentionMetadata) :
    Except PyError FlashAttentionPlan := do
  let metadata ← match given with
    | some metadata => pure metadata
    | none => buildMetadata common
  let batchType ← classifyBatch common
  pure
    { batchType
      route := planRoute metadata batchType
      common
      metadata }

-- The batch type that a paged route was planned for.
def expectedBatchType : AttentionRoute → Except PyError BatchType
  | .prefill => pure .purePrefill
  | .decode => pure .pureDecode
  | .mixedUnified => pure .mixed
  | .warmup | .mixedSplit => throw (.runtimeError
      "invalid planned FlashAttention route: <AttentionRoute.MIXED_SPLIT: 'mixed_split'>")

section Forward

-- `forward` up to the kernels: `varlen` is `_flash_attn_varlen_func` on the caches, `cacheless` the attention without.
variable {α β κ : Type} (varlen : Option (VarlenArgs → κ → (q : List α) → Except PyError β))
  (cacheless : CommonAttentionMetadata → Except PyError β)

def forwardPagedAttention (q : List α) (caches : κ) (metadata : FlashAttentionMetadata) : Except PyError β :=
  match metadata.blockTables, metadata.kvStartLoc with
  | some blockTables, some kvStartLoc =>
      match varlen with
      | none => throw (.runtimeError "Dao FlashAttention is unavailable")
      | some varlen =>
          varlen
            { cuSeqlensQ := metadata.queryStartLoc.data
              cuSeqlensK := kvStartLoc.data
              maxSeqlenQ := metadata.maxQLen
              maxSeqlenK := metadata.maxKvLen
              blockTable := blockTables.rows } caches q
  | _, _ => throw (.valueError "paged FlashAttention requires backend cache metadata")

def forward (q : List α) (caches : Option κ) (plan : FlashAttentionPlan) : Except PyError β :=
  if plan.route = .warmup then do
    require (caches.isNone) (PyError.valueError "FlashAttention warmup route requires an empty KV cache")
    require (plan.metadata.blockTables.isNone)
      (PyError.valueError "FlashAttention warmup route requires cacheless metadata")
    cacheless plan.common
  else do
    let expected ← expectedBatchType plan.route
    require (plan.batchType = expected)
      (PyError.valueError "FlashAttention route does not match the planned BatchType")
    match caches with
    | none => throw (.valueError "paged FlashAttention route requires an allocated KV cache")
    | some caches => forwardPagedAttention varlen q caches plan.metadata

end Forward

end FlashAttentionBackend

end NanoVllm
