import NanoVllm.Model.Attention
import NanoVllm.Model.EmbedHead
import NanoVllm.Model.KVCacheStore
import NanoVllm.Model.Qwen3
import NanoVllm.Shared.Rows

set_option autoImplicit false

namespace NanoVllm

open Python Raising Torch

-- An operation of a tensor; `none` is one that raises.
def ofTensor {α : Type} : Option α → Except PyError α
  | some a => pure a
  | none => throw (.runtimeError "the shapes of the tensors do not match")

variable {R : Type}

/-- `RMSNorm`, where `scale` is `torch.rsqrt(x.pow(2).mean(dim=-1) + self.eps)`. -/
structure RMSNorm (R : Type) where
  weight : Nat → R
  scale : (hiddenSize : Nat) → (Fin hiddenSize → R) → R

namespace RMSNorm

variable [Mul R]

-- `_native_rms` on one row
def rms (self : RMSNorm R) (n : Nat) (x : Fin n → R) (c : Fin n) : R := x c * self.scale n x * self.weight c

def forward (self : RMSNorm R) (x : Tensor R) : Tensor R := x.mapRows self.rms

-- `_native_add_rms`
def forwardInplace [Add R] (self : RMSNorm R) (x residual : Tensor R) : Option (Tensor R × Tensor R) := do
  let residual ← x.add residual
  pure (self.forward residual, residual)

end RMSNorm

-- `apply_rotary_emb` on one head
def applyRotaryEmb [Ring R] (cos sin : Nat → R) (n : Nat) (x : Fin n → R) (c : Fin n) : R :=
  let half := n / 2
  let x1 (i : Nat) := spread x i
  let x2 (i : Nat) := spread x (half + i)
  if c < half then x1 c * cos c - x2 c * sin c else x2 (c - half) * cos (c - half) + x1 (c - half) * sin (c - half)

structure RotaryEmbedding (R : Type) where
  cos : (position : Nat) → Nat → R
  sin : (position : Nat) → Nat → R

/-- The parts of `Qwen3Attention` that are whole on each rank. -/
structure AttentionNorms (R : Type) where
  qNorm : RMSNorm R
  kNorm : RMSNorm R
  rotaryEmb : RotaryEmbedding R

-- The norm and the rotary embedding of a head.
def rotateHead [Ring R] (rotaryEmb : RotaryEmbedding R) (norm : RMSNorm R) (qkvBias : Bool) (position headDim : Nat)
    (head : Fin headDim → R) : Fin headDim → R :=
  applyRotaryEmb (rotaryEmb.cos position) (rotaryEmb.sin position) headDim
    (if qkvBias then head else norm.rms headDim head)

-- The same for `x.view(-1, num_heads, head_dim)`, with the heads of a token one after the other.
def rotateHeads [Ring R] (rotaryEmb : RotaryEmbedding R) (norm : RMSNorm R) (qkvBias : Bool) (positions : List Nat)
    (headDim : Nat) (x : Tensor R) : Tensor R :=
  let rotated (t head : Nat) :=
    rotateHead rotaryEmb norm qkvBias (positions.getD t 0) headDim (headOf headDim (x.entry t) head)
  { x with
    entry := fun t c =>
      if wide : 0 < headDim then rotated t (c / headDim) ⟨c % headDim, Nat.mod_lt c wide⟩ else x.entry t c }

-- `x.view(-1, num_heads, head_dim)`, whose rows lie `rowStride` apart.
def KVTensor.view (x : Tensor R) (numHeads headDim rowStride : Nat) : KVTensor R :=
  { rows := x.rows
    numHeads
    headDim
    rowStride
    headStride := headDim
    dimStride := 1
    data := fun place => x.entry (place.toNat / rowStride) (place.toNat % rowStride) }

/-- `KVCacheStore`, with what its provider leaves in the caches. -/
structure KVCacheStore (R : Type) where
  forward : (key value : KVTensor R) → (kCache vCache : KVCacheShape) → (slotMapping : List Int) → KVCaches R →
    Except PyError (KVCaches R)

/-- The parts of a rank that its attention layers share; a query row has `width` entries. -/
structure AttentionRuntime (R : Type) (width : Nat) where
  backend : AttentionBackend (Fin width → R) (Fin width → R) (KVCaches R)
  kvStore : KVCacheStore R
  cacheShape : KVCacheShape
  -- `_cacheless_varlen_attention`
  cacheless : (q k v : Tensor R) → CommonAttentionMetadata → Except PyError (List (Fin width → R))

structure AttentionContext {width : Nat} (runtime : AttentionRuntime R width) where
  metadata : CommonAttentionMetadata
  plan : runtime.backend.Plan

section Forward

variable {width : Nat} {runtime : AttentionRuntime R width}

-- `Attention.forward`; without caches they are empty tensors.
def Attention.forward [Zero R] (context : AttentionContext runtime) (q k v : Tensor R) (key value : KVTensor R)
    (caches : Option (KVCaches R)) : Except PyError (Tensor R × Option (KVCaches R)) := do
  let caches ← match caches with
    | none => pure none
    | some caches => do
        let caches ← runtime.kvStore.forward key value runtime.cacheShape runtime.cacheShape
          context.metadata.slotMapping.data caches
        pure (some caches)
  require (q.cols = width) (PyError.valueError "query must have shape [tokens, num_q_heads, head_dim]")
  let rows ← runtime.backend.forward (runtime.cacheless q k v) (q.rowList width) caches context.plan
  pure (Tensor.ofRows rows, caches)

variable [Ring R]

-- `Qwen3Attention.forward` on one rank, up to the reduction
def Qwen3Attention.attend (self : Qwen3Attention R) (norms : AttentionNorms R) (context : AttentionContext runtime)
    (positions : List Nat) (hiddenStates : Tensor R) (caches : Option (KVCaches R)) :
    Except PyError (Tensor R × Option (KVCaches R)) := do
  let (q, k, v) ← ofTensor (self.project hiddenStates)
  let q := rotateHeads norms.rotaryEmb norms.qNorm self.qkvBias positions self.headDim q
  let k := rotateHeads norms.rotaryEmb norms.kNorm self.qkvBias positions self.headDim k
  -- The values are still a part of the rows of `qkv`.
  let (o, caches) ← Attention.forward context q k v (.view k self.numKvHeads self.headDim self.kvSize)
    (.view v self.numKvHeads self.headDim (self.qSize + self.kvSize + self.kvSize)) caches
  let output ← ofTensor (RowParallelLinear.product self.oProj o)
  pure (output, caches)

structure Qwen3DecoderLayer (R : Type) where
  selfAttn : Nat → Qwen3Attention R
  attnNorms : AttentionNorms R
  mlp : Nat → Qwen3MLP R
  inputLayernorm : RMSNorm R
  postAttentionLayernorm : RMSNorm R

/-- The caches of a layer, on each rank. -/
abbrev LayerCaches (R : Type) := Nat → Option (KVCaches R)

namespace Qwen3DecoderLayer

-- `self.self_attn(positions, hidden_states)` on all ranks
def attention (tpSize : Nat) (self : Qwen3DecoderLayer R) (context : AttentionContext runtime) (positions : List Nat)
    (hiddenStates : Tensor R) (caches : LayerCaches R) : Except PyError (Tensor R × LayerCaches R) := do
  let ranks ← (List.range tpSize).mapM (fun r =>
    (self.selfAttn r).attend self.attnNorms context positions hiddenStates (caches r))
  let output ← ofTensor (reduceRanks tpSize (fun r => ranks[r]?.map Prod.fst))
  pure (output, fun r => (ranks[r]?.map Prod.snd).getD (caches r))

-- The first norm: without a residual the layer starts one.
def enter (self : Qwen3DecoderLayer R) (hiddenStates : Tensor R) (residual : Option (Tensor R)) :
    Except PyError (Tensor R × Tensor R) :=
  match residual with
  | none => pure (self.inputLayernorm.forward hiddenStates, hiddenStates)
  | some residual => ofTensor (self.inputLayernorm.forwardInplace hiddenStates residual)

def forward (silu : R → R) (tpSize : Nat) (self : Qwen3DecoderLayer R) (context : AttentionContext runtime)
    (positions : List Nat) (hiddenStates : Tensor R) (residual : Option (Tensor R)) (caches : LayerCaches R) :
    Except PyError (Tensor R × Tensor R × LayerCaches R) := do
  let (hiddenStates, residual) ← self.enter hiddenStates residual
  let (hiddenStates, caches) ← self.attention tpSize context positions hiddenStates caches
  let (hiddenStates, residual) ← ofTensor (self.postAttentionLayernorm.forwardInplace hiddenStates residual)
  let hiddenStates ← ofTensor (Qwen3MLP.forward silu tpSize self.mlp hiddenStates)
  pure (hiddenStates, residual, caches)

end Qwen3DecoderLayer

structure Qwen3Model (R : Type) where
  embedTokens : Nat → VocabParallelEmbedding R
  layers : List (Qwen3DecoderLayer R)
  norm : RMSNorm R

namespace Qwen3Model

-- The loop over the layers, each with the caches that it holds.
def forwardLayers (silu : R → R) (tpSize : Nat) (context : AttentionContext runtime) (positions : List Nat) :
    List (Qwen3DecoderLayer R × LayerCaches R) → Tensor R → Option (Tensor R) →
      Except PyError (Tensor R × Option (Tensor R) × List (LayerCaches R))
  | [], hiddenStates, residual => pure (hiddenStates, residual, [])
  | (layer, caches) :: rest, hiddenStates, residual => do
      let (hiddenStates, residual, caches) ← layer.forward silu tpSize context positions hiddenStates residual caches
      let (hiddenStates, residual, later) ← forwardLayers silu tpSize context positions rest hiddenStates (some residual)
      pure (hiddenStates, residual, caches :: later)

def forward (silu : R → R) (tpSize : Nat) (self : Qwen3Model R) (context : AttentionContext runtime)
    (inputIds : List Token) (positions : List Nat) (caches : List (LayerCaches R)) :
    Except PyError (Tensor R × List (LayerCaches R)) := do
  let hiddenStates ← ofTensor (VocabParallelEmbedding.forward tpSize self.embedTokens inputIds)
  let (hiddenStates, residual, caches) ←
    forwardLayers silu tpSize context positions (self.layers.zip caches) hiddenStates none
  match residual with
  -- There are no layers.
  | none => throw (.typeError "'NoneType' object has no attribute 'float'")
  | some residual => do
      let (hiddenStates, _) ← ofTensor (self.norm.forwardInplace hiddenStates residual)
      pure (hiddenStates, caches)

end Qwen3Model

structure Qwen3ForCausalLM (R : Type) where
  model : Qwen3Model R
  lmHead : Nat → VocabParallelEmbedding R

-- `run_model` on all ranks outside of a graph, with the logits that rank 0 gets.
def ModelRunner.runModel (silu : R → R) (tpSize : Nat) (self : Qwen3ForCausalLM R) (runtime : AttentionRuntime R width)
    (input : ModelRunner.ModelInput) (caches : List (LayerCaches R)) :
    Except PyError (Option (Tensor R) × List (LayerCaches R)) := do
  let plan ← runtime.backend.buildPlan input.attentionMetadata
  let (hiddenStates, caches) ←
    self.model.forward silu tpSize ⟨input.attentionMetadata, plan⟩ input.inputIds input.positions caches
  let logits ← ofTensor (ParallelLMHead.forward tpSize self.lmHead (some input.queryStartLoc)
    input.seqNeedComputeLogits hiddenStates 0)
  pure (logits, caches)

end Forward

end NanoVllm
