import NanoVllm.Model.Linear

set_option autoImplicit false

namespace NanoVllm

open Torch

variable {R : Type}

-- `SiluAndMul.forward_native`, with any activation in the place of `F.silu`
def siluAndMul [Mul R] (silu : R → R) (x : Tensor R) : Option (Tensor R) := do
  let gate ← x.chunkCols 2 0
  let up ← x.chunkCols 2 1
  (gate.map silu).mul up

structure Qwen3MLP (R : Type) where
  gateUpProj : MergedColumnParallelLinear R
  downProj : LinearBase R

namespace Qwen3MLP

def init (tpRank tpSize : Nat) (memory : Nat → Nat → R) (hiddenSize intermediateSize : Nat) :
    Option (Qwen3MLP R) := do
  let gateUpProj ← MergedColumnParallelLinear.init tpRank tpSize memory hiddenSize
    (List.replicate 2 intermediateSize) false
  let downProj ← RowParallelLinear.init tpRank tpSize memory intermediateSize hiddenSize false
  pure { gateUpProj, downProj }

-- `load_model`, with the shards of the merged parameter in their order in the files
def load (self : Qwen3MLP R) (shards : List (Nat × Tensor R)) (down : Tensor R) : Option (Qwen3MLP R) := do
  let gateUpProj ← shards.foldlM MergedColumnParallelLinear.load self.gateUpProj
  let downProj ← RowParallelLinear.load self.downProj down
  pure { gateUpProj, downProj }

variable [NonUnitalNonAssocSemiring R]

-- `forward` up to the reduction
def product (silu : R → R) (self : Qwen3MLP R) (x : Tensor R) : Option (Tensor R) := do
  let gateUp ← ColumnParallelLinear.forward self.gateUpProj.toLinearBase x
  let x ← siluAndMul silu gateUp
  RowParallelLinear.product self.downProj x

def forward (silu : R → R) (tpSize : Nat) (mlps : Nat → Qwen3MLP R) (x : Tensor R) : Option (Tensor R) :=
  reduceRanks tpSize (fun r => (mlps r).product silu x)

-- The MLP with the whole weights, on one device.
def unsharded (silu : R → R) (gate up down x : Tensor R) : Option (Tensor R) := do
  let gate ← x.linear gate none
  let up ← x.linear up none
  let x ← (gate.map silu).mul up
  x.linear down none

end Qwen3MLP

/-- What the attention does with one head of a batch: the norms, the rotary embedding and `attn`. -/
structure HeadOps (R : Type) where
  qNorm : (headDim : Nat) → (Fin headDim → R) → Fin headDim → R
  kNorm : (headDim : Nat) → (Fin headDim → R) → Fin headDim → R
  rotary : (headDim position : Nat) → (Fin headDim → R) → Fin headDim → R
  attn : (tokens headDim : Nat) → (q k v : Fin tokens → Fin headDim → R) → Fin tokens → Fin headDim → R

-- `x.view(-1, num_heads, head_dim)[:, head]`
def headView (tokens headDim : Nat) (x : Tensor R) (head : Nat) (t : Fin tokens) (c : Fin headDim) : R :=
  x.entry t (head * headDim + c)

-- `Qwen3Attention.forward` from `q`, `k` and `v` to `o.flatten(1, -1)`; the query heads of a group share
-- a key and a value head.
def attendHeads [Zero R] (ops : HeadOps R) (positions : Nat → Nat) (tokens numHeads numKvHeads headDim : Nat)
    (qkvBias : Bool) (q k v : Tensor R) : Tensor R :=
  let normed (norm : (Fin headDim → R) → Fin headDim → R) (head : Fin tokens → Fin headDim → R) (t : Fin tokens) :=
    ops.rotary headDim (positions t) (if qkvBias then head t else norm (head t))
  let attended (head : Nat) :=
    let kvHead := head / (numHeads / numKvHeads)
    ops.attn tokens headDim (normed (ops.qNorm headDim) (headView tokens headDim q head))
      (normed (ops.kNorm headDim) (headView tokens headDim k kvHead)) (headView tokens headDim v kvHead)
  { rows := tokens
    cols := numHeads * headDim
    entry := fun t c =>
      if inside : t < tokens ∧ 0 < headDim then
        attended (c / headDim) ⟨t, inside.1⟩ ⟨c % headDim, Nat.mod_lt c inside.2⟩
      else 0 }

structure Qwen3Attention (R : Type) where
  numHeads : Nat
  numKvHeads : Nat
  headDim : Nat
  qSize : Nat
  kvSize : Nat
  qkvBias : Bool
  qkvProj : QKVParallelLinear R
  oProj : LinearBase R

namespace Qwen3Attention

-- `head_dim or hidden_size // self.total_num_heads`
def headDimOf (hiddenSize totalNumHeads : Nat) (headDim : Option Nat) : Nat :=
  match headDim with
  | none => hiddenSize / totalNumHeads
  | some dim => if dim = 0 then hiddenSize / totalNumHeads else dim

def init (tpRank tpSize : Nat) (memory : Nat → Nat → R) (hiddenSize totalNumHeads totalNumKvHeads : Nat)
    (headDim : Option Nat) (qkvBias : Bool) : Option (Qwen3Attention R) := do
  let numHeads ← divide totalNumHeads tpSize
  let numKvHeads ← divide totalNumKvHeads tpSize
  let headDim := headDimOf hiddenSize totalNumHeads headDim
  let qkvProj ← QKVParallelLinear.init tpRank tpSize memory hiddenSize headDim totalNumHeads (some totalNumKvHeads)
    qkvBias
  let oProj ← RowParallelLinear.init tpRank tpSize memory (totalNumHeads * headDim) hiddenSize false
  pure
    { numHeads
      numKvHeads
      headDim
      qSize := numHeads * headDim
      kvSize := numKvHeads * headDim
      qkvBias
      qkvProj
      oProj }

-- `load_model`, with the shards of the packed parameters in their order in the files
def load (self : Qwen3Attention R) (weights biases : List (QKVShard × Tensor R)) (o : Tensor R) :
    Option (Qwen3Attention R) := do
  let qkvProj ← weights.foldlM QKVParallelLinear.load self.qkvProj
  let qkvProj ← biases.foldlM QKVParallelLinear.loadBias qkvProj
  let oProj ← RowParallelLinear.load self.oProj o
  pure { self with qkvProj, oProj }

variable [NonUnitalNonAssocSemiring R]

-- `self.qkv_proj(hidden_states).split([self.q_size, self.kv_size, self.kv_size], dim=-1)`
def project (self : Qwen3Attention R) (hiddenStates : Tensor R) : Option (Tensor R × Tensor R × Tensor R) := do
  let qkv ← ColumnParallelLinear.forward self.qkvProj.toLinearBase hiddenStates
  if self.qSize + self.kvSize + self.kvSize = qkv.cols then
    let q ← qkv.narrowCols 0 self.qSize
    let k ← qkv.narrowCols self.qSize self.kvSize
    let v ← qkv.narrowCols (self.qSize + self.kvSize) self.kvSize
    pure (q, k, v)
  else none

-- `forward` up to the reduction
def product (ops : HeadOps R) (positions : Nat → Nat) (self : Qwen3Attention R) (hiddenStates : Tensor R) :
    Option (Tensor R) := do
  let (q, k, v) ← self.project hiddenStates
  RowParallelLinear.product self.oProj (attendHeads ops positions hiddenStates.rows self.numHeads self.numKvHeads
    self.headDim self.qkvBias q k v)

def forward (ops : HeadOps R) (positions : Nat → Nat) (tpSize : Nat) (layers : Nat → Qwen3Attention R)
    (hiddenStates : Tensor R) : Option (Tensor R) :=
  reduceRanks tpSize (fun r => (layers r).product ops positions hiddenStates)

-- The attention with the whole weights, on one device.
def unsharded (ops : HeadOps R) (positions : Nat → Nat) (numHeads numKvHeads headDim : Nat) (qkvBias : Bool)
    (weight : QKVShard → Tensor R) (bias : QKVShard → Option (Tensor R)) (o hiddenStates : Tensor R) :
    Option (Tensor R) := do
  let q ← hiddenStates.linear (weight .q) (bias .q)
  let k ← hiddenStates.linear (weight .k) (bias .k)
  let v ← hiddenStates.linear (weight .v) (bias .v)
  (attendHeads ops positions hiddenStates.rows numHeads numKvHeads headDim qkvBias q k v).linear o none

end Qwen3Attention

end NanoVllm
