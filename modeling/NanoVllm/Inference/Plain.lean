import NanoVllm.Model.Decoder
import NanoVllm.Parallel.Attention
import NanoVllm.Shared.Causal

set_option autoImplicit false

namespace NanoVllm

open Torch Causal

variable {R : Type}

/-- Scaled dot-product attention of one query head, over the key and value heads of its context. -/
abbrev HeadAttention (R : Type) := (headDim : Nat) → (q : Fin headDim → R) →
  (context : List ((Fin headDim → R) × (Fin headDim → R))) → Fin headDim → R

structure ModelShape where
  vocabSize : Nat
  hiddenSize : Nat
  intermediateSize : Nat
  heads : HeadShape
  qkvBias : Bool

structure LayerWeights (R : Type) where
  weight : QKVShard → Tensor R
  bias : QKVShard → Tensor R
  o : Tensor R
  gate : Tensor R
  up : Tensor R
  down : Tensor R
  norms : AttentionNorms R
  inputLayernorm : RMSNorm R
  postAttentionLayernorm : RMSNorm R

structure ModelWeights (R : Type) where
  embedTokens : Tensor R
  layers : List (LayerWeights R)
  norm : RMSNorm R
  lmHead : Tensor R

/-- What a token leaves to those after it: its key and value heads. -/
abbrev KVEntry (R : Type) (headDim : Nat) := Nat → (Fin headDim → R) × (Fin headDim → R)

def KVEntry.upTo [Zero R] {headDim : Nat} (count : Nat) (entry : KVEntry R headDim) : KVEntry R headDim :=
  fun head => if head < count then entry head else 0

namespace LayerWeights

variable [Ring R] (shape : ModelShape) (w : LayerWeights R)

def projection (s : QKVShard) (x : Fin shape.hiddenSize → R) : Nat → R :=
  Torch.project (w.weight s) (Qwen3Attention.biasOf shape.qkvBias w.bias s) x

def queryHead (position : Nat) (x : Fin shape.hiddenSize → R) (head : Nat) : Fin shape.heads.headSize → R :=
  rotateHead w.norms.rotaryEmb w.norms.qNorm shape.qkvBias position shape.heads.headSize
    (headOf shape.heads.headSize (w.projection shape .q x) head)

def keyHead (position : Nat) (x : Fin shape.hiddenSize → R) (head : Nat) : Fin shape.heads.headSize → R :=
  rotateHead w.norms.rotaryEmb w.norms.kNorm shape.qkvBias position shape.heads.headSize
    (headOf shape.heads.headSize (w.projection shape .k x) head)

def valueHead (x : Fin shape.hiddenSize → R) (head : Nat) : Fin shape.heads.headSize → R :=
  headOf shape.heads.headSize (w.projection shape .v x) head

-- The key and value heads of the model, and nothing after them.
def entryOf (position : Nat) (x : Fin shape.hiddenSize → R) : KVEntry R shape.heads.headSize :=
  KVEntry.upTo shape.heads.numKvHeads (fun head => (w.keyHead shape position x head, w.valueHead shape x head))

-- What the query heads of a token read; those of a group share a key and a value head.
def read (attention : HeadAttention R) (position : Nat) (x : Fin shape.hiddenSize → R)
    (context : List (KVEntry R shape.heads.headSize)) (c : Fin (shape.heads.size .q)) : R :=
  let head := c / shape.heads.headSize
  attention shape.heads.headSize (w.queryHead shape position x head)
    (context.map (fun entry => entry (head / (shape.heads.numHeads / shape.heads.numKvHeads))))
    ⟨c % shape.heads.headSize, Nat.mod_lt c (Nat.pos_of_mul_pos_left (Nat.zero_lt_of_lt c.isLt))⟩

def attend (attention : HeadAttention R) (position : Nat) (x : Fin shape.hiddenSize → R)
    (context : List (KVEntry R shape.heads.headSize)) (c : Fin shape.hiddenSize) : R :=
  Torch.project w.o none (w.read shape attention position x context) c

def feed (silu : R → R) (x : Fin shape.hiddenSize → R) (c : Fin shape.hiddenSize) : R :=
  Torch.project w.down none (fun j : Fin shape.intermediateSize =>
    silu (Torch.project w.gate none x j) * Torch.project w.up none x j) c

/-- The decoder layer on one token after another: `h + attention(norm(h))`, then `h + mlp(norm(h))`. -/
def plain (silu : R → R) (attention : HeadAttention R) :
    Layer (Fin shape.hiddenSize → R) (KVEntry R shape.heads.headSize) where
  keep position h := w.entryOf shape position (w.inputLayernorm.rms shape.hiddenSize h)
  mix position h context :=
    let h := h + w.attend shape attention position (w.inputLayernorm.rms shape.hiddenSize h) context
    h + w.feed shape silu (w.postAttentionLayernorm.rms shape.hiddenSize h)

end LayerWeights

def plainLayers [Ring R] (shape : ModelShape) (silu : R → R) (attention : HeadAttention R) (ws : List (LayerWeights R)) :
    List (Layer (Fin shape.hiddenSize → R) (KVEntry R shape.heads.headSize)) :=
  ws.map (fun w => w.plain shape silu attention)

namespace ModelWeights

variable [Ring R] (shape : ModelShape) (w : ModelWeights R) (silu : R → R) (attention : HeadAttention R)

def embed (token : Token) (c : Fin shape.hiddenSize) : R := w.embedTokens.entry token.toNat c

/-- The model without a cache: the hidden state of each token of one sequence, computed from the sequence alone. -/
def plain (tokenIds : List Token) : List (Fin shape.hiddenSize → R) :=
  (run (plainLayers shape silu attention w.layers) (tokenIds.map (w.embed shape))).map (w.norm.rms shape.hiddenSize)

def logits (tokenIds : List Token) : Nat → R :=
  Torch.project w.lmHead none ((w.plain shape silu attention tokenIds).getLastD 0)

end ModelWeights

end NanoVllm
