import NanoVllm.Model.Decoder
import NanoVllm.Shared.Cells
import NanoVllm.Shared.Text

set_option autoImplicit false

namespace NanoVllm

open Python Raising Torch

structure RopeScaling where
  ropeType : Option String := none
  type : Option String := none
  ropeTheta : Option (Option Rat) := none

/-- The part of a `Qwen3Config` that decides which parameters the model has and whether it can be built. Its
`rms_norm_eps` and `max_position_embeddings` only go into what the norms and the rotary embedding compute. -/
structure Qwen3Config where
  vocabSize : Nat
  hiddenSize : Nat
  intermediateSize : Nat
  numHiddenLayers : Nat
  numAttentionHeads : Nat
  numKeyValueHeads : Nat
  headDim : Option Nat
  attentionBias : Bool
  tieWordEmbeddings : Bool
  hiddenAct : String := "silu"
  ropeTheta : Option Rat := some 10000
  ropeScaling : Option RopeScaling := none

-- `rope_scaling.get("rope_type", rope_scaling.get("type", "default"))`
def RopeScaling.kind (self : RopeScaling) : String := self.ropeType.getD (self.type.getD "default")

-- `get_rope`, up to the base of the embedding that it makes.
def getRope (base : Option Rat) (ropeScaling : Option RopeScaling) : Except PyError Rat := do
  let base ← match ropeScaling with
    | none => pure base
    | some scaling => do
        require (scaling.kind = "default") (PyError.notImplementedError s!"RoPE type '{scaling.kind}' is not supported")
        pure (scaling.ropeTheta.getD base)
  match base with
  | none => throw (.valueError "RoPE theta is missing from the model configuration")
  | some base => pure base

abbrev Str := List Char

inductive ShardId where
  | qkv (shard : QKVShard)
  | merged (index : Nat)
  deriving DecidableEq, Repr

inductive LayerParameter where
  | qkvProj
  | qkvBias
  | oProj
  | qNorm
  | kNorm
  | gateUpProj
  | downProj
  | inputLayernorm
  | postAttentionLayernorm
  deriving DecidableEq, Repr

inductive Parameter where
  | embedTokens
  | layer (index : Nat) (parameter : LayerParameter)
  | norm
  | lmHead
  deriving DecidableEq, Repr

variable {R : Type}

/-- `Qwen3DecoderLayer` on one rank, with the weights of its norms. -/
structure RankLayer (R : Type) where
  selfAttn : Qwen3Attention R
  qNorm : Option (Tensor R)
  kNorm : Option (Tensor R)
  mlp : Qwen3MLP R
  inputLayernorm : Tensor R
  postAttentionLayernorm : Tensor R

structure RankModel (R : Type) where
  embedTokens : VocabParallelEmbedding R
  layers : List (RankLayer R)
  norm : Tensor R
  lmHead : VocabParallelEmbedding R
  tieWordEmbeddings : Bool

structure EmptyMemory (R : Type) where
  embedTokens : Nat → Nat → R
  selfAttn : (layer : Nat) → Nat → Nat → R
  mlp : (layer : Nat) → Nat → Nat → R
  lmHead : Nat → Nat → R

-- `RMSNorm(size).weight`
def normWeight [One R] (size : Nat) : Tensor R := ⟨size, 1, fun _ _ => 1⟩

def RankLayer.init [One R] (tpRank tpSize : Nat) (config : Qwen3Config) (selfAttn mlp : Nat → Nat → R) :
    Option (RankLayer R) := do
  let selfAttn ← Qwen3Attention.init tpRank tpSize selfAttn config.hiddenSize config.numAttentionHeads
    config.numKeyValueHeads config.headDim config.attentionBias
  let _ ← (getRope config.ropeTheta config.ropeScaling).toOption
  let mlp ← Qwen3MLP.init tpRank tpSize mlp config.hiddenSize config.intermediateSize
  guard (config.hiddenAct = "silu")
  let headNorm := if config.attentionBias then none else some (normWeight selfAttn.headDim)
  pure
    { selfAttn
      qNorm := headNorm
      kNorm := headNorm
      mlp
      inputLayernorm := normWeight config.hiddenSize
      postAttentionLayernorm := normWeight config.hiddenSize }

def RankModel.init [One R] (tpRank tpSize : Nat) (config : Qwen3Config) (memory : EmptyMemory R) :
    Option (RankModel R) := do
  let embedTokens ← VocabParallelEmbedding.init tpRank tpSize memory.embedTokens config.vocabSize config.hiddenSize
  let layers ← (List.range config.numHiddenLayers).mapM (fun i =>
    RankLayer.init tpRank tpSize config (memory.selfAttn i) (memory.mlp i))
  let lmHead ← VocabParallelEmbedding.init tpRank tpSize memory.lmHead config.vocabSize config.hiddenSize
  pure
    { embedTokens
      layers
      norm := normWeight config.hiddenSize
      lmHead := if config.tieWordEmbeddings then { lmHead with weight := embedTokens.weight } else lmHead
      tieWordEmbeddings := config.tieWordEmbeddings }

/-- `weight_loader`, with the shard that `load_model` gives it when it gives one. -/
abbrev WeightLoader (R : Type) := (param loadedWeight : Tensor R) → (shardId : Option ShardId) → Option (Tensor R)

-- A loader that takes no shard.
def WeightLoader.whole (load : (param loadedWeight : Tensor R) → Option (Tensor R)) : WeightLoader R :=
  fun param loadedWeight shardId => match shardId with
    | none => load param loadedWeight
    | some _ => none

def defaultWeightLoader : WeightLoader R := .whole Tensor.copy

namespace RankLayer

def parameters (self : RankLayer R) : LayerParameter → Option (Tensor R)
  | .qkvProj => some self.selfAttn.qkvProj.weight
  | .qkvBias => self.selfAttn.qkvProj.bias
  | .oProj => some self.selfAttn.oProj.weight
  | .qNorm => self.qNorm
  | .kNorm => self.kNorm
  | .gateUpProj => some self.mlp.gateUpProj.weight
  | .downProj => some self.mlp.downProj.weight
  | .inputLayernorm => some self.inputLayernorm
  | .postAttentionLayernorm => some self.postAttentionLayernorm

-- The layer when its parameters hold `data`.
def withParameters (self : RankLayer R) (data : LayerParameter → Option (Tensor R)) : RankLayer R :=
  { selfAttn :=
      { self.selfAttn with
        qkvProj :=
          { self.selfAttn.qkvProj with
            weight := (data .qkvProj).getD self.selfAttn.qkvProj.weight
            bias := data .qkvBias }
        oProj := { self.selfAttn.oProj with weight := (data .oProj).getD self.selfAttn.oProj.weight } }
    qNorm := data .qNorm
    kNorm := data .kNorm
    mlp :=
      { gateUpProj :=
          { self.mlp.gateUpProj with weight := (data .gateUpProj).getD self.mlp.gateUpProj.weight }
        downProj := { self.mlp.downProj with weight := (data .downProj).getD self.mlp.downProj.weight } }
    inputLayernorm := (data .inputLayernorm).getD self.inputLayernorm
    postAttentionLayernorm := (data .postAttentionLayernorm).getD self.postAttentionLayernorm }

def weightLoader (self : RankLayer R) : LayerParameter → WeightLoader R
  | .qkvProj | .qkvBias => fun param loadedWeight shardId => match shardId with
      | some (.qkv shard) => self.selfAttn.qkvProj.weightLoader param loadedWeight shard
      | _ => none
  | .gateUpProj => fun param loadedWeight shardId => match shardId with
      | some (.merged index) => self.mlp.gateUpProj.weightLoader param loadedWeight index
      | _ => none
  | .oProj => .whole (RowParallelLinear.weightLoader self.selfAttn.oProj)
  | .downProj => .whole (RowParallelLinear.weightLoader self.mlp.downProj)
  | .qNorm | .kNorm | .inputLayernorm | .postAttentionLayernorm => defaultWeightLoader

-- The attributes that the atoms of a parameter's name lead to.
def getParameter (self : RankLayer R) (atoms : List String) : Option LayerParameter := do
  let parameter ← match atoms with
    | ["self_attn", "qkv_proj", "weight"] => some LayerParameter.qkvProj
    | ["self_attn", "qkv_proj", "bias"] => some .qkvBias
    | ["self_attn", "o_proj", "weight"] => some .oProj
    | ["self_attn", "q_norm", "weight"] => some .qNorm
    | ["self_attn", "k_norm", "weight"] => some .kNorm
    | ["mlp", "gate_up_proj", "weight"] => some .gateUpProj
    | ["mlp", "down_proj", "weight"] => some .downProj
    | ["input_layernorm", "weight"] => some .inputLayernorm
    | ["post_attention_layernorm", "weight"] => some .postAttentionLayernorm
    | _ => none
  if (self.parameters parameter).isSome then some parameter else none

end RankLayer

namespace RankModel

-- The parameter whose storage a parameter has: `self.lm_head.weight.data = self.model.embed_tokens.weight.data`
def storage (self : RankModel R) : Parameter → Parameter
  | .lmHead => if self.tieWordEmbeddings then .embedTokens else .lmHead
  | parameter => parameter

def parameters (self : RankModel R) : Parameter → Option (Tensor R)
  | .embedTokens => some self.embedTokens.weight
  | .layer index parameter => do
      let layer ← self.layers[index]?
      layer.parameters parameter
  | .norm => some self.norm
  | .lmHead => some self.lmHead.weight

-- The model when its storages hold `data`.
def withParameters (self : RankModel R) (data : Parameter → Option (Tensor R)) : RankModel R :=
  { self with
    embedTokens := { self.embedTokens with
      weight := (data (self.storage .embedTokens)).getD self.embedTokens.weight }
    layers := self.layers.mapIdx (fun index layer =>
      layer.withParameters (fun parameter => data (self.storage (.layer index parameter))))
    norm := (data (self.storage .norm)).getD self.norm
    lmHead := { self.lmHead with weight := (data (self.storage .lmHead)).getD self.lmHead.weight } }

def weightLoader (self : RankModel R) : Parameter → WeightLoader R
  | .embedTokens => .whole self.embedTokens.weightLoader
  | .layer index parameter => fun param loadedWeight shardId => do
      let layer ← self.layers[index]?
      layer.weightLoader parameter param loadedWeight shardId
  | .norm => defaultWeightLoader
  | .lmHead => .whole self.lmHead.weightLoader

-- `model.get_parameter(name)`
def getParameter (self : RankModel R) (name : Str) : Option Parameter :=
  match (name.splitOn '.').map String.ofList with
  | ["model", "embed_tokens", "weight"] => some .embedTokens
  | ["model", "norm", "weight"] => some .norm
  | ["lm_head", "weight"] => some .lmHead
  | "model" :: "layers" :: index :: atoms => do
      -- The keys of a `ModuleList` are its indices.
      let index ← (List.range self.layers.length).find? (fun i => toString i = index)
      let layer ← self.layers[index]?
      let parameter ← layer.getParameter atoms
      pure (.layer index parameter)
  | _ => none

def packedModulesMapping : List (String × String × ShardId) :=
  [("q_proj", "qkv_proj", .qkv .q),
    ("k_proj", "qkv_proj", .qkv .k),
    ("v_proj", "qkv_proj", .qkv .v),
    ("gate_proj", "gate_up_proj", .merged 0),
    ("up_proj", "gate_up_proj", .merged 1)]

-- The parameter that a tensor is for, and the shard of it.
def resolve (self : RankModel R) (weightName : Str) : Option (Parameter × Option ShardId) :=
  match packedModulesMapping.find? (fun packed => packed.1.toList <:+: weightName) with
  | some (k, v, shardId) => do
      let parameter ← self.getParameter (replace k.toList v.toList weightName)
      pure (parameter, some shardId)
  | none => do
      let parameter ← self.getParameter weightName
      pure (parameter, none)

def loadTensor (self : RankModel R) (data : Parameter → Option (Tensor R)) (weight : Str × Tensor R) :
    Option (Parameter → Option (Tensor R)) := do
  let (parameter, shardId) ← self.resolve weight.1
  let param ← data (self.storage parameter)
  let param ← self.weightLoader parameter param weight.2 shardId
  pure (Function.update data (self.storage parameter) (some param))

end RankModel

-- `files` are those that `glob` finds, each with its keys in their order; an error is `none`.
def loadModel (model : RankModel R) (files : List (List (Str × Tensor R))) : Option (RankModel R) := do
  let data ← files.foldlM (fun data file => file.foldlM model.loadTensor data) model.parameters
  pure (model.withParameters data)

end NanoVllm
