import NanoVllm.Inference.Deploy
import NanoVllm.Loading.Names

set_option autoImplicit false

namespace NanoVllm

open Torch

variable {R : Type}

-- The tensors of a layer, with the biases or with the norms of the heads.
def layerTensors (attentionBias : Bool) : List LayerTensor :=
  [.proj .q, .proj .k, .proj .v, .oProj, .gateProj, .upProj, .downProj, .inputLayernorm, .postAttentionLayernorm] ++
    if attentionBias then [.projBias .q, .projBias .k, .projBias .v] else [.qNorm, .kNorm]

-- The rows and the columns of a tensor; those of one dimension have one column.
def LayerTensor.size (shape : ModelShape) : LayerTensor → Nat × Nat
  | .proj s => (shape.heads.size s, shape.hiddenSize)
  | .projBias s => (shape.heads.size s, 1)
  | .oProj => (shape.hiddenSize, shape.heads.size .q)
  | .qNorm | .kNorm => (shape.heads.headSize, 1)
  | .gateProj | .upProj => (shape.intermediateSize, shape.hiddenSize)
  | .downProj => (shape.hiddenSize, shape.intermediateSize)
  | .inputLayernorm | .postAttentionLayernorm => (shape.hiddenSize, 1)

def CheckpointTensor.size (shape : ModelShape) : CheckpointTensor → Nat × Nat
  | .embedTokens | .lmHead => (shape.vocabSize, shape.hiddenSize)
  | .layer _ tensor => tensor.size shape
  | .norm => (shape.hiddenSize, 1)

namespace Qwen3Config

variable (config : Qwen3Config) (savedHead : Bool)

def shape : ModelShape where
  vocabSize := config.vocabSize
  hiddenSize := config.hiddenSize
  intermediateSize := config.intermediateSize
  heads :=
    { numHeads := config.numAttentionHeads
      numKvHeads := config.numKeyValueHeads
      headSize := Qwen3Attention.headDimOf config.hiddenSize config.numAttentionHeads config.headDim }
  qkvBias := config.attentionBias

def tensors : List CheckpointTensor :=
  [.embedTokens, .norm] ++ (if config.tieWordEmbeddings && !savedHead then [] else [.lmHead]) ++
    (List.range config.numHiddenLayers).flatMap (fun i => (layerTensors config.attentionBias).map (.layer i))

def owners : Parameter → List CheckpointTensor
  | .embedTokens => if config.tieWordEmbeddings && savedHead then [.embedTokens, .lmHead] else [.embedTokens]
  | .layer i parameter =>
      if i < config.numHiddenLayers then
        ((layerTensors config.attentionBias).filter (fun t => t.parameter = parameter)).map (.layer i)
      else []
  | .norm => [.norm]
  | .lmHead => if config.tieWordEmbeddings then [] else [.lmHead]

end Qwen3Config

/-- The files of a checkpoint: each tensor is in one of them, in any order. -/
structure Checkpoint (config : Qwen3Config) (savedHead : Bool) (tensors : CheckpointTensor → Tensor R)
    (files : List (List (Str × Tensor R))) : Prop where
  listed : files.flatten.Perm ((config.tensors savedHead).map (fun t => (t.name, tensors t)))
  shapes : ∀ t ∈ config.tensors savedHead, (tensors t).HasShape (t.size config.shape).1 (t.size config.shape).2
  tied : config.tieWordEmbeddings = true → savedHead = true → tensors .lmHead = tensors .embedTokens

-- `RMSNorm` with the weight of a checkpoint
def RMSNorm.ofWeight (scale : (hiddenSize : Nat) → (Fin hiddenSize → R) → R) (weight : Tensor R) : RMSNorm R :=
  ⟨fun c => weight.entry c 0, scale⟩

section Weights

variable [Zero R] (config : Qwen3Config) (scale : (hiddenSize : Nat) → (Fin hiddenSize → R) → R)
  (rotaryEmb : RotaryEmbedding R) (tensors : CheckpointTensor → Tensor R)

def LayerWeights.ofCheckpoint (i : Nat) : LayerWeights R where
  weight s := tensors (.layer i (.proj s))
  bias s := if config.attentionBias then tensors (.layer i (.projBias s)) else
    ⟨config.shape.heads.size s, 1, fun _ _ => 0⟩
  o := tensors (.layer i .oProj)
  gate := tensors (.layer i .gateProj)
  up := tensors (.layer i .upProj)
  down := tensors (.layer i .downProj)
  norms :=
    { qNorm := .ofWeight scale (tensors (.layer i .qNorm))
      kNorm := .ofWeight scale (tensors (.layer i .kNorm))
      rotaryEmb }
  inputLayernorm := .ofWeight scale (tensors (.layer i .inputLayernorm))
  postAttentionLayernorm := .ofWeight scale (tensors (.layer i .postAttentionLayernorm))

def ModelWeights.ofCheckpoint : ModelWeights R where
  embedTokens := tensors .embedTokens
  layers := (List.range config.numHiddenLayers).map (LayerWeights.ofCheckpoint config scale rotaryEmb tensors)
  norm := .ofWeight scale (tensors .norm)
  lmHead := tensors (if config.tieWordEmbeddings then .embedTokens else .lmHead)

end Weights

section Owners

variable {config : Qwen3Config} {savedHead : Bool} {model : RankModel R} {t : CheckpointTensor}

theorem mem_layerTensors {attentionBias : Bool} (tensor : LayerTensor) : tensor ∈ layerTensors attentionBias ↔
    match tensor with
    | .projBias _ => attentionBias = true
    | .qNorm | .kNorm => attentionBias = false
    | _ => True := by
  cases attentionBias <;> rcases tensor with (_ | _ | _) | (_ | _ | _) | _ | _ | _ | _ | _ | _ | _ | _ <;> decide

theorem mem_tensors : t ∈ config.tensors savedHead ↔
    match t with
    | .embedTokens | .norm => True
    | .layer i tensor => i < config.numHiddenLayers ∧ tensor ∈ layerTensors config.attentionBias
    | .lmHead => config.tieWordEmbeddings = true → savedHead = true := by
  unfold Qwen3Config.tensors
  cases t <;> cases config.tieWordEmbeddings <;> cases savedHead <;> simp

theorem nodup_layerTensors (attentionBias : Bool) : (layerTensors attentionBias).Nodup := by
  cases attentionBias <;> decide

theorem nodup_tensors : (config.tensors savedHead).Nodup := by
  have layers : ((List.range config.numHiddenLayers).flatMap
      (fun i => (layerTensors config.attentionBias).map (CheckpointTensor.layer i))).Nodup := by
    rw [List.nodup_flatMap]
    constructor
    · intro i _
      exact (nodup_layerTensors _).map (fun _ _ same => (CheckpointTensor.layer.inj same).2)
    · refine List.nodup_range.imp (fun {i j} other t left right => ?_)
      obtain ⟨_, -, rfl⟩ := List.mem_map.mp left
      obtain ⟨_, -, same⟩ := List.mem_map.mp right
      exact other (CheckpointTensor.layer.inj same).1.symm
  unfold Qwen3Config.tensors
  cases config.tieWordEmbeddings <;> cases savedHead <;> simp [layers]

theorem nodup_owners (k : Parameter) : (config.owners savedHead k).Nodup := by
  cases k with
  | embedTokens | norm | lmHead =>
      cases tied : config.tieWordEmbeddings <;> cases savedHead <;> simp [Qwen3Config.owners, tied]
  | layer i parameter =>
      have own := (nodup_layerTensors config.attentionBias).filter (fun t => t.parameter = parameter)
      by_cases below : i < config.numHiddenLayers
      · rw [Qwen3Config.owners, if_pos below]
        exact own.map (fun _ _ same => (CheckpointTensor.layer.inj same).2)
      · rw [Qwen3Config.owners, if_neg below]
        exact List.nodup_nil

theorem mem_owners (same : model.tieWordEmbeddings = config.tieWordEmbeddings) (k : Parameter) :
    t ∈ config.owners savedHead k ↔ t ∈ config.tensors savedHead ∧ model.storage t.parameter = k := by
  rw [mem_tensors]
  cases t with
  | embedTokens | norm | lmHead =>
      cases k <;> cases tied : config.tieWordEmbeddings <;> cases savedHead <;>
        simp [Qwen3Config.owners, CheckpointTensor.parameter, RankModel.storage, same, tied]
  | layer i tensor =>
      cases k with
      | embedTokens | norm | lmHead =>
          cases tied : config.tieWordEmbeddings <;> cases savedHead <;>
            simp [Qwen3Config.owners, CheckpointTensor.parameter, RankModel.storage, tied]
      | layer j parameter =>
          by_cases below : j < config.numHiddenLayers
          · simp only [Qwen3Config.owners, below, if_true, List.mem_map, List.mem_filter, decide_eq_true_iff,
              CheckpointTensor.layer.injEq, CheckpointTensor.parameter, RankModel.storage, Parameter.layer.injEq]
            constructor
            · rintro ⟨_, ⟨listed, own⟩, rfl, rfl⟩
              exact ⟨⟨below, listed⟩, rfl, own⟩
            · rintro ⟨⟨-, listed⟩, rfl, own⟩
              exact ⟨tensor, ⟨listed, own⟩, rfl, rfl⟩
          · simp only [Qwen3Config.owners, below, if_false, List.not_mem_nil, CheckpointTensor.parameter,
              RankModel.storage, Parameter.layer.injEq, false_iff]
            rintro ⟨⟨within, -⟩, rfl, -⟩
            exact below within

theorem mem_owners_embed : t ∈ config.owners savedHead .embedTokens ↔
    t = .embedTokens ∨ t = .lmHead ∧ config.tieWordEmbeddings = true ∧ savedHead = true := by
  cases tied : config.tieWordEmbeddings <;> cases savedHead <;> simp [Qwen3Config.owners, tied]

theorem filter_owners (same : model.tieWordEmbeddings = config.tieWordEmbeddings) {order : List CheckpointTensor}
    (perm : order.Perm (config.tensors savedHead)) (k : Parameter) :
    (order.filter (fun t => model.storage t.parameter = k)).Perm (config.owners savedHead k) := by
  rw [List.perm_ext_iff_of_nodup ((perm.nodup_iff.mpr nodup_tensors).filter _) (nodup_owners k)]
  intro t
  rw [List.mem_filter, perm.mem_iff, decide_eq_true_iff, mem_owners same]

end Owners

end NanoVllm
