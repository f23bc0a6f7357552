import NanoVllm.Inference.Model

set_option autoImplicit false

namespace NanoVllm

open Torch

variable {R : Type} {tpSize : Nat} {part shape : ModelShape}

structure LayerWeights.Fits (shape : ModelShape) (w : LayerWeights R) : Prop where
  weight : ∀ s, (w.weight s).HasShape (shape.heads.size s) shape.hiddenSize
  bias : ∀ s, (w.bias s).HasShape (shape.heads.size s) 1
  o : w.o.HasShape shape.hiddenSize (shape.heads.size .q)
  gate : w.gate.HasShape shape.intermediateSize shape.hiddenSize
  up : w.up.HasShape shape.intermediateSize shape.hiddenSize
  down : w.down.HasShape shape.hiddenSize shape.intermediateSize

structure ModelWeights.Fits (shape : ModelShape) (w : ModelWeights R) : Prop where
  embedTokens : w.embedTokens.HasShape shape.vocabSize shape.hiddenSize
  layers : ∀ layer ∈ w.layers, layer.Fits shape
  some' : w.layers ≠ []
  lmHead : w.lmHead.HasShape shape.vocabSize shape.hiddenSize

/-- A decoder layer after `__init__` and `load_model` on each rank, whatever the order of the shards in the files. -/
structure LayerDeployed (tpSize : Nat) (shape : ModelShape) (w : LayerWeights R) (layer : Qwen3DecoderLayer R) :
    Prop where
  attention : ∀ r < tpSize, ∃ memory headDim created weights biases,
    Qwen3Attention.headDimOf shape.hiddenSize shape.heads.numHeads headDim = shape.heads.headSize ∧
    Qwen3Attention.init r tpSize memory shape.hiddenSize shape.heads.numHeads shape.heads.numKvHeads headDim
      shape.qkvBias = some created ∧
    weights.Perm (allShards w.weight) ∧ biases.Perm (if shape.qkvBias then allShards w.bias else []) ∧
    created.load weights biases w.o = some (layer.selfAttn r)
  mlp : ∀ r < tpSize, ∃ memory created shards,
    Qwen3MLP.init r tpSize memory shape.hiddenSize shape.intermediateSize = some created ∧
    (shards = [(0, w.gate), (1, w.up)] ∨ shards = [(1, w.up), (0, w.gate)]) ∧
    created.load shards w.down = some (layer.mlp r)
  attnNorms : layer.attnNorms = w.norms
  inputLayernorm : layer.inputLayernorm = w.inputLayernorm
  postAttentionLayernorm : layer.postAttentionLayernorm = w.postAttentionLayernorm

-- One of the vocabulary layers after `__init__` and `load_model`.
def VocabDeployed (tpSize : Nat) (shape : ModelShape) (weight : Tensor R) (layers : Nat → VocabParallelEmbedding R) :
    Prop :=
  ∀ r < tpSize, ∃ memory created, VocabParallelEmbedding.init r tpSize memory shape.vocabSize shape.hiddenSize =
    some created ∧ created.load weight = some (layers r)

structure ModelDeployed (tpSize : Nat) (shape : ModelShape) (w : ModelWeights R) (model : Qwen3ForCausalLM R) :
    Prop where
  embedTokens : VocabDeployed tpSize shape w.embedTokens model.model.embedTokens
  layers : List.Forall₂ (LayerDeployed tpSize shape) w.layers model.model.layers
  norm : model.model.norm = w.norm
  lmHead : VocabDeployed tpSize shape w.lmHead model.lmHead

section Loaded

variable {w : LayerWeights R} {layer : Qwen3DecoderLayer R}

theorem LayerDeployed.loaded [Zero R] (deployed : LayerDeployed tpSize (part.times tpSize) w layer)
    (fits : w.Fits (part.times tpSize)) (positive : 0 < tpSize) (kv_pos : 0 < part.heads.numKvHeads) :
    LayerLoaded tpSize part w layer := by
  have size (s : QKVShard) : (part.times tpSize).heads.size s = tpSize * part.heads.size s := HeadShape.size_mul s
  constructor
  case attention =>
    intro r below
    obtain ⟨memory, headDim, created, weights, biases, dim, made, order, biasOrder, load⟩ := deployed.attention r below
    rw [Qwen3Attention.init_eq positive part.heads kv_pos memory dim, Option.some.injEq] at made
    subst made
    obtain ⟨loaded, load', holds⟩ := Qwen3Attention.load_ok below memory (fun s => size s ▸ fits.weight s)
      (fun s => size s ▸ fits.bias s) (size .q ▸ fits.o) order biasOrder
    rw [load, Option.some.injEq] at load'
    exact load' ▸ holds
  case mlp =>
    intro r below
    obtain ⟨memory, created, shards, made, order, load⟩ := deployed.mlp r below
    rw [Qwen3MLP.init_eq positive memory, Option.some.injEq] at made
    subst made
    rw [Qwen3MLP.load_eq positive below memory memory fits.gate fits.up fits.down order, Option.some.injEq] at load
    exact ⟨memory, load.symm⟩
  case oShape => exact size .q ▸ fits.o
  case downShape => exact fits.down
  case attnNorms => exact deployed.attnNorms
  case inputLayernorm => exact deployed.inputLayernorm
  case postAttentionLayernorm => exact deployed.postAttentionLayernorm

theorem LayerDeployed.all_loaded [Zero R] {ws : List (LayerWeights R)} {layers : List (Qwen3DecoderLayer R)}
    (deployed : List.Forall₂ (LayerDeployed tpSize (part.times tpSize)) ws layers)
    (fits : ∀ w ∈ ws, w.Fits (part.times tpSize)) (positive : 0 < tpSize) (kv_pos : 0 < part.heads.numKvHeads) :
    List.Forall₂ (LayerLoaded tpSize part) ws layers := by
  induction deployed with
  | nil => exact .nil
  | cons first later ih =>
      exact .cons (first.loaded (fits _ (List.mem_cons_self ..)) positive kv_pos)
        (ih (fun w listed => fits w (List.mem_cons_of_mem _ listed)))

theorem VocabDeployed.loaded {weight : Tensor R} {layers : Nat → VocabParallelEmbedding R}
    (deployed : VocabDeployed tpSize (part.times tpSize) weight layers) (positive : 0 < tpSize)
    (fits : weight.HasShape (tpSize * part.vocabSize) part.hiddenSize) :
    ∀ r < tpSize, layers r = .onRank r tpSize part.vocabSize (weight.rowBlock part.vocabSize r) := by
  intro r below
  obtain ⟨memory, created, made, load⟩ := deployed r below
  rw [VocabParallelEmbedding.init_eq positive memory, Option.some.injEq] at made
  subst made
  rw [VocabParallelEmbedding.load_eq below fits memory, Option.some.injEq] at load
  exact load.symm

theorem ModelDeployed.loaded [Zero R] {w : ModelWeights R} {model : Qwen3ForCausalLM R}
    (deployed : ModelDeployed tpSize (part.times tpSize) w model) (fits : w.Fits (part.times tpSize))
    (positive : 0 < tpSize) (kv_pos : 0 < part.heads.numKvHeads) : ModelLoaded tpSize part w model where
  layers := LayerDeployed.all_loaded deployed.layers fits.layers positive kv_pos
  some' := fits.some'
  embedTokens := deployed.embedTokens.loaded positive fits.embedTokens
  embedShape := fits.embedTokens
  lmHead := deployed.lmHead.loaded positive fits.lmHead
  headShape := fits.lmHead
  norm := deployed.norm

end Loaded

section Deploys

variable [Zero R]

theorem LayerWeights.Fits.deploys {w : LayerWeights R} (fits : w.Fits (part.times tpSize)) (positive : 0 < tpSize)
    (kv_pos : 0 < part.heads.numKvHeads) (dim_pos : 0 < part.heads.headSize) :
    ∃ layer, LayerDeployed tpSize (part.times tpSize) w layer := by
  have size (s : QKVShard) : (part.times tpSize).heads.size s = tpSize * part.heads.size s := HeadShape.size_mul s
  have dim : Qwen3Attention.headDimOf part.hiddenSize (tpSize * part.heads.numHeads) (some part.heads.headSize) =
      part.heads.headSize := if_neg dim_pos.ne'
  have attention (r : Nat) : ∃ layer : Qwen3Attention R, r < tpSize →
      (Qwen3Attention.created r tpSize part.heads part.hiddenSize part.qkvBias (fun _ _ => 0)).load
        (allShards w.weight) (if part.qkvBias then allShards w.bias else []) w.o = some layer := by
    by_cases below : r < tpSize
    · obtain ⟨layer, load, -⟩ := Qwen3Attention.load_ok below (fun _ _ => 0) (fun s => size s ▸ fits.weight s)
        (fun s => size s ▸ fits.bias s) (size .q ▸ fits.o) (.refl _)
        (.refl (if part.qkvBias then allShards w.bias else []))
      exact ⟨layer, fun _ => load⟩
    · exact ⟨.created r tpSize part.heads part.hiddenSize part.qkvBias (fun _ _ => 0), fun below' => absurd below' below⟩
  choose selfAttn loads using attention
  refine ⟨⟨selfAttn, w.norms, fun r => .onRank r tpSize part.intermediateSize part.hiddenSize
    (Qwen3MLP.merged w.gate w.up part.intermediateSize r (fun _ _ => 0)) (w.down.colBlock part.intermediateSize r),
    w.inputLayernorm, w.postAttentionLayernorm⟩, ?_, ?_, rfl, rfl, rfl⟩
  · intro r below
    exact ⟨_, some part.heads.headSize, _, _, _, dim, Qwen3Attention.init_eq positive part.heads kv_pos _ dim,
      .refl _, .refl _, loads r below⟩
  · intro r below
    exact ⟨_, _, _, Qwen3MLP.init_eq positive (fun _ _ => 0), Or.inl rfl,
      Qwen3MLP.load_eq positive below _ _ fits.gate fits.up fits.down (Or.inl rfl)⟩

theorem VocabDeployed.exists {weight : Tensor R} (positive : 0 < tpSize)
    (fits : weight.HasShape (tpSize * part.vocabSize) part.hiddenSize) :
    ∃ layers, VocabDeployed tpSize (part.times tpSize) weight layers :=
  ⟨fun r => .onRank r tpSize part.vocabSize (weight.rowBlock part.vocabSize r), fun _ below =>
    ⟨_, _, VocabParallelEmbedding.init_eq positive (fun _ _ => 0), VocabParallelEmbedding.load_eq below fits _⟩⟩

theorem ModelWeights.Fits.deploys {w : ModelWeights R} (fits : w.Fits (part.times tpSize)) (positive : 0 < tpSize)
    (kv_pos : 0 < part.heads.numKvHeads) (dim_pos : 0 < part.heads.headSize) :
    ∃ model, ModelDeployed tpSize (part.times tpSize) w model := by
  have layers : ∀ ws : List (LayerWeights R), (∀ w ∈ ws, w.Fits (part.times tpSize)) →
      ∃ layers, List.Forall₂ (LayerDeployed tpSize (part.times tpSize)) ws layers := by
    intro ws each
    induction ws with
    | nil => exact ⟨[], .nil⟩
    | cons first rest ih =>
        obtain ⟨layer, deployed⟩ := (each first (List.mem_cons_self ..)).deploys positive kv_pos dim_pos
        obtain ⟨later, all⟩ := ih (fun w listed => each w (List.mem_cons_of_mem _ listed))
        exact ⟨layer :: later, .cons deployed all⟩
  obtain ⟨layers, all⟩ := layers w.layers fits.layers
  obtain ⟨embedTokens, embedded⟩ := VocabDeployed.exists positive fits.embedTokens
  obtain ⟨lmHead, headed⟩ := VocabDeployed.exists positive fits.lmHead
  exact ⟨⟨⟨embedTokens, layers, w.norm⟩, lmHead⟩, embedded, all, rfl, headed⟩

end Deploys

end NanoVllm
