import NanoVllm.Loading.Deployed

set_option autoImplicit false

namespace NanoVllm

open Torch Cells

variable {R : Type} {tpSize r : Nat} {part : ModelShape} {config : Qwen3Config} {savedHead : Bool}
  {tensors : CheckpointTensor → Tensor R} {files : List (List (Str × Tensor R))} {order : List CheckpointTensor}
  {memory : EmptyMemory R} {i : Nat} (scale : (hiddenSize : Nat) → (Fin hiddenSize → R) → R)
  (rotaryEmb : RotaryEmbedding R)

/-- A layer whose part on rank `r` is the given one; the norms are whole on each rank. -/
structure Qwen3DecoderLayer.OnRank (layer : Qwen3DecoderLayer R) (r : Nat) (rank : RankLayer R) : Prop where
  selfAttn : layer.selfAttn r = rank.selfAttn
  mlp : layer.mlp r = rank.mlp
  qNorm : ∀ weight ∈ rank.qNorm, layer.attnNorms.qNorm = .ofWeight scale weight
  kNorm : ∀ weight ∈ rank.kNorm, layer.attnNorms.kNorm = .ofWeight scale weight
  rotaryEmb : layer.attnNorms.rotaryEmb = rotaryEmb
  inputLayernorm : layer.inputLayernorm = .ofWeight scale rank.inputLayernorm
  postAttentionLayernorm : layer.postAttentionLayernorm = .ofWeight scale rank.postAttentionLayernorm

structure Qwen3ForCausalLM.OnRank (model : Qwen3ForCausalLM R) (r : Nat) (rank : RankModel R) : Prop where
  embedTokens : model.model.embedTokens r = rank.embedTokens
  layers : List.Forall₂ (fun layer rankLayer => layer.OnRank scale rotaryEmb r rankLayer) model.model.layers rank.layers
  norm : model.model.norm = .ofWeight scale rank.norm
  lmHead : model.lmHead r = rank.lmHead

namespace Loading

open RankModel

section Rank

variable [One R]

def rankAfter (r tpSize : Nat) (part : ModelShape) (config : Qwen3Config) (memory : EmptyMemory R)
    (tensors : CheckpointTensor → Tensor R) (order : List CheckpointTensor) : RankModel R :=
  (RankModel.created r tpSize part config memory).withParameters
    ((RankModel.created r tpSize part config memory).loaded tensors order)

theorem layers_after : (rankAfter r tpSize part config memory tensors order).layers =
    (List.range config.numHiddenLayers).map (layerAfter r tpSize part config memory tensors order) := by
  refine List.ext_getElem? (fun i => ?_)
  simp only [rankAfter, withParameters, RankModel.created, List.getElem?_mapIdx, List.getElem?_map, Option.map_map]
  by_cases within : i < config.numHiddenLayers
  · rw [List.getElem?_range within]
    rfl
  · rw [List.getElem?_eq_none (by simpa using within)]
    rfl

theorem embed_after (h : Loading r tpSize part config savedHead tensors order) :
    (rankAfter r tpSize part config memory tensors order).embedTokens =
      .onRank r tpSize part.vocabSize ((tensors .embedTokens).rowBlock part.vocabSize r) := by
  have owned : (RankModel.created r tpSize part config memory).loaded tensors order .embedTokens = some _ :=
    h.owns_embed ⟨rfl, rfl⟩
  simp only [rankAfter, withParameters, storage, owned, Option.getD_some]
  rfl

theorem head_after (h : Loading r tpSize part config savedHead tensors order) :
    (rankAfter r tpSize part config memory tensors order).lmHead = .onRank r tpSize part.vocabSize
      ((tensors (if config.tieWordEmbeddings then .embedTokens else .lmHead)).rowBlock part.vocabSize r) := by
  have same : (RankModel.created r tpSize part config memory).tieWordEmbeddings = config.tieWordEmbeddings := rfl
  cases tied : config.tieWordEmbeddings with
  | true =>
      have owned : (RankModel.created r tpSize part config memory).loaded tensors order .embedTokens = some _ :=
        h.owns_embed ⟨rfl, rfl⟩
      simp only [rankAfter, withParameters, storage, same, tied, if_true, owned, Option.getD_some]
      rfl
  | false =>
      have owned : (RankModel.created r tpSize part config memory).loaded tensors order .lmHead = some _ :=
        h.owns_head tied ⟨rfl, rfl⟩
      simp only [rankAfter, withParameters, storage, same, tied, Bool.false_eq_true, if_false, owned, Option.getD_some]
      rfl

theorem norm_after (h : Loading r tpSize part config savedHead tensors order) :
    (rankAfter r tpSize part config memory tensors order).norm = tensors .norm := by
  have owned : (RankModel.created r tpSize part config memory).loaded tensors order .norm = some _ :=
    h.owns_norm ⟨rfl, rfl⟩
  simp only [rankAfter, withParameters, storage, owned, Option.getD_some]

theorem copied_after (h : Loading r tpSize part config savedHead tensors order) (within : i < config.numHiddenLayers)
    {t : LayerTensor} (copied : copied t) (listed : t ∈ layerTensors part.qkvBias) :
    (RankModel.created r tpSize part config memory).loaded tensors order (.layer i t.parameter) =
      some (tensors (.layer i t)) := by
  obtain ⟨param, held⟩ := Option.isSome_iff_exists.mp (@fresh_has _ tpSize r part memory i _ t listed)
  refine loaded_layer within held (h.owns_copied within copied listed ?_)
  rcases copied with rfl | rfl | rfl | rfl
  case inr.inr.inl | inr.inr.inr =>
    cases held
    exact ⟨rfl, rfl⟩
  all_goals
    rw [mem_layerTensors] at listed
    simp only [RankLayer.parameters, RankLayer.created, LayerTensor.parameter, listed, Bool.false_eq_true, if_false,
      Option.some.injEq] at held
    subst held
    exact ⟨rfl, rfl⟩

theorem layer_norms_after (h : Loading r tpSize part config savedHead tensors order)
    (within : i < config.numHiddenLayers) :
    (layerAfter r tpSize part config memory tensors order i).inputLayernorm = tensors (.layer i .inputLayernorm) ∧
      (layerAfter r tpSize part config memory tensors order i).postAttentionLayernorm =
        tensors (.layer i .postAttentionLayernorm) := by
  have input : (RankModel.created r tpSize part config memory).loaded tensors order (.layer i .inputLayernorm) = some _ :=
    h.copied_after within (Or.inr (Or.inr (Or.inl rfl))) ((mem_layerTensors .inputLayernorm).mpr trivial)
  have post : (RankModel.created r tpSize part config memory).loaded tensors order (.layer i .postAttentionLayernorm) =
      some _ := h.copied_after within (Or.inr (Or.inr (Or.inr rfl)))
        ((mem_layerTensors .postAttentionLayernorm).mpr trivial)
  simp only [layerAfter, RankLayer.withParameters, input, post, Option.getD_some, and_self]

theorem head_norm_after (h : Loading r tpSize part config savedHead tensors order) (within : i < config.numHiddenLayers)
    {t : LayerTensor} (norm : t = .qNorm ∨ t = .kNorm) {weight : Tensor R}
    (holds : weight ∈ (RankModel.created r tpSize part config memory).loaded tensors order (.layer i t.parameter)) :
    weight = tensors (.layer i t) := by
  cases biased : part.qkvBias with
  | true =>
      have none' : (fresh r tpSize part memory i).parameters t.parameter = none := by
        rcases norm with rfl | rfl <;> simp [RankLayer.parameters, RankLayer.created, LayerTensor.parameter, biased]
      rw [RankModel.loaded, parameters_layer r tpSize part memory within, none'] at holds
      cases holds
  | false =>
      have listed : t ∈ layerTensors part.qkvBias := by
        rcases norm with rfl | rfl <;> exact (mem_layerTensors _).mpr biased
      have kept : copied t := norm.elim Or.inl (fun k => Or.inr (Or.inl k))
      rw [h.copied_after within kept listed] at holds
      exact (Option.mem_some_iff.mp holds).symm

end Rank

end Loading

section Fits

theorem Loading.head_listed (config : Qwen3Config) (savedHead : Bool) :
    (if config.tieWordEmbeddings then CheckpointTensor.embedTokens else .lmHead) ∈ config.tensors savedHead := by
  cases tied : config.tieWordEmbeddings <;> exact mem_tensors.mpr (by simp [tied])

theorem Loading.head_shape (h : Loading r tpSize part config savedHead tensors order) :
    (tensors (if config.tieWordEmbeddings then .embedTokens else .lmHead)).HasShape (tpSize * part.vocabSize)
      part.hiddenSize :=
  h.vocab_shape (head_listed config savedHead) (by cases config.tieWordEmbeddings <;> simp)

variable [Zero R]

theorem Loading.layer_fits (h : Loading r tpSize part config savedHead tensors order)
    (within : i < config.numHiddenLayers) :
    (LayerWeights.ofCheckpoint config scale rotaryEmb tensors i).Fits (part.times tpSize) := by
  have bias : config.attentionBias = part.qkvBias := congrArg ModelShape.qkvBias h.sharded
  constructor
  case weight => exact fun s => h.layer_shape within ((mem_layerTensors (.proj s)).mpr trivial)
  case bias =>
    intro s
    change (if config.attentionBias then _ else _ : Tensor R).HasShape _ _
    split
    next biased => exact h.layer_shape within ((mem_layerTensors (.projBias s)).mpr (bias ▸ biased))
    next =>
      rw [h.sharded]
      exact ⟨rfl, rfl⟩
  case o => exact h.layer_shape within ((mem_layerTensors .oProj).mpr trivial)
  case gate => exact h.layer_shape within ((mem_layerTensors .gateProj).mpr trivial)
  case up => exact h.layer_shape within ((mem_layerTensors .upProj).mpr trivial)
  case down => exact h.layer_shape within ((mem_layerTensors .downProj).mpr trivial)

theorem Loading.fits (h : Loading r tpSize part config savedHead tensors order) (some' : 0 < config.numHiddenLayers) :
    (ModelWeights.ofCheckpoint config scale rotaryEmb tensors).Fits (part.times tpSize) := by
  constructor
  case embedTokens => exact h.vocab_shape (mem_tensors.mpr trivial) (Or.inl rfl)
  case layers => exact List.forall_mem_map.mpr (fun i member => h.layer_fits scale rotaryEmb (List.mem_range.mp member))
  case some' => simpa [ModelWeights.ofCheckpoint] using some'.ne'
  case lmHead => exact h.head_shape

end Fits

/-- On every rank, `__init__` and `load_model` succeed and leave there the rank's part of the model, in whatever order its
files and their keys come. -/
theorem checkpoint_deploys [Zero R] [One R] (supported : config.Supported) (positive : 0 < tpSize)
    (kv_pos : 0 < part.heads.numKvHeads) (some' : 0 < config.numHiddenLayers) (sharded : config.shape = part.times tpSize)
    {files : Nat → List (List (Str × Tensor R))}
    (checkpoint : ∀ r < tpSize, Checkpoint config savedHead tensors (files r)) (memory : Nat → EmptyMemory R) :
    (ModelWeights.ofCheckpoint config scale rotaryEmb tensors).Fits (part.times tpSize) ∧
    ∃ model, ModelDeployed tpSize (part.times tpSize) (.ofCheckpoint config scale rotaryEmb tensors) model ∧
      ∀ r < tpSize, ∃ created loaded, RankModel.init r tpSize config (memory r) = some created ∧
        loadModel created (files r) = some loaded ∧ model.OnRank scale rotaryEmb r loaded := by
  have orders (r : Nat) : ∃ order : List CheckpointTensor, r < tpSize →
      Loading r tpSize part config savedHead tensors order ∧
        (files r).flatten = order.map (fun t => (t.name, tensors t)) := by
    by_cases below : r < tpSize
    · have given := checkpoint r below
      obtain ⟨order, perm, listed⟩ := exists_order given.listed
      exact ⟨order, fun _ => ⟨⟨below, sharded, perm, given.shapes, given.tied⟩, listed⟩⟩
    · exact ⟨[], fun below' => absurd below' below⟩
  choose order holds using orders
  have hidden : config.hiddenSize = part.hiddenSize := congrArg ModelShape.hiddenSize sharded
  have dim : Qwen3Attention.headDimOf config.hiddenSize config.numAttentionHeads config.headDim = part.heads.headSize :=
    congrArg (fun s => s.heads.headSize) sharded
  have heads : config.numAttentionHeads = tpSize * part.heads.numHeads := congrArg (fun s => s.heads.numHeads) sharded
  rw [hidden, heads] at dim
  let after (r i : Nat) : RankLayer R := Loading.layerAfter r tpSize part config (memory r) tensors (order r) i
  let w := LayerWeights.ofCheckpoint config scale rotaryEmb tensors
  let layer (i : Nat) : Qwen3DecoderLayer R :=
    { selfAttn := fun r => (after r i).selfAttn
      attnNorms := (w i).norms
      mlp := fun r => (after r i).mlp
      inputLayernorm := (w i).inputLayernorm
      postAttentionLayernorm := (w i).postAttentionLayernorm }
  let rank (r : Nat) : RankModel R := Loading.rankAfter r tpSize part config (memory r) tensors (order r)
  refine ⟨(holds 0 positive).1.fits scale rotaryEmb some', ⟨⟨fun r => (rank r).embedTokens,
    (List.range config.numHiddenLayers).map layer, .ofWeight scale (tensors .norm)⟩, fun r => (rank r).lmHead⟩,
    ?deployed, ?ranks⟩
  case deployed =>
    constructor
    case embedTokens =>
      intro r below
      have h := (holds r below).1
      refine ⟨(memory r).embedTokens, _, VocabParallelEmbedding.init_eq positive _, ?_⟩
      exact (VocabParallelEmbedding.load_eq below (h.vocab_shape (mem_tensors.mpr trivial) (Or.inl rfl)) _).trans
        (congrArg some h.embed_after.symm)
    case lmHead =>
      intro r below
      have h := (holds r below).1
      exact ⟨(memory r).lmHead, _, VocabParallelEmbedding.init_eq positive _,
        (VocabParallelEmbedding.load_eq below h.head_shape _).trans (congrArg some h.head_after.symm)⟩
    case norm => rfl
    case layers =>
      rw [ModelWeights.ofCheckpoint, List.forall₂_map_left_iff, List.forall₂_map_right_iff, List.forall₂_same]
      intro i member
      have within := List.mem_range.mp member
      constructor
      case attention =>
        intro r below
        obtain ⟨weights, biases, perm, perm', load⟩ := (holds r below).1.attention_loaded scale rotaryEmb within
        exact ⟨_, config.headDim, _, weights, biases, dim, Qwen3Attention.init_eq positive part.heads kv_pos _ dim,
          perm, perm', load⟩
      case mlp =>
        intro r below
        obtain ⟨shards, either, load⟩ := (holds r below).1.mlp_loaded positive within
        exact ⟨_, _, shards, Qwen3MLP.init_eq positive _, either, load⟩
      all_goals rfl
  case ranks =>
    intro r below
    obtain ⟨h, listed⟩ := holds r below
    refine ⟨_, rank r, RankModel.init_eq supported sharded positive kv_pos (memory r), h.load_ok positive listed, ?_⟩
    constructor
    case embedTokens => rfl
    case lmHead => rfl
    case norm => exact congrArg (RMSNorm.ofWeight scale) h.norm_after.symm
    case layers =>
      rw [Loading.layers_after, List.forall₂_map_left_iff, List.forall₂_map_right_iff, List.forall₂_same]
      intro i member
      have within := List.mem_range.mp member
      constructor
      case selfAttn => rfl
      case mlp => rfl
      case rotaryEmb => rfl
      case qNorm =>
        exact fun weight holds => congrArg (RMSNorm.ofWeight scale)
          (h.head_norm_after within (Or.inl rfl) holds).symm
      case kNorm =>
        exact fun weight holds => congrArg (RMSNorm.ofWeight scale)
          (h.head_norm_after within (Or.inr rfl) holds).symm
      case inputLayernorm => exact congrArg (RMSNorm.ofWeight scale) (h.layer_norms_after within).1.symm
      case postAttentionLayernorm => exact congrArg (RMSNorm.ofWeight scale) (h.layer_norms_after within).2.symm

-- Two ranks read the tensors of a model with tied embeddings in different orders, from one file and from two.
theorem checkpoint_deploys_tied :
    let config : Qwen3Config := ⟨4, 2, 2, 1, 2, 2, some 2, false, true, "silu", some 1000000, some { type := some "default" }⟩
    let part : ModelShape := ⟨2, 2, 1, ⟨1, 1, 2⟩, false⟩
    let tensors : CheckpointTensor → Tensor Int := fun t => ⟨(t.size config.shape).1, (t.size config.shape).2,
      fun i j => i + 2 * j⟩
    let listed := (config.tensors true).map (fun t => (t.name, tensors t))
    let files := fun r => if r = 0 then [listed.reverse] else [listed.drop 5, listed.take 5]
    let memory : EmptyMemory Int := ⟨fun _ _ => 7, fun _ _ _ => 8, fun _ _ _ => 9, fun _ _ => 7⟩
    ∃ model, ModelDeployed 2 (part.times 2) (.ofCheckpoint config (fun _ _ => 1) ⟨fun _ _ => 1, fun _ _ => 0⟩ tensors)
      model ∧
      ∀ r < 2, ∃ created loaded, RankModel.init r 2 config memory = some created ∧
        loadModel created (files r) = some loaded ∧
        model.OnRank (fun _ _ => 1) ⟨fun _ _ => 1, fun _ _ => 0⟩ r loaded := by
  intro config part tensors listed files memory
  have checkpoint : ∀ r < 2, Checkpoint config true tensors (files r) := by
    refine fun r _ => ⟨?_, fun t _ => ⟨rfl, rfl⟩, fun _ _ => rfl⟩
    by_cases first : r = 0
    · simp only [files, first, if_true, List.flatten_cons, List.flatten_nil, List.append_nil]
      exact List.reverse_perm _
    · simp only [files, first, if_false, List.flatten_cons, List.flatten_nil, List.append_nil]
      exact List.perm_append_comm.trans (List.take_append_drop 5 listed ▸ .refl _)
  have sharded : config.shape = part.times 2 := rfl
  have supported : config.Supported := ⟨rfl, by rintro _ ⟨⟩; rfl, ⟨_, rfl⟩⟩
  exact (checkpoint_deploys (fun _ _ => 1) ⟨fun _ _ => 1, fun _ _ => 0⟩ supported (by decide) (by decide) (by decide)
    sharded checkpoint (fun _ => memory)).2

end NanoVllm
