import NanoVllm.Loading.Ranks

set_option autoImplicit false

namespace NanoVllm

open Torch Cells

variable {R : Type} {tpSize r : Nat} {part : ModelShape} {config : Qwen3Config} {savedHead : Bool}
  {tensors : CheckpointTensor → Tensor R} {files : List (List (Str × Tensor R))} {order : List CheckpointTensor}
  {memory : EmptyMemory R} {i : Nat}

namespace Loading

open RankModel

section Packed

variable [One R]

-- A layer of the rank before the load.
abbrev fresh (r tpSize : Nat) (part : ModelShape) (memory : EmptyMemory R) (i : Nat) : RankLayer R :=
  .created r tpSize part (memory.selfAttn i) (memory.mlp i)

theorem owns_qkv (h : Loading r tpSize part config savedHead tensors order) (within : i < config.numHiddenLayers)
    {p : LayerParameter} {tensorOf : QKVShard → LayerTensor} {cols : Nat}
    (loader : ∀ (s : QKVShard) (param weight : Tensor R),
      (fresh r tpSize part memory i).weightLoader (tensorOf s).parameter param weight (tensorOf s).shardId =
        (fresh r tpSize part memory i).selfAttn.qkvProj.weightLoader param weight s)
    (found : (layerTensors part.qkvBias).filter (fun t => t.parameter = p) = [tensorOf .q, tensorOf .k, tensorOf .v])
    (shapes : ∀ s, (tensors (.layer i (tensorOf s))).HasShape (tpSize * part.heads.size s) cols) (entry : Nat → Nat → R) :
    ∃ (shards : List (QKVShard × Tensor R)) (entry' : Nat → Nat → R), shards.Perm
      (allShards (fun s => tensors (.layer i (tensorOf s)))) ∧
      shards.foldlM (fun param s =>
        (fresh r tpSize part memory i).selfAttn.qkvProj.weightLoader param s.2 s.1)
          ⟨part.heads.total, cols, entry⟩ = some ⟨part.heads.total, cols, entry'⟩ ∧
      owns r tpSize part config memory tensors order (.layer i p) ⟨part.heads.total, cols, entry⟩ =
        some ⟨part.heads.total, cols, entry'⟩ := by
  have owners : config.owners savedHead (.layer i p) =
      [QKVShard.q, .k, .v].map (fun s => .layer i (tensorOf s)) := by rw [h.layer_owners within found]; rfl
  obtain ⟨shards, perm, folds⟩ := own_packed (layer_entry r tpSize part memory within) (h.owned _) owners
  obtain ⟨entry', run, -⟩ := QKVParallelLinear.loads_all h.below ⟨part.heads.total, part.hiddenSize, memory.selfAttn i⟩
    (if part.qkvBias then some ⟨part.heads.total, 1, memory.selfAttn i⟩ else none) shapes perm entry
  refine ⟨shards, entry', perm, run, ?_⟩
  rw [owns, folds, foldlM_congr (fun s _ param => loader s.1 param s.2)]
  exact run

theorem owns_gateUp (h : Loading r tpSize part config savedHead tensors order) (positive : 0 < tpSize)
    (within : i < config.numHiddenLayers) : ∃ (shards : List (Nat × Tensor R)) (merged : Tensor R),
      (shards = [(0, tensors (.layer i .gateProj)), (1, tensors (.layer i .upProj))] ∨
        shards = [(1, tensors (.layer i .upProj)), (0, tensors (.layer i .gateProj))]) ∧
      shards.foldlM (fun param s =>
        (fresh r tpSize part memory i).mlp.gateUpProj.weightLoader param s.2 s.1)
          (fresh r tpSize part memory i).mlp.gateUpProj.weight = some merged ∧
      owns r tpSize part config memory tensors order (.layer i .gateUpProj)
        (fresh r tpSize part memory i).mlp.gateUpProj.weight = some merged := by
  have found : (layerTensors part.qkvBias).filter (fun t => t.parameter = .gateUpProj) = [.gateProj, .upProj] := by
    cases part.qkvBias <;> rfl
  have owners : config.owners savedHead (.layer i .gateUpProj) =
      [0, 1].map (fun id : Nat => .layer i (if id = 0 then .gateProj else .upProj)) := by
    rw [h.layer_owners within found]
    rfl
  obtain ⟨shards, perm, folds⟩ := @own_packed _ _ _ tensors _ _ _ _ _ _ _ _ (layer_entry r tpSize part memory within)
    (h.owned _) owners
  have either : shards = [(0, tensors (.layer i .gateProj)), (1, tensors (.layer i .upProj))] ∨
      shards = [(1, tensors (.layer i .upProj)), (0, tensors (.layer i .gateProj))] :=
    eq_of_perm_pair perm
  have gateShape := h.layer_shape within ((mem_layerTensors .gateProj).mpr trivial)
  have upShape := h.layer_shape within ((mem_layerTensors .upProj).mpr trivial)
  have downShape := h.layer_shape within ((mem_layerTensors .downProj).mpr trivial)
  have loaded := Qwen3MLP.load_eq positive h.below (memory.mlp i) (memory.mlp i) gateShape upShape downShape either
  rw [Qwen3MLP.load, MergedColumnParallelLinear.foldlM_load] at loaded
  cases run : shards.foldlM (fun param s =>
      (fresh r tpSize part memory i).mlp.gateUpProj.weightLoader param s.2 s.1)
        (fresh r tpSize part memory i).mlp.gateUpProj.weight with
  | none =>
      have none' : (Option.map _ none >>= _) = some _ := run ▸ loaded
      cases none'
  | some merged =>
      refine ⟨shards, merged, either, run, ?_⟩
      rw [owns, folds, ← run]
      refine foldlM_congr (fun s listed param => ?_)
      rcases either with rfl | rfl
      all_goals
        rcases listed with _ | ⟨_, _ | ⟨_, ⟨⟩⟩⟩
        · rfl
        · rfl

end Packed

section Run

theorem qkv_shape (h : Loading r tpSize part config savedHead tensors order) (within : i < config.numHiddenLayers)
    (s : QKVShard) : (tensors (.layer i (.proj s))).HasShape (tpSize * part.heads.size s) part.hiddenSize := by
  have shape := h.layer_shape within ((mem_layerTensors (.proj s)).mpr trivial)
  rwa [LayerTensor.size, HeadShape.size_mul] at shape

theorem bias_shape (h : Loading r tpSize part config savedHead tensors order) (within : i < config.numHiddenLayers)
    (biased : part.qkvBias = true) (s : QKVShard) :
    (tensors (.layer i (.projBias s))).HasShape (tpSize * part.heads.size s) 1 := by
  have shape := h.layer_shape within ((mem_layerTensors (.projBias s)).mpr biased)
  rwa [LayerTensor.size, HeadShape.size_mul] at shape

variable [One R]

theorem parameters_layer (r tpSize : Nat) (part : ModelShape) (memory : EmptyMemory R)
    (within : i < config.numHiddenLayers) (p : LayerParameter) :
    (RankModel.created r tpSize part config memory).parameters (.layer i p) =
      (fresh r tpSize part memory i).parameters p := by
  simp only [RankModel.parameters, layer_entry r tpSize part memory within, Option.bind_eq_bind, Option.bind_some]

theorem owns_weight (h : Loading r tpSize part config savedHead tensors order) (within : i < config.numHiddenLayers) :
    ∃ (shards : List (QKVShard × Tensor R)) (entry : Nat → Nat → R),
      shards.Perm (allShards (fun s => tensors (.layer i (.proj s)))) ∧
      shards.foldlM (fun param s => (fresh r tpSize part memory i).selfAttn.qkvProj.weightLoader param s.2 s.1)
        (fresh r tpSize part memory i).selfAttn.qkvProj.weight = some ⟨part.heads.total, part.hiddenSize, entry⟩ ∧
      owns r tpSize part config memory tensors order (.layer i .qkvProj)
        (fresh r tpSize part memory i).selfAttn.qkvProj.weight = some ⟨part.heads.total, part.hiddenSize, entry⟩ :=
  h.owns_qkv within (fun _ _ _ => rfl) (by cases part.qkvBias <;> rfl) (h.qkv_shape within) (memory.selfAttn i)

theorem owns_bias (h : Loading r tpSize part config savedHead tensors order) (within : i < config.numHiddenLayers)
    (biased : part.qkvBias = true) : ∃ (shards : List (QKVShard × Tensor R)) (entry : Nat → Nat → R),
      shards.Perm (allShards (fun s => tensors (.layer i (.projBias s)))) ∧
      shards.foldlM (fun param s => (fresh r tpSize part memory i).selfAttn.qkvProj.weightLoader param s.2 s.1)
        ⟨part.heads.total, 1, memory.selfAttn i⟩ = some ⟨part.heads.total, 1, entry⟩ ∧
      owns r tpSize part config memory tensors order (.layer i .qkvBias)
        ⟨part.heads.total, 1, memory.selfAttn i⟩ = some ⟨part.heads.total, 1, entry⟩ :=
  h.owns_qkv within (fun _ _ _ => rfl) (by rw [biased]; rfl) (h.bias_shape within biased) (memory.selfAttn i)

theorem each (h : Loading r tpSize part config savedHead tensors order) (positive : 0 < tpSize) (k : Parameter)
    (param : Tensor R) (holds : param ∈ (RankModel.created r tpSize part config memory).parameters k) :
    (owns r tpSize part config memory tensors order k param).isSome = true := by
  cases k with
  | embedTokens =>
      cases holds
      exact Option.isSome_of_eq_some (h.owns_embed ⟨rfl, rfl⟩)
  | norm =>
      cases holds
      exact Option.isSome_of_eq_some (h.owns_norm ⟨rfl, rfl⟩)
  | lmHead =>
      cases holds
      cases tied : config.tieWordEmbeddings with
      | false =>
          exact Option.isSome_of_eq_some (h.owns_head tied ⟨rfl, rfl⟩)
      | true =>
          have none : order.filter (fun t => (RankModel.created r tpSize part config memory).target t = .lmHead) =
            [] := by
            refine List.Perm.eq_nil ((h.owned .lmHead).trans ?_)
            rw [Qwen3Config.owners, if_pos tied]
          rw [owns, own, none]
          rfl
  | layer i p =>
      have within : i < config.numHiddenLayers := by
        by_contra outside
        simp [RankModel.parameters, RankModel.created, outside] at holds
      rw [parameters_layer r tpSize part memory within] at holds
      cases p with
      | qkvProj =>
          cases holds
          obtain ⟨_, _, -, -, loaded⟩ := h.owns_weight within
          exact Option.isSome_of_eq_some loaded
      | qkvBias =>
          cases biased : part.qkvBias with
          | false => simp [RankLayer.parameters, RankLayer.created, Qwen3Attention.created, Qwen3Attention.onRank,
              QKVParallelLinear.onRank, biased] at holds
          | true =>
              have held : param = ⟨part.heads.total, 1, memory.selfAttn i⟩ := by
                simpa [RankLayer.parameters, RankLayer.created, Qwen3Attention.created, Qwen3Attention.onRank,
                  QKVParallelLinear.onRank, biased, eq_comm] using holds
              obtain ⟨_, _, -, -, loaded⟩ := h.owns_bias within biased
              rw [held]
              exact Option.isSome_of_eq_some loaded
      | oProj =>
          cases holds
          exact Option.isSome_of_eq_some (h.owns_o within ⟨rfl, rfl⟩)
      | downProj =>
          cases holds
          exact Option.isSome_of_eq_some (h.owns_down within ⟨rfl, rfl⟩)
      | gateUpProj =>
          cases holds
          obtain ⟨_, _, -, -, loaded⟩ := h.owns_gateUp positive within
          exact Option.isSome_of_eq_some loaded
      | inputLayernorm =>
          cases holds
          exact Option.isSome_of_eq_some (h.owns_copied within (Or.inr (Or.inr (Or.inl rfl)))
            ((mem_layerTensors .inputLayernorm).mpr trivial) ⟨rfl, rfl⟩)
      | postAttentionLayernorm =>
          cases holds
          exact Option.isSome_of_eq_some (h.owns_copied within (Or.inr (Or.inr (Or.inr rfl)))
            ((mem_layerTensors .postAttentionLayernorm).mpr trivial) ⟨rfl, rfl⟩)
      | qNorm =>
          cases biased : part.qkvBias with
          | true => simp [RankLayer.parameters, RankLayer.created, biased] at holds
          | false =>
              obtain rfl : normWeight part.heads.headSize = param := by
                simpa [RankLayer.parameters, RankLayer.created, biased] using holds
              exact Option.isSome_of_eq_some (h.owns_copied within (Or.inl rfl)
                ((mem_layerTensors .qNorm).mpr biased) ⟨rfl, rfl⟩)
      | kNorm =>
          cases biased : part.qkvBias with
          | true => simp [RankLayer.parameters, RankLayer.created, biased] at holds
          | false =>
              obtain rfl : normWeight part.heads.headSize = param := by
                simpa [RankLayer.parameters, RankLayer.created, biased] using holds
              exact Option.isSome_of_eq_some (h.owns_copied within (Or.inr (Or.inl rfl))
                ((mem_layerTensors .kNorm).mpr biased) ⟨rfl, rfl⟩)

theorem fresh_has {t : LayerTensor} (listed : t ∈ layerTensors part.qkvBias) :
    ((fresh r tpSize part memory i).parameters t.parameter).isSome = true := by
  rw [mem_layerTensors] at listed
  rcases t with _ | _ | _ | _ | _ | _ | _ | _ | _ | _
  case projBias | qNorm | kNorm =>
    simp only at listed
    simp [RankLayer.parameters, RankLayer.created, LayerTensor.parameter, Qwen3Attention.created,
      Qwen3Attention.onRank, QKVParallelLinear.onRank, listed]
  all_goals rfl

theorem load_ok (h : Loading r tpSize part config savedHead tensors order) (positive : 0 < tpSize)
    (listed : files.flatten = order.map (fun t => (t.name, tensors t))) :
    loadModel (.created r tpSize part config memory) files = some
      ((RankModel.created r tpSize part config memory).withParameters
      ((RankModel.created r tpSize part config memory).loaded tensors order)) := by
  have bias : config.attentionBias = part.qkvBias := congrArg ModelShape.qkvBias h.sharded
  have has (i : Nat) (t : LayerTensor) (member : .layer i t ∈ order) :
      i < config.numHiddenLayers ∧ t ∈ layerTensors part.qkvBias :=
    bias ▸ mem_tensors.mp (h.perm.mem_iff.mp member)
  refine loadModel_eq listed ?resolved ?present (fun k param holds => h.each positive k param holds)
  case resolved =>
    intro t member
    cases t with
    | layer i t =>
        have has := has i t member
        exact resolve_layer (layer_entry r tpSize part memory has.1) t (fresh_has has.2)
    | embedTokens | norm | lmHead => exact resolve_whole _ (by simp)
  case present =>
    intro t member
    cases t with
    | layer i t =>
        have has := has i t member
        have held := parameters_layer r tpSize part memory has.1 t.parameter
        exact held ▸ fresh_has has.2
    | embedTokens | norm => rfl
    | lmHead =>
        cases tied : config.tieWordEmbeddings <;>
          simp [target, storage, RankModel.created, CheckpointTensor.parameter, RankModel.parameters, tied]

end Run

section Layers

variable [Zero R] [One R] (scale : (hiddenSize : Nat) → (Fin hiddenSize → R) → R) (rotaryEmb : RotaryEmbedding R)

def layerAfter (r tpSize : Nat) (part : ModelShape) (config : Qwen3Config) (memory : EmptyMemory R)
    (tensors : CheckpointTensor → Tensor R) (order : List CheckpointTensor) (i : Nat) : RankLayer R :=
  (fresh r tpSize part memory i).withParameters
    (fun p => (RankModel.created r tpSize part config memory).loaded tensors order (.layer i p))

omit [Zero R] in
theorem loaded_layer (within : i < config.numHiddenLayers) {p : LayerParameter} {param value : Tensor R}
    (holds : (fresh r tpSize part memory i).parameters p = some param)
    (owned : owns r tpSize part config memory tensors order (.layer i p) param = some value) :
    (RankModel.created r tpSize part config memory).loaded tensors order (.layer i p) = some value := by
  rw [RankModel.loaded, parameters_layer r tpSize part memory within, holds]
  exact owned

theorem attention_loaded (h : Loading r tpSize part config savedHead tensors order)
    (within : i < config.numHiddenLayers) :
    ∃ weights biases : List (QKVShard × Tensor R),
      weights.Perm (allShards (LayerWeights.ofCheckpoint config scale rotaryEmb tensors i).weight) ∧
      biases.Perm (if part.qkvBias then allShards (LayerWeights.ofCheckpoint config scale rotaryEmb tensors i).bias
        else []) ∧
      (fresh r tpSize part memory i).selfAttn.load weights biases (tensors (.layer i .oProj)) =
        some (layerAfter r tpSize part config memory tensors order i).selfAttn := by
  have bias : config.attentionBias = part.qkvBias := congrArg ModelShape.qkvBias h.sharded
  obtain ⟨weights, entry, perm, run, owned⟩ := @owns_weight _ _ _ _ _ _ _ _ memory _ _ h within
  have weightRun := @QKVParallelLinear.load_run _ (fresh r tpSize part memory i).selfAttn.qkvProj _ _ run
  have weight := loaded_layer within rfl owned
  have o : (RankModel.created r tpSize part config memory).loaded tensors order (.layer i .oProj) =
      some ((tensors (.layer i .oProj)).colBlock (part.heads.size .q) r) :=
    loaded_layer within rfl (h.owns_o within ⟨rfl, rfl⟩)
  have oShape := h.layer_shape within ((mem_layerTensors .oProj).mpr trivial)
  rw [LayerTensor.size, HeadShape.size_mul] at oShape
  have oRun : RowParallelLinear.load (fresh r tpSize part memory i).selfAttn.oProj (tensors (.layer i .oProj)) =
      some ⟨r, tpSize, (tensors (.layer i .oProj)).colBlock (part.heads.size .q) r, none⟩ :=
    RowParallelLinear.load_eq h.below oShape _ none
  have held : (fresh r tpSize part memory i).parameters .qkvBias =
      if part.qkvBias then some ⟨part.heads.total, 1, memory.selfAttn i⟩ else none := rfl
  cases biased : part.qkvBias with
  | false =>
      rw [biased] at held
      have noBias : (RankModel.created r tpSize part config memory).loaded tensors order (.layer i .qkvBias) = none := by
        rw [RankModel.loaded, parameters_layer r tpSize part memory within, held]
        rfl
      refine ⟨weights, [], perm, .refl _, ?_⟩
      simp only [Qwen3Attention.load, weightRun, Option.bind_eq_bind, Option.bind_some, List.foldlM_nil, Option.pure_def,
        oRun, layerAfter, RankLayer.withParameters, weight, o, noBias, Option.getD_some]
      rw [show (fresh r tpSize part memory i).selfAttn.qkvProj.bias = none from held]
      rfl
  | true =>
      rw [biased] at held
      obtain ⟨biases, entry', perm', run', owned'⟩ := @owns_bias _ _ _ _ _ _ _ _ memory _ _ h within biased
      have loadedBias := loaded_layer within held owned'
      have biasRun : biases.foldlM QKVParallelLinear.loadBias { (fresh r tpSize part memory i).selfAttn.qkvProj with
          weight := ⟨part.heads.total, part.hiddenSize, entry⟩ } = some
            { (fresh r tpSize part memory i).selfAttn.qkvProj with
              weight := ⟨part.heads.total, part.hiddenSize, entry⟩
              bias := some ⟨part.heads.total, 1, entry'⟩ } := QKVParallelLinear.loadBias_run held run'
      have biasOf (s : QKVShard) : (LayerWeights.ofCheckpoint config scale rotaryEmb tensors i).bias s =
          tensors (.layer i (.projBias s)) := if_pos (bias.trans biased)
      refine ⟨weights, biases, perm, ?_, ?_⟩
      · rw [if_pos rfl, funext biasOf]
        exact perm'
      · simp only [Qwen3Attention.load, weightRun, Option.bind_eq_bind, Option.bind_some, biasRun, Option.pure_def,
          oRun, layerAfter, RankLayer.withParameters, weight, o, loadedBias, Option.getD_some]
        rfl

omit [Zero R] in
theorem mlp_loaded (h : Loading r tpSize part config savedHead tensors order) (positive : 0 < tpSize)
    (within : i < config.numHiddenLayers) : ∃ shards : List (Nat × Tensor R),
      (shards = [(0, tensors (.layer i .gateProj)), (1, tensors (.layer i .upProj))] ∨
        shards = [(1, tensors (.layer i .upProj)), (0, tensors (.layer i .gateProj))]) ∧
      (fresh r tpSize part memory i).mlp.load shards (tensors (.layer i .downProj)) =
        some (layerAfter r tpSize part config memory tensors order i).mlp := by
  obtain ⟨shards, merged, either, run, owned⟩ := @owns_gateUp _ _ _ _ _ _ _ _ memory _ _ h positive within
  have gateUp := loaded_layer within rfl owned
  have down : (RankModel.created r tpSize part config memory).loaded tensors order (.layer i .downProj) =
      some ((tensors (.layer i .downProj)).colBlock part.intermediateSize r) :=
    loaded_layer within rfl (h.owns_down within ⟨rfl, rfl⟩)
  have downShape := h.layer_shape within ((mem_layerTensors .downProj).mpr trivial)
  have downRun : RowParallelLinear.load (fresh r tpSize part memory i).mlp.downProj (tensors (.layer i .downProj)) =
      some ⟨r, tpSize, (tensors (.layer i .downProj)).colBlock part.intermediateSize r, none⟩ :=
    RowParallelLinear.load_eq h.below downShape _ none
  refine ⟨shards, either, ?_⟩
  simp only [Qwen3MLP.load, MergedColumnParallelLinear.foldlM_load, run, Option.map_some, Option.bind_eq_bind,
    Option.bind_some, downRun, layerAfter, RankLayer.withParameters, gateUp, down, Option.getD_some]
  rfl

end Layers

end Loading

end NanoVllm
