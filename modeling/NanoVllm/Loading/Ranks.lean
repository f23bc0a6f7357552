import NanoVllm.Loading.Checkpoint

set_option autoImplicit false

namespace NanoVllm

open Raising Torch Cells

variable {R : Type} {tpSize r : Nat} {part : ModelShape} {config : Qwen3Config} {savedHead : Bool}
  {tensors : CheckpointTensor → Tensor R} {files : List (List (Str × Tensor R))}

structure Qwen3Config.Supported (config : Qwen3Config) : Prop where
  silu : config.hiddenAct = "silu"
  ropeType : ∀ scaling ∈ config.ropeScaling, scaling.kind = "default"
  ropeTheta : ∃ base, (config.ropeScaling.bind RopeScaling.ropeTheta).getD config.ropeTheta = some base

theorem Qwen3Config.Supported.getRope_ok (supported : config.Supported) :
    ∃ base, getRope config.ropeTheta config.ropeScaling = .ok base := by
  obtain ⟨base, theta⟩ := supported.ropeTheta
  refine ⟨base, ?_⟩
  unfold getRope
  cases scaled : config.ropeScaling with
  | none =>
      rw [scaled] at theta
      rw [show config.ropeTheta = some base from theta]
      rfl
  | some scaling =>
      rw [scaled] at theta
      dsimp only
      rw [require_of (supported.ropeType scaling scaled), show scaling.ropeTheta.getD config.ropeTheta = some base
        from theta]
      rfl

section Created

variable [One R]

-- A layer and a model of one rank after `__init__`.
def RankLayer.created (r tpSize : Nat) (part : ModelShape) (selfAttn mlp : Nat → Nat → R) : RankLayer R :=
  { selfAttn := .created r tpSize part.heads part.hiddenSize part.qkvBias selfAttn
    qNorm := if part.qkvBias then none else some (normWeight part.heads.headSize)
    kNorm := if part.qkvBias then none else some (normWeight part.heads.headSize)
    mlp := .onRank r tpSize part.intermediateSize part.hiddenSize mlp ⟨part.hiddenSize, part.intermediateSize, mlp⟩
    inputLayernorm := normWeight part.hiddenSize
    postAttentionLayernorm := normWeight part.hiddenSize }

def RankModel.created (r tpSize : Nat) (part : ModelShape) (config : Qwen3Config) (memory : EmptyMemory R) :
    RankModel R :=
  { embedTokens := .onRank r tpSize part.vocabSize ⟨part.vocabSize, part.hiddenSize, memory.embedTokens⟩
    layers := (List.range config.numHiddenLayers).map (fun i =>
      .created r tpSize part (memory.selfAttn i) (memory.mlp i))
    norm := normWeight part.hiddenSize
    lmHead := .onRank r tpSize part.vocabSize ⟨part.vocabSize, part.hiddenSize,
      if config.tieWordEmbeddings then memory.embedTokens else memory.lmHead⟩
    tieWordEmbeddings := config.tieWordEmbeddings }

theorem RankLayer.init_eq (supported : config.Supported) (sharded : config.shape = part.times tpSize)
    (positive : 0 < tpSize)
    (kv_pos : 0 < part.heads.numKvHeads) (selfAttn mlp : Nat → Nat → R) :
    RankLayer.init r tpSize config selfAttn mlp = some (.created r tpSize part selfAttn mlp) := by
  have hidden : config.hiddenSize = part.hiddenSize := congrArg ModelShape.hiddenSize sharded
  have inter : config.intermediateSize = tpSize * part.intermediateSize := congrArg ModelShape.intermediateSize sharded
  have heads : config.numAttentionHeads = tpSize * part.heads.numHeads := congrArg (fun s => s.heads.numHeads) sharded
  have kvHeads : config.numKeyValueHeads = tpSize * part.heads.numKvHeads :=
    congrArg (fun s => s.heads.numKvHeads) sharded
  have bias : config.attentionBias = part.qkvBias := congrArg ModelShape.qkvBias sharded
  have dim : Qwen3Attention.headDimOf config.hiddenSize config.numAttentionHeads config.headDim = part.heads.headSize :=
    congrArg (fun s => s.heads.headSize) sharded
  obtain ⟨base, rope⟩ := supported.getRope_ok
  rw [hidden, heads] at dim
  rw [RankLayer.init, hidden, inter, heads, kvHeads, bias, Qwen3Attention.init_eq positive part.heads kv_pos selfAttn dim,
    Qwen3MLP.init_eq positive, rope, supported.silu]
  rfl

theorem RankModel.init_eq (supported : config.Supported) (sharded : config.shape = part.times tpSize)
    (positive : 0 < tpSize)
    (kv_pos : 0 < part.heads.numKvHeads) (memory : EmptyMemory R) :
    RankModel.init r tpSize config memory = some (.created r tpSize part config memory) := by
  have hidden : config.hiddenSize = part.hiddenSize := congrArg ModelShape.hiddenSize sharded
  have vocab : config.vocabSize = tpSize * part.vocabSize := congrArg ModelShape.vocabSize sharded
  have layers : (List.range config.numHiddenLayers).mapM (fun i =>
      RankLayer.init r tpSize config (memory.selfAttn i) (memory.mlp i)) =
        some ((List.range config.numHiddenLayers).map (fun i =>
          .created r tpSize part (memory.selfAttn i) (memory.mlp i))) :=
    mapM_some (fun i _ => RankLayer.init_eq supported sharded positive kv_pos (memory.selfAttn i) (memory.mlp i))
  rw [RankModel.init, hidden, vocab, VocabParallelEmbedding.init_eq positive, VocabParallelEmbedding.init_eq positive,
    layers]
  simp only [Option.bind_eq_bind, Option.bind_some, RankModel.created]
  cases config.tieWordEmbeddings <;> rfl

end Created

namespace RankModel

-- The storage that a tensor of a checkpoint is loaded to, and what loading it makes of the storage.
def target (self : RankModel R) (t : CheckpointTensor) : Parameter := self.storage t.parameter

def load (self : RankModel R) (tensors : CheckpointTensor → Tensor R) (t : CheckpointTensor) (param : Tensor R) :
    Option (Tensor R) :=
  self.weightLoader t.parameter param (tensors t) t.shardId

variable {model : RankModel R} {order : List CheckpointTensor} {i : Nat} {layer : RankLayer R}

theorem load_layer (entry : model.layers[i]? = some layer) (t : LayerTensor) (param : Tensor R) :
    model.load tensors (.layer i t) param =
      layer.weightLoader t.parameter param (tensors (.layer i t)) t.shardId := by
  simp only [load, weightLoader, CheckpointTensor.parameter, entry, Option.bind_eq_bind, Option.bind_some]
  rfl

def loaded (model : RankModel R) (tensors : CheckpointTensor → Tensor R) (order : List CheckpointTensor) (k : Parameter) :
    Option (Tensor R) :=
  (model.parameters k).bind (own model.target (model.load tensors) order k)

theorem loadModel_eq (listed : files.flatten = order.map (fun t => (t.name, tensors t)))
    (resolved : ∀ t ∈ order, model.resolve t.name = some (t.parameter, t.shardId))
    (present : ∀ t ∈ order, (model.parameters (model.target t)).isSome = true)
    (each : ∀ k, ∀ param ∈ model.parameters k, (own model.target (model.load tensors) order k param).isSome = true) :
    loadModel model files = some (model.withParameters (model.loaded tensors order)) := by
  have turns : ∀ t ∈ order, ∀ data, model.loadTensor data (t.name, tensors t) =
      turn model.target (model.load tensors) data t := by
    intro t member data
    simp only [loadTensor, resolved t member, Option.bind_eq_bind, Option.bind_some]
    rfl
  rw [loadModel, foldlM_flatten, listed, List.foldlM_map, foldlM_congr turns, foldlM_turn present each]
  rfl

theorem own_overwritten {k : Parameter} {rows cols : Nat} {value : Tensor R}
    (perm : (order.filter (fun t => model.target t = k)).Perm (config.owners savedHead k))
    (some' : config.owners savedHead k ≠ [])
    (loads : ∀ t ∈ config.owners savedHead k, ∀ param : Tensor R, param.HasShape rows cols →
      model.load tensors t param = some value) (shape : value.HasShape rows cols) {param : Tensor R}
    (shape' : param.HasShape rows cols) : own model.target (model.load tensors) order k param = some value := by
  have all : ∀ t ∈ order.filter (fun t => model.target t = k), ∀ param : Tensor R, param.HasShape rows cols →
      model.load tensors t param = some value := fun t listed => loads t (perm.mem_iff.mp listed)
  have some' : order.filter (fun t => model.target t = k) ≠ [] := fun none => some' (none ▸ perm).symm.eq_nil
  unfold own
  generalize order.filter (fun t => model.target t = k) = ts at all some'
  induction ts generalizing param with
  | nil => exact absurd rfl some'
  | cons t rest ih =>
      rw [List.foldlM_cons, all t (List.mem_cons_self ..) param shape', Option.bind_eq_bind, Option.bind_some]
      cases rest with
      | nil => rfl
      | cons next rest => exact ih shape (fun t' later => all t' (List.mem_cons_of_mem t later)) (List.cons_ne_nil _ _)

theorem own_packed {ι : Type} {k : Parameter} {shards : List ι} {tensorOf : ι → LayerTensor}
    (entry : model.layers[i]? = some layer)
    (perm : (order.filter (fun t => model.target t = k)).Perm (config.owners savedHead k))
    (owners : config.owners savedHead k = shards.map (fun s => .layer i (tensorOf s))) :
    ∃ found : List (ι × Tensor R), found.Perm (shards.map (fun s => (s, tensors (.layer i (tensorOf s))))) ∧
      ∀ param, own model.target (model.load tensors) order k param = found.foldlM (fun param s =>
        layer.weightLoader (tensorOf s.1).parameter param s.2 (tensorOf s.1).shardId) param := by
  rw [owners] at perm
  obtain ⟨found, perm', same⟩ := exists_order perm
  refine ⟨found.map (fun s => (s, tensors (.layer i (tensorOf s)))), perm'.map _, fun param => ?_⟩
  rw [own, same, List.foldlM_map, List.foldlM_map]
  exact foldlM_congr (fun s _ param => load_layer entry (tensorOf s) param)

end RankModel

section Loaders

variable {rows cols size : Nat} {param weight weight' : Tensor R}

theorem VocabParallelEmbedding.weightLoader_eq (below : r < tpSize) (shape : weight.HasShape (tpSize * size) cols)
    (shape' : param.HasShape size cols) :
    (onRank r tpSize size weight').weightLoader param weight = some (weight.rowBlock size r) := by
  obtain ⟨whole, rfl⟩ := shape
  obtain ⟨rfl, width⟩ := shape'
  simp only [weightLoader, onRank, Tensor.narrowRows_block whole below, Option.bind_eq_bind, Option.bind_some,
    Tensor.copy, Tensor.rowBlock, width, and_self, if_true]

theorem RowParallelLinear.weightLoader_eq (below : r < tpSize) (shape : weight.HasShape rows (tpSize * size))
    (shape' : param.HasShape rows size) (bias : Option (Tensor R)) :
    weightLoader ⟨r, tpSize, weight', bias⟩ param weight = some (weight.colBlock size r) := by
  obtain ⟨rfl, whole⟩ := shape
  obtain ⟨height, rfl⟩ := shape'
  simp only [weightLoader, Tensor.narrowCols_block whole below, Option.bind_eq_bind, Option.bind_some, Tensor.copy,
    Tensor.colBlock, height, and_self, if_true]

theorem copy_eq (shape : weight.HasShape rows cols) (shape' : param.HasShape rows cols) : param.copy weight = some
    weight := by
  obtain ⟨rfl, rfl⟩ := shape
  obtain ⟨height, width⟩ := shape'
  simp only [Tensor.copy, height, width, and_self, if_true]

theorem MergedColumnParallelLinear.foldlM_load (self : MergedColumnParallelLinear R) (shards : List (Nat × Tensor R)) :
    shards.foldlM load self = (shards.foldlM (fun param s => self.weightLoader param s.2 s.1) self.weight).map
      (fun weight => { self with weight }) := by
  induction shards generalizing self with
  | nil => rfl
  | cons s rest ih =>
      rw [List.foldlM_cons, List.foldlM_cons, load]
      cases self.weightLoader self.weight s.2 s.1 with
      | none => rfl
      | some param => exact ih { self with weight := param }

end Loaders

/-- A rank that loads a checkpoint, whose tensors come in the given order. -/
structure Loading (r tpSize : Nat) (part : ModelShape) (config : Qwen3Config) (savedHead : Bool)
    (tensors : CheckpointTensor → Tensor R) (order : List CheckpointTensor) : Prop where
  below : r < tpSize
  sharded : config.shape = part.times tpSize
  perm : order.Perm (config.tensors savedHead)
  shapes : ∀ t ∈ config.tensors savedHead, (tensors t).HasShape (t.size config.shape).1 (t.size config.shape).2
  tied : config.tieWordEmbeddings = true → savedHead = true → tensors .lmHead = tensors .embedTokens

namespace Loading

open RankModel

variable {order : List CheckpointTensor} {memory : EmptyMemory R} {i : Nat}

theorem layer_shape (h : Loading r tpSize part config savedHead tensors order) (within : i < config.numHiddenLayers)
    {t : LayerTensor} (listed : t ∈ layerTensors part.qkvBias) :
    (tensors (.layer i t)).HasShape (t.size (part.times tpSize)).1 (t.size (part.times tpSize)).2 := by
  have bias : config.attentionBias = part.qkvBias := congrArg ModelShape.qkvBias h.sharded
  rw [← h.sharded]
  exact h.shapes (.layer i t) (mem_tensors.mpr ⟨within, bias ▸ listed⟩)

theorem vocab_shape (h : Loading r tpSize part config savedHead tensors order) {t : CheckpointTensor}
    (listed : t ∈ config.tensors savedHead) (vocab : t = .embedTokens ∨ t = .lmHead) :
    (tensors t).HasShape (tpSize * part.vocabSize) part.hiddenSize := by
  have shape := h.shapes t listed
  rw [h.sharded] at shape
  rcases vocab with rfl | rfl
  all_goals exact shape

variable [One R]

theorem owned (h : Loading r tpSize part config savedHead tensors order) (k : Parameter) :
    (order.filter (fun t => (RankModel.created r tpSize part config memory).target t = k)).Perm
      (config.owners savedHead k) :=
  @filter_owners _ config savedHead (.created r tpSize part config memory) rfl order h.perm k

theorem layer_entry (r tpSize : Nat) (part : ModelShape) (memory : EmptyMemory R) (within : i < config.numHiddenLayers) :
    (RankModel.created r tpSize part config memory).layers[i]? =
      some (.created r tpSize part (memory.selfAttn i) (memory.mlp i)) := by
  simp [RankModel.created, within]

-- What the loads of a checkpoint make of a storage on the rank.
def owns (r tpSize : Nat) (part : ModelShape) (config : Qwen3Config) (memory : EmptyMemory R)
    (tensors : CheckpointTensor → Tensor R) (order : List CheckpointTensor) (k : Parameter) (param : Tensor R) :
    Option (Tensor R) :=
  own (RankModel.created r tpSize part config memory).target
    ((RankModel.created r tpSize part config memory).load tensors) order k param

theorem owns_embed (h : Loading r tpSize part config savedHead tensors order) {param : Tensor R}
    (shape : param.HasShape part.vocabSize part.hiddenSize) :
    owns r tpSize part config memory tensors order .embedTokens param =
      some ((tensors .embedTokens).rowBlock part.vocabSize r) := by
  have whole := h.vocab_shape (mem_tensors.mpr trivial) (Or.inl rfl)
  have block : ((tensors .embedTokens).rowBlock part.vocabSize r).HasShape part.vocabSize part.hiddenSize :=
    ⟨rfl, whole.2⟩
  have first : CheckpointTensor.embedTokens ∈ config.owners savedHead .embedTokens :=
    mem_owners_embed.mpr (Or.inl rfl)
  refine own_overwritten (h.owned _) (List.ne_nil_of_mem first) (fun t listed param shape => ?_) block shape
  rcases mem_owners_embed.mp listed with rfl | ⟨rfl, tied, saved⟩
  · exact VocabParallelEmbedding.weightLoader_eq h.below whole shape
  · rw [RankModel.load, h.tied tied saved]
    exact VocabParallelEmbedding.weightLoader_eq h.below whole shape

theorem owns_head (h : Loading r tpSize part config savedHead tensors order) (untied : config.tieWordEmbeddings = false)
    {param : Tensor R} (shape : param.HasShape part.vocabSize part.hiddenSize) :
    owns r tpSize part config memory tensors order .lmHead param =
      some ((tensors .lmHead).rowBlock part.vocabSize r) := by
  have whole := h.vocab_shape (mem_tensors.mpr (fun tied => absurd tied (by simp [untied]))) (Or.inr rfl)
  have owners : config.owners savedHead .lmHead = [.lmHead] := by simp [Qwen3Config.owners, untied]
  have block : ((tensors .lmHead).rowBlock part.vocabSize r).HasShape part.vocabSize part.hiddenSize := ⟨rfl, whole.2⟩
  refine own_overwritten (h.owned _) (by simp [owners]) (fun t listed param shape => ?_) block shape
  obtain rfl := List.mem_singleton.mp (owners ▸ listed)
  exact VocabParallelEmbedding.weightLoader_eq h.below whole shape

theorem owns_norm (h : Loading r tpSize part config savedHead tensors order) {param : Tensor R}
    (shape : param.HasShape part.hiddenSize 1) :
    owns r tpSize part config memory tensors order .norm param = some (tensors .norm) := by
  have whole : (tensors .norm).HasShape part.hiddenSize 1 := by
    have shape := h.shapes .norm (mem_tensors.mpr trivial)
    rwa [h.sharded] at shape
  refine own_overwritten (h.owned _) (by simp [Qwen3Config.owners]) (fun t listed param shape => ?_) whole shape
  obtain rfl := List.mem_singleton.mp listed
  exact copy_eq whole shape

omit [One R] in
theorem layer_owners (h : Loading r tpSize part config savedHead tensors order) (within : i < config.numHiddenLayers)
    {p : LayerParameter} {ts : List LayerTensor}
    (found : (layerTensors part.qkvBias).filter (fun t => t.parameter = p) = ts) :
    config.owners savedHead (.layer i p) = ts.map (.layer i) := by
  have bias : config.attentionBias = part.qkvBias := congrArg ModelShape.qkvBias h.sharded
  rw [Qwen3Config.owners, if_pos within, bias, found]

theorem owns_whole (h : Loading r tpSize part config savedHead tensors order) (within : i < config.numHiddenLayers)
    {t : LayerTensor} (alone : (layerTensors part.qkvBias).filter (fun t' => t'.parameter = t.parameter) = [t])
    {rows cols : Nat} {value : Tensor R} (block : value.HasShape rows cols)
    (loads : ∀ param : Tensor R, param.HasShape rows cols →
      (RankLayer.created r tpSize part (memory.selfAttn i) (memory.mlp i)).weightLoader t.parameter param
        (tensors (.layer i t)) t.shardId = some value) {param : Tensor R} (shape : param.HasShape rows cols) :
    owns r tpSize part config memory tensors order (.layer i t.parameter) param = some value := by
  have owners := h.layer_owners within alone
  refine own_overwritten (h.owned _) (by simp [owners]) (fun t' listed param shape => ?_) block shape
  obtain rfl := List.mem_singleton.mp (owners ▸ listed)
  rw [load_layer (layer_entry r tpSize part memory within)]
  exact loads param shape

theorem owns_o (h : Loading r tpSize part config savedHead tensors order) (within : i < config.numHiddenLayers)
    {param : Tensor R} (shape : param.HasShape part.hiddenSize (part.heads.size .q)) :
    owns r tpSize part config memory tensors order (.layer i .oProj) param =
      some ((tensors (.layer i .oProj)).colBlock (part.heads.size .q) r) := by
  have size : (part.times tpSize).heads.size .q = tpSize * part.heads.size .q := HeadShape.size_mul .q
  have whole := h.layer_shape within ((mem_layerTensors .oProj).mpr trivial)
  rw [LayerTensor.size, size] at whole
  have alone : (layerTensors part.qkvBias).filter (fun t => t.parameter = LayerTensor.oProj.parameter) = [.oProj] := by
    cases part.qkvBias <;> rfl
  have block : ((tensors (.layer i .oProj)).colBlock (part.heads.size .q) r).HasShape part.hiddenSize
    (part.heads.size .q) := ⟨whole.1, rfl⟩
  exact h.owns_whole within alone block
    (fun _ shape => RowParallelLinear.weightLoader_eq h.below whole shape none) shape

theorem owns_down (h : Loading r tpSize part config savedHead tensors order) (within : i < config.numHiddenLayers)
    {param : Tensor R} (shape : param.HasShape part.hiddenSize part.intermediateSize) :
    owns r tpSize part config memory tensors order (.layer i .downProj) param =
      some ((tensors (.layer i .downProj)).colBlock part.intermediateSize r) := by
  have whole := h.layer_shape within ((mem_layerTensors .downProj).mpr trivial)
  have alone : (layerTensors part.qkvBias).filter (fun t => t.parameter = LayerTensor.downProj.parameter) =
      [.downProj] := by cases part.qkvBias <;> rfl
  have block : ((tensors (.layer i .downProj)).colBlock part.intermediateSize r).HasShape part.hiddenSize
    part.intermediateSize := ⟨whole.1, rfl⟩
  exact h.owns_whole within alone block
    (fun _ shape => RowParallelLinear.weightLoader_eq h.below whole shape none) shape

-- The tensors that `default_weight_loader` copies.
def copied (t : LayerTensor) : Prop :=
  t = .qNorm ∨ t = .kNorm ∨ t = .inputLayernorm ∨ t = .postAttentionLayernorm

theorem owns_copied (h : Loading r tpSize part config savedHead tensors order) (within : i < config.numHiddenLayers)
    {t : LayerTensor} (copied : copied t) (listed : t ∈ layerTensors part.qkvBias) {param : Tensor R}
    (shape : param.HasShape (t.size part).1 1) :
    owns r tpSize part config memory tensors order (.layer i t.parameter) param = some (tensors (.layer i t)) := by
  have whole := h.layer_shape within listed
  have alone : (layerTensors part.qkvBias).filter (fun t' => t'.parameter = t.parameter) = [t] := by
    rw [mem_layerTensors] at listed
    rcases copied with rfl | rfl | rfl | rfl
    case inr.inr.inl | inr.inr.inr => cases part.qkvBias <;> rfl
    all_goals
      simp only at listed
      rw [listed]
      rfl
  have block : (tensors (.layer i t)).HasShape (t.size part).1 1 := by
    rcases copied with rfl | rfl | rfl | rfl
    all_goals exact whole
  refine h.owns_whole within alone block (fun param shape => ?_) shape
  rcases copied with rfl | rfl | rfl | rfl
  all_goals exact copy_eq block shape

end Loading

end NanoVllm
