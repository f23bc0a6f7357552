import Mathlib
import NanoVllm.Model.Loader

set_option autoImplicit false

namespace NanoVllm

open Python Torch

inductive LayerTensor where
  | proj (shard : QKVShard)
  | projBias (shard : QKVShard)
  | oProj
  | qNorm
  | kNorm
  | gateProj
  | upProj
  | downProj
  | inputLayernorm
  | postAttentionLayernorm
  deriving DecidableEq

inductive CheckpointTensor where
  | embedTokens
  | layer (index : Nat) (tensor : LayerTensor)
  | norm
  | lmHead
  deriving DecidableEq

namespace LayerTensor

def path : LayerTensor → List String
  | .proj .q => ["self_attn", "q_proj", "weight"]
  | .proj .k => ["self_attn", "k_proj", "weight"]
  | .proj .v => ["self_attn", "v_proj", "weight"]
  | .projBias .q => ["self_attn", "q_proj", "bias"]
  | .projBias .k => ["self_attn", "k_proj", "bias"]
  | .projBias .v => ["self_attn", "v_proj", "bias"]
  | .oProj => ["self_attn", "o_proj", "weight"]
  | .qNorm => ["self_attn", "q_norm", "weight"]
  | .kNorm => ["self_attn", "k_norm", "weight"]
  | .gateProj => ["mlp", "gate_proj", "weight"]
  | .upProj => ["mlp", "up_proj", "weight"]
  | .downProj => ["mlp", "down_proj", "weight"]
  | .inputLayernorm => ["input_layernorm", "weight"]
  | .postAttentionLayernorm => ["post_attention_layernorm", "weight"]

-- The parameter that gets the tensor, and the shard that it is.
def parameter : LayerTensor → LayerParameter
  | .proj _ => .qkvProj
  | .projBias _ => .qkvBias
  | .oProj => .oProj
  | .qNorm => .qNorm
  | .kNorm => .kNorm
  | .gateProj | .upProj => .gateUpProj
  | .downProj => .downProj
  | .inputLayernorm => .inputLayernorm
  | .postAttentionLayernorm => .postAttentionLayernorm

def shardId : LayerTensor → Option ShardId
  | .proj shard | .projBias shard => some (.qkv shard)
  | .gateProj => some (.merged 0)
  | .upProj => some (.merged 1)
  | _ => none

end LayerTensor

def dotted (atoms : List String) : Str := ['.'].intercalate (atoms.map String.toList)

namespace CheckpointTensor

def path : CheckpointTensor → List String
  | .embedTokens => ["model", "embed_tokens", "weight"]
  | .layer index tensor => "model" :: "layers" :: toString index :: tensor.path
  | .norm => ["model", "norm", "weight"]
  | .lmHead => ["lm_head", "weight"]

def name (tensor : CheckpointTensor) : Str := dotted tensor.path

def parameter : CheckpointTensor → Parameter
  | .embedTokens => .embedTokens
  | .layer index tensor => .layer index tensor.parameter
  | .norm => .norm
  | .lmHead => .lmHead

def shardId : CheckpointTensor → Option ShardId
  | .layer _ tensor => tensor.shardId
  | _ => none

end CheckpointTensor

section Atoms

variable {k : Str} {atoms : List String} {i : Nat}

theorem isDigit_index {c : Char} (listed : c ∈ (toString i).toList) : c.isDigit = true :=
  Nat.isDigit_of_mem_toDigits (by decide) (by decide) (Nat.toList_repr ▸ listed)

theorem not_infix_index (underscore : '_' ∈ k) : ¬k <:+: (toString i).toList := by
  intro found
  have digit := isDigit_index (found.subset underscore)
  revert digit
  decide

theorem dot_not_mem_index : '.' ∉ (toString i).toList := by
  intro listed
  have digit := isDigit_index listed
  revert digit
  decide

theorem splitOn_dotted (plain : ∀ atom ∈ atoms, '.' ∉ atom.toList) (some' : atoms ≠ []) :
    ((dotted atoms).splitOn '.').map String.ofList = atoms := by
  rw [dotted, List.splitOn_intercalate '.' (List.forall_mem_map.mpr plain) (by simpa using some'), List.map_map]
  exact (List.map_congr_left (fun _ _ => String.ofList_toList)).trans (List.map_id _)

theorem find?_index {n : Nat} (below : i < n) :
    (List.range n).find? (fun j => toString j = toString i) = some i := by
  rw [List.find?_range_eq_some]
  refine ⟨by simp, List.mem_range.mpr below, fun j before => ?_⟩
  have other : toString j ≠ toString i := fun same => before.ne (Nat.repr_injective same)
  simpa using other

end Atoms

section Packed

open RankModel

theorem packed_keys : ∀ packed ∈ packedModulesMapping,
    '.' ∉ packed.1.toList ∧ packed.1.toList ≠ [] ∧ '_' ∈ packed.1.toList := by decide +kernel

theorem not_infix_layers : ∀ packed ∈ packedModulesMapping,
    ¬packed.1.toList <:+: "model".toList ∧ ¬packed.1.toList <:+: "layers".toList := by decide +kernel

theorem infix_layer_name {packed : String × String × ShardId} (listed : packed ∈ packedModulesMapping) (i : Nat)
    (tensor : LayerTensor) : packed.1.toList <:+: (CheckpointTensor.layer i tensor).name ↔
      ∃ atom ∈ tensor.path, packed.1.toList <:+: atom.toList := by
  obtain ⟨plain, some', underscore⟩ := packed_keys packed listed
  rw [CheckpointTensor.name, dotted, infix_joined plain some']
  simp only [CheckpointTensor.path, List.map_cons, List.mem_cons, List.mem_map, exists_eq_or_imp,
    (not_infix_layers packed listed).1, (not_infix_layers packed listed).2, not_infix_index underscore, false_or]
  constructor
  · rintro ⟨_, ⟨atom, listed, rfl⟩, found⟩
    exact ⟨atom, listed, found⟩
  · rintro ⟨atom, listed, found⟩
    exact ⟨_, ⟨atom, listed, rfl⟩, found⟩

def LayerTensor.packed (tensor : LayerTensor) : Option (String × String × ShardId) :=
  packedModulesMapping.find? (fun packed => ∃ atom ∈ tensor.path, packed.1.toList <:+: atom.toList)

theorem find?_layer_name (i : Nat) (tensor : LayerTensor) :
    packedModulesMapping.find? (fun packed => packed.1.toList <:+: (CheckpointTensor.layer i tensor).name) =
      tensor.packed :=
  List.find?_congr (fun _ listed => decide_eq_decide.mpr (infix_layer_name listed i tensor))

def LayerTensor.stored (tensor : LayerTensor) : List String :=
  match tensor.packed with
  | some (k, v, _) => tensor.path.map (fun atom => String.ofList (replace k.toList v.toList atom.toList))
  | none => tensor.path

theorem LayerTensor.stored_plain (tensor : LayerTensor) : ∀ atom ∈ tensor.stored, '.' ∉ atom.toList := by
  rcases tensor with (_ | _ | _) | (_ | _ | _) | _ | _ | _ | _ | _ | _ | _ | _
  all_goals decide +kernel

theorem LayerTensor.packed_shard (tensor : LayerTensor) :
    tensor.packed.map (fun packed => packed.2.2) = tensor.shardId := by
  rcases tensor with (_ | _ | _) | (_ | _ | _) | _ | _ | _ | _ | _ | _ | _ | _
  all_goals decide +kernel

theorem LayerTensor.getParameter_stored {R : Type} {layer : RankLayer R} (tensor : LayerTensor)
    (has : (layer.parameters tensor.parameter).isSome = true) :
    layer.getParameter tensor.stored = some tensor.parameter := by
  rcases tensor with (_ | _ | _) | (_ | _ | _) | _ | _ | _ | _ | _ | _ | _ | _
  all_goals exact (if_pos has : (if _ = true then some _ else none) = some _)

theorem replace_dotted {k v : Str} {atoms : List String} (plain : '.' ∉ k) (some' : k ≠ []) :
    replace k v (dotted atoms) = dotted (atoms.map (fun atom => String.ofList (replace k v atom.toList))) := by
  rw [dotted, dotted, replace_joined plain some', List.map_map, List.map_map]
  refine congrArg _ (List.map_congr_left (fun atom _ => ?_))
  exact String.toList_ofList.symm

variable {R : Type} {model : RankModel R}

theorem getParameter_layer {i : Nat} {atoms : List String} {layer : RankLayer R} (entry : model.layers[i]? = some layer)
    (plain : ∀ atom ∈ atoms, '.' ∉ atom.toList) {parameter : LayerParameter}
    (found : layer.getParameter atoms = some parameter) :
    model.getParameter (dotted ("model" :: "layers" :: toString i :: atoms)) = some (.layer i parameter) := by
  have all : ∀ atom ∈ "model" :: "layers" :: toString i :: atoms, '.' ∉ atom.toList := by
    simp only [List.forall_mem_cons]
    exact ⟨by decide, by decide, dot_not_mem_index, plain⟩
  rw [getParameter, splitOn_dotted all (by simp)]
  simp only [find?_index (List.getElem?_eq_some_iff.mp entry).1, Option.bind_eq_bind, Option.bind_some, entry, found]
  rfl

theorem resolve_layer {i : Nat} {layer : RankLayer R} (entry : model.layers[i]? = some layer) (tensor : LayerTensor)
    (has : (layer.parameters tensor.parameter).isSome = true) :
    model.resolve (CheckpointTensor.layer i tensor).name = some (.layer i tensor.parameter, tensor.shardId) := by
  have lookup : model.getParameter (dotted ("model" :: "layers" :: toString i :: tensor.stored)) =
      some (.layer i tensor.parameter) :=
    getParameter_layer entry tensor.stored_plain (tensor.getParameter_stored has)
  have shard := tensor.packed_shard
  rw [LayerTensor.stored] at lookup
  rw [resolve, find?_layer_name]
  cases packed : tensor.packed with
  | none =>
      simp only [packed] at lookup shard
      rw [← shard, CheckpointTensor.name, CheckpointTensor.path]
      simp only [lookup]
      rfl
  | some found =>
      obtain ⟨k, v, shardId⟩ := found
      simp only [packed] at lookup shard
      have listed : (k, v, shardId) ∈ packedModulesMapping := List.mem_of_find?_eq_some packed
      obtain ⟨plain, some', underscore⟩ := packed_keys _ listed
      obtain ⟨outside, outside'⟩ := not_infix_layers _ listed
      simp only [CheckpointTensor.name, CheckpointTensor.path, replace_dotted plain some', List.map_cons,
        replace_of_not_infix outside, replace_of_not_infix outside', replace_of_not_infix (not_infix_index underscore),
        String.ofList_toList, lookup, ← shard]
      rfl

theorem resolve_whole (model : RankModel R) {tensor : CheckpointTensor}
    (whole : tensor ∈ [CheckpointTensor.embedTokens, .norm, .lmHead]) :
    model.resolve tensor.name = some (tensor.parameter, none) := by
  have names : ∀ tensor ∈ [CheckpointTensor.embedTokens, .norm, .lmHead],
      packedModulesMapping.find? (fun packed => packed.1.toList <:+: tensor.name) = none ∧
        (∀ atom ∈ tensor.path, '.' ∉ atom.toList) ∧ tensor.path ≠ [] := by decide +kernel
  obtain ⟨unpacked, plain, some'⟩ := names tensor whole
  rw [resolve, unpacked, CheckpointTensor.name]
  simp only [getParameter, splitOn_dotted plain some']
  rcases whole with _ | ⟨_, _ | ⟨_, _ | ⟨_, ⟨⟩⟩⟩⟩
  all_goals rfl

end Packed

end NanoVllm
