import NanoVllm.Model.Registry
import NanoVllm.Shared.Storage

set_option autoImplicit false

namespace NanoVllm

open Python Raising Torch Storage

structure TensorStorage (R : Type) where
  dtype : FloatDtype
  value : Tensor R

/-- A program on the storages of a rank. -/
abbrev OnStorages (R : Type) := EStateM PyError (List (TensorStorage R))

variable {R : Type}

namespace TensorStorage

def get (x : Ref) : OnStorages R (TensorStorage R) := load (.runtimeError "the storage was freed") x

-- `x.to(dtype)`: a tensor that has the dtype is the result itself, any other is rounded into a new one.
def toDtype (round : FloatDtype → R → R) (x : Ref) (dtype : FloatDtype) : OnStorages R Ref := do
  let stored ← get x
  if stored.dtype = dtype then pure x else alloc { dtype, value := stored.value.map (round dtype) }

def clone (x : Ref) : OnStorages R Ref := do
  let stored ← get x
  alloc stored

-- `x.add_(other)`
def addInto [Add R] (x other : Ref) : OnStorages R Unit := do
  let stored ← get x
  let added ← get other
  let value ← ofExcept (ofTensor (stored.value.add added.value))
  store x { stored with value }

-- `x.mul_(..)`, with a factor that may depend on the row.
def mulInto (x : Ref) (scaled : (n : Nat) → (Fin n → R) → Fin n → R) : OnStorages R Unit := do
  let stored ← get x
  store x { stored with value := stored.value.mapRows scaled }

end TensorStorage

structure FlashInferNorm (R : Type) where
  rmsnorm : RMSNorm R → (input : Ref) → OnStorages R Ref
  fusedAddRmsnorm : RMSNorm R → (input residual : Ref) → OnStorages R Unit

namespace RMSNorm

section Native

variable [Mul R]

-- `x * torch.rsqrt(var + self.eps)`
def normalize (self : RMSNorm R) (n : Nat) (x : Fin n → R) (c : Fin n) : R := x c * self.scale n x

def weigh (self : RMSNorm R) (n : Nat) (x : Fin n → R) (c : Fin n) : R := x c * self.weight c

def nativeRms (round : FloatDtype → R → R) (self : RMSNorm R) (x : Ref) : OnStorages R Ref := do
  let origDtype := (← TensorStorage.get x).dtype
  let x ← TensorStorage.toDtype round x .float32
  TensorStorage.mulInto x self.normalize
  let x ← TensorStorage.toDtype round x origDtype
  TensorStorage.mulInto x self.weigh
  pure x

def nativeAddRms [Add R] (round : FloatDtype → R → R) (self : RMSNorm R) (x residual : Ref) :
    OnStorages R (Ref × Ref) := do
  let origDtype := (← TensorStorage.get x).dtype
  let x ← TensorStorage.toDtype round x .float32
  let residual ← TensorStorage.toDtype round residual .float32
  TensorStorage.addInto x residual
  let residual ← TensorStorage.toDtype round x origDtype
  TensorStorage.mulInto x self.normalize
  let x ← TensorStorage.toDtype round x origDtype
  TensorStorage.mulInto x self.weigh
  pure (x, residual)

end Native

section FlashInfer

variable (kernels : FlashInferNorm R)

-- The `forward` and `forward_inplace` of `_select_impl`.
def flashInferAddRms (self : RMSNorm R) (x residual : Ref) : OnStorages R (Ref × Ref) := do
  let normalized ← TensorStorage.clone x
  let newResidual ← TensorStorage.clone residual
  kernels.fusedAddRmsnorm self normalized newResidual
  pure (normalized, newResidual)

def flashInferAddRmsInplace (self : RMSNorm R) (x residual : Ref) : OnStorages R (Ref × Ref) := do
  kernels.fusedAddRmsnorm self x residual
  pure (x, residual)

end FlashInfer

/-- `rms_impl`, `add_rms_impl` and `add_rms_inplace_impl`. -/
structure Impl (R : Type) where
  rms : RMSNorm R → Ref → OnStorages R Ref
  addRms : RMSNorm R → Ref → Ref → OnStorages R (Ref × Ref)
  addRmsInplace : RMSNorm R → Ref → Ref → OnStorages R (Ref × Ref)

-- What the providers stand for.
def Providers.impl [Mul R] [Add R] (providers : Providers) (round : FloatDtype → R → R) (kernels : FlashInferNorm R) :
    Impl R :=
  { rms := match providers.rms with
      | .nativeTorch => nativeRms round
      | .flashInfer => kernels.rmsnorm
    addRms := match providers.addRms with
      | .nativeTorch => nativeAddRms round
      | .flashInfer => flashInferAddRms kernels
    addRmsInplace := match providers.addRms with
      | .nativeTorch => nativeAddRms round
      | .flashInfer => flashInferAddRmsInplace kernels }

end RMSNorm

section Forward

variable [Ring R] {width : Nat} {runtime : AttentionRuntime R width} (impl : RMSNorm.Impl R) (silu : R → R) (tpSize : Nat)

namespace Qwen3DecoderLayer

-- The first norm of `forward`.
def enterInPlace (self : Qwen3DecoderLayer R) (hiddenStates : Ref) (residual : Option Ref) : OnStorages R (Ref × Ref) :=
  match residual with
  | none => do
      let normalized ← impl.rms self.inputLayernorm hiddenStates
      pure (normalized, hiddenStates)
  | some residual => impl.addRmsInplace self.inputLayernorm hiddenStates residual

-- `self_attn` and `mlp` read their argument and return a tensor of their own.
def forwardInPlace (self : Qwen3DecoderLayer R) (context : AttentionContext runtime) (positions : List Nat)
    (hiddenStates : Ref) (residual : Option Ref) (caches : LayerCaches R) :
    OnStorages R (Ref × Ref × LayerCaches R) := do
  let (hiddenStates, residual) ← self.enterInPlace impl hiddenStates residual
  let normalized ← TensorStorage.get hiddenStates
  let (output, caches) ← ofExcept (self.attention tpSize context positions normalized.value caches)
  let hiddenStates ← alloc { normalized with value := output }
  let (hiddenStates, residual) ← impl.addRmsInplace self.postAttentionLayernorm hiddenStates residual
  let normalized ← TensorStorage.get hiddenStates
  let output ← ofExcept (ofTensor (Qwen3MLP.forward silu tpSize self.mlp normalized.value))
  let hiddenStates ← alloc { normalized with value := output }
  pure (hiddenStates, residual, caches)

end Qwen3DecoderLayer

namespace Qwen3Model

def forwardLayersInPlace (context : AttentionContext runtime) (positions : List Nat) :
    List (Qwen3DecoderLayer R × LayerCaches R) → Ref → Option Ref →
      OnStorages R (Ref × Option Ref × List (LayerCaches R))
  | [], hiddenStates, residual => pure (hiddenStates, residual, [])
  | (layer, caches) :: rest, hiddenStates, residual => do
      let (hiddenStates, residual, caches) ←
        layer.forwardInPlace impl silu tpSize context positions hiddenStates residual caches
      let (hiddenStates, residual, later) ← forwardLayersInPlace context positions rest hiddenStates (some residual)
      pure (hiddenStates, residual, caches :: later)

def forwardInPlace (self : Qwen3Model R) (dtype : FloatDtype) (context : AttentionContext runtime) (inputIds : List Token)
    (positions : List Nat) (caches : List (LayerCaches R)) : OnStorages R (Ref × List (LayerCaches R)) := do
  let embedded ← ofExcept (ofTensor (VocabParallelEmbedding.forward tpSize self.embedTokens inputIds))
  let hiddenStates ← alloc ⟨dtype, embedded⟩
  let (hiddenStates, residual, caches) ←
    forwardLayersInPlace impl silu tpSize context positions (self.layers.zip caches) hiddenStates none
  match residual with
  -- There are no layers.
  | none => throw (.typeError "'NoneType' object has no attribute 'float'")
  | some residual => do
      let (hiddenStates, _) ← impl.addRmsInplace self.norm hiddenStates residual
      pure (hiddenStates, caches)

end Qwen3Model

-- `run_model` with the hidden states of each rank in storages, for a model of the given dtype.
def ModelRunner.runModelInPlace (self : Qwen3ForCausalLM R) (dtype : FloatDtype) (runtime : AttentionRuntime R width)
    (input : ModelRunner.ModelInput) (caches : List (LayerCaches R)) :
    OnStorages R (Option (Tensor R) × List (LayerCaches R)) := do
  let plan ← ofExcept (runtime.backend.buildPlan input.attentionMetadata)
  let (hiddenStates, caches) ← self.model.forwardInPlace impl silu tpSize dtype ⟨input.attentionMetadata, plan⟩
    input.inputIds input.positions caches
  let hidden ← TensorStorage.get hiddenStates
  let logits ← ofExcept (ofTensor (ParallelLMHead.forward tpSize self.lmHead (some input.queryStartLoc)
    input.seqNeedComputeLogits hidden.value 0))
  pure (logits, caches)

end Forward

end NanoVllm
