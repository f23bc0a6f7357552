import NanoVllm.Model.Loader

set_option autoImplicit false

namespace NanoVllm

open Python Raising Torch

inductive FloatDtype where
  | float16
  | bfloat16
  | float32
  | float64
  deriving DecidableEq, Repr

namespace FloatDtype

def name : FloatDtype → String
  | .float16 => "torch.float16"
  | .bfloat16 => "torch.bfloat16"
  | .float32 => "torch.float32"
  | .float64 => "torch.float64"

-- `dtype in (torch.float16, torch.bfloat16)`
def isHalf (dtype : FloatDtype) : Bool := dtype ∈ [FloatDtype.float16, .bfloat16]

end FloatDtype

structure Machine where
  cudaAvailable : Bool
  -- `_module_is_present`
  flashAttnPresent : Bool
  flashInferPresent : Bool
  flashAttnImport : Option String := none
  -- `FLASHINFER_IMPORT_ERROR` of the operators
  flashInferOps : Option String := none
  flashInferWrappers : Option String := none

namespace Machine

-- `_load_flash_attention`, with the error that it leaves.
def loadFlashAttention (machine : Machine) : Option String :=
  if machine.flashAttnPresent then machine.flashAttnImport else some "Dao FlashAttention is not installed"

-- `_load_flashinfer_attention`
def loadFlashInferAttention (machine : Machine) : Option String :=
  if machine.flashInferPresent then
    match machine.flashInferOps with
    | some error => some ("FlashInfer operator initialization failed: " ++ error)
    | none => machine.flashInferWrappers
  else some "flashinfer-python==0.6.17 is not installed"

end Machine

structure BackendKwargs where
  numQHeads : Nat
  numKvHeads : Nat
  headDim : Nat
  blockSize : Nat
  dtype : FloatDtype
  attentionMode : AttentionMode := .unified
  device : Option DeviceType := none

namespace BackendKwargs

-- `selected_device.type == "cuda" and torch.cuda.is_available()`
def onCuda (kwargs : BackendKwargs) (machine : Machine) : Bool :=
  kwargs.device.getD .cuda = .cuda && machine.cudaAvailable

end BackendKwargs

-- `AttentionBackend.__init__`
def checkHeads (kwargs : BackendKwargs) : Except PyError Unit := do
  require (0 < kwargs.numQHeads ∧ 0 < kwargs.numKvHeads) (PyError.valueError "attention head counts must be positive")
  require (kwargs.numQHeads % kwargs.numKvHeads = 0)
    (PyError.valueError "num_q_heads must be divisible by num_kv_heads")
  require (0 < kwargs.headDim ∧ 0 < kwargs.blockSize) (PyError.valueError "head_dim and block_size must be positive")

namespace FlashAttentionBackend

def supportReason (machine : Machine) (kwargs : BackendKwargs) : Option String :=
  if kwargs.blockSize % 256 ≠ 0 then some "block_size must be divisible by 256"
  else if kwargs.attentionMode ≠ .unified then some "attention_mode='split' requires the FlashInfer backend"
  else if ¬kwargs.dtype.isHalf then some "dtype must be float16 or bfloat16"
  else if ¬kwargs.onCuda machine then some "a CUDA device is required"
  else machine.loadFlashAttention.map (fun error => "Dao FlashAttention is unavailable: " ++ error)

-- The checks of `__init__`.
def init (kwargs : BackendKwargs) : Except PyError Unit := do
  checkHeads kwargs
  require (kwargs.blockSize % 256 = 0)
    (PyError.valueError "Dao FlashAttention paged KV cache requires block_size to be divisible by 256")
  require kwargs.dtype.isHalf (PyError.typeError "Dao FlashAttention supports only float16 and bfloat16")

end FlashAttentionBackend

namespace FlashInferBackend

def supportReason (machine : Machine) (kwargs : BackendKwargs) : Option String :=
  if kwargs.blockSize = 0 then some "block_size must be positive"
  else if ¬kwargs.dtype.isHalf then some "dtype must be float16 or bfloat16"
  else if ¬kwargs.onCuda machine then some "a CUDA device is required"
  else machine.loadFlashInferAttention.map (fun error => "FlashInfer attention is unavailable: " ++ error)

-- The checks of `__init__`, before it makes the wrappers.
def init (machine : Machine) (kwargs : BackendKwargs) : Except PyError Unit := do
  checkHeads kwargs
  require kwargs.dtype.isHalf (PyError.typeError "FlashInfer attention supports only float16 and bfloat16")
  match machine.loadFlashInferAttention with
  | some error => throw (.runtimeError ("FlashInfer attention is unavailable: " ++ error))
  | none => require machine.cudaAvailable (PyError.runtimeError "FlashInfer attention requires a CUDA device")

end FlashInferBackend

inductive BackendName where
  | auto
  | flashattention
  | flashinfer
  | legacy
  deriving DecidableEq, Repr

/-- A backend that `create` made, with the mode that it was given. -/
inductive SelectedBackend where
  | flashAttention
  | flashInfer (attentionMode : AttentionMode)
  deriving DecidableEq, Repr

namespace AttentionBackendRegistry

-- `_support_status` raises nothing here: a backend is supported when it gives no reason.
def createFlashAttention (machine : Machine) (kwargs : BackendKwargs) : Except PyError SelectedBackend :=
  match FlashAttentionBackend.supportReason machine kwargs with
  | some reason => throw (.runtimeError ("flashattention attention backend is unusable: " ++ reason))
  | none => do
      FlashAttentionBackend.init kwargs
      pure .flashAttention

def createFlashInfer (machine : Machine) (kwargs : BackendKwargs) : Except PyError SelectedBackend :=
  match FlashInferBackend.supportReason machine kwargs with
  | some reason => throw (.runtimeError ("flashinfer attention backend is unusable: " ++ reason))
  | none => do
      FlashInferBackend.init machine kwargs
      pure (.flashInfer kwargs.attentionMode)

def createAuto (machine : Machine) (kwargs : BackendKwargs) : Except PyError SelectedBackend :=
  let supportReason := FlashAttentionBackend.supportReason machine kwargs
  let flashattentionReason := if kwargs.blockSize % 256 = 0 then supportReason
    else some (supportReason.getD "block_size policy did not select FlashAttention")
  match flashattentionReason with
  | none => do
      FlashAttentionBackend.init kwargs
      pure .flashAttention
  | some flashattentionReason =>
      match FlashInferBackend.supportReason machine kwargs with
      | none => do
          FlashInferBackend.init machine kwargs
          pure (.flashInfer kwargs.attentionMode)
      | some flashinferReason => throw (.runtimeError ("No usable attention backend. flashattention: " ++
          flashattentionReason ++ "; flashinfer: " ++ flashinferReason))

def create (machine : Machine) (name : BackendName) (kwargs : BackendKwargs) : Except PyError SelectedBackend :=
  match name with
  | .auto => createAuto machine kwargs
  | .flashattention | .legacy => createFlashAttention machine kwargs
  | .flashinfer => createFlashInfer machine kwargs

end AttentionBackendRegistry

inductive Platform where
  | cuda
  | cpu
  | xpu
  deriving DecidableEq, Repr

structure CustomOpConfig where
  platform : Platform
  dtype : Option FloatDtype
  overrides : Dict String String

def CustomOpConfig.implementationFor (config : CustomOpConfig) (operator : String) : String :=
  (config.overrides operator).getD "auto"

inductive NormOperator where
  | rmsNorm
  | fusedAddRmsNorm
  deriving DecidableEq, Repr

def NormOperator.name : NormOperator → String
  | .rmsNorm => "rms_norm"
  | .fusedAddRmsNorm => "fused_add_rms_norm"

inductive NormProvider where
  | nativeTorch
  | flashInfer
  deriving DecidableEq, Repr

namespace RMSNorm

-- `_select_impl`, where the implementation is bound to the provider that it returns.
def selectImpl (machine : Machine) (config : CustomOpConfig) (operator : NormOperator) : Except PyError NormProvider := do
  let implementation := config.implementationFor operator.name
  require (implementation ∈ ["auto", "native", "native_torch", "flashinfer"])
    (PyError.valueError ("unsupported '" ++ operator.name ++ "' implementation '" ++ implementation ++
      "'; available: auto, flashinfer, native, native_torch"))
  require (config.platform = .cuda ∨ implementation ∈ ["auto", "native", "native_torch"])
    (PyError.runtimeError ("'" ++ implementation ++ "' for '" ++ operator.name ++ "' requires CUDA"))
  if implementation ∈ ["native", "native_torch"] then pure .nativeTorch
  else if config.platform ≠ .cuda then pure .nativeTorch
  else do
    let dtypeSupported := config.dtype.all FloatDtype.isHalf
    let flashinferAvailable := machine.flashInferOps.isNone && dtypeSupported
    require (implementation = "flashinfer" → flashinferAvailable ∨ dtypeSupported)
      (PyError.runtimeError ("'flashinfer' for '" ++ operator.name ++ "' does not support dtype " ++
        (config.dtype.map FloatDtype.name).getD "None"))
    if implementation = "auto" ∧ ¬flashinferAvailable then pure .nativeTorch
    else
      -- `_require_flashinfer`
      match machine.flashInferOps with
      | some error => throw (.runtimeError ("FlashInfer is unavailable for " ++ operator.name ++ ": " ++ error))
      | none => pure .flashInfer

structure Providers where
  rms : NormProvider
  addRms : NormProvider
  deriving DecidableEq, Repr

-- The part of `__init__` that selects them.
def init (machine : Machine) (config : CustomOpConfig) : Except PyError Providers := do
  let rms ← selectImpl machine config .rmsNorm
  let addRms ← selectImpl machine config .fusedAddRmsNorm
  pure { rms, addRms }

end RMSNorm

/-- What `ModelRunner.__init__` reads of its config to select the implementations. -/
structure RunnerOptions where
  hfConfig : Qwen3Config
  dtype : FloatDtype
  tensorParallelSize : Nat
  kvcacheBlockSize : Nat
  attentionBackend : BackendName := .auto
  attentionMode : AttentionMode := .unified
  operatorOverrides : Dict String String := .empty

namespace ModelRunner

-- `backend_kwargs`; without a `head_dim` it is the quotient.
def backendKwargs (options : RunnerOptions) : BackendKwargs :=
  { numQHeads := options.hfConfig.numAttentionHeads / options.tensorParallelSize
    numKvHeads := options.hfConfig.numKeyValueHeads / options.tensorParallelSize
    headDim := options.hfConfig.headDim.getD (options.hfConfig.hiddenSize / options.hfConfig.numAttentionHeads)
    blockSize := options.kvcacheBlockSize
    dtype := options.dtype
    attentionMode := options.attentionMode
    device := some .cuda }

-- The part of `__init__` that selects the backend, with the providers of the norms of its model.
def selectImplementations (machine : Machine) (options : RunnerOptions) :
    Except PyError (SelectedBackend × RMSNorm.Providers) := do
  require (0 < options.hfConfig.numAttentionHeads) PyError.zeroDivisionError
  let backend ← AttentionBackendRegistry.create machine options.attentionBackend (backendKwargs options)
  let providers ← RMSNorm.init machine ⟨.cuda, some options.dtype, options.operatorOverrides⟩
  pure (backend, providers)

end ModelRunner

end NanoVllm
