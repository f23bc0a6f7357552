import NanoVllm.Model.Qwen3
import NanoVllm.Model.Sequence
import NanoVllm.Shared.Device

set_option autoImplicit false

namespace NanoVllm

open Raising Device

inductive ScalarType where
  | half
  | bFloat16
  | other
  deriving DecidableEq, Repr

-- A tensor with its data pointer; the elements of a contiguous one follow each other.
structure CudaTensor (σ : Type) where
  isCuda : Bool
  isContiguous : Bool
  scalarType : ScalarType
  sizes : List Nat
  data : Memory σ

/-- The scalars `σ` of a tensor, and the floats `ϕ` in which the kernel computes. -/
structure Scalars (σ ϕ : Type) where
  toFloat : σ → ϕ
  silu : ϕ → ϕ
  ofFloat : ϕ → σ

/-- A turn of the loop in `silu_and_mul_kernel`: the elements that it reads, and what it stores. -/
structure SiluTurn (σ : Type) where
  gateIndex : Int
  upIndex : Int
  outputIndex : Int
  value : σ

def SiluTurn.store {σ : Type} (turn : SiluTurn σ) : Int × σ := (turn.outputIndex, turn.value)

section

variable {σ ϕ : Type} [Mul ϕ]

def siluTurn (scalars : Scalars σ ϕ) (input : Memory σ) (hiddenSize outputIndex : Int) : SiluTurn σ :=
  let row := int64 (outputIndex.tdiv hiddenSize)
  let column := int64 (outputIndex - int64 (row * hiddenSize))
  let gateIndex := int64 (int64 (row * int64 (hiddenSize * 2)) + column)
  let upIndex := int64 (gateIndex + hiddenSize)
  let gate := scalars.toFloat (input gateIndex)
  let up := scalars.toFloat (input upIndex)
  { gateIndex
    upIndex
    outputIndex
    value := scalars.ofFloat (scalars.silu gate * up) }

-- One thread; `none` is a thread whose loop `fuel` tests did not end.
def siluAndMulKernel (fuel : Nat) (scalars : Scalars σ ϕ) (input : Memory σ) (outputElements hiddenSize : Int)
    (blockDim gridDim blockIdx threadIdx : Nat) : Option (List (SiluTurn σ)) :=
  let stride := int64 (int64 blockDim * gridDim)
  let start := int64 (int64 (int64 blockIdx * blockDim) + threadIdx)
  (stridedLoop outputElements stride fuel start).map (fun indices => indices.map (siluTurn scalars input hiddenSize))

-- The block and the thread of each program of a grid.
def gridPrograms (blocks threads : Nat) : List (Nat × Nat) :=
  (List.range blocks).flatMap (fun block => (List.range threads).map (fun thread => (block, thread)))

def siluBlocks (outputElements : Int) : Int :=
  int32 (min ((int64 (int64 (outputElements + 256) - 1)).tdiv 256) 65535)

-- The turns of all threads.
def launchSiluAndMul (fuel : Nat) (scalars : Scalars σ ϕ) (input : Memory σ) (outputElements hiddenSize : Int) :
    Option (List (SiluTurn σ)) := do
  let threads := 256
  let blocks := (siluBlocks outputElements).toNat
  let turns ← (gridPrograms blocks threads).mapM (fun program =>
    siluAndMulKernel fuel scalars input outputElements hiddenSize threads blocks program.1 program.2)
  pure turns.flatten

structure SiluLaunch (σ : Type) where
  sizes : List Nat
  turns : List (SiluTurn σ)

def siluAndMulCuda (fuel : Nat) (scalars : ScalarType → Scalars σ ϕ) (input : CudaTensor σ) :
    Except PyError (Option (SiluLaunch σ)) :=
  let hiddenSize := input.sizes.getLastD 0 / 2
  let sizes := input.sizes.dropLast ++ [hiddenSize]
  let launch (scalarType : ScalarType) := (launchSiluAndMul fuel (scalars scalarType) input.data
    (sizes.prod : Nat) hiddenSize).map (fun turns => { sizes, turns })
  if sizes.prod = 0 then pure (some { sizes, turns := [] })
  else match input.scalarType with
    | .half => pure (launch .half)
    | .bFloat16 => pure (launch .bFloat16)
    | .other => throw (.runtimeError "silu_and_mul only supports float16 and bfloat16")

-- `nanovllm._C.forward`
def siluAndMulForward (fuel : Nat) (scalars : ScalarType → Scalars σ ϕ) (input : CudaTensor σ) :
    Except PyError (Option (SiluLaunch σ)) := do
  require (input.isCuda = true) (.runtimeError "silu_and_mul expects a CUDA tensor")
  require (input.isContiguous = true) (.runtimeError "silu_and_mul expects a contiguous tensor")
  require (1 ≤ input.sizes.length) (.runtimeError "silu_and_mul expects at least one dimension")
  require (input.scalarType = .half ∨ input.scalarType = .bFloat16)
    (.runtimeError "silu_and_mul only supports float16 and bfloat16")
  require (0 < input.sizes.getLastD 0 ∧ input.sizes.getLastD 0 % 2 = 0)
    (.runtimeError "silu_and_mul expects the last dimension to be a positive even number")
  siluAndMulCuda fuel scalars input

end

end NanoVllm
