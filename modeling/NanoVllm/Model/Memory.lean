import Mathlib.Data.Int.Log
import Mathlib.Data.Rat.Floor
import NanoVllm.Model.LLMEngine

set_option autoImplicit false

namespace Python

-- The integer nearest to `x`; of two, the even one.
def roundEven (x : ℚ) : ℤ :=
  if x - ⌊x⌋ < 1 / 2 then ⌊x⌋
  else if 1 / 2 < x - ⌊x⌋ then ⌊x⌋ + 1
  else if ⌊x⌋ % 2 = 0 then ⌊x⌋ else ⌊x⌋ + 1

/-- The `float` nearest to `x`. It has 53 binary digits; its exponent has no bounds here. -/
def float (x : ℚ) : ℚ :=
  let unit : ℚ := 2 ^ (Int.log 2 |x| - 52)
  roundEven (x / unit) * unit

-- `int(x)` of a `float`.
def trunc (x : ℚ) : ℤ := if 0 ≤ x then ⌊x⌋ else ⌈x⌉

end Python

namespace NanoVllm

open Python Raising

/-- What the size of the KV cache depends on, apart from the fields that the scheduler reads. -/
structure RunnerConfig where
  config : Config
  gpuMemoryUtilization : ℚ := 9 / 10
  tensorParallelSize : Nat := 1
  numHiddenLayers : Nat
  numKeyValueHeads : Nat
  -- `hf_config.head_dim`, with its default.
  headDim : Nat
  -- `dtype.itemsize`
  itemsize : Nat
  tensorParallelSize_bounds : 1 ≤ tensorParallelSize ∧ tensorParallelSize ≤ 8

structure MemoryReadings where
  free : Nat
  total : Nat
  peak : Nat
  current : Nat

namespace ModelRunner

def blockBytes (config : RunnerConfig) : Nat :=
  2 * config.numHiddenLayers * config.config.kvcacheBlockSize *
    (config.numKeyValueHeads / config.tensorParallelSize) * config.headDim * config.itemsize

def availableBytes (config : RunnerConfig) (memory : MemoryReadings) (captureReserveBytes : Int) : Int :=
  let used : Int := memory.total - memory.free
  let budget := float (float memory.total * config.gpuMemoryUtilization)
  let unused := float (budget - float used)
  let settled := float (float (unused - float memory.peak) + float memory.current)
  trunc (float (settled - float captureReserveBytes))

-- It gives the `num_kvcache_blocks` that the rank writes to its own `Config`.
def allocateKvCache (config : RunnerConfig) (memory : MemoryReadings) (captureReserveBytes : Int) :
    Except PyError Nat := do
  require (0 ≤ captureReserveBytes) (PyError.valueError "capture_reserve_bytes must be non-negative")
  require (blockBytes config ≠ 0) PyError.zeroDivisionError
  let numKvcacheBlocks := availableBytes config memory captureReserveBytes / (blockBytes config : Int)
  require (0 < numKvcacheBlocks) (raised "config.num_kvcache_blocks > 0")
  pure numKvcacheBlocks.toNat

end ModelRunner

/-- `LLMEngine.__init__` when every rank got through: `blocks` counts the blocks of each rank, and the scheduler
reads the `Config` of rank 0. -/
structure LLMEngine.Started (config : RunnerConfig) (memory : Nat → MemoryReadings) (captureReserveBytes : Nat → Int)
    (blocks : Nat → Nat) (shared : Config) : Prop where
  allocated : ∀ rank < config.tensorParallelSize,
    ModelRunner.allocateKvCache config (memory rank) (captureReserveBytes rank) = .ok (blocks rank)
  shared : shared = { config.config with numKvcacheBlocks := blocks 0 }

end NanoVllm
