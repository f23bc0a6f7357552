import NanoVllm.Shared.Torch

set_option autoImplicit false

namespace NanoVllm

open Torch

variable {R : Type}

def divide (numerator denominator : Nat) : Option Nat :=
  if denominator ≠ 0 ∧ numerator % denominator = 0 then some (numerator / denominator) else none

structure LinearBase (R : Type) where
  tpRank : Nat
  tpSize : Nat
  weight : Tensor R
  bias : Option (Tensor R)

-- The parameters hold what was in the `memory` that `torch.empty` got.
def LinearBase.init (tpRank tpSize : Nat) (memory : Nat → Nat → R) (inputSize outputSize : Nat) (bias : Bool) :
    LinearBase R :=
  { tpRank
    tpSize
    weight := ⟨outputSize, inputSize, memory⟩
    bias := if bias then some ⟨outputSize, 1, memory⟩ else none }

def ColumnParallelLinear.init (tpRank tpSize : Nat) (memory : Nat → Nat → R) (inputSize outputSize : Nat)
    (bias : Bool) : Option (LinearBase R) := do
  let outputSize ← divide outputSize tpSize
  pure (LinearBase.init tpRank tpSize memory inputSize outputSize bias)

def ColumnParallelLinear.forward [NonUnitalNonAssocSemiring R] (self : LinearBase R) (x : Tensor R) :
    Option (Tensor R) :=
  x.linear self.weight self.bias

structure MergedColumnParallelLinear (R : Type) extends LinearBase R where
  outputSizes : List Nat

namespace MergedColumnParallelLinear

def init (tpRank tpSize : Nat) (memory : Nat → Nat → R) (inputSize : Nat) (outputSizes : List Nat) (bias : Bool) :
    Option (MergedColumnParallelLinear R) := do
  let base ← ColumnParallelLinear.init tpRank tpSize memory inputSize outputSizes.sum bias
  pure { toLinearBase := base, outputSizes }

-- `shard_offset` and `shard_size`
def window (self : MergedColumnParallelLinear R) (loadedShardId : Nat) : Option (Nat × Nat) := do
  let outputSize ← self.outputSizes[loadedShardId]?
  pure ((self.outputSizes.take loadedShardId).sum / self.tpSize, outputSize / self.tpSize)

def weightLoader (self : MergedColumnParallelLinear R) (param loadedWeight : Tensor R) (loadedShardId : Nat) :
    Option (Tensor R) := do
  let window ← self.window loadedShardId
  let loadedWeight ← loadedWeight.chunkRows self.tpSize self.tpRank
  param.copyRows window.1 window.2 loadedWeight

def load (self : MergedColumnParallelLinear R) (shard : Nat × Tensor R) : Option (MergedColumnParallelLinear R) := do
  let weight ← self.weightLoader self.weight shard.2 shard.1
  pure { self with weight }

end MergedColumnParallelLinear

inductive QKVShard where
  | q | k | v
  deriving DecidableEq, Repr

structure QKVParallelLinear (R : Type) extends LinearBase R where
  headSize : Nat
  numHeads : Nat
  numKvHeads : Nat

namespace QKVParallelLinear

def init (tpRank tpSize : Nat) (memory : Nat → Nat → R) (hiddenSize headSize totalNumHeads : Nat)
    (totalNumKvHeads : Option Nat) (bias : Bool) : Option (QKVParallelLinear R) := do
  -- `total_num_kv_heads or total_num_heads`
  let totalNumKvHeads := match totalNumKvHeads with
    | none => totalNumHeads
    | some heads => if heads = 0 then totalNumHeads else heads
  let numHeads ← divide totalNumHeads tpSize
  let numKvHeads ← divide totalNumKvHeads tpSize
  let base ← ColumnParallelLinear.init tpRank tpSize memory hiddenSize
    ((totalNumHeads + 2 * totalNumKvHeads) * headSize) bias
  pure { toLinearBase := base, headSize, numHeads, numKvHeads }

-- `shard_offset` and `shard_size`
def window (self : QKVParallelLinear R) : QKVShard → Nat × Nat
  | .q => (0, self.numHeads * self.headSize)
  | .k => (self.numHeads * self.headSize, self.numKvHeads * self.headSize)
  | .v => (self.numHeads * self.headSize + self.numKvHeads * self.headSize, self.numKvHeads * self.headSize)

def weightLoader (self : QKVParallelLinear R) (param loadedWeight : Tensor R) (loadedShardId : QKVShard) :
    Option (Tensor R) := do
  let loadedWeight ← loadedWeight.chunkRows self.tpSize self.tpRank
  param.copyRows (self.window loadedShardId).1 (self.window loadedShardId).2 loadedWeight

def load (self : QKVParallelLinear R) (shard : QKVShard × Tensor R) : Option (QKVParallelLinear R) := do
  let weight ← self.weightLoader self.weight shard.2 shard.1
  pure { self with weight }

def loadBias (self : QKVParallelLinear R) (shard : QKVShard × Tensor R) : Option (QKVParallelLinear R) := do
  let bias ← self.bias
  let bias ← self.weightLoader bias shard.2 shard.1
  pure { self with bias := some bias }

end QKVParallelLinear

namespace RowParallelLinear

def init (tpRank tpSize : Nat) (memory : Nat → Nat → R) (inputSize outputSize : Nat) (bias : Bool) :
    Option (LinearBase R) := do
  let inputSize ← divide inputSize tpSize
  pure (LinearBase.init tpRank tpSize memory inputSize outputSize bias)

def weightLoader (self : LinearBase R) (param loadedWeight : Tensor R) : Option (Tensor R) := do
  let shardSize := param.cols
  let startIdx := self.tpRank * shardSize
  let loadedWeight ← loadedWeight.narrowCols startIdx shardSize
  param.copy loadedWeight

def load (self : LinearBase R) (loadedWeight : Tensor R) : Option (LinearBase R) := do
  let weight ← weightLoader self self.weight loadedWeight
  pure { self with weight }

-- What a rank computes before the reduction.
def product [NonUnitalNonAssocSemiring R] (self : LinearBase R) (x : Tensor R) : Option (Tensor R) :=
  x.linear self.weight (if self.tpRank = 0 then self.bias else none)

end RowParallelLinear

end NanoVllm
