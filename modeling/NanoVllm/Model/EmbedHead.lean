import NanoVllm.Shared.Torch

set_option autoImplicit false

namespace NanoVllm

open Torch

structure VocabParallelEmbedding (R : Type) where
  tpRank : Nat
  tpSize : Nat
  numEmbeddings : Nat
  numEmbeddingsPerPartition : Nat
  vocabStartIdx : Nat
  vocabEndIdx : Nat
  weight : Tensor R

namespace VocabParallelEmbedding

variable {R : Type}

-- The weight holds what was in the `memory` that `torch.empty` got.
def init (tpRank tpSize : Nat) (memory : Nat → Nat → R) (numEmbeddings embeddingDim : Nat) :
    Option (VocabParallelEmbedding R) :=
  if tpSize ≠ 0 ∧ numEmbeddings % tpSize = 0 then
    let numEmbeddingsPerPartition := numEmbeddings / tpSize
    let vocabStartIdx := numEmbeddingsPerPartition * tpRank
    some
      { tpRank
        tpSize
        numEmbeddings
        numEmbeddingsPerPartition
        vocabStartIdx
        vocabEndIdx := vocabStartIdx + numEmbeddingsPerPartition
        weight := ⟨numEmbeddingsPerPartition, embeddingDim, memory⟩ }
  else none

def weightLoader (self : VocabParallelEmbedding R) (param loadedWeight : Tensor R) : Option (Tensor R) := do
  let shardSize := param.rows
  let startIdx := self.tpRank * shardSize
  let loadedWeight ← loadedWeight.narrowRows startIdx shardSize
  param.copy loadedWeight

def load (self : VocabParallelEmbedding R) (loadedWeight : Tensor R) : Option (VocabParallelEmbedding R) := do
  let weight ← self.weightLoader self.weight loadedWeight
  pure { self with weight }

def mask (self : VocabParallelEmbedding R) (x : Int) : Bool :=
  decide ((self.vocabStartIdx : Int) ≤ x) && decide (x < (self.vocabEndIdx : Int))

-- The row that is looked up for a token: `mask * (x - self.vocab_start_idx)` when there are several ranks.
def localIndex (self : VocabParallelEmbedding R) (x : Int) : Int :=
  if self.tpSize > 1 then if self.mask x then x - self.vocabStartIdx else 0 else x

-- `forward` up to the reduction
def lookup [Ring R] (self : VocabParallelEmbedding R) (x : List Int) : Option (Tensor R) := do
  let y ← Tensor.embedding (x.map self.localIndex) self.weight
  if self.tpSize > 1 then
    pure { y with entry := fun t c => (if self.mask (x.getD t 0) then 1 else 0) * y.entry t c }
  else
    pure y

def forward [Ring R] (tpSize : Nat) (layers : Nat → VocabParallelEmbedding R) (x : List Int) : Option (Tensor R) :=
  reduceRanks tpSize (fun r => (layers r).lookup x)

end VocabParallelEmbedding

namespace ParallelLMHead

variable {R : Type}

-- `last_indices`, for the rows `seqNeedComputeLogits` when they are given
def lastIndices (queryStartLoc : List Nat) (seqNeedComputeLogits : Option (List Nat)) : Option (List Int) :=
  let last := queryStartLoc.tail.map (fun (start : Nat) => (start : Int) - 1)
  match seqNeedComputeLogits with
  | none => some last
  | some rows => rows.mapM (fun row => last[row]?)

-- `forward` up to the gather; without metadata there is no `queryStartLoc`.
def localLogits [Ring R] (self : VocabParallelEmbedding R) (queryStartLoc : Option (List Nat))
    (seqNeedComputeLogits : Option (List Nat)) (x : Tensor R) : Option (Tensor R) := do
  let queryStartLoc ← queryStartLoc
  let indices ← lastIndices queryStartLoc seqNeedComputeLogits
  let x ← x.select indices
  x.linear self.weight none

-- What `forward` returns on the rank `tpRank`.
def forward [Ring R] (tpSize : Nat) (layers : Nat → VocabParallelEmbedding R) (queryStartLoc : Option (List Nat))
    (seqNeedComputeLogits : Option (List Nat)) (x : Tensor R) (tpRank : Nat) : Option (Option (Tensor R)) := do
  let allLogits ← onRanks tpSize (fun r => localLogits (layers r) queryStartLoc seqNeedComputeLogits x)
  if tpSize > 1 then
    if tpRank = 0 then
      let logits ← Tensor.cat allLogits
      pure (some logits)
    else pure none
  else
    pure allLogits.head?

end ParallelLMHead

end NanoVllm
