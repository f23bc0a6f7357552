import NanoVllm.Model.EmbedHead
import NanoVllm.Model.ModelRunner

set_option autoImplicit false

namespace NanoVllm

open Python Raising Torch

/-- The parts of a runner that decide what its batches sample, with the LM head that was loaded from `weight`. -/
structure Executor (R : Type) where
  tpSize : Nat
  vocabSize : Nat
  hiddenSize : Nat
  weight : Tensor R
  lmHead : Nat → VocabParallelEmbedding R
  -- The model up to the LM head, with whatever the KV cache holds.
  hiddenStates : ModelRunner.ModelInput → Tensor R
  -- What `Sampler.forward` draws for one row; each row has its own noise.
  sampleRow : (row : Nat) → (vocabSize : Nat) → (logits : Fin vocabSize → R) → (temperature : Rat) → Token
  tpSize_pos : 0 < tpSize
  weight_shape : weight.HasShape vocabSize hiddenSize
  lmHead_loaded : ∀ r < tpSize, ∃ memory created,
    VocabParallelEmbedding.init r tpSize memory vocabSize hiddenSize = some created ∧
      created.load weight = some (lmHead r)
  hiddenStates_shape : ∀ input, (hiddenStates input).HasShape input.inputIds.length hiddenSize

namespace Executor

variable {R : Type}

-- `Sampler.forward`; a single temperature is broadcast.
def sampler (exec : Executor R) (logits : Tensor R) (temperatures : List Rat) : Except PyError (List Token) := do
  require (temperatures.length = logits.rows ∨ temperatures.length = 1)
    (PyError.runtimeError "the sizes of the tensors must match")
  pure ((List.range logits.rows).map (fun row =>
    exec.sampleRow row logits.cols (fun v => logits.entry row v)
      (temperatures.getD (if temperatures.length = 1 then 0 else row) 0)))

def prepareSample (seqs : List Sequence) (seqNeedComputeLogits : Option (List Nat)) : Except PyError (List Rat) :=
  let temperatures := seqs.map Sequence.temperature
  match seqNeedComputeLogits with
  | none => pure temperatures
  | some rows =>
      match rows.mapM (fun row => temperatures[row]?) with
      | some temperatures => pure temperatures
      | none => throw (.indexError "index out of range in self")

-- `run_model`
def runModel [Ring R] (exec : Executor R) (input : ModelRunner.ModelInput) : Except PyError (Tensor R) :=
  match ParallelLMHead.forward exec.tpSize exec.lmHead (some input.queryStartLoc) input.seqNeedComputeLogits
      (exec.hiddenStates input) 0 with
  | some (some logits) => pure logits
  | _ => throw (.runtimeError "the LM head failed")

-- `ModelRunner.run` on rank 0
def run [Ring R] (exec : Executor R) (blockSize : Nat) (seqs : List Sequence) (numPrefillSeqs : Nat) :
    Except PyError (List Token × Option (List Nat)) := do
  let input ← ModelRunner.prepareModelInput blockSize seqs numPrefillSeqs
  let temperatures ← prepareSample seqs input.seqNeedComputeLogits
  let logits ← exec.runModel input
  let tokenIds ← exec.sampler logits temperatures
  pure (tokenIds, input.seqNeedComputeLogits)

end Executor

end NanoVllm
