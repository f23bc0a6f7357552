import NanoVllm.Model.ModelRunner

set_option autoImplicit false

namespace NanoVllm.ModelRunner

open Python Raising

-- The lengths of the sequences that `warmup_model` runs.
def warmupLengths (config : Config) : List Nat :=
  let warmupTokens := min config.maxNumBatchedTokens (config.maxNumSeqs * config.maxModelLen)
  let numFullSeqs := warmupTokens / config.maxModelLen
  let remainder := warmupTokens % config.maxModelLen
  List.replicate numFullSeqs config.maxModelLen ++ (if remainder ≠ 0 then [remainder] else [])

example : warmupLengths { maxNumBatchedTokens := 16384, maxModelLen := 4352, maxNumSeqs := 4, numKvcacheBlocks := 1 } =
    [4352, 4352, 4352, 3328] := by decide

-- `seq.num_new_tokens = len(seq)`
def allNew (seq : Sequence) : Sequence := { seq with numNewTokens := seq.numTokens }

theorem temperature_default : (1 : Rat) / 10 ^ 10 < 1 := by norm_num

theorem maxTokens_default : 0 < 64 := by decide

def warmupSeqs (xxh64 : XxHash) (config : Config) (counter : SeqId) : Except PyError (List Sequence) := do
  require (config.maxModelLen ≠ 0) PyError.zeroDivisionError
  let seqs ← (warmupLengths config).zipIdx.mapM (fun length =>
    Sequence.init xxh64 (counter + length.2) (List.replicate length.1 0)
      { temperature_pos := temperature_default, maxTokens_pos := maxTokens_default } config.kvcacheBlockSize)
  pure (seqs.map allNew)

-- The rows that the LM head selects for a batch of `input`.
def logitsRows (input : ModelInput) : Nat :=
  match input.seqNeedComputeLogits with
  | some rows => rows.length
  | none => input.queryStartLoc.tail.length

end NanoVllm.ModelRunner
