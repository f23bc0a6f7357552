import NanoVllm.Model.Decoder
import NanoVllm.Model.LLMEngine
import NanoVllm.Model.Sampler

set_option autoImplicit false

namespace NanoVllm

open Python Raising Torch

variable {R : Type} {width : Nat}

/-- What `Sampler.forward` draws for one row; each row has its own noise. -/
abbrev SampleRow (R : Type) := (row : Nat) → (vocabSize : Nat) → (logits : Fin vocabSize → R) → (temperature : Rat) →
  Token

-- `Sampler.forward`; a single temperature is broadcast.
def Sampler.forward (sampleRow : SampleRow R) (logits : Tensor R) (temperatures : List Rat) :
    Except PyError (List Token) := do
  require (temperatures.length = logits.rows ∨ temperatures.length = 1)
    (PyError.runtimeError "the sizes of the tensors must match")
  pure ((List.range logits.rows).map (fun row =>
    sampleRow row logits.cols (fun v => logits.entry row v)
      (temperatures.getD (if temperatures.length = 1 then 0 else row) 0)))

structure Runner (R : Type) (width : Nat) where
  tpSize : Nat
  silu : R → R
  model : Qwen3ForCausalLM R
  runtime : AttentionRuntime R width
  sampleRow : SampleRow R

-- `ModelRunner.run` on all ranks, with what rank 0 returns and what is left in the caches.
def Runner.run [Ring R] (self : Runner R width) (blockSize : Nat) (seqs : List Sequence) (numPrefillSeqs : Nat)
    (kvCache : List (LayerCaches R)) : Except PyError ((List Token × Option (List Nat)) × List (LayerCaches R)) := do
  let input ← ModelRunner.prepareModelInput blockSize seqs numPrefillSeqs
  let temperatures ← Executor.prepareSample seqs input.seqNeedComputeLogits
  let (logits, kvCache) ← ModelRunner.runModel self.silu self.tpSize self.model self.runtime input kvCache
  match logits with
  | none => throw (.typeError "'NoneType' object has no attribute 'float'")
  | some logits => do
      let tokenIds ← Sampler.forward self.sampleRow logits temperatures
      pure ((tokenIds, input.seqNeedComputeLogits), kvCache)

structure Host (R : Type) where
  engine : LLMEngine
  kvCache : List (LayerCaches R)

namespace Host

abbrev Hosting (R : Type) := EStateM PyError (Host R)

def onEngine {α : Type} : LLMEngine.Engine α → Hosting R α :=
  zoom Host.engine (fun host engine => { host with engine })

variable [Ring R] (xxh64 : XxHash) (tokenizer : Tokenizer) (runner : Runner R width)

def addRequest (prompt : Prompt) (samplingParams : SamplingParams) : Hosting R Unit :=
  onEngine (LLMEngine.addRequest xxh64 tokenizer prompt samplingParams)

def step : Hosting R (List (SeqId × List Token)) := do
  let seqs ← onEngine (LLMEngine.onScheduler Scheduler.schedule)
  let host ← get
  let s := host.engine.scheduler
  let ((tokenIds, seqNeedComputeLogits), kvCache) ← ofExcept (runner.run s.config.kvcacheBlockSize (seqs.map s.seqs)
    s.numScheduledPrefillSeqs host.kvCache)
  set { host with kvCache }
  match seqNeedComputeLogits with
  | none => throw (.typeError "'NoneType' object is not iterable")
  | some logitsIndices => do
      onEngine (LLMEngine.onScheduler (Scheduler.postprocess xxh64 seqs tokenIds logitsIndices))
      let host ← get
      let s := host.engine.scheduler
      pure ((seqs.filter (fun i => (s.seqs i).isFinished)).map
        (fun i => ((s.seqs i).seqId, (s.seqs i).completionTokenIds)))

-- The `while` loop of `generate`; `none` is a loop that `fuel` steps did not end.
def generateLoop : Nat → List (SeqId × List Token) → Hosting R (Option (List (SeqId × List Token)))
  | 0, _ => pure none
  | fuel + 1, outputs => do
      let host ← get
      if host.engine.scheduler.isFinished then pure (some outputs)
      else do
        let output ← step xxh64 runner
        generateLoop fuel (output.foldl LLMEngine.setOutput outputs)

def generate (fuel : Nat) (prompts : List Prompt) (samplingParams : SamplingChoice) :
    Hosting R (Option (List Completion)) := do
  forEach (fun request => addRequest xxh64 tokenizer request.1 request.2)
    (prompts.zip (LLMEngine.spread samplingParams prompts.length))
  let outputs ← generateLoop xxh64 runner fuel []
  pure (outputs.map (LLMEngine.collect tokenizer))

end Host

end NanoVllm
