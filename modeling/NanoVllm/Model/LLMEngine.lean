import NanoVllm.Model.ModelRunner

set_option autoImplicit false

namespace NanoVllm

open Python Raising

-- `counter` is the next value of `Sequence.counter`.
structure LLMEngine where
  scheduler : Scheduler
  counter : SeqId

structure Tokenizer where
  encode : String → List Token
  decode : List Token → String

inductive Prompt where
  | text (prompt : String)
  | tokenIds (prompt : List Token)

inductive SamplingChoice where
  | one (samplingParams : SamplingParams)
  | each (samplingParams : List SamplingParams)

structure Completion where
  text : String
  tokenIds : List Token
  deriving DecidableEq, Repr

namespace LLMEngine

abbrev Engine := EStateM PyError LLMEngine

def onScheduler {α : Type} : Sched α → Engine α :=
  zoom LLMEngine.scheduler (fun e s => { e with scheduler := s })

section

variable (xxh64 : XxHash) (tokenizer : Tokenizer) (forward : List Token → Token)

def encodePrompt : Prompt → List Token
  | .text prompt => tokenizer.encode prompt
  | .tokenIds prompt => prompt

def addRequest (prompt : Prompt) (samplingParams : SamplingParams) : Engine Unit := do
  let e ← get
  -- `next(Sequence.counter)` comes before the prompt is read.
  set { e with counter := e.counter + 1 }
  let seq ← ofExcept (Sequence.init xxh64 e.counter (encodePrompt tokenizer prompt) samplingParams
    e.scheduler.config.kvcacheBlockSize)
  onScheduler (Scheduler.add seq)

def step : Engine (List (SeqId × List Token)) := do
  let seqs ← onScheduler Scheduler.schedule
  let e ← get
  let (tokenIds, seqNeedComputeLogits) ← ofExcept (ModelRunner.run forward
    e.scheduler.config.kvcacheBlockSize (seqs.map e.scheduler.seqs) e.scheduler.numScheduledPrefillSeqs)
  match seqNeedComputeLogits with
  | none => throw (.typeError "'NoneType' object is not iterable")
  | some logitsIndices => do
      onScheduler (Scheduler.postprocess xxh64 seqs tokenIds logitsIndices)
      let e ← get
      pure ((seqs.filter (fun i => (e.scheduler.seqs i).isFinished)).map
        (fun i => ((e.scheduler.seqs i).seqId, (e.scheduler.seqs i).completionTokenIds)))

def addRequests : List (Prompt × SamplingParams) → Engine Unit :=
  forEach (fun request => addRequest xxh64 tokenizer request.1 request.2)

-- `outputs[seq_id] = token_ids`
def setOutput (outputs : List (SeqId × List Token)) (entry : SeqId × List Token) :
    List (SeqId × List Token) :=
  entry :: outputs.filter (fun old => old.1 ≠ entry.1)

-- The `while` loop of `generate`; `none` is a loop that `fuel` steps did not end.
def generateLoop : Nat → List (SeqId × List Token) → Engine (Option (List (SeqId × List Token)))
  | 0, _ => pure none
  | fuel + 1, outputs => do
      let e ← get
      if e.scheduler.isFinished then pure (some outputs)
      else do
        let output ← step xxh64 forward
        generateLoop fuel (output.foldl setOutput outputs)

def spread (samplingParams : SamplingChoice) (count : Nat) : List SamplingParams :=
  match samplingParams with
  | .one params => List.replicate count params
  | .each params => params

def collect (outputs : List (SeqId × List Token)) : List Completion :=
  ((outputs.map Prod.fst).insertionSort (· ≤ ·)).filterMap (fun i =>
    (outputs.lookup i).map (fun tokenIds => ⟨tokenizer.decode tokenIds, tokenIds⟩))

def generate (fuel : Nat) (prompts : List Prompt) (samplingParams : SamplingChoice) :
    Engine (Option (List Completion)) := do
  addRequests xxh64 tokenizer (prompts.zip (spread samplingParams prompts.length))
  let outputs ← generateLoop xxh64 forward fuel []
  pure (outputs.map (collect tokenizer))

end

end LLMEngine

end NanoVllm
