import NanoVllm.Model.Scheduler

set_option autoImplicit false

namespace NanoVllm.ModelRunner

open Python Raising

-- `CommonAttentionMetadata`, with the packed tokens and the rows to sample.
structure ModelInput where
  inputIds : List Token
  positions : List Nat
  numPrefillSeqs : Nat
  numDecodeSeqs : Nat
  numPrefillTokens : Nat
  numDecodeTokens : Nat
  queryStartLoc : List Nat
  seqLens : List Nat
  slotMapping : List Int
  blockTables : Option (List (List Int))
  maxQLen : Nat
  maxKvLen : Nat
  blockCounts : List Nat
  numKvBlocks : Nat
  numPrefillKvBlocks : Nat
  seqNeedComputeLogits : Option (List Nat)

-- The slots of one page of the block table, from `start` to `end`.
def pageSlots (blockSize : Nat) (seq : Sequence) (page : BlockId × Nat) : List Nat :=
  let start :=
    if page.2 = seq.numCachedBlocks then page.1 * blockSize + seq.numCachedTokens % seq.blockSize
    else page.1 * blockSize
  let stop :=
    if page.2 = seq.blockTable.length - 1 then
      if seq.numContextTokens % blockSize ≠ 0 then page.1 * blockSize + seq.numContextTokens % blockSize
      else (page.1 + 1) * blockSize
    else (page.1 + 1) * blockSize
  List.range' start (stop - start)

def seqSlots (blockSize : Nat) (seq : Sequence) : List Int :=
  if seq.blockTable = [] then List.replicate seq.numNewTokens (-1)
  else ((seq.blockTable.zipIdx.drop seq.numCachedBlocks).flatMap (pageSlots blockSize seq)).map Nat.cast

def needsLogits (seq : Sequence) : Bool :=
  decide (seq.numTokens = seq.numCachedTokens + seq.numNewTokens) && !seq.blockTable.isEmpty

def prepareBlockTables (seqs : List Sequence) : List (List Int) :=
  let maxLen := (seqs.map (fun seq => seq.blockTable.length)).foldl max 0
  seqs.map (fun seq =>
    seq.blockTable.map Nat.cast ++ List.replicate (maxLen - seq.blockTable.length) (-1))

def raised (text : String) : PyError := .assertionError .modelRunner text

def prepareModelInput (blockSize : Nat) (seqs : List Sequence) (numPrefillSeqs : Nat) :
    Except PyError ModelInput := do
  require (seqs ≠ []) (PyError.valueError "cannot prepare an empty execution batch")
  require (numPrefillSeqs ≤ seqs.length) (PyError.valueError "num_prefill_seqs is outside the batch")
  let prefillSeqs := seqs.take numPrefillSeqs
  let decodeSeqs := seqs.drop numPrefillSeqs
  require (∀ seq ∈ decodeSeqs, seq.numNewTokens = 1)
    (raised "decode suffix must contain one query token per sequence")
  let hasPagedCache := seqs.any (fun seq => !seq.blockTable.isEmpty)
  require (¬(hasPagedCache = true ∧ ¬seqs.all (fun seq => !seq.blockTable.isEmpty)))
    (PyError.valueError "execution batches cannot mix paged and cacheless sequences")
  pure
    { inputIds := seqs.flatMap (fun seq => slice seq.tokenIds seq.numCachedTokens seq.numContextTokens)
      positions := seqs.flatMap (fun seq => List.range' seq.numCachedTokens seq.numNewTokens)
      numPrefillSeqs
      numDecodeSeqs := seqs.length - numPrefillSeqs
      numPrefillTokens := (prefillSeqs.map Sequence.numNewTokens).sum
      numDecodeTokens := (decodeSeqs.map Sequence.numNewTokens).sum
      queryStartLoc := (seqs.map Sequence.numNewTokens).scanl (· + ·) 0
      seqLens := seqs.map Sequence.numContextTokens
      slotMapping := seqs.flatMap (seqSlots blockSize)
      blockTables := if hasPagedCache then some (prepareBlockTables seqs) else none
      maxQLen := (seqs.map Sequence.numNewTokens).foldl max 0
      maxKvLen := (seqs.map Sequence.numContextTokens).foldl max 0
      blockCounts := if hasPagedCache then seqs.map (fun seq => seq.blockTable.length) else []
      numKvBlocks := if hasPagedCache then (seqs.map (fun seq => seq.blockTable.length)).sum else 0
      numPrefillKvBlocks :=
        if hasPagedCache then (prefillSeqs.map (fun seq => seq.blockTable.length)).sum else 0
      seqNeedComputeLogits :=
        if hasPagedCache then
          some ((seqs.zipIdx.filter (fun entry => needsLogits entry.1)).map Prod.snd)
        else none }

-- `run` on rank 0, where `forward` stands for the model and the sampler: it gives the token that
-- follows the tokens of a sequence.
def run (forward : List Token → Token) (blockSize : Nat) (seqs : List Sequence) (numPrefillSeqs : Nat) :
    Except PyError (List Token × Option (List Nat)) := do
  let input ← prepareModelInput blockSize seqs numPrefillSeqs
  let rows := input.seqNeedComputeLogits.getD (List.range seqs.length)
  pure (rows.filterMap (fun row => seqs[row]?.map (fun seq => forward seq.tokenIds)),
    input.seqNeedComputeLogits)

end NanoVllm.ModelRunner
