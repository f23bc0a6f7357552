import NanoVllm.Model.Channel

set_option autoImplicit false

namespace NanoVllm

open Python Raising

/-- One call of `compute_block_hash`, which may raise. -/
abbrev BlockHash := List Token → Int → Except PyError Int

/-- The `__dict__` of a pickled sequence. An earlier class had `block_size` in the place of `_block_size` and kept no
`block_hashes`. -/
structure SequenceState where
  blockSize' : Option Nat
  blockSize : Option Nat
  blockHashes : Option (List Int)
  seqId : SeqId
  status : SequenceStatus
  tokenIds : List Token
  lastToken : Token
  numTokens : Nat
  numPromptTokens : Nat
  numCachedTokens : Nat
  numNewTokens : Nat
  blockTable : List BlockId
  temperature : Rat
  maxTokens : Nat
  ignoreEos : Bool

namespace Sequence

section

variable (computeBlockHash : BlockHash)

def hashBlocksFrom (blockSize : Nat) (tokenIds : List Token) : List Nat → Int → Except PyError (List Int)
  | [], _ => pure []
  | offset :: rest, parentHash =>
      let block := slice tokenIds offset (offset + blockSize)
      if block.length ≠ blockSize then pure []
      else do
        let blockHash ← computeBlockHash block parentHash
        let later ← hashBlocksFrom blockSize tokenIds rest blockHash
        pure (blockHash :: later)

-- `_build_block_hashes`
def hashBlocks (blockSize : Nat) (tokenIds : List Token) : Except PyError (List Int) :=
  hashBlocksFrom computeBlockHash blockSize tokenIds (range 0 tokenIds.length blockSize) (-1)

-- `Sequence.__init__`
def create (seqId : SeqId) (tokenIds : List Token) (samplingParams : SamplingParams) (blockSize : Nat) :
    Except PyError Sequence := do
  require (0 < blockSize) (.assertionError .sequence "block_size > 0")
  match tokenIds.getLast? with
  | none => throw (.indexError "list index out of range")
  | some lastToken => do
      let blockHashes ← hashBlocks computeBlockHash blockSize tokenIds
      pure
        { seqId
          blockSize
          status := .waiting
          tokenIds
          lastToken
          numTokens := tokenIds.length
          numPromptTokens := tokenIds.length
          blockHashes
          numCachedTokens := 0
          numNewTokens := 0
          blockTable := []
          temperature := samplingParams.temperature
          maxTokens := samplingParams.maxTokens
          ignoreEos := samplingParams.ignoreEos }

-- The first half of `append_token`, up to the hash of the block that the token completes.
def boundaryHash (seq : Sequence) (tokenId : Token) (nextNumTokens : Nat) : Except PyError (Option Int) := do
  if nextNumTokens % seq.blockSize = 0 then
    let blockIndex := nextNumTokens / seq.blockSize - 1
    require (blockIndex = seq.blockHashes.length)
      (.assertionError .sequence "block_index == len(self.block_hashes)")
    let blockStart := blockIndex * seq.blockSize
    let tokenIds := seq.tokenIds.drop blockStart ++ [tokenId]
    require (tokenIds.length = seq.blockSize)
      (.assertionError .sequence "len(token_ids) == self.block_size")
    let parentHash := seq.blockHashes.getLast?.getD (-1)
    let blockHash ← computeBlockHash tokenIds parentHash
    pure (some blockHash)
  else
    pure none

-- `append_token`
def append (tokenId : Token) : EStateM PyError Sequence Unit := do
  let seq ← get
  require (seq.numTokens = seq.tokenIds.length)
    (.assertionError .sequence "self.num_tokens == len(self.token_ids)")
  let nextNumTokens := seq.numTokens + 1
  let nextBlockHash ← ofExcept (seq.boundaryHash computeBlockHash tokenId nextNumTokens)
  set { seq with
    tokenIds := seq.tokenIds ++ [tokenId]
    lastToken := tokenId
    numTokens := nextNumTokens }
  let seq ← get
  require (seq.numTokens = seq.tokenIds.length)
    (.assertionError .sequence "self.num_tokens == len(self.token_ids)")
  match nextBlockHash with
  | none => pure ()
  | some blockHash => set { seq with blockHashes := seq.blockHashes ++ [blockHash] }

end

-- `__getstate__`
def getstate (seq : Sequence) : SequenceState :=
  { blockSize' := some seq.blockSize
    blockSize := none
    blockHashes := some seq.blockHashes
    seqId := seq.seqId
    status := seq.status
    tokenIds := seq.tokenIds
    lastToken := seq.lastToken
    numTokens := seq.numTokens
    numPromptTokens := seq.numPromptTokens
    numCachedTokens := seq.numCachedTokens
    numNewTokens := seq.numNewTokens
    blockTable := seq.blockTable
    temperature := seq.temperature
    maxTokens := seq.maxTokens
    ignoreEos := seq.ignoreEos }

-- The state of the same sequence in the earlier class.
def legacyState (seq : Sequence) : SequenceState :=
  { seq.getstate with
    blockSize' := none
    blockSize := some seq.blockSize
    blockHashes := none }

-- `__setstate__`, on an object without attributes
def setstate (computeBlockHash : BlockHash) (state : SequenceState) : Except PyError Sequence := do
  let blockSize ← match state.blockSize', state.blockSize with
    | some blockSize, _ => pure blockSize
    | none, some blockSize => pure blockSize
    | none, none => throw .keyError
  let blockHashes ← match state.blockHashes with
    | some blockHashes => pure blockHashes
    | none => hashBlocks computeBlockHash blockSize state.tokenIds
  pure
    { seqId := state.seqId
      blockSize
      status := state.status
      tokenIds := state.tokenIds
      lastToken := state.lastToken
      numTokens := state.numTokens
      numPromptTokens := state.numPromptTokens
      blockHashes
      numCachedTokens := state.numCachedTokens
      numNewTokens := state.numNewTokens
      blockTable := state.blockTable
      temperature := state.temperature
      maxTokens := state.maxTokens
      ignoreEos := state.ignoreEos }

-- `pickle.loads` of a pickled state: the object that it builds takes the place of the old one.
def restore {β : Type} (pickle : Pickle SequenceState β) (computeBlockHash : BlockHash)
    (stateOf : Sequence → SequenceState) : EStateM PyError Sequence Unit := do
  let seq ← get
  match pickle.loads (pickle.dumps (stateOf seq)) with
  | none => throw (.valueError "pickle data was truncated")
  | some state => do
      let restored ← ofExcept (setstate computeBlockHash state)
      set restored

end Sequence

end NanoVllm
