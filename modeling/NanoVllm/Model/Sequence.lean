import Mathlib.Data.Rat.Defs
import Mathlib.Algebra.Order.Ring.Rat
import NanoVllm.Shared.Python
import NanoVllm.Shared.Raising

set_option autoImplicit false

namespace NanoVllm

open Python Raising

abbrev Token := Int
abbrev BlockId := Nat
abbrev SeqId := Nat

inductive Origin where
  | sequence
  | blockManager
  | scheduler
  | modelRunner
  | attentionBackend
  | attention
  | benchmark
  deriving DecidableEq, Repr

/-- An `assert` without a message carries the asserted expression. -/
inductive PyError where
  | assertionError (origin : Origin) (text : String)
  | valueError (text : String)
  | runtimeError (text : String)
  | indexError (text : String)
  | typeError (text : String)
  | notImplementedError (text : String)
  | keyError
  | zeroDivisionError
  | overflowError (text : String)
  deriving DecidableEq, Repr

structure SamplingParams where
  temperature : Rat := 1
  maxTokens : Nat := 64
  ignoreEos : Bool := false
  temperature_pos : 1 / 10 ^ 10 < temperature := by norm_num
  maxTokens_pos : 0 < maxTokens := by decide

/-- `xxh64` of the tokens of a block after the digest of its parent (-1 at the root). -/
abbrev XxHash := List Token → Int → UInt64

def computeBlockHash (xxh64 : XxHash) (tokenIds : List Token) (parentHash : Int) : Int :=
  ((xxh64 tokenIds parentHash).toNat : Int)

inductive SequenceStatus where
  | waiting
  | running
  | finished
  deriving DecidableEq, Repr, Inhabited

structure Sequence where
  seqId : SeqId
  blockSize : Nat
  status : SequenceStatus
  tokenIds : List Token
  lastToken : Token
  numTokens : Nat
  numPromptTokens : Nat
  blockHashes : List Int
  numCachedTokens : Nat
  numNewTokens : Nat
  blockTable : List BlockId
  temperature : Rat
  maxTokens : Nat
  ignoreEos : Bool
  deriving Inhabited

namespace Sequence

def buildBlockHashesFrom (xxh64 : XxHash) (blockSize : Nat) (tokenIds : List Token) :
    List Nat → Int → List Int
  | [], _ => []
  | offset :: rest, parentHash =>
      let block := slice tokenIds offset (offset + blockSize)
      if block.length ≠ blockSize then []
      else
        let blockHash := computeBlockHash xxh64 block parentHash
        blockHash :: buildBlockHashesFrom xxh64 blockSize tokenIds rest blockHash

def buildBlockHashes (xxh64 : XxHash) (blockSize : Nat) (tokenIds : List Token) : List Int :=
  buildBlockHashesFrom xxh64 blockSize tokenIds (range 0 tokenIds.length blockSize) (-1)

def init (xxh64 : XxHash) (seqId : SeqId) (tokenIds : List Token) (samplingParams : SamplingParams)
    (blockSize : Nat) : Except PyError Sequence := do
  require (0 < blockSize) (.assertionError .sequence "block_size > 0")
  match tokenIds.getLast? with
  | none => throw (.indexError "list index out of range")
  | some lastToken =>
      pure
        { seqId
          blockSize
          status := .waiting
          tokenIds
          lastToken
          numTokens := tokenIds.length
          numPromptTokens := tokenIds.length
          blockHashes := buildBlockHashes xxh64 blockSize tokenIds
          numCachedTokens := 0
          numNewTokens := 0
          blockTable := []
          temperature := samplingParams.temperature
          maxTokens := samplingParams.maxTokens
          ignoreEos := samplingParams.ignoreEos }

def isFinished (seq : Sequence) : Bool := seq.status = .finished

def numCompletionTokens (seq : Sequence) : Nat := seq.numTokens - seq.numPromptTokens

def numContextTokens (seq : Sequence) : Nat := seq.numCachedTokens + seq.numNewTokens

def completionTokenIds (seq : Sequence) : List Token := seq.tokenIds.drop seq.numPromptTokens

def numCachedBlocks (seq : Sequence) : Nat := seq.numCachedTokens / seq.blockSize

def numBlocks (seq : Sequence) : Nat := pagesFor seq.blockSize seq.numTokens

def block (seq : Sequence) (i : Nat) : Except PyError (List Token) := do
  require (i < seq.numBlocks) (.assertionError .sequence "0 <= i < self.num_blocks")
  pure (slice seq.tokenIds (i * seq.blockSize) ((i + 1) * seq.blockSize))

def blockHash (seq : Sequence) (i : Nat) : Except PyError Int :=
  match seq.blockHashes[i]? with
  | some h => .ok h
  | none => .error (.indexError "list index out of range")

def nextBlockHash (xxh64 : XxHash) (seq : Sequence) (tokenId : Token) (nextNumTokens : Nat) :
    Except PyError (Option Int) := do
  if nextNumTokens % seq.blockSize = 0 then
    let blockIndex := nextNumTokens / seq.blockSize - 1
    require (blockIndex = seq.blockHashes.length)
      (.assertionError .sequence "block_index == len(self.block_hashes)")
    let blockStart := blockIndex * seq.blockSize
    let tokenIds := seq.tokenIds.drop blockStart ++ [tokenId]
    require (tokenIds.length = seq.blockSize)
      (.assertionError .sequence "len(token_ids) == self.block_size")
    let parentHash := seq.blockHashes.getLast?.getD (-1)
    pure (some (computeBlockHash xxh64 tokenIds parentHash))
  else
    pure none

def appendToken (xxh64 : XxHash) (tokenId : Token) : EStateM PyError Sequence Unit := do
  let seq ← get
  require (seq.numTokens = seq.tokenIds.length)
    (.assertionError .sequence "self.num_tokens == len(self.token_ids)")
  let nextNumTokens := seq.numTokens + 1
  let nextBlockHash ← ofExcept (seq.nextBlockHash xxh64 tokenId nextNumTokens)
  set { seq with
    tokenIds := seq.tokenIds ++ [tokenId]
    lastToken := tokenId
    numTokens := nextNumTokens }
  let seq ← get
  require (seq.numTokens = seq.tokenIds.length)
    (.assertionError .sequence "self.num_tokens == len(self.token_ids)")
  match nextBlockHash with
  | none => pure ()
  | some blockHash => set { seq with blockHashes := seq.blockHashes ++ [blockHash] }

end Sequence

end NanoVllm
