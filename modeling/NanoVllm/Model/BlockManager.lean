import Mathlib.Data.Finset.Card
import NanoVllm.Model.Sequence

set_option autoImplicit false

namespace NanoVllm

open Python Raising

structure Block where
  blockId : BlockId
  refCount : Int
  generation : Nat
  hash : Int
  lineageBlockId : Int
  lineageGeneration : Int
  parentBlockId : Int
  parentGeneration : Int
  tokenIds : List Token
  deriving DecidableEq, Repr, Inhabited

namespace Block

def init (blockId : BlockId) : Block :=
  { blockId
    refCount := 0
    generation := 0
    hash := -1
    lineageBlockId := -1
    lineageGeneration := -1
    parentBlockId := -1
    parentGeneration := -1
    tokenIds := [] }

def update (block : Block) (hash : Int) (tokenIds : List Token) (lineage parent : Int × Int) : Block :=
  { block with
    hash
    lineageBlockId := lineage.1
    lineageGeneration := lineage.2
    parentBlockId := parent.1
    parentGeneration := parent.2
    tokenIds }

def reset (block : Block) : Block :=
  { block with
    refCount := 1
    generation := block.generation + 1
    hash := -1
    lineageBlockId := block.blockId
    lineageGeneration := (block.generation + 1 : Nat)
    parentBlockId := -1
    parentGeneration := -1
    tokenIds := [] }

def lineage (block : Block) : Int × Int := (block.lineageBlockId, block.lineageGeneration)

def parent (block : Block) : Int × Int := (block.parentBlockId, block.parentGeneration)

end Block

/-- `blocks` is the list of `num_blocks` blocks, by position. -/
structure BlockManager where
  blockSize : Nat
  numBlocks : Nat
  blocks : BlockId → Block
  hashToBlockId : Dict Int BlockId
  freeBlockIds : List BlockId
  usedBlockIds : Finset BlockId

-- The two objects that a BlockManager method on a sequence can change.
structure Frame where
  manager : BlockManager
  seq : Sequence

abbrev Manage := EStateM PyError BlockManager
abbrev Method := EStateM PyError Frame

namespace BlockManager

def onManager {α : Type} : Manage α → Method α :=
  zoom Frame.manager (fun f m => { f with manager := m })

def raised (text : String) : PyError := .assertionError .blockManager text

def init (numBlocks blockSize : Nat) : Except PyError BlockManager := do
  require (0 < blockSize) (raised "block_size > 0")
  pure
    { blockSize
      numBlocks
      blocks := Block.init
      hashToBlockId := Dict.empty
      freeBlockIds := List.range numBlocks
      usedBlockIds := ∅ }

-- `self.blocks[block_id]`
def getBlock (m : BlockManager) (blockId : BlockId) : Except PyError Block :=
  if blockId < m.numBlocks then .ok (m.blocks blockId) else .error (.indexError "list index out of range")

def setBlock (m : BlockManager) (blockId : BlockId) (block : Block) : BlockManager :=
  { m with blocks := Function.update m.blocks blockId block }

def assertBlockSize (m : BlockManager) (seq : Sequence) : Except PyError Unit :=
  require (seq.blockSize = m.blockSize) (raised
    s!"sequence block size {seq.blockSize} does not match manager block size {m.blockSize}")

-- `none` stands for the block id -1.
def lineage (m : BlockManager) : Option BlockId → Except PyError (Int × Int)
  | none => pure (-1, -1)
  | some blockId => do
      require (blockId < m.numBlocks) (raised "0 <= block_id < len(self.blocks)")
      let block := m.blocks blockId
      require (block.hash ≠ -1) (raised "block.hash != -1")
      require (block.lineageBlockId ≠ -1) (raised "block.lineage_block_id != -1")
      require (block.lineageGeneration ≠ -1) (raised "block.lineage_generation != -1")
      pure (block.lineageBlockId, block.lineageGeneration)

-- The lineage `_publish_full_block` gives to a block: its own page and generation, or that of
-- the owner of the hash when the owner holds the same tokens under the same parent.
def publishedLineage (m : BlockManager) (block : Block) (blockHash : Int) (tokenIds : List Token)
    (parent : Int × Int) : Int × Int :=
  match m.hashToBlockId blockHash with
  | none => (block.blockId, block.generation)
  | some ownerId =>
      if ownerId < m.numBlocks then
        let owner := m.blocks ownerId
        let ownerIsFree := decide (ownerId ∈ m.freeBlockIds)
        let ownerIsUsed := decide (ownerId ∈ m.usedBlockIds)
        let ownerIsResident := ownerIsFree != ownerIsUsed &&
          (ownerIsFree && decide (owner.refCount = 0) || ownerIsUsed && decide (owner.refCount > 0))
        if ownerIsResident ∧ owner.hash = blockHash ∧ owner.tokenIds = tokenIds ∧
            owner.parentBlockId = parent.1 ∧ owner.parentGeneration = parent.2 then
          (owner.lineageBlockId, owner.lineageGeneration)
        else (block.blockId, block.generation)
      else (block.blockId, block.generation)

def publishFullBlock (m : BlockManager) (blockId : BlockId) (blockHash : Int) (tokenIds : List Token)
    (parent : Int × Int) : BlockManager :=
  let block := m.blocks blockId
  let lineage := m.publishedLineage block blockHash tokenIds parent
  { m.setBlock blockId (block.update blockHash tokenIds lineage parent) with
    hashToBlockId := m.hashToBlockId.insert blockHash block.blockId }

def removeFree (blockId : BlockId) : Manage Unit := do
  let m ← get
  require (blockId ∈ m.freeBlockIds) (PyError.valueError "deque.remove(x): x not in deque")
  set { m with freeBlockIds := m.freeBlockIds.erase blockId }

def allocateBlock (blockId : BlockId) : Manage Unit := do
  let m ← get
  let block ← ofExcept (m.getBlock blockId)
  require (block.refCount = 0) (raised "block.ref_count == 0")
  if m.hashToBlockId block.hash = some blockId then
    set { m with hashToBlockId := m.hashToBlockId.pop block.hash }
  modify (fun m => m.setBlock blockId block.reset)
  removeFree blockId
  modify (fun m => { m with usedBlockIds := insert blockId m.usedBlockIds })

def claimCachedFreeBlock (blockId : BlockId) : Manage Unit := do
  let m ← get
  let block ← ofExcept (m.getBlock blockId)
  require (block.refCount = 0) (raised "block.ref_count == 0")
  require (blockId ∈ m.freeBlockIds) (raised "block_id in self.free_block_ids")
  require (blockId ∉ m.usedBlockIds) (raised "block_id not in self.used_block_ids")
  set (m.setBlock blockId { block with refCount := 1 })
  removeFree blockId
  modify (fun m => { m with usedBlockIds := insert blockId m.usedBlockIds })

def deallocateBlock (blockId : BlockId) : Manage Unit := do
  let m ← get
  let block ← ofExcept (m.getBlock blockId)
  require (block.refCount = 0) (raised "self.blocks[block_id].ref_count == 0")
  require (blockId ∈ m.usedBlockIds) PyError.keyError
  set { m with
    usedBlockIds := m.usedBlockIds.erase blockId
    freeBlockIds := m.freeBlockIds ++ [blockId] }

def numBlocksRequiredForAdmission (m : BlockManager) (prefixBlockIds : List BlockId) (numNewTokens : Nat) :
    Except PyError Nat := do
  require (prefixBlockIds.toFinset.card = prefixBlockIds.length)
    (raised "len(set(prefix_block_ids)) == len(prefix_block_ids)")
  let cachedFreeBlocks := prefixBlockIds.countP (fun blockId => decide (blockId ∈ m.freeBlockIds))
  let newSuffixBlocks := pagesFor m.blockSize numNewTokens
  pure (cachedFreeBlocks + newSuffixBlocks)

def validateClaimedPrefixFrom (m : BlockManager) (seq : Sequence) :
    Nat → Option BlockId → List BlockId → Except PyError Unit
  | _, _, [] => pure ()
  | blockIndex, previousBlockId, blockId :: rest => do
      require (blockId < m.numBlocks) (raised "0 <= block_id < len(self.blocks)")
      let tokenIds ← seq.block blockIndex
      require (tokenIds.length = m.blockSize) (raised "len(token_ids) == self.block_size")
      let blockHash ← seq.blockHash blockIndex
      let parent ← m.lineage previousBlockId
      let block := m.blocks blockId
      require (blockId ∈ m.usedBlockIds) (raised "block_id in self.used_block_ids")
      require (blockId ∉ m.freeBlockIds) (raised "block_id not in self.free_block_ids")
      require (block.refCount > 0) (raised "block.ref_count > 0")
      require (block.hash = blockHash) (raised "block.hash == block_hash")
      require (block.tokenIds = tokenIds) (raised "block.token_ids == token_ids")
      require (block.lineageBlockId ≠ -1) (raised "block.lineage_block_id != -1")
      require (block.lineageGeneration ≠ -1) (raised "block.lineage_generation != -1")
      require (block.parentBlockId = parent.1) (raised "block.parent_block_id == parent_block_id")
      require (block.parentGeneration = parent.2) (raised "block.parent_generation == parent_generation")
      validateClaimedPrefixFrom m seq (blockIndex + 1) (some blockId) rest

def validateClaimedPrefix (m : BlockManager) (seq : Sequence) : Except PyError Unit := do
  require (seq.numCachedTokens = seq.blockTable.length * m.blockSize)
    (raised "seq.num_cached_tokens == len(seq.block_table) * self.block_size")
  validateClaimedPrefixFrom m seq 0 none seq.blockTable

def matchPrefixFrom (m : BlockManager) (seq : Sequence) :
    List Nat → Option BlockId → List BlockId → Except PyError (List BlockId)
  | [], _, matched => pure matched
  | blockIndex :: rest, previousBlockId, matched => do
      let tokenIds ← seq.block blockIndex
      if tokenIds.length ≠ m.blockSize then pure matched
      else
        let blockHash ← seq.blockHash blockIndex
        match m.hashToBlockId blockHash with
        | none => pure matched
        | some blockId =>
            if ¬blockId < m.numBlocks then pure matched
            else
              let block := m.blocks blockId
              let parent ← m.lineage previousBlockId
              let isFree := decide (blockId ∈ m.freeBlockIds)
              let isUsed := decide (blockId ∈ m.usedBlockIds)
              if block.hash ≠ blockHash ∨ block.tokenIds ≠ tokenIds ∨
                  block.parentBlockId ≠ parent.1 ∨ block.parentGeneration ≠ parent.2 ∨
                  blockId ∈ seq.blockTable ∨ blockId ∈ matched ∨ isFree = isUsed ∨
                  (isFree = true ∧ block.refCount ≠ 0) ∨ (isUsed = true ∧ block.refCount ≤ 0) then
                pure matched
              else
                matchPrefixFrom m seq rest (some blockId) (matched ++ [blockId])

def matchPrefix (m : BlockManager) (seq : Sequence) (maxBlocks : Option Nat := none) :
    Except PyError (List BlockId) := do
  m.assertBlockSize seq
  m.validateClaimedPrefix seq
  let start := seq.blockTable.length
  let stop := max start (seq.numBlocks - 1)
  let stop := match maxBlocks with
    | none => stop
    | some limit => min stop (start + limit)
  matchPrefixFrom m seq (List.range' start (stop - start)) seq.blockTable.getLast? []

-- The checks of `claim_prefix`, and whether each planned block is cached-free.
def claimsFrom (m : BlockManager) (seq : Sequence) :
    Nat → Option BlockId → List BlockId → Except PyError (List (BlockId × Bool))
  | _, _, [] => pure []
  | blockIndex, previousBlockId, blockId :: rest => do
      require (blockIndex < seq.numBlocks - 1) (raised "block_index < seq.num_blocks - 1")
      require (blockId < m.numBlocks) (raised "0 <= block_id < len(self.blocks)")
      let tokenIds ← seq.block blockIndex
      require (tokenIds.length = m.blockSize) (raised "len(token_ids) == self.block_size")
      let blockHash ← seq.blockHash blockIndex
      let parent ← m.lineage previousBlockId
      require (m.hashToBlockId blockHash = some blockId) (raised "prefix plan is stale: hash mapping changed")
      let block := m.blocks blockId
      let isFree := decide (blockId ∈ m.freeBlockIds)
      let isUsed := decide (blockId ∈ m.usedBlockIds)
      require (isFree ≠ isUsed) (raised "prefix plan is stale: block state changed")
      require (block.hash = blockHash) (raised "prefix plan is stale: hash changed")
      require (block.tokenIds = tokenIds) (raised "prefix plan is stale: tokens changed")
      require (¬(block.parentBlockId ≠ parent.1 ∨ block.parentGeneration ≠ parent.2))
        (raised "prefix plan is stale: lineage changed")
      require ((isFree = true ∧ block.refCount = 0) ∨ (isUsed = true ∧ block.refCount > 0))
        (raised "prefix plan is stale: reference count changed")
      let claims ← claimsFrom m seq (blockIndex + 1) (some blockId) rest
      pure ((blockId, isFree) :: claims)

def claimBlock (claim : BlockId × Bool) : Method Unit := do
  if claim.2 then
    onManager (claimCachedFreeBlock claim.1)
  else
    let f ← get
    let block ← ofExcept (f.manager.getBlock claim.1)
    set { f with manager := f.manager.setBlock claim.1 { block with refCount := block.refCount + 1 } }
  modify (fun f => { f with seq := { f.seq with
    blockTable := f.seq.blockTable ++ [claim.1]
    numCachedTokens := f.seq.numCachedTokens + f.manager.blockSize } })

def claimPrefix (blockIds : List BlockId) : Method Unit := do
  let f ← get
  ofExcept (f.manager.assertBlockSize f.seq)
  ofExcept (f.manager.validateClaimedPrefix f.seq)
  require (blockIds.toFinset.card = blockIds.length) (raised "len(set(planned)) == len(planned)")
  let claims ← ofExcept
    (f.manager.claimsFrom f.seq f.seq.blockTable.length f.seq.blockTable.getLast? blockIds)
  forEach claimBlock claims

-- `self.free_block_ids[0]`
def firstFree (m : BlockManager) : Except PyError BlockId :=
  match m.freeBlockIds with
  | [] => .error (.indexError "deque index out of range")
  | blockId :: _ => .ok blockId

-- Take the first free block for the end of the block table.
def appendFreeBlock : Method BlockId := do
  let f ← get
  let blockId ← ofExcept f.manager.firstFree
  onManager (allocateBlock blockId)
  modify (fun f => { f with seq := { f.seq with blockTable := f.seq.blockTable ++ [blockId] } })
  pure blockId

def publish (blockId : BlockId) (blockHash : Int) (tokenIds : List Token) (parent : Int × Int) : Method Unit :=
  modify (fun f => { f with manager := f.manager.publishFullBlock blockId blockHash tokenIds parent })

def allocateNewPage (contextEnd i : Nat) : Method Unit := do
  let f ← get
  let m := f.manager
  let seq := f.seq
  let parent ← ofExcept (m.lineage seq.blockTable.getLast?)
  let tokenIds := slice seq.tokenIds i (min (i + m.blockSize) contextEnd)
  if tokenIds.length = m.blockSize then
    let blockHash ← ofExcept (seq.blockHash (i / m.blockSize))
    let blockId ← ofExcept m.firstFree
    onManager (allocateBlock blockId)
    if blockHash ≠ -1 then
      publish blockId blockHash tokenIds parent
    modify (fun f => { f with seq := { f.seq with blockTable := f.seq.blockTable ++ [blockId] } })
  else
    let _ ← appendFreeBlock

def allocateNew : Method Unit := do
  let f ← get
  let m := f.manager
  let seq := f.seq
  ofExcept (m.assertBlockSize seq)
  ofExcept (m.validateClaimedPrefix seq)
  let contextEnd := seq.numCachedTokens + seq.numNewTokens
  require (contextEnd ≤ seq.numTokens) (raised "context_end <= len(seq)")
  let requiredBlocks := pagesFor m.blockSize seq.numNewTokens
  require (requiredBlocks ≤ m.freeBlockIds.length) (raised "required_blocks <= len(self.free_block_ids)")
  forEach (allocateNewPage contextEnd) (range seq.numCachedTokens contextEnd m.blockSize)

def releaseBlock (blockId : BlockId) : Manage Unit := do
  let m ← get
  let block ← ofExcept (m.getBlock blockId)
  let refCount := block.refCount - 1
  set (m.setBlock blockId { block with refCount })
  if refCount = 0 then
    deallocateBlock blockId

def deallocate : Method Unit := do
  let f ← get
  ofExcept (f.manager.assertBlockSize f.seq)
  forEach (fun blockId => onManager (releaseBlock blockId)) f.seq.blockTable.reverse
  modify (fun f => { f with seq := { f.seq with
    numCachedTokens := 0
    numNewTokens := 0
    blockTable := [] } })

def numBlocksToAppend (m : BlockManager) (seq : Sequence) (numNewTokens : Nat) : Except PyError Nat := do
  m.assertBlockSize seq
  let targetBlocks := pagesFor m.blockSize (seq.numCachedTokens + numNewTokens)
  pure (targetBlocks - seq.blockTable.length)

-- The lineage of the page before `block_index` in the block table.
def lineageAt (m : BlockManager) (table : List BlockId) (blockIndex : Nat) : Except PyError (Int × Int) :=
  if blockIndex = 0 then m.lineage none
  else match table[blockIndex - 1]? with
    | none => .error (.indexError "list index out of range")
    | some blockId => m.lineage (some blockId)

def mayAppendPage (i : Nat) : Method Unit := do
  let f ← get
  let m := f.manager
  let seq := f.seq
  let blockIndex := i / m.blockSize
  let parent ← ofExcept (m.lineageAt seq.blockTable blockIndex)
  let tokenIds := slice seq.tokenIds i (min (i + m.blockSize) (seq.numCachedTokens + seq.numNewTokens))
  let currentBlockId := seq.blockTable[blockIndex]?
  match currentBlockId with
  | some blockId => do
      let currentBlock ← ofExcept (m.getBlock blockId)
      require (currentBlock.hash = -1) (raised "current_block.hash == -1")
      if tokenIds.length = m.blockSize then
        let h ← ofExcept (seq.blockHash blockIndex)
        publish blockId h tokenIds parent
  | none => do
      if tokenIds.length = m.blockSize then
        let h ← ofExcept (seq.blockHash blockIndex)
        let blockId ← appendFreeBlock
        publish blockId h tokenIds parent
      else
        let _ ← appendFreeBlock

def mayAppend : Method Unit := do
  let f ← get
  let m := f.manager
  let seq := f.seq
  ofExcept (m.assertBlockSize seq)
  forEach mayAppendPage
    (range (seq.numCachedBlocks * m.blockSize) (seq.numCachedTokens + seq.numNewTokens) m.blockSize)

end BlockManager

end NanoVllm
