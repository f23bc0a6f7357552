import NanoVllm.Model.BlockManager

set_option autoImplicit false

namespace NanoVllm

open Python Raising

def Block.content (block : Block) : Block := { block with refCount := 0 }

theorem Block.content_eq {a b : Block} (same : a.content = b.content) :
    a.generation = b.generation ∧ a.hash = b.hash ∧ a.lineage = b.lineage ∧ a.parent = b.parent ∧
      a.tokenIds = b.tokenIds := by
  cases a
  cases b
  simp_all [Block.content, Block.lineage, Block.parent]

def Block.published (block : Block) : Prop := block.hash ≠ -1

instance (block : Block) : Decidable block.published := inferInstanceAs (Decidable (block.hash ≠ -1))

namespace BlockManager

-- What `_allocate_block` leaves.
def acquire (m : BlockManager) (b : BlockId) : BlockManager :=
  { m with
    blocks := Function.update m.blocks b (m.blocks b).reset
    hashToBlockId := if m.hashToBlockId (m.blocks b).hash = some b then
      m.hashToBlockId.pop (m.blocks b).hash else m.hashToBlockId
    freeBlockIds := m.freeBlockIds.erase b
    usedBlockIds := insert b m.usedBlockIds }

def share (m : BlockManager) (b : BlockId) : BlockManager :=
  if b ∈ m.freeBlockIds then
    { m with
      blocks := Function.update m.blocks b { m.blocks b with refCount := 1 }
      freeBlockIds := m.freeBlockIds.erase b
      usedBlockIds := insert b m.usedBlockIds }
  else
    { m with blocks := Function.update m.blocks b { m.blocks b with refCount := (m.blocks b).refCount + 1 } }

-- What `deallocate` does to one page.
def release (m : BlockManager) (b : BlockId) : BlockManager :=
  let dropped := Function.update m.blocks b { m.blocks b with refCount := (m.blocks b).refCount - 1 }
  if (m.blocks b).refCount = 1 then
    { m with
      blocks := dropped
      freeBlockIds := m.freeBlockIds ++ [b]
      usedBlockIds := m.usedBlockIds.erase b }
  else { m with blocks := dropped }

section Fields

variable (m : BlockManager) (b : BlockId)

@[simp] theorem acquire_blockSize : (m.acquire b).blockSize = m.blockSize := rfl
@[simp] theorem acquire_numBlocks : (m.acquire b).numBlocks = m.numBlocks := rfl
@[simp] theorem acquire_free : (m.acquire b).freeBlockIds = m.freeBlockIds.erase b := rfl
@[simp] theorem acquire_used : (m.acquire b).usedBlockIds = insert b m.usedBlockIds := rfl
@[simp] theorem acquire_blocks :
    (m.acquire b).blocks = Function.update m.blocks b (m.blocks b).reset := rfl

@[simp] theorem share_blockSize : (m.share b).blockSize = m.blockSize := by unfold share; split <;> rfl
@[simp] theorem share_numBlocks : (m.share b).numBlocks = m.numBlocks := by unfold share; split <;> rfl
@[simp] theorem share_index : (m.share b).hashToBlockId = m.hashToBlockId := by unfold share; split <;> rfl

@[simp] theorem release_blockSize : (m.release b).blockSize = m.blockSize := by
  unfold release; dsimp only; split <;> rfl
@[simp] theorem release_numBlocks : (m.release b).numBlocks = m.numBlocks := by
  unfold release; dsimp only; split <;> rfl
@[simp] theorem release_index : (m.release b).hashToBlockId = m.hashToBlockId := by
  unfold release; dsimp only; split <;> rfl

theorem share_content (a : BlockId) : ((m.share b).blocks a).content = (m.blocks a).content := by
  unfold share
  split <;> by_cases same : a = b <;> simp [Function.update, same, Block.content]

theorem release_content (a : BlockId) : ((m.release b).blocks a).content = (m.blocks a).content := by
  unfold release
  dsimp only
  split <;> by_cases same : a = b <;> simp [Function.update, same, Block.content]

variable (blockHash : Int) (tokenIds : List Token) (parent : Int × Int)

@[simp] theorem publish_blockSize :
    (m.publishFullBlock b blockHash tokenIds parent).blockSize = m.blockSize := rfl
@[simp] theorem publish_numBlocks :
    (m.publishFullBlock b blockHash tokenIds parent).numBlocks = m.numBlocks := rfl
@[simp] theorem publish_free :
    (m.publishFullBlock b blockHash tokenIds parent).freeBlockIds = m.freeBlockIds := rfl
@[simp] theorem publish_used :
    (m.publishFullBlock b blockHash tokenIds parent).usedBlockIds = m.usedBlockIds := rfl
@[simp] theorem publish_index :
    (m.publishFullBlock b blockHash tokenIds parent).hashToBlockId =
      m.hashToBlockId.insert blockHash (m.blocks b).blockId := rfl
@[simp] theorem publish_blocks :
    (m.publishFullBlock b blockHash tokenIds parent).blocks =
      Function.update m.blocks b ((m.blocks b).update blockHash tokenIds
        (m.publishedLineage (m.blocks b) blockHash tokenIds parent) parent) := rfl

end Fields

section Runs

variable {m : BlockManager} {b : BlockId}

theorem getBlock_of_lt (within : b < m.numBlocks) : m.getBlock b = .ok (m.blocks b) := by
  simp [getBlock, within]

theorem removeFree_run (free : b ∈ m.freeBlockIds) :
    removeFree b m = .ok () { m with freeBlockIds := m.freeBlockIds.erase b } := by
  simp only [removeFree, run_get_bind, run_require_bind free, run_set]

theorem allocateBlock_run (within : b < m.numBlocks) (unreferenced : (m.blocks b).refCount = 0)
    (free : b ∈ m.freeBlockIds) : allocateBlock b m = .ok () (m.acquire b) := by
  simp only [allocateBlock, run_get_bind, run_ofExcept_bind (getBlock_of_lt within),
    run_require_bind unreferenced]
  split
  next owner =>
    simp only [run_set_bind, run_modify_bind]
    rw [bind_ok (removeFree_run (by exact free))]
    simp [acquire, owner, setBlock]
  next other =>
    simp only [run_modify_bind]
    rw [bind_ok (removeFree_run (by exact free))]
    simp [acquire, other, setBlock]

theorem claimCachedFreeBlock_run (within : b < m.numBlocks) (unreferenced : (m.blocks b).refCount = 0)
    (free : b ∈ m.freeBlockIds) (unused : b ∉ m.usedBlockIds) :
    claimCachedFreeBlock b m = .ok () (m.share b) := by
  simp only [claimCachedFreeBlock, run_get_bind, run_ofExcept_bind (getBlock_of_lt within),
    run_require_bind unreferenced, run_require_bind free, run_require_bind unused, run_set_bind]
  rw [bind_ok (removeFree_run (by exact free))]
  simp [share, free, setBlock]

theorem releaseBlock_run (within : b < m.numBlocks) (used : b ∈ m.usedBlockIds) :
    releaseBlock b m = .ok () (m.release b) := by
  simp only [releaseBlock, run_get_bind, run_ofExcept_bind (getBlock_of_lt within), run_set_bind]
  have last : (m.blocks b).refCount - 1 = 0 ↔ (m.blocks b).refCount = 1 := by omega
  simp only [last]
  split
  next final =>
    have within' : b < (m.setBlock b { m.blocks b with refCount := (m.blocks b).refCount - 1 }).numBlocks :=
      within
    have dropped : ((m.setBlock b { m.blocks b with refCount := (m.blocks b).refCount - 1 }).blocks b).refCount
        = 0 := by simp [setBlock, final]
    simp only [deallocateBlock, run_get_bind, run_ofExcept_bind (getBlock_of_lt within'),
      run_require_bind dropped]
    rw [run_require_bind (by exact used)]
    simp [release, final, setBlock]
  next shared =>
    simp [release, shared, setBlock]

end Runs

end BlockManager

namespace Frame

def share (f : Frame) (b : BlockId) : Frame :=
  { manager := f.manager.share b
    seq := { f.seq with
      blockTable := f.seq.blockTable ++ [b]
      numCachedTokens := f.seq.numCachedTokens + f.manager.blockSize } }

def grow (f : Frame) (b : BlockId) : Frame :=
  { manager := f.manager.acquire b
    seq := { f.seq with blockTable := f.seq.blockTable ++ [b] } }

end Frame

namespace BlockManager

theorem onManager_ok {α : Type} {x : Manage α} {f : Frame} {a : α} {m : BlockManager}
    (run : x f.manager = .ok a m) : onManager x f = .ok a { f with manager := m } :=
  zoom_ok run

theorem claimBlock_run {f : Frame} {b : BlockId} (within : b < f.manager.numBlocks)
    (resident : b ∈ f.manager.freeBlockIds → (f.manager.blocks b).refCount = 0 ∧ b ∉ f.manager.usedBlockIds) :
    claimBlock (b, decide (b ∈ f.manager.freeBlockIds)) f = .ok () (f.share b) := by
  unfold claimBlock
  by_cases free : b ∈ f.manager.freeBlockIds
  next =>
    obtain ⟨unreferenced, unused⟩ := resident free
    simp only [free, decide_true, if_true]
    rw [bind_ok (onManager_ok (claimCachedFreeBlock_run within unreferenced free unused))]
    simp [Frame.share]
  next =>
    simp only [free, decide_false, Bool.false_eq_true, if_false, run_get_bind,
      run_ofExcept_bind (getBlock_of_lt within), run_set_bind]
    simp [Frame.share, share, free, setBlock]

theorem appendFreeBlock_run {f : Frame} {b : BlockId} {rest : List BlockId}
    (first : f.manager.freeBlockIds = b :: rest) (within : b < f.manager.numBlocks)
    (unreferenced : (f.manager.blocks b).refCount = 0) :
    appendFreeBlock f = .ok b (f.grow b) := by
  have head : f.manager.firstFree = .ok b := by simp [firstFree, first]
  simp only [appendFreeBlock, run_get_bind, run_ofExcept_bind head]
  rw [bind_ok (onManager_ok (allocateBlock_run within unreferenced (by simp [first])))]
  simp [Frame.grow]

end BlockManager

end NanoVllm
