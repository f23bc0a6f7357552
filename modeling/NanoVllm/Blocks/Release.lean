import NanoVllm.Blocks.Extend

set_option autoImplicit false

namespace NanoVllm

open Python Raising Naming

structure Vacated (p p' : Pool) (ids : Finset SeqId) (chain : Chain) (i : SeqId) : Prop where
  held : Held p' ids chain
  seqs : p'.seqs = Function.update p.seqs i { p.seqs i with
    numCachedTokens := 0
    numNewTokens := 0
    blockTable := [] }
  size : p'.manager.blockSize = p.manager.blockSize
  count : p'.manager.numBlocks = p.manager.numBlocks
  index : p'.manager.hashToBlockId = p.manager.hashToBlockId
  content : ∀ b, (p'.manager.blocks b).content = (p.manager.blocks b).content
  free : p.manager.freeBlockIds <+: p'.manager.freeBlockIds

theorem Vacated.store {p p' : Pool} {ids : Finset SeqId} {chain : Chain} {i : SeqId}
    (h : Vacated p p' ids chain i) : p.store i (p'.frame i) = p' := Pool.store_of_seqs h.seqs

theorem BlockManager.free_le_release (m : BlockManager) (b : BlockId) :
    m.freeBlockIds <+: (m.release b).freeBlockIds := by
  unfold BlockManager.release
  dsimp only
  split
  · exact List.prefix_append _ _
  · exact List.prefix_rfl

namespace Held

variable {p : Pool} {ids : Finset SeqId} {chain : Chain} {i : SeqId}

theorem relabel (h : Held p ids chain) (member : i ∈ ids) {seq : Sequence} (wf : seq.Wf p.manager.blockSize)
    (table : seq.blockTable = (p.seqs i).blockTable) (tokens : (p.seqs i).tokenIds <+: seq.tokenIds)
    (hashes : (p.seqs i).blockHashes <+: seq.blockHashes) : Held (p.store i ⟨p.manager, seq⟩) ids chain where
  accounting := h.accounting.relabel seq table
  index := h.index
  tables := by
    refine h.tables.relabel seq table (fun _ => ?_) member
    exact (h.tables.linked i member).extend
      (fun b held published => h.index.whole b (h.accounting.table_lt i member b held) published)
      h.size_pos table tokens hashes
  wf j memberJ := by
    by_cases self : j = i
    · subst self
      rw [Pool.store_seqs_self]
      exact wf
    · rw [p.store_seqs_of_ne _ self]
      exact h.wf j memberJ

theorem release (h : Held p ids chain) (member : i ∈ ids) {front : List BlockId} {b : BlockId}
    (table : (p.seqs i).blockTable = front ++ [b]) :
    Held (p.store i ⟨p.manager.release b, { p.seqs i with blockTable := front }⟩) ids chain where
  accounting := h.accounting.release member table rfl
  index := h.index.release b
  tables := h.tables.release member b (by rw [table]; exact List.prefix_append front [b]) rfl rfl
  wf j memberJ := by
    rw [Pool.store_manager, BlockManager.release_blockSize]
    by_cases self : j = i
    · subst self
      rw [Pool.store_seqs_self]
      exact (h.wf j memberJ).relabel rfl rfl rfl rfl rfl
    · rw [p.store_seqs_of_ne _ self]
      exact h.wf j memberJ

theorem releaseAll (h : Held p ids chain) (member : i ∈ ids) (pages : List BlockId) (seq : Sequence)
    (table : (p.seqs i).blockTable = pages.reverse) :
    ∃ m, forEach (fun b => BlockManager.onManager (BlockManager.releaseBlock b)) pages ⟨p.manager, seq⟩ =
        .ok () ⟨m, seq⟩ ∧
      Held (p.store i ⟨m, { p.seqs i with blockTable := [] }⟩) ids chain ∧
      m.blockSize = p.manager.blockSize ∧ m.numBlocks = p.manager.numBlocks ∧
      m.hashToBlockId = p.manager.hashToBlockId ∧
      (∀ b, (m.blocks b).content = (p.manager.blocks b).content) ∧
      p.manager.freeBlockIds <+: m.freeBlockIds := by
  induction pages generalizing p with
  | nil =>
      refine ⟨p.manager, rfl, ?_, rfl, rfl, rfl, fun _ => rfl, List.prefix_rfl⟩
      have same : { p.seqs i with blockTable := [] } = p.seqs i := by
        rw [List.reverse_nil] at table
        rw [← table]
      rw [same]
      exact (p.store_frame i).symm ▸ h
  | cons b rest ih =>
      rw [List.reverse_cons] at table
      have held : b ∈ (p.seqs i).blockTable := by simp [table]
      have within := h.accounting.table_lt i member b held
      have used := h.accounting.held_used member held
      have turn : BlockManager.onManager (BlockManager.releaseBlock b) ⟨p.manager, seq⟩ =
          .ok () ⟨p.manager.release b, seq⟩ :=
        BlockManager.onManager_ok (BlockManager.releaseBlock_run within used)
      obtain ⟨m, run, done, size, count, index, content, free⟩ := ih (h.release member table) (by simp)
      refine ⟨m, ?_, ?_, size.trans (p.manager.release_blockSize b),
        count.trans (p.manager.release_numBlocks b), index.trans (p.manager.release_index b),
        fun a => (content a).trans (p.manager.release_content b a),
        (BlockManager.free_le_release p.manager b).trans free⟩
      · simp only [forEach]
        rw [bind_ok turn]
        exact run
      · simpa using done

theorem deallocate_run (h : Held p ids chain) (member : i ∈ ids) :
    ∃ p', BlockManager.deallocate (p.frame i) = .ok () (p'.frame i) ∧ Vacated p p' ids chain i := by
  have size : p.manager.assertBlockSize (p.seqs i) = .ok () := require_of (h.wf i member).block _
  obtain ⟨m, run, held, sameSize, count, index, content, free⟩ :=
    h.releaseAll member (p.seqs i).blockTable.reverse (p.seqs i) (by simp)
  let cleared : Sequence := { p.seqs i with
    numCachedTokens := 0
    numNewTokens := 0
    blockTable := [] }
  refine ⟨p.store i ⟨m, cleared⟩, ?_, ?_⟩
  · simp only [BlockManager.deallocate, run_get_bind, Pool.frame]
    rw [run_ofExcept_bind size, bind_ok run, run_modify]
    simp [cleared]
  · have wf : cleared.Wf m.blockSize := sameSize ▸ (h.wf i member).relabel rfl rfl rfl rfl rfl
    have final := @relabel _ ids chain i held member cleared wf (by simp [cleared]) (by simp [cleared])
      (by simp [cleared])
    exact
      { held := by simpa using final
        seqs := rfl
        size := sameSize
        count := count
        index := index
        content := content
        free := free }

end Held

end NanoVllm
