import NanoVllm.Blocks.Cached

set_option autoImplicit false

namespace NanoVllm

open Python Raising

namespace BlockManager

def Sole (m : BlockManager) : Prop :=
  ∀ b ∈ m.freeBlockIds, m.hashToBlockId (m.blocks b).hash = some b →
    ∀ a < m.numBlocks, (m.blocks a).hash = (m.blocks b).hash → a = b

instance (m : BlockManager) : Decidable m.Sole := inferInstanceAs (Decidable (∀ b ∈ m.freeBlockIds, _))

variable {m m' : BlockManager} {chain : Chain} {b : BlockId}

theorem Sole.spares (h : m.Sole) : m.Spares := fun b first => h b (List.mem_of_mem_head? first)

theorem Sole.recount (h : m.Sole) (count : m'.numBlocks = m.numBlocks) (index : m'.hashToBlockId = m.hashToBlockId)
    (content : ∀ a, (m'.blocks a).content = (m.blocks a).content) (free : m'.freeBlockIds ⊆ m.freeBlockIds) :
    m'.Sole := by
  have hash (a : BlockId) : (m'.blocks a).hash = (m.blocks a).hash := (Block.content_eq (content a)).2.1
  intro b listed owner a within same
  rw [index, hash] at owner
  rw [hash, hash] at same
  exact h b (free listed) owner a (count ▸ within) same

theorem Sole.acquire (h : m.Sole) (index : Index m chain) (once : m.freeBlockIds.Nodup) (b : BlockId) :
    (m.acquire b).Sole := by
  intro c listed owner a within same
  rw [acquire_free, once.mem_erase_iff] at listed
  obtain ⟨other, listed⟩ := listed
  have kept : (m.acquire b).blocks c = m.blocks c := by simp [Function.update_of_ne other]
  rw [kept] at owner same
  have owner' : m.hashToBlockId (m.blocks c).hash = some c := by
    unfold BlockManager.acquire at owner
    dsimp only at owner
    split at owner
    next =>
      rw [Dict.pop, Function.update_apply] at owner
      split at owner
      next => cases owner
      next => exact owner
    next => exact owner
  have published := (index.indexed _ c owner').2.2
  by_cases self : a = b
  · subst self
    have blank : ((m.acquire a).blocks a).hash = -1 := by simp [Block.reset]
    exact absurd (same.symm.trans blank) published
  · have kept' : (m.acquire b).blocks a = m.blocks a := by simp [Function.update_of_ne self]
    rw [kept'] at same
    exact h c listed owner' a within same

theorem Sole.publish (h : m.Sole) (busy : b ∉ m.freeBlockIds) (identity : (m.blocks b).blockId = b) (blockHash : Int)
    (tokenIds : List Token) (parent : Int × Int) : (m.publishFullBlock b blockHash tokenIds parent).Sole := by
  intro c listed owner a within same
  rw [publish_free] at listed
  have other : c ≠ b := fun self => busy (self ▸ listed)
  have kept : (m.publishFullBlock b blockHash tokenIds parent).blocks c = m.blocks c := by
    simp [Function.update_of_ne other]
  rw [kept] at owner same
  rw [publish_index, Dict.insert, identity] at owner
  by_cases hash : (m.blocks c).hash = blockHash
  · rw [hash, Function.update_self, Option.some.injEq] at owner
    exact absurd owner.symm other
  · rw [Function.update_of_ne hash] at owner
    by_cases self : a = b
    · subst self
      have new : ((m.publishFullBlock a blockHash tokenIds parent).blocks a).hash = blockHash := by simp [Block.update]
      exact absurd (same.symm.trans new) hash
    · have kept' : (m.publishFullBlock b blockHash tokenIds parent).blocks a = m.blocks a := by
        simp [Function.update_of_ne self]
      rw [kept'] at same
      exact h c listed owner a within same

end BlockManager

namespace Cached

variable {xxh64 : XxHash} {p : Pool} {ids : Finset SeqId} {i : SeqId} {k : Nat} {f f' : Frame}

theorem Turning.reach_sole (h : Turning xxh64 p ids i f) (sole : f.manager.Sole) : (f.reach k).manager.Sole := by
  obtain ⟨⟨chain, held, -⟩, -⟩ := h
  unfold Frame.reach
  split
  · exact sole
  · split
    next => exact sole
    next => exact sole.acquire held.index held.accounting.free_nodup _

theorem Turning.publish_sole (h : Turning xxh64 p ids i f) (member : i ∈ ids) (sole : f.manager.Sole) :
    (f.publishPage k).manager.Sole := by
  obtain ⟨⟨chain, held, -⟩, -⟩ := h
  unfold Frame.publishPage
  split
  next b blockHash entry hash =>
    have listed : b ∈ ((p.store i f).seqs i).blockTable := by
      rw [Pool.store_seqs_self]
      exact List.mem_of_getElem? entry
    exact sole.publish (held.accounting.held_not_free member listed) (held.accounting.identity b) _ _ _
  next => exact sole

theorem Turning.sole (h : Turning xxh64 p ids i f) (member : i ∈ ids)
    (distinct : Distinct xxh64 p.manager.blockSize p.seqs ids) (sole : f.manager.Sole)
    (turn : PageReady f.manager f.seq k ∧ f.Paged f' k) : Turning xxh64 p ids i f' ∧ f'.manager.Sole := by
  obtain ⟨ready, paged⟩ := turn
  refine ⟨h.page member distinct ready (fun _ => sole.spares) paged, ?_⟩
  have reached := h.page member distinct ready (fun _ => sole.spares) (Or.inl rfl)
  rcases paged with rfl | ⟨-, rfl⟩
  · exact h.reach_sole sole
  · exact reached.publish_sole member (h.reach_sole sole)

theorem mayAppend_sole (h : Cached xxh64 p ids) (member : i ∈ ids)
    (distinct : Distinct xxh64 p.manager.blockSize p.seqs ids) (sole : p.manager.Sole)
    (run : BlockManager.mayAppend (p.frame i) = .ok () f) :
    BlockManager.Spared BlockManager.mayAppendPage
        (range ((p.seqs i).numCachedBlocks * p.manager.blockSize) (p.seqs i).numContextTokens p.manager.blockSize)
        (p.frame i) ∧
      f.manager.Sole := by
  have positive : 0 < p.manager.blockSize := by
    obtain ⟨chain, held, -⟩ := h
    exact held.size_pos
  have turn : ∀ offset ∈ range ((p.seqs i).numCachedBlocks * p.manager.blockSize) (p.seqs i).numContextTokens
      p.manager.blockSize, ∀ f f', Turning xxh64 p ids i f ∧ f.manager.Sole →
      BlockManager.mayAppendPage offset f = .ok () f' → Turning xxh64 p ids i f' ∧ f'.manager.Sole := by
    intro offset listed f f' kept run
    rw [range_pages positive, List.mem_map] at listed
    obtain ⟨k, -, rfl⟩ := listed
    exact kept.1.sole member distinct kept.2 (kept.1.mayAppendPage member run)
  have start := And.intro (h.turning i) sole
  refine ⟨fun e listed _ => (turns_keep turn start e listed).2.spares, ?_⟩
  simp only [BlockManager.mayAppend, run_get_bind] at run
  obtain ⟨⟨⟩, -, run⟩ := run_ofExcept_ok run
  refine (forEach_keeps (I := fun f => Turning xxh64 p ids i f ∧ f.manager.Sole) ?_ start run).2
  exact fun e listed f' kept run => turn e.1 (fst_mem_of_mem_turns listed) e.2 f' kept run

theorem Turning.allocate_sole {contextEnd : Nat} (count : Nat) (h : Turning xxh64 p ids i f) (member : i ∈ ids)
    (distinct : Distinct xxh64 p.manager.blockSize p.seqs ids) (within : contextEnd ≤ (p.seqs i).numTokens)
    (last : k = f.seq.blockTable.length) (sole : f.manager.Sole) :
    BlockManager.Spared (BlockManager.allocateNewPage contextEnd)
        ((List.range' k count).map (fun k => k * p.manager.blockSize)) f ∧
      ∀ f', forEach (BlockManager.allocateNewPage contextEnd)
        ((List.range' k count).map (fun k => k * p.manager.blockSize)) f = .ok () f' → f'.manager.Sole := by
  induction count generalizing k f with
  | zero =>
      refine ⟨by simp [BlockManager.Spared, turns], fun f' run => ?_⟩
      cases run
      exact sole
  | succ count ih =>
      rw [List.range'_succ, List.map_cons]
      constructor
      · unfold BlockManager.Spared turns
        rw [List.forall_mem_cons]
        refine ⟨fun _ => sole.spares, ?_⟩
        split
        next _ g run =>
          obtain ⟨ready, paged, length⟩ := h.allocateNewPage member within last run
          obtain ⟨turning, sole'⟩ := h.sole member distinct sole ⟨ready, paged⟩
          exact (ih turning length sole').1
        next => simp
      · intro f' run
        obtain ⟨⟨⟩, g, run, later⟩ := run_bind_ok run
        obtain ⟨ready, paged, length⟩ := h.allocateNewPage member within last run
        obtain ⟨turning, sole'⟩ := h.sole member distinct sole ⟨ready, paged⟩
        exact (ih turning length sole').2 f' later

theorem allocateNew_sole (h : Cached xxh64 p ids) (member : i ∈ ids)
    (distinct : Distinct xxh64 p.manager.blockSize p.seqs ids) (sole : p.manager.Sole)
    (run : BlockManager.allocateNew (p.frame i) = .ok () f) :
    BlockManager.Spared (BlockManager.allocateNewPage (p.seqs i).numContextTokens)
        (range (p.seqs i).numCachedTokens (p.seqs i).numContextTokens p.manager.blockSize) (p.frame i) ∧
      f.manager.Sole := by
  obtain ⟨within, count, span, run⟩ := h.allocateNew_span member run
  rw [span] at run ⊢
  obtain ⟨spared, kept⟩ := (h.turning i).allocate_sole count member distinct within rfl sole
  exact ⟨spared, kept f run⟩

theorem claimPrefix_sole (h : Cached xxh64 p ids) (member : i ∈ ids) (sole : p.manager.Sole) {blockIds : List BlockId}
    (run : BlockManager.claimPrefix blockIds (p.frame i) = .ok () f) : f.manager.Sole := by
  obtain ⟨chain, held, -⟩ := h
  have free := (BlockManager.claimPrefix_shared held.accounting.free_nodup run).2.1.free
  obtain ⟨p', rfl, claims⟩ := held.claimPrefix_ok member run
  exact sole.recount claims.count claims.index claims.content free.subset

end Cached

end NanoVllm
