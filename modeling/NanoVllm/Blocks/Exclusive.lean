import NanoVllm.Blocks.Accounting

set_option autoImplicit false

namespace NanoVllm

open Python Raising

def Frame.Grown (f g : Frame) : Prop :=
  ∃ fresh, g.seq = { f.seq with blockTable := f.seq.blockTable ++ fresh } ∧
    f.manager.freeBlockIds = fresh ++ g.manager.freeBlockIds ∧ g.manager.blockSize = f.manager.blockSize

/-- Sequence and free queue after whole pages were claimed for the end of the block table. -/
structure Frame.Shared (f g : Frame) (blockIds : List BlockId) : Prop where
  seq : g.seq = { f.seq with
    blockTable := f.seq.blockTable ++ blockIds
    numCachedTokens := f.seq.numCachedTokens + blockIds.length * f.manager.blockSize }
  size : g.manager.blockSize = f.manager.blockSize
  free : g.manager.freeBlockIds.Sublist f.manager.freeBlockIds

/-- Pages with tokens that are not cached belong to one sequence, and no page of a block table is free. -/
structure Exclusive (p : Pool) (ids : Finset SeqId) : Prop where
  nodup : p.manager.freeBlockIds.Nodup
  busy : ∀ i ∈ ids, ∀ b ∈ (p.seqs i).blockTable, b ∉ p.manager.freeBlockIds
  alone : ∀ i ∈ ids, ∀ j ∈ ids, ∀ k l b, (p.seqs i).blockTable[k]? = some b → (p.seqs j).blockTable[l]? = some b →
    (p.seqs i).numCachedTokens < (k + 1) * p.manager.blockSize →
    (p.seqs j).numCachedTokens < (l + 1) * p.manager.blockSize → i = j

namespace Frame

variable {f g g' : Frame} {blockIds blockIds' : List BlockId}

theorem Grown.refl (f : Frame) : f.Grown f := ⟨[], by simp⟩

theorem Grown.trans (h : f.Grown g) (h' : g.Grown g') : f.Grown g' := by
  obtain ⟨fresh, seq, free, size⟩ := h
  obtain ⟨fresh', seq', free', size'⟩ := h'
  refine ⟨fresh ++ fresh', ?_, ?_, size'.trans size⟩
  · rw [seq', seq]
    simp only [List.append_assoc]
  · rw [free, free', List.append_assoc]

theorem Shared.refl (f : Frame) : f.Shared f [] := ⟨by simp, rfl, List.Sublist.refl _⟩

theorem Shared.trans (h : f.Shared g blockIds) (h' : g.Shared g' blockIds') :
    f.Shared g' (blockIds ++ blockIds') where
  seq := by
    rw [h'.seq, h.seq, h.size]
    simp only [List.append_assoc, List.length_append, Nat.add_mul, Nat.add_assoc]
  size := h'.size.trans h.size
  free := h'.free.trans h.free

end Frame

namespace BlockManager

variable {f g : Frame} {b : BlockId}

theorem removeFree_ok {m m' : BlockManager} (run : removeFree b m = .ok () m') :
    m' = { m with freeBlockIds := m.freeBlockIds.erase b } := by
  simp only [removeFree, run_get_bind] at run
  obtain ⟨-, run⟩ := run_require_ok run
  cases run
  rfl

theorem allocateBlock_free {m m' : BlockManager} (run : allocateBlock b m = .ok () m') :
    m'.freeBlockIds = m.freeBlockIds.erase b ∧ m'.blockSize = m.blockSize := by
  simp only [allocateBlock, run_get_bind] at run
  obtain ⟨block, -, run⟩ := run_ofExcept_ok run
  obtain ⟨-, run⟩ := run_require_ok run
  split at run
  all_goals
    simp only [run_set_bind, run_modify_bind] at run
    obtain ⟨⟨⟩, taken, removed, run⟩ := run_bind_ok run
    cases run
    rw [removeFree_ok removed]
    exact ⟨rfl, rfl⟩

theorem allocateFirst_grown (first : f.manager.firstFree = .ok b)
    (run : onManager (allocateBlock b) f = .ok () g) :
    f.manager.freeBlockIds = b :: g.manager.freeBlockIds ∧ g.manager.blockSize = f.manager.blockSize ∧ g.seq = f.seq := by
  obtain ⟨m, inner, rfl⟩ := run_zoom_ok run
  obtain ⟨free, size⟩ := allocateBlock_free inner
  cases queue : f.manager.freeBlockIds with
  | nil => simp [firstFree, queue] at first
  | cons a rest =>
      simp only [firstFree, queue, Except.ok.injEq] at first
      subst first
      rw [queue, List.erase_cons_head] at free
      exact ⟨by rw [free], size, rfl⟩

theorem appendFreeBlock_grown (run : appendFreeBlock f = .ok b g) : f.Grown g := by
  simp only [appendFreeBlock, run_get_bind] at run
  obtain ⟨a, first, run⟩ := run_ofExcept_ok run
  obtain ⟨⟨⟩, h, taken, run⟩ := run_bind_ok run
  obtain ⟨free, size, seq⟩ := allocateFirst_grown first taken
  cases run
  exact ⟨[b], by rw [← seq], free, size⟩

theorem publish_grown {blockHash : Int} {tokenIds : List Token} {parent : Int × Int}
    (run : publish b blockHash tokenIds parent f = .ok () g) : f.Grown g := by
  cases run
  exact Frame.Grown.refl _

theorem mayAppendPage_grown {i : Nat} (run : mayAppendPage i f = .ok () g) : f.Grown g := by
  simp only [mayAppendPage, run_get_bind] at run
  obtain ⟨parent, -, run⟩ := run_ofExcept_ok run
  cases current : f.seq.blockTable[i / f.manager.blockSize]? with
  | some b =>
      simp only [current] at run
      obtain ⟨block, -, run⟩ := run_ofExcept_ok run
      obtain ⟨-, run⟩ := run_require_ok run
      split at run
      next =>
        obtain ⟨hash, -, run⟩ := run_ofExcept_ok run
        exact publish_grown run
      next =>
        cases run
        exact Frame.Grown.refl _
  | none =>
      simp only [current] at run
      split at run
      next =>
        obtain ⟨hash, -, run⟩ := run_ofExcept_ok run
        obtain ⟨b, h, taken, run⟩ := run_bind_ok run
        exact (appendFreeBlock_grown taken).trans (publish_grown run)
      next =>
        obtain ⟨b, h, taken, run⟩ := run_bind_ok run
        cases run
        exact appendFreeBlock_grown taken

theorem allocateNewPage_grown {contextEnd i : Nat} (run : allocateNewPage contextEnd i f = .ok () g) : f.Grown g := by
  simp only [allocateNewPage, run_get_bind] at run
  obtain ⟨parent, -, run⟩ := run_ofExcept_ok run
  split at run
  next =>
    obtain ⟨hash, -, run⟩ := run_ofExcept_ok run
    obtain ⟨b, first, run⟩ := run_ofExcept_ok run
    obtain ⟨⟨⟩, h, taken, run⟩ := run_bind_ok run
    obtain ⟨free, size, seq⟩ := allocateFirst_grown first taken
    split at run
    next =>
      cases run
      exact ⟨[b], by rw [← seq], free, size⟩
    next =>
      cases run
      exact ⟨[b], by rw [← seq], free, size⟩
  next =>
    obtain ⟨b, h, taken, run⟩ := run_bind_ok run
    cases run
    exact appendFreeBlock_grown taken

theorem mayAppend_grown (run : mayAppend f = .ok () g) : f.Grown g := by
  simp only [mayAppend, run_get_bind] at run
  obtain ⟨⟨⟩, -, run⟩ := run_ofExcept_ok run
  refine forEach_keeps (I := fun u => f.Grown u) (fun e _ u grown turn => ?_) (Frame.Grown.refl f) run
  exact grown.trans (mayAppendPage_grown turn)

theorem allocateNew_grown (run : allocateNew f = .ok () g) : f.Grown g := by
  simp only [allocateNew, run_get_bind] at run
  obtain ⟨⟨⟩, -, run⟩ := run_ofExcept_ok run
  obtain ⟨⟨⟩, -, run⟩ := run_ofExcept_ok run
  obtain ⟨-, run⟩ := run_require_ok run
  obtain ⟨-, run⟩ := run_require_ok run
  refine forEach_keeps (I := fun u => f.Grown u) (fun e _ u grown turn => ?_) (Frame.Grown.refl f) run
  exact grown.trans (allocateNewPage_grown turn)

theorem getBlock_ok {m : BlockManager} {block : Block} (found : m.getBlock b = .ok block) :
    b < m.numBlocks ∧ block = m.blocks b := by
  unfold getBlock at found
  split at found
  next within =>
    cases found
    exact ⟨within, rfl⟩
  next => cases found

theorem claimBlock_ok {claim : BlockId × Bool} (run : claimBlock claim f = .ok () g) : ∃ refs used, g =
    { manager := { f.manager.setBlock claim.1 { f.manager.blocks claim.1 with refCount := refs } with
        freeBlockIds := if claim.2 then f.manager.freeBlockIds.erase claim.1 else f.manager.freeBlockIds
        usedBlockIds := used }
      seq := { f.seq with
        blockTable := f.seq.blockTable ++ [claim.1]
        numCachedTokens := f.seq.numCachedTokens + f.manager.blockSize } } := by
  obtain ⟨b, free⟩ := claim
  unfold claimBlock at run
  cases free with
  | true =>
      obtain ⟨⟨⟩, h, taken, run⟩ := run_bind_ok run
      cases run
      obtain ⟨m, inner, rfl⟩ := run_zoom_ok taken
      simp only [claimCachedFreeBlock, run_get_bind] at inner
      obtain ⟨block, found, inner⟩ := run_ofExcept_ok inner
      obtain ⟨-, rfl⟩ := getBlock_ok found
      obtain ⟨-, inner⟩ := run_require_ok inner
      obtain ⟨-, inner⟩ := run_require_ok inner
      obtain ⟨-, inner⟩ := run_require_ok inner
      rw [run_set_bind] at inner
      obtain ⟨⟨⟩, m', removed, inner⟩ := run_bind_ok inner
      cases inner
      rw [removeFree_ok removed]
      exact ⟨_, _, rfl⟩
  | false =>
      obtain ⟨block, found, run⟩ := run_ofExcept_ok run
      obtain ⟨-, rfl⟩ := getBlock_ok found
      cases run
      exact ⟨_, _, rfl⟩

theorem claimBlock_shared {free : Bool} (run : claimBlock (b, free) f = .ok () g) :
    f.Shared g [b] ∧ (free = true → g.manager.freeBlockIds = f.manager.freeBlockIds.erase b) := by
  obtain ⟨refs, used, rfl⟩ := claimBlock_ok run
  refine ⟨⟨?_, rfl, ?_⟩, fun taken => if_pos taken⟩
  · rw [List.length_singleton, Nat.one_mul]
  · cases free with
    | true => exact List.erase_sublist
    | false => exact List.Sublist.refl _

theorem claimBlocks_shared {claims : List (BlockId × Bool)} (nodup : f.manager.freeBlockIds.Nodup)
    (run : forEach claimBlock claims f = .ok () g) :
    f.Shared g (claims.map Prod.fst) ∧ ∀ c ∈ claims, c.2 = true → c.1 ∉ g.manager.freeBlockIds := by
  induction claims generalizing f with
  | nil =>
      cases run
      exact ⟨Frame.Shared.refl _, by simp⟩
  | cons c rest ih =>
      obtain ⟨⟨⟩, h, turn, run⟩ := run_bind_ok run
      obtain ⟨shared, erased⟩ := claimBlock_shared turn
      obtain ⟨more, gone⟩ := ih (nodup.sublist shared.free) run
      refine ⟨shared.trans more, fun d listed free => ?_⟩
      rcases List.mem_cons.mp listed with rfl | later
      · intro still
        have left := more.free.subset still
        rw [erased free] at left
        exact nodup.not_mem_erase left
      · exact gone d later free

theorem claimsFrom_flags {m : BlockManager} {seq : Sequence} {k : Nat} {previous : Option BlockId}
    {blockIds : List BlockId} {claims : List (BlockId × Bool)}
    (checked : m.claimsFrom seq k previous blockIds = .ok claims) :
    claims = blockIds.map (fun b => (b, decide (b ∈ m.freeBlockIds))) := by
  induction blockIds generalizing k previous claims with
  | nil => exact ((except_pure_ok _ _).mp checked).symm
  | cons b rest ih =>
      simp only [claimsFrom] at checked
      obtain ⟨_, -, checked⟩ := except_bind_ok checked
      obtain ⟨_, -, checked⟩ := except_bind_ok checked
      obtain ⟨tokenIds, -, checked⟩ := except_bind_ok checked
      obtain ⟨_, -, checked⟩ := except_bind_ok checked
      obtain ⟨blockHash, -, checked⟩ := except_bind_ok checked
      obtain ⟨parent, -, checked⟩ := except_bind_ok checked
      obtain ⟨_, -, checked⟩ := except_bind_ok checked
      obtain ⟨_, -, checked⟩ := except_bind_ok checked
      obtain ⟨_, -, checked⟩ := except_bind_ok checked
      obtain ⟨_, -, checked⟩ := except_bind_ok checked
      obtain ⟨_, -, checked⟩ := except_bind_ok checked
      obtain ⟨_, -, checked⟩ := except_bind_ok checked
      obtain ⟨later, rest', checked⟩ := except_bind_ok checked
      rw [List.map_cons, ← ih rest']
      exact ((except_pure_ok _ _).mp checked).symm

theorem claimPrefix_shared {blockIds : List BlockId} (nodup : f.manager.freeBlockIds.Nodup)
    (run : claimPrefix blockIds f = .ok () g) :
    f.seq.numCachedTokens = f.seq.blockTable.length * f.manager.blockSize ∧ f.Shared g blockIds ∧
      ∀ b ∈ blockIds, b ∉ g.manager.freeBlockIds := by
  simp only [claimPrefix, run_get_bind] at run
  obtain ⟨⟨⟩, -, run⟩ := run_ofExcept_ok run
  obtain ⟨⟨⟩, valid, run⟩ := run_ofExcept_ok run
  obtain ⟨-, run⟩ := run_require_ok run
  obtain ⟨claims, checked, run⟩ := run_ofExcept_ok run
  obtain ⟨_, cached, -⟩ := except_bind_ok valid
  rw [except_require_ok] at cached
  have flags := claimsFrom_flags checked
  obtain ⟨shared, gone⟩ := claimBlocks_shared nodup run
  have planned : claims.map Prod.fst = blockIds := by simp [flags, Function.comp_def]
  rw [planned] at shared
  refine ⟨cached, shared, fun b listed still => ?_⟩
  have free := shared.free.subset still
  refine gone (b, decide (b ∈ f.manager.freeBlockIds)) ?_ (decide_eq_true free) still
  rw [flags]
  exact List.mem_map_of_mem listed

end BlockManager

namespace Exclusive

variable {p p' : Pool} {ids : Finset SeqId} {i : SeqId} {f : Frame} {blockIds : List BlockId}

theorem congr (h : Exclusive p ids) (free : p'.manager.freeBlockIds = p.manager.freeBlockIds)
    (size : p'.manager.blockSize = p.manager.blockSize) (tables : ∀ i, (p'.seqs i).blockTable = (p.seqs i).blockTable)
    (cached : ∀ i, (p'.seqs i).numCachedTokens = (p.seqs i).numCachedTokens) : Exclusive p' ids where
  nodup := free ▸ h.nodup
  busy := by
    intro i member b held
    rw [free]
    rw [tables] at held
    exact h.busy i member b held
  alone := by
    intro i memberI j memberJ k l b entry entry' open' open''
    rw [tables] at entry entry'
    rw [cached, size] at open' open''
    exact h.alone i memberI j memberJ k l b entry entry' open' open''

-- One sequence takes pages: an uncached page of it is neither in the table of another sequence nor free.
theorem store (h : Exclusive p ids) (member : i ∈ ids) (size : f.manager.blockSize = p.manager.blockSize)
    (free : f.manager.freeBlockIds.Sublist p.manager.freeBlockIds)
    (busy : ∀ b ∈ f.seq.blockTable, b ∉ f.manager.freeBlockIds)
    (fresh : ∀ k b, f.seq.blockTable[k]? = some b → f.seq.numCachedTokens < (k + 1) * p.manager.blockSize →
      (p.seqs i).blockTable[k]? = some b ∧ (p.seqs i).numCachedTokens < (k + 1) * p.manager.blockSize ∨
        b ∈ p.manager.freeBlockIds) : Exclusive (p.store i f) ids := by
  have apart {j : SeqId} (memberJ : j ∈ ids) {k l : Nat} {b : BlockId} (entry : f.seq.blockTable[k]? = some b)
      (entry' : (p.seqs j).blockTable[l]? = some b) (uncached : f.seq.numCachedTokens < (k + 1) * p.manager.blockSize)
      (uncached' : (p.seqs j).numCachedTokens < (l + 1) * p.manager.blockSize) : i = j := by
    rcases fresh k b entry uncached with ⟨old, before⟩ | taken
    · exact h.alone i member j memberJ k l b old entry' before uncached'
    · exact absurd taken (h.busy j memberJ b (List.mem_of_getElem? entry'))
  constructor
  case nodup => exact h.nodup.sublist free
  case busy =>
    intro j memberJ b held
    by_cases self : j = i
    · subst self
      rw [Pool.store_seqs_self] at held
      exact busy b held
    · rw [p.store_seqs_of_ne f self] at held
      exact fun still => h.busy j memberJ b held (free.subset still)
  case alone =>
    intro j memberJ j' memberJ' k l b entry entry' uncached uncached'
    rw [Pool.store_manager, size] at uncached uncached'
    by_cases self : j = i
    · by_cases self' : j' = i
      · exact self.trans self'.symm
      · subst self
        rw [Pool.store_seqs_self] at entry uncached
        rw [p.store_seqs_of_ne f self'] at entry' uncached'
        exact apart memberJ' entry entry' uncached uncached'
    · by_cases self' : j' = i
      · subst self'
        rw [Pool.store_seqs_self] at entry' uncached'
        rw [p.store_seqs_of_ne f self] at entry uncached
        exact (apart memberJ entry' entry uncached' uncached).symm
      · rw [p.store_seqs_of_ne f self] at entry uncached
        rw [p.store_seqs_of_ne f self'] at entry' uncached'
        exact h.alone j memberJ j' memberJ' k l b entry entry' uncached uncached'

theorem grown (h : Exclusive p ids) (member : i ∈ ids) (grown : (p.frame i).Grown f) :
    Exclusive (p.store i f) ids := by
  obtain ⟨fresh, seq, free, size⟩ := grown
  have queue : p.manager.freeBlockIds = fresh ++ f.manager.freeBlockIds := free
  have left : f.manager.freeBlockIds.Sublist p.manager.freeBlockIds := by
    rw [queue]
    exact List.sublist_append_right _ _
  have nodup := h.nodup
  rw [queue, List.nodup_append] at nodup
  rw [Pool.frame] at seq
  refine h.store member size left (fun b held => ?_) (fun k b entry uncached => ?_)
  · rw [seq, List.mem_append] at held
    rcases held with old | new
    · exact fun still => h.busy i member b old (left.subset still)
    · exact fun still => nodup.2.2 b new b still rfl
  · rw [seq] at entry uncached
    rcases Nat.lt_or_ge k (p.seqs i).blockTable.length with before | after
    · rw [List.getElem?_append_left before] at entry
      exact .inl ⟨entry, uncached⟩
    · rw [List.getElem?_append_right after] at entry
      right
      rw [queue]
      exact List.mem_append_left _ (List.mem_of_getElem? entry)

theorem shared (h : Exclusive p ids) (member : i ∈ ids)
    (cached : (p.seqs i).numCachedTokens = (p.seqs i).blockTable.length * p.manager.blockSize)
    (shared : (p.frame i).Shared f blockIds) (gone : ∀ b ∈ blockIds, b ∉ f.manager.freeBlockIds) :
    Exclusive (p.store i f) ids := by
  have seq := shared.seq
  rw [Pool.frame] at seq
  refine h.store member shared.size shared.free (fun b held => ?_) (fun k b entry uncached => ?_)
  · rw [seq, List.mem_append] at held
    rcases held with old | new
    · exact fun still => h.busy i member b old (shared.free.subset still)
    · exact gone b new
  · rw [seq] at entry uncached
    have inside := (List.getElem?_eq_some_iff.mp entry).1
    rw [List.length_append] at inside
    have whole : (k + 1) * p.manager.blockSize ≤
        ((p.seqs i).blockTable.length + blockIds.length) * p.manager.blockSize := Nat.mul_le_mul_right _ inside
    rw [Nat.add_mul (p.seqs i).blockTable.length, ← cached] at whole
    exact absurd uncached (Nat.not_lt.mpr whole)

end Exclusive

end NanoVllm
