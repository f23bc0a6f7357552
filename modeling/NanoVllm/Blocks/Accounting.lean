import Mathlib.Tactic.Linarith
import NanoVllm.Blocks.Pages

set_option autoImplicit false

namespace NanoVllm

open Python

structure Pool where
  manager : BlockManager
  seqs : SeqId → Sequence

namespace Pool

def frame (p : Pool) (i : SeqId) : Frame := ⟨p.manager, p.seqs i⟩

def store (p : Pool) (i : SeqId) (f : Frame) : Pool := ⟨f.manager, Function.update p.seqs i f.seq⟩

@[simp] theorem store_manager (p : Pool) (i : SeqId) (f : Frame) : (p.store i f).manager = f.manager := rfl

@[simp] theorem store_seqs_self (p : Pool) (i : SeqId) (f : Frame) : (p.store i f).seqs i = f.seq := by
  simp [store]

theorem store_seqs_of_ne (p : Pool) {i j : SeqId} (f : Frame) (other : j ≠ i) :
    (p.store i f).seqs j = p.seqs j := by
  simp [store, other]

@[simp] theorem store_store (p : Pool) (i : SeqId) (f g : Frame) :
    (p.store i f).store i g = p.store i g := by
  simp [store]

@[simp] theorem store_frame (p : Pool) (i : SeqId) : p.store i (p.frame i) = p := by
  simp [store, frame]

@[simp] theorem frame_store (p : Pool) (i : SeqId) (f : Frame) : (p.store i f).frame i = f := by
  simp [store, frame]

theorem store_of_seqs {p p' : Pool} {i : SeqId} {seq : Sequence} (seqs : p'.seqs = Function.update p.seqs i seq) :
    p.store i (p'.frame i) = p' := by
  cases p'
  simp_all [store, frame]

end Pool

-- The sequences whose block table holds the block.
def holders (seqs : SeqId → Sequence) (ids : Finset SeqId) (b : BlockId) : Finset SeqId :=
  ids.filter (fun i => b ∈ (seqs i).blockTable)

section Holders

variable {p : Pool} {ids : Finset SeqId} {i : SeqId} {f : Frame} {b : BlockId}

theorem mem_holders {seqs : SeqId → Sequence} {j : SeqId} :
    j ∈ holders seqs ids b ↔ j ∈ ids ∧ b ∈ (seqs j).blockTable := by
  simp [holders]

theorem holders_store_same (same : b ∈ f.seq.blockTable ↔ b ∈ (p.seqs i).blockTable) :
    holders (p.store i f).seqs ids b = holders p.seqs ids b := by
  ext j
  by_cases self : j = i
  next =>
    subst self
    simp [mem_holders, same]
  next => simp [mem_holders, p.store_seqs_of_ne f self]

theorem holders_store_insert (member : i ∈ ids) (new : b ∈ f.seq.blockTable) :
    holders (p.store i f).seqs ids b = insert i (holders p.seqs ids b) := by
  ext j
  by_cases self : j = i
  next =>
    subst self
    simp [mem_holders, member, new]
  next => simp [mem_holders, p.store_seqs_of_ne f self, self]

theorem holders_store_erase (gone : b ∉ f.seq.blockTable) :
    holders (p.store i f).seqs ids b = (holders p.seqs ids b).erase i := by
  ext j
  by_cases self : j = i
  next =>
    subst self
    simp [mem_holders, gone]
  next => simp [mem_holders, p.store_seqs_of_ne f self, self]

end Holders

/-- Who owns which block: the free queue, the used set, the reference counts and the tables agree. -/
structure Accounting (p : Pool) (ids : Finset SeqId) : Prop where
  size_pos : 0 < p.manager.blockSize
  identity : ∀ b, (p.manager.blocks b).blockId = b
  free_nodup : p.manager.freeBlockIds.Nodup
  free_lt : ∀ b ∈ p.manager.freeBlockIds, b < p.manager.numBlocks
  used_iff : ∀ b, b ∈ p.manager.usedBlockIds ↔ b < p.manager.numBlocks ∧ b ∉ p.manager.freeBlockIds
  free_iff : ∀ b, b < p.manager.numBlocks → (b ∈ p.manager.freeBlockIds ↔ holders p.seqs ids b = ∅)
  refs : ∀ b, b < p.manager.numBlocks → (p.manager.blocks b).refCount = ((holders p.seqs ids b).card : Int)
  table_nodup : ∀ i ∈ ids, (p.seqs i).blockTable.Nodup
  table_lt : ∀ i ∈ ids, ∀ b ∈ (p.seqs i).blockTable, b < p.manager.numBlocks

namespace Accounting

variable {p : Pool} {ids : Finset SeqId} {i : SeqId} {b : BlockId}

theorem free_refs (h : Accounting p ids) (free : b ∈ p.manager.freeBlockIds) :
    (p.manager.blocks b).refCount = 0 := by
  have within := h.free_lt b free
  rw [h.refs b within, (h.free_iff b within).mp free]
  rfl

theorem free_not_held (h : Accounting p ids) (free : b ∈ p.manager.freeBlockIds) {j : SeqId} (member : j ∈ ids) :
    b ∉ (p.seqs j).blockTable := by
  intro held
  have empty := (h.free_iff b (h.free_lt b free)).mp free
  exact absurd (mem_holders.mpr ⟨member, held⟩) (by simp [empty])

theorem held_not_free (h : Accounting p ids) {j : SeqId} (member : j ∈ ids) (held : b ∈ (p.seqs j).blockTable) :
    b ∉ p.manager.freeBlockIds :=
  fun free => h.free_not_held free member held

theorem held_used (h : Accounting p ids) {j : SeqId} (member : j ∈ ids) (held : b ∈ (p.seqs j).blockTable) :
    b ∈ p.manager.usedBlockIds :=
  (h.used_iff b).mpr ⟨h.table_lt j member b held, h.held_not_free member held⟩

theorem used_refs (h : Accounting p ids) (used : b ∈ p.manager.usedBlockIds) :
    0 < (p.manager.blocks b).refCount := by
  obtain ⟨within, busy⟩ := (h.used_iff b).mp used
  rw [h.refs b within]
  have some' : holders p.seqs ids b ≠ ∅ := fun empty => busy ((h.free_iff b within).mpr empty)
  exact_mod_cast Finset.card_pos.mpr (Finset.nonempty_iff_ne_empty.mpr some')

theorem store_nodup (h : Accounting p ids) {f : Frame} (once : f.seq.blockTable.Nodup) :
    ∀ j ∈ ids, ((p.store i f).seqs j).blockTable.Nodup := by
  intro j member
  by_cases self : j = i
  next =>
    subst self
    rwa [p.store_seqs_self]
  next =>
    rw [p.store_seqs_of_ne _ self]
    exact h.table_nodup j member

theorem store_lt (h : Accounting p ids) {f : Frame} (within : ∀ a ∈ f.seq.blockTable, a < p.manager.numBlocks) :
    ∀ j ∈ ids, ∀ a ∈ ((p.store i f).seqs j).blockTable, a < p.manager.numBlocks := by
  intro j member
  by_cases self : j = i
  next =>
    subst self
    rwa [p.store_seqs_self]
  next =>
    rw [p.store_seqs_of_ne _ self]
    exact h.table_lt j member

theorem append_nodup (h : Accounting p ids) (member : i ∈ ids) (absent : b ∉ (p.seqs i).blockTable) :
    ((p.seqs i).blockTable ++ [b]).Nodup := by
  have appended := (h.table_nodup i member).concat absent
  rwa [List.concat_eq_append] at appended

theorem append_lt (h : Accounting p ids) (member : i ∈ ids) (within : b < p.manager.numBlocks) :
    ∀ a ∈ (p.seqs i).blockTable ++ [b], a < p.manager.numBlocks := by
  intro a listed
  rcases List.mem_append.mp listed with old | new
  · exact h.table_lt i member a old
  · exact List.mem_singleton.mp new ▸ within

theorem relabel (h : Accounting p ids) (seq : Sequence) (same : seq.blockTable = (p.seqs i).blockTable) :
    Accounting (p.store i ⟨p.manager, seq⟩) ids where
  size_pos := h.size_pos
  identity := h.identity
  free_nodup := h.free_nodup
  free_lt := h.free_lt
  used_iff := h.used_iff
  free_iff b within := by
    rw [holders_store_same (by simp [same])]
    exact h.free_iff b within
  refs b within := by
    rw [holders_store_same (by simp [same])]
    exact h.refs b within
  table_nodup j member := by
    by_cases self : j = i
    next =>
      subst self
      simpa [same] using h.table_nodup j member
    next => simpa [p.store_seqs_of_ne _ self] using h.table_nodup j member
  table_lt j member := by
    by_cases self : j = i
    next =>
      subst self
      simpa [same] using h.table_lt j member
    next => simpa [p.store_seqs_of_ne _ self] using h.table_lt j member

theorem grow (h : Accounting p ids) (member : i ∈ ids) (free : b ∈ p.manager.freeBlockIds) :
    Accounting (p.store i ((p.frame i).grow b)) ids := by
  have absent : b ∉ (p.seqs i).blockTable := h.free_not_held free member
  have within := h.free_lt b free
  have empty := (h.free_iff b within).mp free
  have held : holders (p.store i ((p.frame i).grow b)).seqs ids b = {i} := by
    rw [holders_store_insert member (by simp [Frame.grow]), empty]
    rfl
  have others (a : BlockId) (other : a ≠ b) :
      holders (p.store i ((p.frame i).grow b)).seqs ids a = holders p.seqs ids a :=
    holders_store_same (by simp [Frame.grow, Pool.frame, other])
  constructor
  case size_pos => exact h.size_pos
  case identity =>
    intro a
    by_cases same : a = b
    next => simp [Frame.grow, Pool.frame, Function.update, same, Block.reset, h.identity]
    next => simp [Frame.grow, Pool.frame, Function.update, same, h.identity]
  case free_nodup => exact h.free_nodup.erase b
  case free_lt => exact fun a freeA => h.free_lt a (List.mem_of_mem_erase freeA)
  case used_iff =>
    intro a
    simp only [Pool.store_manager, Frame.grow, Pool.frame, BlockManager.acquire_used,
      BlockManager.acquire_free, BlockManager.acquire_numBlocks, Finset.mem_insert,
      h.free_nodup.mem_erase_iff, h.used_iff a]
    by_cases same : a = b
    next => simp [same, within]
    next => simp [same]
  case free_iff =>
    intro a withinA
    simp only [Pool.store_manager, Frame.grow, Pool.frame, BlockManager.acquire_free,
      h.free_nodup.mem_erase_iff]
    by_cases same : a = b
    next =>
      subst same
      change _ ↔ holders (p.store i ((p.frame i).grow a)).seqs ids a = ∅
      simp [held]
    next =>
      change _ ↔ holders (p.store i ((p.frame i).grow b)).seqs ids a = ∅
      rw [others a same]
      simpa [same] using h.free_iff a withinA
  case refs =>
    intro a withinA
    by_cases same : a = b
    next =>
      subst same
      rw [held]
      simp [Frame.grow, Pool.frame, Block.reset]
    next =>
      rw [others a same]
      simpa [Frame.grow, Pool.frame, Function.update, same] using h.refs a withinA
  case table_nodup => exact h.store_nodup (h.append_nodup member absent)
  case table_lt => exact h.store_lt (h.append_lt member within)

theorem publish (h : Accounting p ids) (b : BlockId) (blockHash : Int) (tokenIds : List Token)
    (parent : Int × Int) :
    Accounting ⟨p.manager.publishFullBlock b blockHash tokenIds parent, p.seqs⟩ ids where
  size_pos := h.size_pos
  identity a := by
    by_cases same : a = b
    next => simp [Function.update, same, Block.update, h.identity]
    next => simp [Function.update, same, h.identity]
  free_nodup := h.free_nodup
  free_lt := h.free_lt
  used_iff := h.used_iff
  free_iff := h.free_iff
  refs a within := by
    by_cases same : a = b
    next =>
      subst same
      simpa [Function.update, Block.update] using h.refs a within
    next => simpa [Function.update, same] using h.refs a within
  table_nodup := h.table_nodup
  table_lt := h.table_lt

theorem share_refs (h : Accounting p ids) (b : BlockId) :
    ((p.manager.share b).blocks b).refCount = (p.manager.blocks b).refCount + 1 := by
  unfold BlockManager.share
  split
  next free => simp [h.free_refs free]
  next => simp

theorem share_refs_of_ne {m : BlockManager} {a b : BlockId} (other : a ≠ b) :
    (m.share b).blocks a = m.blocks a := by
  unfold BlockManager.share
  split <;> simp [Function.update, other]

theorem share_free {m : BlockManager} {b : BlockId} :
    (m.share b).freeBlockIds = m.freeBlockIds.erase b := by
  unfold BlockManager.share
  split
  next => rfl
  next busy => exact (List.erase_of_not_mem busy).symm

theorem share_used (h : Accounting p ids) (within : b < p.manager.numBlocks) :
    (p.manager.share b).usedBlockIds = insert b p.manager.usedBlockIds := by
  unfold BlockManager.share
  split
  next => rfl
  next busy => exact (Finset.insert_eq_of_mem ((h.used_iff b).mpr ⟨within, busy⟩)).symm

theorem share (h : Accounting p ids) (member : i ∈ ids) (within : b < p.manager.numBlocks)
    (absent : b ∉ (p.seqs i).blockTable) : Accounting (p.store i ((p.frame i).share b)) ids := by
  have held : holders (p.store i ((p.frame i).share b)).seqs ids b = insert i (holders p.seqs ids b) :=
    holders_store_insert member (by simp [Frame.share])
  have others (a : BlockId) (other : a ≠ b) :
      holders (p.store i ((p.frame i).share b)).seqs ids a = holders p.seqs ids a :=
    holders_store_same (by simp [Frame.share, Pool.frame, other])
  have fresh : i ∉ holders p.seqs ids b := by simp [mem_holders, absent]
  constructor
  case size_pos => simpa [Frame.share, Pool.frame] using h.size_pos
  case identity =>
    intro a
    have same := congrArg Block.blockId (p.manager.share_content b a)
    exact same.trans (h.identity a)
  case free_nodup =>
    simpa [Frame.share, Pool.frame, share_free] using h.free_nodup.erase b
  case free_lt =>
    intro a free
    simp only [Frame.share, Pool.frame, Pool.store_manager, share_free] at free
    simpa [Frame.share, Pool.frame] using h.free_lt a (List.mem_of_mem_erase free)
  case used_iff =>
    intro a
    simp only [Pool.store_manager, Frame.share, Pool.frame, h.share_used within, share_free,
      BlockManager.share_numBlocks, Finset.mem_insert, h.free_nodup.mem_erase_iff, h.used_iff a]
    by_cases same : a = b
    next => simp [same, within]
    next => simp [same]
  case free_iff =>
    intro a withinA
    have withinA' : a < p.manager.numBlocks := by simpa [Frame.share, Pool.frame] using withinA
    simp only [Pool.store_manager, Frame.share, Pool.frame, share_free, h.free_nodup.mem_erase_iff]
    by_cases same : a = b
    next =>
      subst same
      change _ ↔ holders (p.store i ((p.frame i).share a)).seqs ids a = ∅
      simp [held]
    next =>
      change _ ↔ holders (p.store i ((p.frame i).share b)).seqs ids a = ∅
      rw [others a same]
      simpa [same] using h.free_iff a withinA'
  case refs =>
    intro a withinA
    have withinA' : a < p.manager.numBlocks := by simpa [Frame.share, Pool.frame] using withinA
    by_cases same : a = b
    next =>
      subst same
      rw [held, Finset.card_insert_of_notMem fresh]
      simp only [Pool.store_manager, Frame.share, Pool.frame, h.share_refs a, h.refs a withinA']
      push_cast
      rfl
    next =>
      rw [others a same]
      simpa [Frame.share, Pool.frame, share_refs_of_ne same] using h.refs a withinA'
  case table_nodup => exact h.store_nodup (h.append_nodup member absent)
  case table_lt =>
    simp only [Pool.store_manager, Frame.share, Pool.frame, BlockManager.share_numBlocks]
    exact h.store_lt (h.append_lt member within)

theorem release_blocks {m : BlockManager} {b : BlockId} :
    (m.release b).blocks =
      Function.update m.blocks b { m.blocks b with refCount := (m.blocks b).refCount - 1 } := by
  unfold BlockManager.release
  dsimp only
  split <;> rfl

theorem mem_release_free {m : BlockManager} {a b : BlockId} : a ∈ (m.release b).freeBlockIds ↔
    a ∈ m.freeBlockIds ∨ a = b ∧ (m.blocks b).refCount = 1 := by
  unfold BlockManager.release
  dsimp only
  split <;> simp_all

theorem mem_release_used {m : BlockManager} {a b : BlockId} : a ∈ (m.release b).usedBlockIds ↔
    a ∈ m.usedBlockIds ∧ ¬(a = b ∧ (m.blocks b).refCount = 1) := by
  unfold BlockManager.release
  dsimp only
  split <;> simp_all [and_comm]

theorem release (h : Accounting p ids) (member : i ∈ ids) {front : List BlockId} {seq : Sequence}
    (table : (p.seqs i).blockTable = front ++ [b]) (rest : seq.blockTable = front) :
    Accounting (p.store i ⟨p.manager.release b, seq⟩) ids := by
  have nodup := h.table_nodup i member
  rw [table, List.nodup_append] at nodup
  have gone : b ∉ seq.blockTable := by
    rw [rest]
    exact fun old => nodup.2.2 b old b (by simp) rfl
  have was : b ∈ (p.seqs i).blockTable := by simp [table]
  have within := h.table_lt i member b was
  have held : holders (p.store i ⟨p.manager.release b, seq⟩).seqs ids b = (holders p.seqs ids b).erase i :=
    holders_store_erase gone
  have others (a : BlockId) (other : a ≠ b) :
      holders (p.store i ⟨p.manager.release b, seq⟩).seqs ids a = holders p.seqs ids a :=
    holders_store_same (by simp [rest, table, other])
  have holder : i ∈ holders p.seqs ids b := mem_holders.mpr ⟨member, was⟩
  have count : ((holders p.seqs ids b).erase i).card + 1 = (holders p.seqs ids b).card :=
    Finset.card_erase_add_one holder
  have refs := h.refs b within
  have last : (p.manager.blocks b).refCount = 1 ↔ (holders p.seqs ids b).erase i = ∅ := by
    rw [refs, ← Finset.card_eq_zero]
    omega
  have busy := h.held_not_free member was
  constructor
  case size_pos => simpa using h.size_pos
  case identity =>
    intro a
    have same := congrArg Block.blockId (p.manager.release_content b a)
    exact same.trans (h.identity a)
  case free_nodup =>
    simp only [Pool.store_manager]
    unfold BlockManager.release
    dsimp only
    split
    next =>
      have appended := h.free_nodup.concat busy
      rwa [List.concat_eq_append] at appended
    next => exact h.free_nodup
  case free_lt =>
    intro a free
    simp only [Pool.store_manager, BlockManager.release_numBlocks] at free ⊢
    rcases mem_release_free.mp free with old | ⟨rfl, -⟩
    · exact h.free_lt a old
    · exact within
  case used_iff =>
    intro a
    simp only [Pool.store_manager, BlockManager.release_numBlocks, mem_release_free, mem_release_used, h.used_iff a]
    by_cases same : a = b
    next => simp [same, within, busy]
    next => simp [same]
  case free_iff =>
    intro a withinA
    simp only [Pool.store_manager, BlockManager.release_numBlocks] at withinA ⊢
    rw [mem_release_free]
    by_cases same : a = b
    next =>
      subst same
      rw [held, ← last]
      simp [busy]
    next =>
      rw [others a same]
      simpa [same] using h.free_iff a withinA
  case refs =>
    intro a withinA
    simp only [Pool.store_manager, BlockManager.release_numBlocks] at withinA ⊢
    by_cases same : a = b
    next =>
      subst same
      rw [held, release_blocks]
      simp only [Function.update_self, refs]
      omega
    next =>
      rw [others a same, release_blocks]
      simpa [Function.update, same] using h.refs a withinA
  case table_nodup => exact h.store_nodup (rest ▸ nodup.1)
  case table_lt =>
    simp only [Pool.store_manager, BlockManager.release_numBlocks]
    exact h.store_lt (fun a listed => h.table_lt i member a (by simp [table, rest ▸ listed]))

end Accounting

end NanoVllm
