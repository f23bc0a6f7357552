import NanoVllm.Blocks.Claim

set_option autoImplicit false

namespace NanoVllm

open Python Raising Naming

structure PageReady (m : BlockManager) (seq : Sequence) (k : Nat) : Prop where
  reached : k ≤ seq.blockTable.length
  before : ∀ a, 0 < k → seq.blockTable[k - 1]? = some a → (m.blocks a).published
  current : ∀ b, seq.blockTable[k]? = some b → ¬(m.blocks b).published
  room : k = seq.blockTable.length → m.freeBlockIds ≠ []

namespace Frame

-- The block table reaches page `k`.
def reach (f : Frame) (k : Nat) : Frame :=
  if k < f.seq.blockTable.length then f else
    match f.manager.freeBlockIds with
    | [] => f
    | b :: _ => f.grow b

def publishPage (f : Frame) (k : Nat) : Frame :=
  match f.seq.blockTable[k]?, f.seq.blockHashes[k]? with
  | some b, some h =>
      ⟨f.manager.publishFullBlock b h
        (slice f.seq.tokenIds (k * f.manager.blockSize) ((k + 1) * f.manager.blockSize))
        (f.manager.lineageBefore f.seq.blockTable k), f.seq⟩
  | _, _ => f

-- Page `k` as it is filled up to `contextEnd`.
def page (f : Frame) (contextEnd k : Nat) : Frame :=
  if (k + 1) * f.manager.blockSize ≤ contextEnd then (f.reach k).publishPage k else f.reach k

-- The `count` pages from page `first` on, one after the other.
def pages (f : Frame) (contextEnd first count : Nat) : Frame :=
  (List.range' first count).foldl (fun f k => f.page contextEnd k) f

end Frame

namespace Held

variable {p : Pool} {ids : Finset SeqId} {chain : Chain} {i : SeqId} {k contextEnd : Nat}

theorem lineageBefore_ok (h : Held p ids chain) (member : i ∈ ids) (ready : PageReady p.manager (p.seqs i) k) :
    p.manager.lineageAt (p.seqs i).blockTable k = .ok (p.manager.lineageBefore (p.seqs i).blockTable k) := by
  cases k with
  | zero => rfl
  | succ k =>
      have inside : k < (p.seqs i).blockTable.length := by
        have := ready.reached
        omega
      have entry : (p.seqs i).blockTable[k]? = some (p.seqs i).blockTable[k] := List.getElem?_eq_getElem inside
      have published := ready.before (p.seqs i).blockTable[k] (by omega) entry
      have within := h.accounting.table_lt i member _ (List.getElem_mem inside)
      simp only [BlockManager.lineageAt, Nat.add_eq_zero_iff, Nat.one_ne_zero, and_false, if_false,
        Nat.add_sub_cancel, entry, BlockManager.lineageBefore]
      exact BlockManager.lineage_some h.index within published

theorem pageTokens (h : Held p ids chain) (member : i ∈ ids) (within : contextEnd ≤ (p.seqs i).numTokens) :
    (slice (p.seqs i).tokenIds (k * p.manager.blockSize)
        (min (k * p.manager.blockSize + p.manager.blockSize) contextEnd)).length = p.manager.blockSize ↔
      (k + 1) * p.manager.blockSize ≤ contextEnd := by
  have positive := h.size_pos
  rw [(h.wf i member).tokens] at within
  rw [length_slice, Nat.add_mul]
  omega

theorem pageTokens_whole (whole : (k + 1) * p.manager.blockSize ≤ contextEnd) :
    slice (p.seqs i).tokenIds (k * p.manager.blockSize)
        (min (k * p.manager.blockSize + p.manager.blockSize) contextEnd) =
      slice (p.seqs i).tokenIds (k * p.manager.blockSize) ((k + 1) * p.manager.blockSize) := by
  have next : k * p.manager.blockSize + p.manager.blockSize = (k + 1) * p.manager.blockSize := by
    rw [Nat.add_mul, Nat.one_mul]
  rw [next, Nat.min_eq_left whole]

theorem lineageBefore_grow (h : Held p ids chain) (member : i ∈ ids) {b : BlockId}
    (free : b ∈ p.manager.freeBlockIds) (reached : k ≤ (p.seqs i).blockTable.length) :
    (p.manager.acquire b).lineageBefore ((p.seqs i).blockTable ++ [b]) k =
      p.manager.lineageBefore (p.seqs i).blockTable k := by
  refine Linked.lineageBefore_congr ?_ ?_
  · intro positive
    exact List.getElem?_append_left (by omega)
  · intro a positive entry
    have other : a ≠ b := by
      rintro rfl
      exact h.accounting.free_not_held free member (List.mem_of_getElem? entry)
    simp [Function.update_of_ne other]

theorem mayAppendPage_run (h : Held p ids chain) (member : i ∈ ids)
    (ready : PageReady p.manager (p.seqs i) k)
    (within : (p.seqs i).numContextTokens ≤ (p.seqs i).numTokens) :
    BlockManager.mayAppendPage (k * p.manager.blockSize) (p.frame i) =
      .ok () ((p.frame i).page (p.seqs i).numContextTokens k) := by
  have positive := h.size_pos
  have wf := h.wf i member
  have parent := h.lineageBefore_ok member ready
  have full := h.pageTokens (k := k) member within
  have index : k * p.manager.blockSize / p.manager.blockSize = k := Nat.mul_div_cancel _ positive
  simp only [Sequence.numContextTokens] at full within
  simp only [BlockManager.mayAppendPage, run_get_bind, Pool.frame, index]
  rw [run_ofExcept_bind parent]
  have hashes (whole : (k + 1) * p.manager.blockSize ≤ (p.seqs i).numCachedTokens + (p.seqs i).numNewTokens) :
      ∃ h, (p.seqs i).blockHash k = .ok h ∧ (p.seqs i).blockHashes[k]? = some h :=
    (wf.blockHash_ok (whole.trans within)).imp (fun _ found => ⟨found.1, found.2.1⟩)
  simp only [full]
  cases current : (p.seqs i).blockTable[k]? with
  | some b =>
      have inside := (List.getElem?_eq_some_iff.mp current).1
      have bound := h.accounting.table_lt i member b (List.mem_of_getElem? current)
      have blank : (p.manager.blocks b).hash = -1 := not_not.mp (ready.current b current)
      simp only [run_ofExcept_bind (BlockManager.getBlock_of_lt bound), run_require_bind blank]
      by_cases whole : (k + 1) * p.manager.blockSize ≤ (p.seqs i).numCachedTokens + (p.seqs i).numNewTokens
      · obtain ⟨hash, found, entry⟩ := hashes whole
        rw [if_pos whole, run_ofExcept_bind found, BlockManager.publish, run_modify]
        simp only [Frame.page, Sequence.numContextTokens, if_pos whole, Frame.reach, if_pos inside,
          Frame.publishPage, current, entry, pageTokens_whole whole]
      · rw [if_neg whole]
        simp [Frame.page, Sequence.numContextTokens, whole, Frame.reach, inside]
  | none =>
      have last : k = (p.seqs i).blockTable.length := by
        have := List.getElem?_eq_none_iff.mp current
        have := ready.reached
        omega
      obtain ⟨b, rest, first⟩ := List.exists_cons_of_ne_nil (ready.room last)
      have free : b ∈ p.manager.freeBlockIds := by simp [first]
      have bound := h.accounting.free_lt b free
      have append : BlockManager.appendFreeBlock ⟨p.manager, p.seqs i⟩ = .ok b ((p.frame i).grow b) :=
        BlockManager.appendFreeBlock_run (f := p.frame i) first bound (h.accounting.free_refs free)
      have outside : ¬k < (p.seqs i).blockTable.length := by omega
      by_cases whole : (k + 1) * p.manager.blockSize ≤ (p.seqs i).numCachedTokens + (p.seqs i).numNewTokens
      · obtain ⟨hash, found, entry⟩ := hashes whole
        simp only [if_pos whole]
        rw [run_ofExcept_bind found, bind_ok append, BlockManager.publish, run_modify]
        have grown := h.lineageBefore_grow member free ready.reached
        have entry' : ((p.seqs i).blockTable ++ [b])[k]? = some b := by simp [last]
        simp only [Frame.page, Sequence.numContextTokens, if_pos whole, Frame.reach, if_neg outside, first,
          Frame.publishPage, Frame.grow, Pool.frame, entry, entry', grown, pageTokens_whole whole,
          BlockManager.acquire_blockSize]
      · simp only [if_neg whole]
        rw [bind_ok append]
        simp only [Frame.page, Sequence.numContextTokens, if_neg whole, Frame.reach, if_neg outside, first,
          Pool.frame, run_pure]

theorem lineageBefore_last (h : Held p ids chain) (member : i ∈ ids)
    (ready : PageReady p.manager (p.seqs i) (p.seqs i).blockTable.length) :
    p.manager.lineage (p.seqs i).blockTable.getLast? =
      .ok (p.manager.lineageBefore (p.seqs i).blockTable (p.seqs i).blockTable.length) := by
  have at' := h.lineageBefore_ok member ready
  rw [← at', BlockManager.lineageAt, List.getLast?_eq_getElem?]
  by_cases empty : (p.seqs i).blockTable.length = 0
  · simp [List.length_eq_zero_iff.mp empty]
  · rw [if_neg empty, List.getElem?_eq_getElem (by omega)]

theorem allocateNewPage_run (h : Held p ids chain) (member : i ∈ ids)
    (ready : PageReady p.manager (p.seqs i) k) (last : k = (p.seqs i).blockTable.length)
    (within : contextEnd ≤ (p.seqs i).numTokens) :
    BlockManager.allocateNewPage contextEnd (k * p.manager.blockSize) (p.frame i) =
      .ok () ((p.frame i).page contextEnd k) := by
  have positive := h.size_pos
  have wf := h.wf i member
  have parent := h.lineageBefore_last member (last ▸ ready)
  rw [← last] at parent
  have full := h.pageTokens (k := k) member within
  have index : k * p.manager.blockSize / p.manager.blockSize = k := Nat.mul_div_cancel _ positive
  obtain ⟨b, rest, first⟩ := List.exists_cons_of_ne_nil (ready.room last)
  have free : b ∈ p.manager.freeBlockIds := by simp [first]
  have bound := h.accounting.free_lt b free
  have unreferenced := h.accounting.free_refs free
  have outside : ¬k < (p.seqs i).blockTable.length := by omega
  simp only [BlockManager.allocateNewPage, run_get_bind, Pool.frame, index]
  rw [run_ofExcept_bind parent]
  simp only [full]
  by_cases whole : (k + 1) * p.manager.blockSize ≤ contextEnd
  · obtain ⟨hash, found, entry, hashed⟩ := wf.blockHash_ok (whole.trans within)
    have head : p.manager.firstFree = .ok b := by simp [BlockManager.firstFree, first]
    have taken : BlockManager.onManager (BlockManager.allocateBlock b) ⟨p.manager, p.seqs i⟩ =
        .ok () ⟨p.manager.acquire b, p.seqs i⟩ :=
      BlockManager.onManager_ok (BlockManager.allocateBlock_run bound unreferenced free)
    simp only [if_pos whole]
    rw [run_ofExcept_bind found, run_ofExcept_bind head, bind_ok taken]
    have grown := h.lineageBefore_grow member free ready.reached
    have entry' : ((p.seqs i).blockTable ++ [b])[k]? = some b := by simp [last]
    simp only [ne_eq, hashed, not_false_eq_true, if_true, BlockManager.publish, run_modify_bind, run_modify]
    simp only [Frame.page, if_pos whole, Frame.reach, if_neg outside, first, Frame.publishPage, Frame.grow,
      entry, entry', grown, pageTokens_whole whole, BlockManager.acquire_blockSize]
  · have append : BlockManager.appendFreeBlock ⟨p.manager, p.seqs i⟩ = .ok b ((p.frame i).grow b) :=
      BlockManager.appendFreeBlock_run (f := p.frame i) first bound unreferenced
    simp only [if_neg whole]
    rw [bind_ok append]
    simp only [Frame.page, if_neg whole, Frame.reach, if_neg outside, first, Pool.frame, run_pure]

end Held

/-- The blocks `fresh` were taken from the free queue to fill the pages `first .. k` of sequence `i`,
whose context ends at `contextEnd`. -/
structure Filled (p p' : Pool) (ids : Finset SeqId) (chain chain' : Chain) (i : SeqId) (contextEnd first k : Nat)
    (fresh : List BlockId) : Prop where
  held : Held p' ids chain'
  seqs : p'.seqs = Function.update p.seqs i { p.seqs i with blockTable := (p.seqs i).blockTable ++ fresh }
  free : p.manager.freeBlockIds = fresh ++ p'.manager.freeBlockIds
  size : p'.manager.blockSize = p.manager.blockSize
  count : p'.manager.numBlocks = p.manager.numBlocks
  named : ∀ identity, identity = noLineage ∨ p.manager.Issued identity → chain' identity = chain identity
  issued : ∀ identity, p.manager.Issued identity → p'.manager.Issued identity
  kept : ∀ b, (p.manager.blocks b).published → b ∉ fresh → p'.manager.blocks b = p.manager.blocks b
  later : ∀ j b, k ≤ j → (p.seqs i).blockTable[j]? = some b → p'.manager.blocks b = p.manager.blocks b
  renewed : ∀ b, (p'.manager.blocks b).generation =
    (p.manager.blocks b).generation + if b ∈ fresh then 1 else 0
  pages : ∀ j b, first ≤ j → j < k → (p'.seqs i).blockTable[j]? = some b →
    ((p'.manager.blocks b).published ↔ (j + 1) * p.manager.blockSize ≤ contextEnd)
  origin : ∀ b, (p'.manager.blocks b).published → (p.manager.blocks b).published ∧ b ∉ fresh ∨
    ∃ j, first ≤ j ∧ j < k ∧ (p'.seqs i).blockTable[j]? = some b
  passed : first < k → k ≤ (p'.seqs i).blockTable.length
  reached : first ≤ (p.seqs i).blockTable.length →
    (p'.seqs i).blockTable.length = max (p.seqs i).blockTable.length k

namespace Filled

variable {p p' : Pool} {ids : Finset SeqId} {chain chain' : Chain} {i : SeqId} {contextEnd first k : Nat}
  {fresh : List BlockId}

theorem start (h : Held p ids chain) : Filled p p ids chain chain i contextEnd first first [] where
  held := h
  seqs := by simp
  free := rfl
  size := rfl
  count := rfl
  named _ _ := rfl
  issued _ issued := issued
  kept _ _ _ := rfl
  later _ _ _ _ := rfl
  renewed b := by simp
  pages j b from' below := absurd from' (by omega)
  origin b published := Or.inl ⟨published, by simp⟩
  passed some' := absurd some' (lt_irrefl _)
  reached within := (Nat.max_eq_left within).symm

theorem table (h : Filled p p' ids chain chain' i contextEnd first k fresh) :
    (p'.seqs i).blockTable = (p.seqs i).blockTable ++ fresh := by
  simp [h.seqs]

theorem trans {p'' : Pool} {chain'' : Chain} {stop : Nat} {fresh' : List BlockId} (member : i ∈ ids)
    (h : Filled p p' ids chain chain' i contextEnd first k fresh)
    (h' : Filled p' p'' ids chain' chain'' i contextEnd k stop fresh') (le : first ≤ k) (le' : k ≤ stop) :
    Filled p p'' ids chain chain'' i contextEnd first stop (fresh ++ fresh') := by
  have table := h.table
  have table' := h'.table
  have nodup := h'.held.accounting.table_nodup i member
  constructor
  case held => exact h'.held
  case seqs => simp [h'.seqs, h.seqs]
  case free => rw [h.free, h'.free, List.append_assoc]
  case size => rw [h'.size, h.size]
  case count => rw [h'.count, h.count]
  case named =>
    intro identity known
    rw [h'.named identity (known.imp_right (h.issued identity)), h.named identity known]
  case issued => exact fun identity issued => h'.issued identity (h.issued identity issued)
  case kept =>
    intro b published unused
    have same := h.kept b published (fun old => unused (List.mem_append_left _ old))
    rw [← same] at published
    rw [h'.kept b published (fun new => unused (List.mem_append_right _ new)), same]
  case later =>
    intro j b from' entry
    have entry' : (p'.seqs i).blockTable[j]? = some b := by
      rw [table, List.getElem?_append_left (List.getElem?_eq_some_iff.mp entry).1]
      exact entry
    rw [h'.later j b from' entry', h.later j b (le'.trans from') entry]
  case renewed =>
    intro b
    have once (old : b ∈ fresh) (new : b ∈ fresh') : False := by
      have held : b ∈ (p'.seqs i).blockTable := by simp [table, old]
      exact h.held.accounting.held_not_free member held (by simp [h'.free, new])
    rw [h'.renewed, h.renewed]
    by_cases old : b ∈ fresh
    · have not' : b ∉ fresh' := once old
      simp [old, not']
    · by_cases new : b ∈ fresh' <;> simp [old, new]
  case pages =>
    intro j b from' below entry
    by_cases old : j < k
    next =>
      have inside : j < (p'.seqs i).blockTable.length := by
        have := h.passed (by omega)
        omega
      have entry' : (p'.seqs i).blockTable[j]? = some b := by
        rw [table', List.getElem?_append_left inside] at entry
        exact entry
      rw [← h.pages j b from' old entry']
      constructor
      case mp =>
        intro published
        rcases h'.origin b published with ⟨before, -⟩ | ⟨j', from'', -, again⟩
        · exact before
        · have same : j = j' := (List.Nodup.getElem_inj_iff nodup).mp (by
            rw [(List.getElem?_eq_some_iff.mp entry).2, (List.getElem?_eq_some_iff.mp again).2])
          omega
      case mpr =>
        intro published
        have busy := h.held.accounting.held_not_free member (List.mem_of_getElem? entry')
        rw [h'.free] at busy
        rw [h'.kept b published (fun new => busy (List.mem_append_left _ new))]
        exact published
    next =>
      rw [← h.size]
      exact h'.pages j b (by omega) below entry
  case origin =>
    intro b published
    rcases h'.origin b published with ⟨before, unused⟩ | ⟨j, from', below, entry⟩
    · rcases h.origin b before with ⟨first', unused'⟩ | ⟨j, from', below, entry⟩
      · exact Or.inl ⟨first', by simp [unused, unused']⟩
      · refine Or.inr ⟨j, from', by omega, ?_⟩
        rw [table', List.getElem?_append_left (List.getElem?_eq_some_iff.mp entry).1]
        exact entry
    · exact Or.inr ⟨j, by omega, below, entry⟩
  case passed =>
    intro some'
    by_cases more : k < stop
    · exact h'.passed more
    · have same : k = stop := by omega
      have := h.passed (by omega)
      rw [table', List.length_append]
      omega
  case reached =>
    intro within
    have before := h.reached within
    rw [h'.reached (by omega), before]
    omega

end Filled

namespace Held

variable {p : Pool} {ids : Finset SeqId} {chain : Chain} {i : SeqId} {k contextEnd : Nat}

theorem grow (h : Held p ids chain) (member : i ∈ ids) {b : BlockId} (free : b ∈ p.manager.freeBlockIds) :
    Held (p.store i ((p.frame i).grow b)) ids chain where
  accounting := h.accounting.grow member free
  index := h.index.acquire b
  tables := h.tables.grow h.accounting member free
  wf j memberJ := by
    by_cases self : j = i
    · subst self
      rw [Pool.store_seqs_self]
      exact (h.wf j memberJ).relabel rfl rfl rfl rfl rfl
    · rw [p.store_seqs_of_ne _ self]
      exact h.wf j memberJ

theorem publish (h : Held p ids chain) (member : i ∈ ids) {b : BlockId} {blockHash : Int}
    (entry : (p.seqs i).blockTable[k]? = some b) (unpublished : ¬(p.manager.blocks b).published)
    (hash : (p.seqs i).blockHashes[k]? = some blockHash)
    (before : ∀ a, 0 < k → (p.seqs i).blockTable[k - 1]? = some a → (p.manager.blocks a).published) :
    ∃ chain',
      Held ⟨p.manager.publishFullBlock b blockHash
        (slice (p.seqs i).tokenIds (k * p.manager.blockSize) ((k + 1) * p.manager.blockSize))
        (p.manager.lineageBefore (p.seqs i).blockTable k), p.seqs⟩ ids chain' ∧
      ∀ identity, identity = noLineage ∨ p.manager.Issued identity → chain' identity = chain identity := by
  have wf := h.wf i member
  have hashed := wf.hashed blockHash (List.mem_of_getElem? hash)
  have inside := (List.getElem?_eq_some_iff.mp hash).1
  rw [wf.hashes, Nat.lt_iff_add_one_le, Nat.le_div_iff_mul_le h.size_pos] at inside
  have whole := wf.page_whole.mpr inside
  have within := h.accounting.table_lt i member b (List.mem_of_getElem? entry)
  have above : p.manager.lineageBefore (p.seqs i).blockTable k = noLineage ∨
      p.manager.Issued (p.manager.lineageBefore (p.seqs i).blockTable k) := by
    cases k with
    | zero => exact Or.inl rfl
    | succ k =>
        have reached := (List.getElem?_eq_some_iff.mp entry).1
        have previous : (p.seqs i).blockTable[k]? = some (p.seqs i).blockTable[k] :=
          List.getElem?_eq_getElem (by omega)
        right
        simp only [BlockManager.lineageBefore, previous]
        exact h.index.issued _ (h.accounting.table_lt i member _ (List.mem_of_getElem? previous))
          (before _ (by omega) previous)
  refine ⟨_, ⟨h.accounting.publish b _ _ _, h.index.publish within (h.accounting.identity b) unpublished
    hashed whole above, h.tables.publish member (h.accounting.table_nodup i member) entry unpublished hash
    before, h.wf⟩, ?_⟩
  intro identity known
  exact h.index.published_stable (h.accounting.identity b) unpublished known

end Held

structure Reached (p q : Pool) (ids : Finset SeqId) (chain : Chain) (i : SeqId) (k : Nat)
    (fresh : List BlockId) (b : BlockId) : Prop where
  held : Held q ids chain
  seqs : q.seqs = Function.update p.seqs i { p.seqs i with blockTable := (p.seqs i).blockTable ++ fresh }
  free : p.manager.freeBlockIds = fresh ++ q.manager.freeBlockIds
  size : q.manager.blockSize = p.manager.blockSize
  count : q.manager.numBlocks = p.manager.numBlocks
  issued : ∀ identity, p.manager.Issued identity → q.manager.Issued identity
  entry : (q.seqs i).blockTable[k]? = some b
  unpublished : ¬(q.manager.blocks b).published
  others : ∀ a, a ≠ b → q.manager.blocks a = p.manager.blocks a
  source : b ∈ fresh ∨ ¬(p.manager.blocks b).published
  only : ∀ a ∈ fresh, a = b
  old : b ∈ (p.seqs i).blockTable → q.manager.blocks b = p.manager.blocks b
  renewed : ∀ a, (q.manager.blocks a).generation =
    (p.manager.blocks a).generation + if a ∈ fresh then 1 else 0
  length : (q.seqs i).blockTable.length = max (p.seqs i).blockTable.length (k + 1)

section Page

variable {p q : Pool} {ids : Finset SeqId} {chain : Chain} {i : SeqId} {k contextEnd : Nat}
  {fresh : List BlockId} {b : BlockId}

theorem Held.reach (h : Held p ids chain) (member : i ∈ ids) (ready : PageReady p.manager (p.seqs i) k) :
    ∃ q fresh b, (p.frame i).reach k = q.frame i ∧ Reached p q ids chain i k fresh b := by
  by_cases inside : k < (p.seqs i).blockTable.length
  case pos =>
    have entry : (p.seqs i).blockTable[k]? = some (p.seqs i).blockTable[k] := List.getElem?_eq_getElem inside
    have unpublished := ready.current _ entry
    refine ⟨p, [], (p.seqs i).blockTable[k], by simp [Frame.reach, Pool.frame, inside], ?_⟩
    exact
      { held := h
        seqs := by simp
        free := rfl
        size := rfl
        count := rfl
        issued := fun _ issued => issued
        entry := entry
        unpublished := unpublished
        others := fun _ _ => rfl
        source := Or.inr unpublished
        only := by simp
        old := fun _ => rfl
        renewed := by simp
        length := by omega }
  case neg =>
    have last : k = (p.seqs i).blockTable.length := by
      have := ready.reached
      omega
    obtain ⟨b, rest, first⟩ := List.exists_cons_of_ne_nil (ready.room last)
    have free : b ∈ p.manager.freeBlockIds := by simp [first]
    refine ⟨p.store i ((p.frame i).grow b), [b], b, by simp [Frame.reach, Pool.frame, inside, first], ?_⟩
    exact
      { held := h.grow member free
        seqs := rfl
        free := by simp [Frame.grow, Pool.frame, first]
        size := rfl
        count := rfl
        issued := fun _ issued => issued.acquire b
        entry := by simp [Frame.grow, Pool.frame, last]
        unpublished := by simp [Frame.grow, Pool.frame, Block.published, Block.reset]
        others := fun a other => by simp [Frame.grow, Pool.frame, Function.update_of_ne other]
        source := Or.inl (by simp)
        only := by simp
        old := fun held => absurd held (h.accounting.free_not_held free member)
        renewed := fun a => by
          by_cases self : a = b <;> simp [Frame.grow, Pool.frame, Function.update, self, Block.reset]
        length := by
          simp [Frame.grow, Pool.frame]
          omega }

namespace Reached

theorem table (h : Reached p q ids chain i k fresh b) :
    (q.seqs i).blockTable = (p.seqs i).blockTable ++ fresh := by
  simp [h.seqs]

theorem apart (h : Reached p q ids chain i k fresh b) {a : BlockId} (published : (p.manager.blocks a).published)
    (unused : a ∉ fresh) : a ≠ b := by
  rintro rfl
  exact h.source.elim unused (fun blank => blank published)

theorem later (h : Reached p q ids chain i k fresh b) (member : i ∈ ids) {j : Nat} {a : BlockId}
    (from' : k + 1 ≤ j) (entry : (p.seqs i).blockTable[j]? = some a) :
    a ≠ b ∧ q.manager.blocks a = p.manager.blocks a := by
  have entry' : (q.seqs i).blockTable[j]? = some a := by
    rw [h.table, List.getElem?_append_left (List.getElem?_eq_some_iff.mp entry).1]
    exact entry
  have other : a ≠ b := by
    rintro rfl
    have same : j = k := (List.Nodup.getElem_inj_iff (h.held.accounting.table_nodup i member)).mp (by
      rw [(List.getElem?_eq_some_iff.mp entry').2, (List.getElem?_eq_some_iff.mp h.entry).2])
    omega
  exact ⟨other, h.others a other⟩

theorem open' (h : Reached p q ids chain i k fresh b) (member : i ∈ ids)
    (part : ¬(k + 1) * p.manager.blockSize ≤ contextEnd) :
    Filled p q ids chain chain i contextEnd k (k + 1) fresh where
  held := h.held
  seqs := h.seqs
  free := h.free
  size := h.size
  count := h.count
  named _ _ := rfl
  issued := h.issued
  kept a published unused := h.others a (h.apart published unused)
  later j a from' entry := (h.later member from' entry).2
  renewed := h.renewed
  pages j a from' below entry := by
    have same : j = k := by omega
    subst same
    rw [h.entry, Option.some.injEq] at entry
    subst entry
    exact iff_of_false h.unpublished part
  origin a published := by
    have other : a ≠ b := fun same => h.unpublished (same ▸ published)
    rw [h.others a other] at published
    exact Or.inl ⟨published, fun new => other (h.only a new)⟩
  passed _ := by
    have := h.length
    omega
  reached _ := h.length

theorem publish (h : Reached p q ids chain i k fresh b) (member : i ∈ ids) (ready : PageReady p.manager (p.seqs i) k)
    (whole : (k + 1) * p.manager.blockSize ≤ contextEnd) (within : contextEnd ≤ (p.seqs i).numTokens) :
    ∃ q' chain', (q.frame i).publishPage k = q'.frame i ∧
      Filled p q' ids chain chain' i contextEnd k (k + 1) fresh := by
  have sameSeq : q.seqs i = { p.seqs i with blockTable := (p.seqs i).blockTable ++ fresh } := by simp [h.seqs]
  have whole' : (k + 1) * q.manager.blockSize ≤ (q.seqs i).numTokens := by
    rw [h.size, sameSeq]
    exact whole.trans within
  obtain ⟨blockHash, -, hash, hashed⟩ := (h.held.wf i member).blockHash_ok whole'
  have before (a : BlockId) (positive : 0 < k) (entry : (q.seqs i).blockTable[k - 1]? = some a) :
      (q.manager.blocks a).published := by
    have entry' : (p.seqs i).blockTable[k - 1]? = some a := by
      have reached := ready.reached
      rw [h.table, List.getElem?_append_left (by omega)] at entry
      exact entry
    have published := ready.before a positive entry'
    by_cases same : a = b
    · subst same
      rw [h.old (List.mem_of_getElem? entry')]
      exact published
    · rwa [h.others a same]
  obtain ⟨chain', held, named⟩ := h.held.publish member h.entry h.unpublished hash before
  set m' := q.manager.publishFullBlock b blockHash
    (slice (q.seqs i).tokenIds (k * q.manager.blockSize) ((k + 1) * q.manager.blockSize))
    (q.manager.lineageBefore (q.seqs i).blockTable k) with hm'
  have others (a : BlockId) (other : a ≠ b) : m'.blocks a = p.manager.blocks a := by
    rw [hm', BlockManager.publish_blocks, Function.update_of_ne other, h.others a other]
  refine ⟨⟨m', q.seqs⟩, chain', by simp [Frame.publishPage, Pool.frame, h.entry, hash, hm'], ?_⟩
  constructor
  case held => exact held
  case seqs => exact h.seqs
  case free => exact h.free
  case size => exact h.size
  case count => exact h.count
  case named => exact fun identity known => named identity (known.imp_right (h.issued identity))
  case issued => exact fun identity issued => (h.issued identity issued).publish b hashed _ _
  case kept => exact fun a published unused => others a (h.apart published unused)
  case later => exact fun j a from' entry => others a (h.later member from' entry).1
  case renewed =>
    intro a
    rw [← h.renewed a]
    by_cases same : a = b
    · simp [hm', same, Block.update]
    · simp [hm', Function.update_of_ne same]
  case pages =>
    intro j a from' below entry
    have same : j = k := by omega
    subst same
    have self : a = b := Option.some.inj (entry.symm.trans h.entry)
    subst self
    refine iff_of_true ?_ whole
    simp [hm', Block.published, Block.update, hashed]
  case origin =>
    intro a published
    by_cases same : a = b
    · exact Or.inr ⟨k, Nat.le_refl k, Nat.lt_succ_self k, same ▸ h.entry⟩
    · simp only [others a same] at published
      exact Or.inl ⟨published, fun new => same (h.only a new)⟩
  case passed =>
    intro _
    have := h.length
    simp only
    omega
  case reached => exact fun _ => h.length

end Reached

theorem Held.page (h : Held p ids chain) (member : i ∈ ids) (ready : PageReady p.manager (p.seqs i) k)
    (within : contextEnd ≤ (p.seqs i).numTokens) :
    ∃ p' chain' fresh, (p.frame i).page contextEnd k = p'.frame i ∧
      Filled p p' ids chain chain' i contextEnd k (k + 1) fresh := by
  obtain ⟨q, fresh, b, same, reached⟩ := h.reach member ready
  by_cases whole : (k + 1) * p.manager.blockSize ≤ contextEnd
  case pos =>
    obtain ⟨q', chain', published, filled⟩ := reached.publish member ready whole within
    refine ⟨q', chain', fresh, (if_pos whole).trans ?_, filled⟩
    rw [same]
    exact published
  case neg =>
    exact ⟨q, chain, fresh, (if_neg whole).trans same, reached.open' member whole⟩

end Page

/-- Where `allocate_new` and `may_append` start, with the blocks that they need. -/
structure Fillable (p : Pool) (i : SeqId) (contextEnd first : Nat) : Prop where
  reached : first ≤ (p.seqs i).blockTable.length
  before : ∀ a, 0 < first → (p.seqs i).blockTable[first - 1]? = some a → (p.manager.blocks a).published
  current : ∀ k b, first ≤ k → (p.seqs i).blockTable[k]? = some b → ¬(p.manager.blocks b).published
  room : pagesFor p.manager.blockSize contextEnd ≤
    (p.seqs i).blockTable.length + p.manager.freeBlockIds.length
  within : contextEnd ≤ (p.seqs i).numTokens

section Loops

variable {p q : Pool} {ids : Finset SeqId} {chain chain' : Chain} {i : SeqId} {contextEnd first k : Nat}
  {fresh : List BlockId}

theorem Filled.ready (h : Filled p q ids chain chain' i contextEnd first k fresh) (origin : Held p ids chain)
    (member : i ∈ ids) (start : Fillable p i contextEnd first) (le : first ≤ k)
    (below : k < pagesFor p.manager.blockSize contextEnd) : PageReady q.manager (q.seqs i) k := by
  have length := h.reached start.reached
  have table := h.table
  have total : (q.seqs i).blockTable.length = (p.seqs i).blockTable.length + fresh.length := by
    rw [table, List.length_append]
  constructor
  case reached => omega
  case before =>
    intro a positive entry
    by_cases more : first < k
    · rw [h.pages (k - 1) a (by omega) (by omega) entry, Nat.sub_add_cancel positive]
      exact ((lt_pagesFor origin.size_pos).mp below).le
    · have same : first = k := by omega
      subst same
      have reached := start.reached
      rw [table, List.getElem?_append_left (by omega)] at entry
      have published := start.before a positive entry
      have busy := origin.accounting.held_not_free member (List.mem_of_getElem? entry)
      rw [h.free] at busy
      rw [h.kept a published (fun new => busy (List.mem_append_left _ new))]
      exact published
  case current =>
    intro b entry
    have inside := (List.getElem?_eq_some_iff.mp entry).1
    rw [table, List.getElem?_append_left (by omega)] at entry
    rw [h.later k b (Nat.le_refl k) entry]
    exact start.current k b le entry
  case room =>
    intro last empty
    have count := congrArg List.length h.free
    rw [empty, List.append_nil] at count
    have := start.room
    omega

theorem Held.fill (origin : Held p ids chain) (member : i ∈ ids) (start : Fillable p i contextEnd first)
    (body : Nat → Method Unit)
    (run : ∀ k q chain' fresh, first ≤ k → Filled p q ids chain chain' i contextEnd first k fresh →
      PageReady q.manager (q.seqs i) k → body k (q.frame i) = .ok () ((q.frame i).page contextEnd k))
    (count : Nat) (few : first + count ≤ max first (pagesFor p.manager.blockSize contextEnd)) :
    ∃ p' chain' fresh, forEach body (List.range' first count) (p.frame i) = .ok () (p'.frame i) ∧
      Filled p p' ids chain chain' i contextEnd first (first + count) fresh ∧
      p'.frame i = (p.frame i).pages contextEnd first count := by
  have loop (n k : Nat) (q : Pool) (chain' : Chain) (fresh : List BlockId) (le : first ≤ k)
      (few : k + n ≤ max first (pagesFor p.manager.blockSize contextEnd))
      (filled : Filled p q ids chain chain' i contextEnd first k fresh) :
      ∃ p' chain'' fresh', forEach body (List.range' k n) (q.frame i) = .ok () (p'.frame i) ∧
        Filled p p' ids chain chain'' i contextEnd first (k + n) fresh' ∧
        p'.frame i = (q.frame i).pages contextEnd k n := by
    induction n generalizing k q chain' fresh with
    | zero => exact ⟨q, chain', fresh, rfl, filled, rfl⟩
    | succ n ih =>
        have ready := filled.ready origin member start le (by omega)
        have within : contextEnd ≤ (q.seqs i).numTokens := by
          rw [filled.seqs, Function.update_self]
          exact start.within
        obtain ⟨q', chain'', fresh', same, one⟩ := filled.held.page member ready within
        have turn := run k q chain' fresh le filled ready
        rw [same] at turn
        obtain ⟨p', chain''', fresh'', rest, whole, pages⟩ := ih (k + 1) q' chain'' (fresh ++ fresh') (by omega)
          (by omega) (filled.trans member one le (Nat.le_succ k))
        refine ⟨p', chain''', fresh'', ?_, by rwa [Nat.add_right_comm] at whole, ?_⟩
        · simp only [List.range'_succ, forEach]
          rw [bind_ok turn]
          exact rest
        · rw [pages, Frame.pages, Frame.pages, List.range'_succ, List.foldl_cons, same]
  exact loop count first p chain [] (Nat.le_refl first) few (Filled.start origin)

theorem Held.fill_ok (origin : Held p ids chain) (member : i ∈ ids) (within : contextEnd ≤ (p.seqs i).numTokens)
    (body : Nat → Method Unit)
    (turn : ∀ k q chain' fresh f, first ≤ k → Filled p q ids chain chain' i contextEnd first k fresh →
      body k (q.frame i) = .ok () f → PageReady q.manager (q.seqs i) k ∧ f = (q.frame i).page contextEnd k)
    (count : Nat) {f : Frame} (run : forEach body (List.range' first count) (p.frame i) = .ok () f) :
    ∃ p' chain' fresh, f = p'.frame i ∧
      Filled p p' ids chain chain' i contextEnd first (first + count) fresh := by
  have loop (n k : Nat) (q : Pool) (chain' : Chain) (fresh : List BlockId) (le : first ≤ k)
      (filled : Filled p q ids chain chain' i contextEnd first k fresh)
      (run : forEach body (List.range' k n) (q.frame i) = .ok () f) :
      ∃ p' chain'' fresh', f = p'.frame i ∧
        Filled p p' ids chain chain'' i contextEnd first (k + n) fresh' := by
    induction n generalizing k q chain' fresh with
    | zero =>
        cases run
        exact ⟨q, chain', fresh, rfl, filled⟩
    | succ n ih =>
        simp only [List.range'_succ, forEach] at run
        obtain ⟨⟨⟩, f', one, rest⟩ := run_bind_ok run
        obtain ⟨ready, same⟩ := turn k q chain' fresh f' le filled one
        have within' : contextEnd ≤ (q.seqs i).numTokens := by
          rw [filled.seqs, Function.update_self]
          exact within
        obtain ⟨q', chain'', fresh', page, next⟩ := filled.held.page member ready within'
        rw [same, page] at rest
        have whole := ih (k + 1) q' chain'' (fresh ++ fresh') (by omega)
          (filled.trans member next le (Nat.le_succ k)) rest
        rwa [Nat.add_right_comm] at whole
  exact loop count first p chain [] (Nat.le_refl first) (Filled.start origin) run

theorem Filled.store (h : Filled p q ids chain chain' i contextEnd first k fresh) :
    p.store i (q.frame i) = q := Pool.store_of_seqs h.seqs

theorem Filled.context (h : Filled p q ids chain chain' i contextEnd first k fresh) :
    (q.seqs i).numContextTokens = (p.seqs i).numContextTokens ∧ (q.seqs i).numTokens = (p.seqs i).numTokens := by
  rw [h.seqs, Function.update_self]
  exact ⟨rfl, rfl⟩

theorem Held.mayAppend_run (h : Held p ids chain) (member : i ∈ ids)
    (start : Fillable p i (p.seqs i).numContextTokens (p.seqs i).numCachedBlocks) :
    ∃ p' chain' fresh, BlockManager.mayAppend (p.frame i) = .ok () (p'.frame i) ∧
      Filled p p' ids chain chain' i (p.seqs i).numContextTokens (p.seqs i).numCachedBlocks
        (max (p.seqs i).numCachedBlocks (pagesFor p.manager.blockSize (p.seqs i).numContextTokens)) fresh ∧
      p'.frame i = (p.frame i).pages (p.seqs i).numContextTokens (p.seqs i).numCachedBlocks
        (pagesFor p.manager.blockSize (p.seqs i).numContextTokens - (p.seqs i).numCachedBlocks) := by
  have size : p.manager.assertBlockSize (p.seqs i) = .ok () := require_of (h.wf i member).block _
  obtain ⟨p', chain', fresh, run, filled, pages⟩ := h.fill member start
    (fun k => BlockManager.mayAppendPage (k * p.manager.blockSize))
    (fun k q chain' fresh le filled ready => by
      have context := filled.context
      have within := start.within
      rw [← context.1, ← context.2] at within
      have one := filled.held.mayAppendPage_run member ready within
      rw [filled.size, context.1] at one
      exact one)
    (pagesFor p.manager.blockSize (p.seqs i).numContextTokens - (p.seqs i).numCachedBlocks) (by omega)
  refine ⟨p', chain', fresh, ?_, ?_, pages⟩
  · simp only [BlockManager.mayAppend, run_get_bind, Pool.frame]
    rw [run_ofExcept_bind size, range_pages h.size_pos, forEach_map]
    exact run
  · rwa [add_tsub_eq_max] at filled

theorem Held.mayAppendPage_ready (h : Held p ids chain) {f : Frame}
    (run : BlockManager.mayAppendPage (k * p.manager.blockSize) (p.frame i) = .ok () f) :
    PageReady p.manager (p.seqs i) k := by
  have index : k * p.manager.blockSize / p.manager.blockSize = k := Nat.mul_div_cancel _ h.size_pos
  simp only [BlockManager.mayAppendPage, run_get_bind, Pool.frame, index] at run
  obtain ⟨parent, known, run⟩ := run_ofExcept_ok run
  have before : k ≤ (p.seqs i).blockTable.length ∧
      ∀ a, 0 < k → (p.seqs i).blockTable[k - 1]? = some a → (p.manager.blocks a).published := by
    unfold BlockManager.lineageAt at known
    split at known
    next zero => exact ⟨by omega, fun a positive => by omega⟩
    next =>
      split at known
      next => cases known
      next b entry =>
        have inside := (List.getElem?_eq_some_iff.mp entry).1
        refine ⟨by omega, fun a _ found => ?_⟩
        rw [entry, Option.some.injEq] at found
        subst found
        exact (BlockManager.published_of_lineage known).2.1
  have taken {b : BlockId} {f : Frame}
      (appended : BlockManager.appendFreeBlock ⟨p.manager, p.seqs i⟩ = .ok b f) :
      p.manager.freeBlockIds ≠ [] := by
    intro empty
    simp only [BlockManager.appendFreeBlock, run_get_bind] at appended
    obtain ⟨_, first, -⟩ := run_ofExcept_ok appended
    simp [BlockManager.firstFree, empty] at first
  cases current : (p.seqs i).blockTable[k]? with
  | some b =>
      simp only [current] at run
      obtain ⟨block, found, run⟩ := run_ofExcept_ok run
      obtain ⟨blank, -⟩ := run_require_ok run
      have inside := (List.getElem?_eq_some_iff.mp current).1
      refine ⟨before.1, before.2, fun c entry => ?_, fun last => absurd last (by omega)⟩
      rw [current, Option.some.injEq] at entry
      subst entry
      unfold BlockManager.getBlock at found
      split at found
      next =>
        rw [← Except.ok.inj found] at blank
        exact not_not.mpr blank
      next => cases found
  | none =>
      simp only [current] at run
      refine ⟨before.1, before.2, fun c entry => ?_, fun _ => ?_⟩
      · rw [current] at entry
        cases entry
      split at run
      next =>
        obtain ⟨_, -, run⟩ := run_ofExcept_ok run
        obtain ⟨_, _, appended, -⟩ := run_bind_ok run
        exact taken appended
      next =>
        obtain ⟨_, _, appended, -⟩ := run_bind_ok run
        exact taken appended

theorem Held.mayAppend_ok (h : Held p ids chain) (member : i ∈ ids)
    (within : (p.seqs i).numContextTokens ≤ (p.seqs i).numTokens) {f : Frame}
    (run : BlockManager.mayAppend (p.frame i) = .ok () f) :
    ∃ p' chain' fresh, f = p'.frame i ∧
      Filled p p' ids chain chain' i (p.seqs i).numContextTokens (p.seqs i).numCachedBlocks
        (max (p.seqs i).numCachedBlocks (pagesFor p.manager.blockSize (p.seqs i).numContextTokens)) fresh := by
  simp only [BlockManager.mayAppend, run_get_bind, Pool.frame] at run
  obtain ⟨⟨⟩, -, run⟩ := run_ofExcept_ok run
  rw [range_pages h.size_pos, forEach_map] at run
  obtain ⟨p', chain', fresh, same, filled⟩ := h.fill_ok member within _ (fun k q chain' fresh f' le filled one => by
    have context := filled.context
    rw [← filled.size] at one
    have ready := filled.held.mayAppendPage_ready one
    refine ⟨ready, ?_⟩
    have run' := filled.held.mayAppendPage_run member ready (by rw [context.1, context.2]; exact within)
    rw [one, context.1] at run'
    cases run'
    rfl) _ run
  rw [add_tsub_eq_max] at filled
  exact ⟨p', chain', fresh, same, filled⟩

theorem Held.allocateNew_run (h : Held p ids chain) (member : i ∈ ids) (valid : Held.Validated p i)
    (within : (p.seqs i).numContextTokens ≤ (p.seqs i).numTokens)
    (room : pagesFor p.manager.blockSize (p.seqs i).numNewTokens ≤ p.manager.freeBlockIds.length) :
    ∃ p' chain' fresh, BlockManager.allocateNew (p.frame i) = .ok () (p'.frame i) ∧
      Filled p p' ids chain chain' i (p.seqs i).numContextTokens (p.seqs i).blockTable.length
        (pagesFor p.manager.blockSize (p.seqs i).numContextTokens) fresh ∧
      p'.frame i = (p.frame i).pages (p.seqs i).numContextTokens (p.seqs i).blockTable.length
        (pagesFor p.manager.blockSize (p.seqs i).numContextTokens - (p.seqs i).blockTable.length) := by
  have size : p.manager.assertBlockSize (p.seqs i) = .ok () := require_of (h.wf i member).block _
  have pages : pagesFor p.manager.blockSize (p.seqs i).numContextTokens =
      (p.seqs i).blockTable.length + pagesFor p.manager.blockSize (p.seqs i).numNewTokens := by
    rw [Sequence.numContextTokens, valid.1, pagesFor_add_mul h.size_pos]
  have start : Fillable p i (p.seqs i).numContextTokens (p.seqs i).blockTable.length :=
    { reached := Nat.le_refl _
      before := fun a _ entry => valid.2 a (List.mem_of_getElem? entry)
      current := fun k b beyond entry => by
        have := (List.getElem?_eq_some_iff.mp entry).1
        omega
      room := by omega
      within := within }
  obtain ⟨p', chain', fresh, run, filled, filledPages⟩ := h.fill member start
    (fun k => BlockManager.allocateNewPage (p.seqs i).numContextTokens (k * p.manager.blockSize))
    (fun k q chain' fresh le filled ready => by
      have context := filled.context
      have last : k = (q.seqs i).blockTable.length := by
        have := filled.reached (Nat.le_refl _)
        omega
      have one := filled.held.allocateNewPage_run member ready last (context.2 ▸ within)
      rw [filled.size] at one
      exact one)
    (pagesFor p.manager.blockSize (p.seqs i).numContextTokens - (p.seqs i).blockTable.length) (by omega)
  refine ⟨p', chain', fresh, ?_, ?_, filledPages⟩
  · have span := range_pages h.size_pos (p.seqs i).blockTable.length (p.seqs i).numContextTokens
    rw [← valid.1, Sequence.numContextTokens] at span
    have within' : (p.seqs i).numCachedTokens + (p.seqs i).numNewTokens ≤ (p.seqs i).numTokens := within
    simp only [BlockManager.allocateNew, run_get_bind, Pool.frame]
    rw [run_ofExcept_bind size, run_ofExcept_bind (h.validate member valid), run_require_bind within',
      run_require_bind room, span, forEach_map]
    exact run
  · rwa [Nat.add_sub_cancel' (by omega)] at filled

theorem Held.allocateNew_ok (h : Held p ids chain) (member : i ∈ ids) {f : Frame}
    (run : BlockManager.allocateNew (p.frame i) = .ok () f) :
    (Held.Validated p i ∧ (p.seqs i).numContextTokens ≤ (p.seqs i).numTokens) ∧
    ∃ p' chain' fresh, f = p'.frame i ∧
      Filled p p' ids chain chain' i (p.seqs i).numContextTokens (p.seqs i).blockTable.length
        (pagesFor p.manager.blockSize (p.seqs i).numContextTokens) fresh := by
  have run' := run
  simp only [BlockManager.allocateNew, run_get_bind, Pool.frame] at run
  obtain ⟨⟨⟩, -, run⟩ := run_ofExcept_ok run
  obtain ⟨⟨⟩, valid, run⟩ := run_ofExcept_ok run
  obtain ⟨within, run⟩ := run_require_ok run
  obtain ⟨room, -⟩ := run_require_ok run
  have validated := h.validated_of_validate member valid
  obtain ⟨p', chain', fresh, total, filled, -⟩ := h.allocateNew_run member validated within room
  refine ⟨⟨validated, within⟩, p', chain', fresh, ?_, filled⟩
  cases run'.symm.trans total
  rfl

end Loops

end NanoVllm
