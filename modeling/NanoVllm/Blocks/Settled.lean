import NanoVllm.Blocks.Kept

set_option autoImplicit false

namespace NanoVllm

open Python Raising Naming

structure Settled (cache : Cache) (p : Pool) (ids : Finset SeqId) (chain : Chain) : Prop where
  full : ∀ b, b < p.manager.numBlocks → (p.manager.blocks b).published → ∀ o < p.manager.blockSize,
    cache (slotOf p.manager.blockSize b o) = (chain (p.manager.blocks b).lineage).take
      ((chain (p.manager.blocks b).lineage).length - p.manager.blockSize + o + 1)
  open' : ∀ i ∈ ids, ∀ k b, (p.seqs i).blockTable[k]? = some b → ¬(p.manager.blocks b).published →
    ∀ o < p.manager.blockSize, k * p.manager.blockSize + o < (p.seqs i).numContextTokens →
      cache (slotOf p.manager.blockSize b o) = (p.seqs i).tokenIds.take (k * p.manager.blockSize + o + 1)

theorem slotOf_inj {size : Nat} {a b : BlockId} {o o' : Nat} (below : o < size) (below' : o' < size)
    (same : slotOf size a o = slotOf size b o') : a = b ∧ o = o' := by
  have eq : a * size + o = b * size + o' := by
    unfold slotOf at same
    exact_mod_cast same
  have positive : 0 < size := by omega
  have first : a = b := by
    have left : (a * size + o) / size = a := by
      rw [Nat.mul_comm, Nat.mul_add_div positive, Nat.div_eq_of_lt below, Nat.add_zero]
    have right : (b * size + o') / size = b := by
      rw [Nat.mul_comm, Nat.mul_add_div positive, Nat.div_eq_of_lt below', Nat.add_zero]
    rw [← left, eq, right]
  subst first
  exact ⟨rfl, Nat.add_left_cancel eq⟩

def Written (cache cache' : Cache) (p : Pool) (batch : List SeqId) : Prop :=
  ∀ b o, o < p.manager.blockSize →
    (∃ i ∈ batch, ∃ k, (p.seqs i).blockTable[k]? = some b ∧
      (p.seqs i).numCachedTokens ≤ k * p.manager.blockSize + o ∧
      k * p.manager.blockSize + o < (p.seqs i).numContextTokens ∧
      cache' (slotOf p.manager.blockSize b o) = (p.seqs i).tokenIds.take (k * p.manager.blockSize + o + 1)) ∨
    ((∀ i ∈ batch, ¬Pending p.manager (p.seqs i) b o) ∧
      cache' (slotOf p.manager.blockSize b o) = cache (slotOf p.manager.blockSize b o))

section Settled

variable {cache cache' : Cache} {p p' : Pool} {ids : Finset SeqId} {chain : Chain} {i : SeqId}

theorem page_chain (held : Held p ids chain) (member : i ∈ ids) {k : Nat} {b : BlockId}
    (entry : (p.seqs i).blockTable[k]? = some b) (published : (p.manager.blocks b).published) {o : Nat}
    (below : o < p.manager.blockSize) :
    (chain (p.manager.blocks b).lineage).take
        ((chain (p.manager.blocks b).lineage).length - p.manager.blockSize + o + 1) =
      (p.seqs i).tokenIds.take (k * p.manager.blockSize + o + 1) := by
  have linked := held.tables.linked i member
  have bound := held.accounting.table_lt i member
  have named := linked.chain_eq held.index bound entry published
  have whole := held.index.whole b (bound b (List.mem_of_getElem? entry)) published
  rw [(linked k b entry published).tokens] at whole
  have enough := le_length_of_slice held.size_pos whole
  rw [named, List.length_take, Nat.min_eq_left enough, List.take_take]
  rw [Nat.add_mul, Nat.one_mul] at enough ⊢
  congr 1
  omega

theorem Kept.settle (h : Kept cache p ids chain) {batch : List SeqId} (within : ∀ i ∈ batch, i ∈ ids)
    (all : ∀ i ∈ ids, 0 < (p.seqs i).numNewTokens → i ∈ batch) (written : Written cache cache' p batch) :
    Settled cache' p ids chain where
  full b bound published o below := by
    rcases written b o below with ⟨i, scheduled, k, entry, -, -, value⟩ | ⟨none, value⟩
    · rw [value, page_chain h.held (within i scheduled) entry published below]
    · rw [value]
      refine (h.stored.full b bound published o below).resolve_left ?_
      rintro ⟨i, member, pending⟩
      refine none i (all i member ?_) pending
      by_contra idle
      exact Kept.not_pending (by omega) pending
  open' i member k b entry blank o below computed := by
    rcases written b o below with ⟨j, scheduled, k', entry', -, -, value⟩ | ⟨none, value⟩
    · have same : i = j := h.held.tables.owner i member j (within j scheduled) b (List.mem_of_getElem? entry)
        (List.mem_of_getElem? entry') blank
      subst same
      have position : k = k' := (List.Nodup.getElem_inj_iff (h.held.accounting.table_nodup i member)).mp (by
        rw [(List.getElem?_eq_some_iff.mp entry).2, (List.getElem?_eq_some_iff.mp entry').2])
      rw [position]
      exact value
    · rw [value]
      refine h.stored.open' i member k b entry blank o below ?_
      by_contra later
      have pending : Pending p.manager (p.seqs i) b o := ⟨k, entry, by omega, computed⟩
      refine none i (all i member ?_) pending
      by_contra idle
      exact Kept.not_pending (by omega) pending

theorem Settled.stored (h : Settled cache p ids chain) : Stored cache p ids chain where
  full b bound published o below := Or.inr (h.full b bound published o below)
  open' i member k b entry blank o below computed :=
    h.open' i member k b entry blank o below (computed.trans_le (Nat.le_add_right _ _))

theorem Stored.settled (h : Stored cache p ids chain) (idle : ∀ i ∈ ids, (p.seqs i).numNewTokens = 0) :
    Settled cache p ids chain where
  full b bound published o below := by
    refine (h.full b bound published o below).resolve_left ?_
    rintro ⟨i, member, pending⟩
    exact Kept.not_pending (idle i member) pending
  open' i member k b entry blank o below computed := by
    rw [Kept.context_idle (idle i member)] at computed
    exact h.open' i member k b entry blank o below computed

theorem Settled.vacate (h : Settled cache p ids chain) (vacated : Vacated p p' ids chain i) :
    Settled cache p' ids chain where
  full b bound published o below := by
    rw [vacated.size] at below ⊢
    rw [Block.published, (Block.content_eq (vacated.content b)).2.1] at published
    rw [(Block.content_eq (vacated.content b)).2.2.1]
    exact h.full b (vacated.count ▸ bound) published o below
  open' j member k b entry blank o below computed := by
    by_cases self : j = i
    next =>
      subst self
      simp [vacated.seqs] at entry
    next =>
      rw [vacated.seqs, Function.update_of_ne self] at entry computed ⊢
      rw [vacated.size] at below computed ⊢
      rw [Block.published, (Block.content_eq (vacated.content b)).2.1] at blank
      exact h.open' j member k b entry blank o below computed

theorem Settled.relabel (h : Settled cache p ids chain) {seq : Sequence}
    (table : seq.blockTable = (p.seqs i).blockTable) (tokens : (p.seqs i).tokenIds <+: seq.tokenIds)
    (context : seq.numContextTokens = (p.seqs i).numContextTokens)
    (within : (p.seqs i).numContextTokens ≤ (p.seqs i).tokenIds.length) :
    Settled cache (p.store i ⟨p.manager, seq⟩) ids chain where
  full := h.full
  open' j member k b entry blank o below computed := by
    by_cases self : j = i
    next =>
      subst self
      rw [Pool.store_seqs_self] at entry computed ⊢
      simp only [Pool.store_manager, table, context] at entry below blank computed ⊢
      obtain ⟨more, same⟩ := tokens
      rw [h.open' j member k b entry blank o below computed, ← same,
        List.take_append_of_le_length (by omega)]
    next =>
      rw [p.store_seqs_of_ne _ self] at entry computed ⊢
      exact h.open' j member k b entry blank o below computed

theorem Settled.enter (h : Settled cache p ids chain) (absent : i ∉ ids) {seq : Sequence}
    (table : seq.blockTable = []) : Settled cache (p.store i ⟨p.manager, seq⟩) (insert i ids) chain where
  full := h.full
  open' j member k b entry blank o below computed := by
    rcases Finset.mem_insert.mp member with rfl | old
    · simp [table] at entry
    · have self : j ≠ i := fun same => absent (same ▸ old)
      rw [p.store_seqs_of_ne _ self] at entry computed ⊢
      exact h.open' j old k b entry blank o below computed

theorem Settled.context (h : Settled cache p ids chain) (held : Held p ids chain) (member : i ∈ ids)
    (covered : Covered p.manager (p.seqs i)) {position : Nat} (below : position < (p.seqs i).numContextTokens) :
    ∃ b, (p.seqs i).blockTable[position / p.manager.blockSize]? = some b ∧
      cache (slotOf p.manager.blockSize b (position % p.manager.blockSize)) =
        (p.seqs i).tokenIds.take (position + 1) := by
  have positive := held.size_pos
  have inside : position / p.manager.blockSize < (p.seqs i).blockTable.length := by
    rw [covered.length]
    exact div_lt_pagesFor positive below
  have entry := List.getElem?_eq_getElem inside
  have offset := Nat.mod_lt position positive
  have split := Nat.div_add_mod' position p.manager.blockSize
  refine ⟨_, entry, ?_⟩
  by_cases published : (p.manager.blocks (p.seqs i).blockTable[position / p.manager.blockSize]).published
  · rw [h.full _ (held.accounting.table_lt i member _ (List.getElem_mem inside)) published _ offset,
      page_chain held member entry published offset, split]
  · rw [h.open' i member _ _ entry published _ offset (by rw [split]; exact below), split]

end Settled

/-- What holds of the pool once the tokens of the last batch are computed. -/
structure Resident (cache : Cache) (p : Pool) (ids : Finset SeqId) : Prop where
  pool : ∃ chain, Held p ids chain ∧ Settled cache p ids chain
  covered : ∀ i ∈ ids, Covered p.manager (p.seqs i)

namespace Resident

variable {cache : Cache} {p : Pool} {ids : Finset SeqId} {i : SeqId}

theorem wf (h : Resident cache p ids) (member : i ∈ ids) : (p.seqs i).Wf p.manager.blockSize := by
  obtain ⟨chain, held, -⟩ := h.pool
  exact held.wf i member

theorem relabel (h : Resident cache p ids) (member : i ∈ ids) {seq : Sequence} (wf : seq.Wf p.manager.blockSize)
    (table : seq.blockTable = (p.seqs i).blockTable) (tokens : (p.seqs i).tokenIds <+: seq.tokenIds)
    (hashes : (p.seqs i).blockHashes <+: seq.blockHashes)
    (context : seq.numContextTokens = (p.seqs i).numContextTokens) :
    Resident cache (p.store i ⟨p.manager, seq⟩) ids where
  pool := by
    obtain ⟨chain, held, settled⟩ := h.pool
    refine ⟨chain, held.relabel member wf table tokens hashes, settled.relabel table tokens context ?_⟩
    exact (h.covered i member).within.trans_eq (h.wf member).tokens
  covered j memberJ := by
    by_cases self : j = i
    · subst self
      rw [Pool.store_seqs_self]
      refine (h.covered j member).congr rfl table context ?_ (fun b _ => Iff.rfl)
      rw [(h.wf member).tokens, wf.tokens]
      exact tokens.length_le
    · rw [p.store_seqs_of_ne _ self]
      exact h.covered j memberJ

theorem vacate (h : Resident cache p ids) (member : i ∈ ids) :
    ∃ p' chain, BlockManager.deallocate (p.frame i) = .ok () (p'.frame i) ∧ Vacated p p' ids chain i ∧
      Resident cache p' ids := by
  obtain ⟨chain, held, settled⟩ := h.pool
  obtain ⟨p', run, vacated⟩ := held.deallocate_run member
  refine ⟨p', chain, run, vacated, ⟨chain, vacated.held, settled.vacate vacated⟩, fun j memberJ => ?_⟩
  by_cases self : j = i
  · subst self
    refine Covered.idle vacated.held.size_pos ?_ ?_
    · simp [vacated.seqs]
    · simp [vacated.seqs, Sequence.numContextTokens]
  · have same : p'.seqs j = p.seqs j := by rw [vacated.seqs, Function.update_of_ne self]
    refine (h.covered j memberJ).congr vacated.size (by rw [same]) (by rw [same]) (by rw [same]) (fun b _ => ?_)
    rw [Block.published, Block.published, (Block.content_eq (vacated.content b)).2.1]

end Resident

end NanoVllm
