import NanoVllm.Blocks.Digests
import NanoVllm.Blocks.History

set_option autoImplicit false

namespace NanoVllm

open Python Raising Naming

namespace BlockManager

def Spares (m : BlockManager) : Prop :=
  ∀ b, m.freeBlockIds.head? = some b → m.hashToBlockId (m.blocks b).hash = some b →
    ∀ a < m.numBlocks, (m.blocks a).hash = (m.blocks b).hash → a = b

instance (m : BlockManager) : Decidable m.Spares :=
  decidable_of_iff (∀ b ∈ m.freeBlockIds.head?.toList, m.hashToBlockId (m.blocks b).hash = some b →
    ∀ a < m.numBlocks, (m.blocks a).hash = (m.blocks b).hash → a = b) (by simp [Spares])

/-- The index has an entry for every published block, and it names a block of the same lineage. -/
def Indexed (m : BlockManager) : Prop :=
  ∀ b < m.numBlocks, (m.blocks b).published →
    ∃ o, m.hashToBlockId (m.blocks b).hash = some o ∧ (m.blocks o).link = (m.blocks b).link

def Ordered (m : BlockManager) : Prop :=
  ∀ b ∈ m.freeBlockIds, (m.blocks b).published → (m.blocks b).parent = noLineage ∨
    ∃ a < m.numBlocks, (m.blocks a).published ∧ (m.blocks a).lineage = (m.blocks b).parent ∧
      ¬[a, b].Sublist m.freeBlockIds

variable {m m' : BlockManager} {chain : Chain} {b o : BlockId}

theorem link_content {a c : Block} (same : a.content = c.content) : a.link = c.link := by
  obtain ⟨-, -, lineage, parent, tokens⟩ := Block.content_eq same
  rw [Block.link, Block.link, lineage, parent, tokens]

theorem Indexed.recount (h : m.Indexed) (count : m'.numBlocks = m.numBlocks)
    (index : m'.hashToBlockId = m.hashToBlockId) (content : ∀ a, (m'.blocks a).content = (m.blocks a).content) :
    m'.Indexed := by
  intro b within published
  have hash := (Block.content_eq (content b)).2.1
  rw [count] at within
  rw [Block.published, hash] at published
  obtain ⟨o, found, link⟩ := h b within published
  refine ⟨o, by rw [index, hash]; exact found, ?_⟩
  rw [link_content (content o), link_content (content b)]
  exact link

theorem Indexed.acquire (h : m.Indexed) (index : Index m chain)
    (sole : m.hashToBlockId (m.blocks b).hash = some b →
      ∀ a < m.numBlocks, (m.blocks a).hash = (m.blocks b).hash → a = b) : (m.acquire b).Indexed := by
  intro a within published
  have other : a ≠ b := by
    rintro rfl
    simp [Block.published, Block.reset] at published
  have same : (m.acquire b).blocks a = m.blocks a := by simp [Function.update_of_ne other]
  rw [same] at published ⊢
  obtain ⟨o, found, link⟩ := h a within published
  have owner := (index.indexed _ o found).2.1
  have kept : o ≠ b := by
    rintro rfl
    exact other (sole (owner.symm ▸ found) a within owner.symm)
  refine ⟨o, ?_, by rw [acquire_blocks, Function.update_of_ne kept]; exact link⟩
  unfold BlockManager.acquire
  dsimp only
  split
  next owns =>
    rw [Dict.pop, Function.update_of_ne (fun same => other (sole owns a within same))]
    exact found
  next => exact found

theorem Indexed.publish (h : m.Indexed) (index : Index m chain) (identity : (m.blocks b).blockId = b)
    (unpublished : ¬(m.blocks b).published) {blockHash : Int} {tokenIds : List Token} {parent : Int × Int}
    (inherited : ∀ o, m.hashToBlockId blockHash = some o →
      m.publishedLineage (m.blocks b) blockHash tokenIds parent = (m.blocks o).lineage ∧
        (m.blocks o).tokenIds = tokenIds ∧ (m.blocks o).parent = parent) :
    (m.publishFullBlock b blockHash tokenIds parent).Indexed := by
  intro a within published
  have new : (m.publishFullBlock b blockHash tokenIds parent).blocks b = (m.blocks b).update blockHash tokenIds
      (m.publishedLineage (m.blocks b) blockHash tokenIds parent) parent := by simp
  by_cases self : a = b
  · subst self
    refine ⟨a, ?_, rfl⟩
    rw [new, publish_index, Dict.insert, identity]
    exact Function.update_self ..
  · have same : (m.publishFullBlock b blockHash tokenIds parent).blocks a = m.blocks a := by
      simp [Function.update_of_ne self]
    rw [same] at published ⊢
    obtain ⟨o, found, link⟩ := h a within published
    rw [publish_index, Dict.insert]
    by_cases hash : (m.blocks a).hash = blockHash
    · subst hash
      obtain ⟨lineage, tokens, above⟩ := inherited o found
      refine ⟨b, by rw [Function.update_self, identity], ?_⟩
      rw [new, ← link, lineage, ← tokens, ← above]
      rfl
    · have kept : o ≠ b := by
        rintro rfl
        exact index.not_indexed unpublished _ found
      refine ⟨o, by rw [Function.update_of_ne hash]; exact found, ?_⟩
      rw [publish_blocks, Function.update_of_ne kept]
      exact link

theorem Ordered.recount (h : m.Ordered) (count : m'.numBlocks = m.numBlocks)
    (content : ∀ a, (m'.blocks a).content = (m.blocks a).content) (free : m'.freeBlockIds.Sublist m.freeBlockIds) :
    m'.Ordered := by
  have hash (a : BlockId) : (m'.blocks a).hash = (m.blocks a).hash := (Block.content_eq (content a)).2.1
  intro b listed published
  rw [Block.published, hash] at published
  rw [(Block.content_eq (content b)).2.2.2.1]
  rcases h b (free.subset listed) published with root | ⟨a, within, live, lineage, after⟩
  · exact Or.inl root
  · refine Or.inr ⟨a, count ▸ within, ?_, ?_, fun before => after (before.trans free)⟩
    · rw [Block.published, hash]
      exact live
    · rw [(Block.content_eq (content a)).2.2.1]
      exact lineage

theorem Ordered.acquire (h : m.Ordered) (once : m.freeBlockIds.Nodup) (first : m.freeBlockIds.head? = some b) :
    (m.acquire b).Ordered := by
  obtain ⟨rest, free⟩ : ∃ rest, m.freeBlockIds = b :: rest := by
    cases queue : m.freeBlockIds with
    | nil => simp [queue] at first
    | cons c rest =>
        rw [queue, List.head?_cons, Option.some.injEq] at first
        exact ⟨rest, by rw [first]⟩
  have free' : (m.acquire b).freeBlockIds = rest := by
    rw [acquire_free, free, List.erase_cons_head]
  rw [free, List.nodup_cons] at once
  intro c listed published
  rw [free'] at listed
  have other : c ≠ b := fun same => once.1 (same ▸ listed)
  have same : (m.acquire b).blocks c = m.blocks c := by simp [Function.update_of_ne other]
  rw [same] at published ⊢
  rcases h c (by rw [free]; exact List.mem_cons_of_mem b listed) published with root | ⟨a, within, live, lineage, after⟩
  · exact Or.inl root
  · have kept : a ≠ b := by
      rintro rfl
      refine after ?_
      rw [free]
      exact List.Sublist.cons_cons a (List.singleton_sublist.mpr listed)
    have same' : (m.acquire b).blocks a = m.blocks a := by simp [Function.update_of_ne kept]
    refine Or.inr ⟨a, within, by rw [same']; exact live, by rw [same']; exact lineage, fun before => after ?_⟩
    rw [free'] at before
    rw [free]
    exact before.cons b

theorem Ordered.publish (h : m.Ordered) (busy : b ∉ m.freeBlockIds) (unpublished : ¬(m.blocks b).published)
    (blockHash : Int) (tokenIds : List Token) (parent : Int × Int) :
    (m.publishFullBlock b blockHash tokenIds parent).Ordered := by
  have others {a : BlockId} (other : a ≠ b) :
      (m.publishFullBlock b blockHash tokenIds parent).blocks a = m.blocks a := by
    simp [Function.update_of_ne other]
  intro c listed published
  rw [publish_free] at listed ⊢
  rw [others (fun same => busy (same ▸ listed))] at published ⊢
  rcases h c listed published with root | ⟨a, within, live, lineage, after⟩
  · exact Or.inl root
  · have same := others (fun same : a = b => unpublished (same ▸ live))
    exact Or.inr ⟨a, within, by rw [same]; exact live, by rw [same]; exact lineage, after⟩

end BlockManager

def Distinct (xxh64 : XxHash) (size : Nat) (seqs : SeqId → Sequence) (ids : Finset SeqId) : Prop :=
  ∀ i ∈ ids, ∀ j ∈ ids, ∀ k l, (k + 1) * size ≤ (seqs i).tokenIds.length → (l + 1) * size ≤ (seqs j).tokenIds.length →
    chainHash xxh64 size (seqs i).tokenIds (k + 1) = chainHash xxh64 size (seqs j).tokenIds (l + 1) →
    (seqs i).tokenIds.take ((k + 1) * size) = (seqs j).tokenIds.take ((l + 1) * size)

theorem Distinct.mono {xxh64 : XxHash} {size : Nat} {seqs seqs' : SeqId → Sequence} {ids ids' : Finset SeqId}
    (h : Distinct xxh64 size seqs' ids') (fewer : ids ⊆ ids')
    (grown : ∀ i ∈ ids, (seqs i).tokenIds <+: (seqs' i).tokenIds) : Distinct xxh64 size seqs ids := by
  intro i memberI j memberJ k l withinI withinJ same
  have grownI := grown i memberI
  have grownJ := grown j memberJ
  have together := h i (fewer memberI) j (fewer memberJ) k l (withinI.trans grownI.length_le)
    (withinJ.trans grownJ.length_le) (by
      rw [chainHash_grown grownI withinI, chainHash_grown grownJ withinJ]
      exact same)
  obtain ⟨moreI, equalI⟩ := grownI
  obtain ⟨moreJ, equalJ⟩ := grownJ
  rwa [← equalI, ← equalJ, List.take_append_of_le_length withinI, List.take_append_of_le_length withinJ] at together

def Sourced (xxh64 : XxHash) (p : Pool) (ids : Finset SeqId) (chain : Chain) (b : BlockId) : Prop :=
  ∃ i ∈ ids, ∃ k, (k + 1) * p.manager.blockSize ≤ (p.seqs i).tokenIds.length ∧
    (p.manager.blocks b).hash = chainHash xxh64 p.manager.blockSize (p.seqs i).tokenIds (k + 1) ∧
    chain (p.manager.blocks b).lineage = (p.seqs i).tokenIds.take ((k + 1) * p.manager.blockSize)

structure Findable (xxh64 : XxHash) (p : Pool) (ids : Finset SeqId) (chain : Chain) : Prop where
  indexed : p.manager.Indexed
  ordered : p.manager.Ordered
  sourced : ∀ b < p.manager.numBlocks, (p.manager.blocks b).published → Sourced xxh64 p ids chain b
  hashed : ∀ i ∈ ids, (p.seqs i).Hashed xxh64

section Findable

variable {xxh64 : XxHash} {p : Pool} {ids : Finset SeqId} {chain : Chain} {i : SeqId} {k : Nat} {a b o : BlockId}

theorem Findable.rooted (h : Findable xxh64 p ids chain) (held : Held p ids chain) (within : b < p.manager.numBlocks)
    (published : (p.manager.blocks b).published) : (p.manager.blocks b).parent = noLineage ∨
      ∃ a < p.manager.numBlocks, (p.manager.blocks a).published ∧
        (p.manager.blocks a).lineage = (p.manager.blocks b).parent := by
  by_cases free : b ∈ p.manager.freeBlockIds
  · exact (h.ordered b free published).imp_right (fun ⟨a, within, live, lineage, _⟩ => ⟨a, within, live, lineage⟩)
  · have holders' := mt (held.accounting.free_iff b within).mpr free
    obtain ⟨i, holds⟩ := Finset.nonempty_iff_ne_empty.mpr holders'
    obtain ⟨member, listed⟩ := mem_holders.mp holds
    obtain ⟨k, entry⟩ := List.mem_iff_getElem?.mp listed
    have link := held.tables.linked i member k b entry published
    cases k with
    | zero => exact Or.inl link.parent
    | succ k =>
        have inside := (List.getElem?_eq_some_iff.mp entry).1
        have before : (p.seqs i).blockTable[k]? = some (p.seqs i).blockTable[k] := List.getElem?_eq_getElem (by omega)
        refine Or.inr ⟨(p.seqs i).blockTable[k], held.accounting.table_lt i member _ (List.mem_of_getElem? before),
          link.before _ (Nat.succ_pos k) before, ?_⟩
        rw [link.parent, BlockManager.lineageBefore, before]

theorem Held.chain_pos (held : Held p ids chain) (within : b < p.manager.numBlocks)
    (published : (p.manager.blocks b).published) : chain (p.manager.blocks b).lineage ≠ [] := by
  have named : chain (p.manager.blocks b).lineage =
      chain (p.manager.blocks b).parent ++ (p.manager.blocks b).tokenIds := held.index.named b within published
  have whole := held.index.whole b within published
  have positive := held.size_pos
  rw [named]
  refine List.append_ne_nil_of_right_ne_nil _ (List.ne_nil_of_length_pos ?_)
  omega

theorem Findable.same_lineage (h : Findable xxh64 p ids chain) (held : Held p ids chain)
    (withinA : a < p.manager.numBlocks) (liveA : (p.manager.blocks a).published) (withinB : b < p.manager.numBlocks)
    (liveB : (p.manager.blocks b).published)
    (same : chain (p.manager.blocks a).lineage = chain (p.manager.blocks b).lineage) :
    (p.manager.blocks a).lineage = (p.manager.blocks b).lineage := by
  obtain ⟨i, memberI, k, fitsI, hashA, chainA⟩ := h.sourced a withinA liveA
  obtain ⟨j, memberJ, l, fitsJ, hashB, chainB⟩ := h.sourced b withinB liveB
  have tokens : (p.seqs i).tokenIds.take ((k + 1) * p.manager.blockSize) =
      (p.seqs j).tokenIds.take ((l + 1) * p.manager.blockSize) := by
    rw [← chainA, same, chainB]
  have lengths := congrArg List.length tokens
  rw [List.length_take, List.length_take, Nat.min_eq_left fitsI, Nat.min_eq_left fitsJ] at lengths
  have level : k + 1 = l + 1 := Nat.eq_of_mul_eq_mul_right held.size_pos lengths
  rw [← level] at tokens hashB
  have hash : (p.manager.blocks a).hash = (p.manager.blocks b).hash := by
    rw [hashA, hashB]
    exact chainHash_congr tokens
  obtain ⟨o, foundA, linkA⟩ := h.indexed a withinA liveA
  obtain ⟨o', foundB, linkB⟩ := h.indexed b withinB liveB
  rw [hash, foundB, Option.some.injEq] at foundA
  subst foundA
  exact congrArg Link.identity (linkA.symm.trans linkB)

theorem Findable.owner_page (h : Findable xxh64 p ids chain) (held : Held p ids chain)
    (distinct : Distinct xxh64 p.manager.blockSize p.seqs ids) (member : i ∈ ids) {blockHash : Int}
    (hash : (p.seqs i).blockHashes[k]? = some blockHash) (inside : k ≤ (p.seqs i).blockTable.length)
    (before : ∀ a, 0 < k → (p.seqs i).blockTable[k - 1]? = some a → (p.manager.blocks a).published)
    (found : p.manager.hashToBlockId blockHash = some o) :
    (p.manager.blocks o).tokenIds =
        slice (p.seqs i).tokenIds (k * p.manager.blockSize) ((k + 1) * p.manager.blockSize) ∧
      (p.manager.blocks o).parent = p.manager.lineageBefore (p.seqs i).blockTable k := by
  have positive := held.size_pos
  have wf := held.wf i member
  obtain ⟨within, owned, live⟩ := held.index.indexed blockHash o found
  have fits : (k + 1) * p.manager.blockSize ≤ (p.seqs i).tokenIds.length := by
    have below := (List.getElem?_eq_some_iff.mp hash).1
    rwa [wf.hashes, Nat.lt_iff_add_one_le, Nat.le_div_iff_mul_le positive, wf.tokens] at below
  obtain ⟨j, memberJ, l, fitsJ, hashO, chainO⟩ := h.sourced o within live
  have digest := h.hashed i member k blockHash hash
  rw [wf.block] at digest
  have chain' : chain (p.manager.blocks o).lineage = (p.seqs i).tokenIds.take ((k + 1) * p.manager.blockSize) := by
    rw [chainO]
    exact distinct j memberJ i member l k fitsJ fits (by rw [← hashO, owned, digest])
  have named : chain (p.manager.blocks o).lineage =
      chain (p.manager.blocks o).parent ++ (p.manager.blocks o).tokenIds := held.index.named o within live
  have whole := held.index.whole o within live
  have shorter : k * p.manager.blockSize ≤ (k + 1) * p.manager.blockSize :=
    Nat.mul_le_mul_right _ (Nat.le_succ k)
  rw [named, ← take_append_slice shorter] at chain'
  obtain ⟨above, tokens⟩ := List.append_inj' chain' (whole.trans (length_page fits).symm)
  refine ⟨tokens, ?_⟩
  have length := congrArg List.length above
  rw [List.length_take, Nat.min_eq_left (shorter.trans fits)] at length
  cases k with
  | zero =>
      rcases h.rooted held within live with root | ⟨a, withinA, liveA, lineage⟩
      · exact root
      · rw [Nat.zero_mul, List.take_zero, ← lineage] at above
        exact absurd above (held.chain_pos withinA liveA)
  | succ k =>
      have previous : (p.seqs i).blockTable[k]? = some (p.seqs i).blockTable[k] := List.getElem?_eq_getElem (by omega)
      have bound := held.accounting.table_lt i member
      have liveP := before _ (Nat.succ_pos k) previous
      have chainP := (held.tables.linked i member).chain_eq held.index bound previous liveP
      rw [BlockManager.lineageBefore, previous]
      rcases h.rooted held within live with root | ⟨a, withinA, liveA, lineage⟩
      · rw [root, held.index.root_empty, List.length_nil] at length
        exact absurd length (Nat.mul_pos (Nat.succ_pos k) positive).ne
      · rw [← lineage] at above ⊢
        exact h.same_lineage held withinA liveA (bound _ (List.mem_of_getElem? previous)) liveP (above.trans chainP.symm)

theorem Accounting.publishedLineage (accounting : Accounting p ids) (index : Index p.manager chain) {blockHash : Int}
    (found : p.manager.hashToBlockId blockHash = some o) (block : Block) :
    p.manager.publishedLineage block blockHash (p.manager.blocks o).tokenIds (p.manager.blocks o).parent =
      (p.manager.blocks o).lineage := by
  obtain ⟨within, owned, -⟩ := index.indexed blockHash o found
  by_cases free : o ∈ p.manager.freeBlockIds
  · have unused : o ∉ p.manager.usedBlockIds := fun used => ((accounting.used_iff o).mp used).2 free
    simp [BlockManager.publishedLineage, found, within, free, unused, accounting.free_refs free, owned, Block.parent,
      Block.lineage]
  · have used : o ∈ p.manager.usedBlockIds := (accounting.used_iff o).mpr ⟨within, free⟩
    simp [BlockManager.publishedLineage, found, within, free, used, accounting.used_refs used, owned, Block.parent,
      Block.lineage]

theorem Findable.recount (h : Findable xxh64 p ids chain) {p' : Pool} (size : p'.manager.blockSize = p.manager.blockSize)
    (count : p'.manager.numBlocks = p.manager.numBlocks) (index : p'.manager.hashToBlockId = p.manager.hashToBlockId)
    (content : ∀ b, (p'.manager.blocks b).content = (p.manager.blocks b).content) (ordered : p'.manager.Ordered)
    {seq : Sequence} (seqs : p'.seqs = Function.update p.seqs i seq) (tokens : (p.seqs i).tokenIds <+: seq.tokenIds)
    (hashed : i ∈ ids → seq.Hashed xxh64) : Findable xxh64 p' ids chain where
  indexed := h.indexed.recount count index content
  ordered := ordered
  hashed j member := by
    rw [seqs]
    by_cases self : j = i
    · subst self
      rw [Function.update_self]
      exact hashed member
    · rw [Function.update_of_ne self]
      exact h.hashed j member
  sourced b within published := by
    obtain ⟨-, hash, lineage, -, -⟩ := Block.content_eq (content b)
    rw [count] at within
    rw [Block.published, hash] at published
    obtain ⟨j, member, k, fits, digest, named⟩ := h.sourced b within published
    have longer : (p.seqs j).tokenIds <+: (p'.seqs j).tokenIds := by
      rw [seqs]
      by_cases self : j = i
      · subst self
        rw [Function.update_self]
        exact tokens
      · rw [Function.update_of_ne self]
    refine ⟨j, member, k, ?_, ?_, ?_⟩
    · rw [size]
      exact fits.trans longer.length_le
    · rw [size, hash, chainHash_grown longer fits]
      exact digest
    · obtain ⟨more, equal⟩ := longer
      rw [size, lineage, ← equal, List.take_append_of_le_length fits]
      exact named

theorem Findable.grow (h : Findable xxh64 p ids chain) (held : Held p ids chain)
    (first : p.manager.freeBlockIds.head? = some b) (spares : p.manager.Spares) :
    Findable xxh64 (p.store i ((p.frame i).grow b)) ids chain := by
  have tokens (j : SeqId) : ((p.store i ((p.frame i).grow b)).seqs j).tokenIds = (p.seqs j).tokenIds := by
    by_cases self : j = i
    · subst self
      rw [Pool.store_seqs_self]
      rfl
    · rw [p.store_seqs_of_ne _ self]
  constructor
  case indexed => exact h.indexed.acquire held.index (spares b first)
  case ordered => exact h.ordered.acquire held.accounting.free_nodup first
  case sourced =>
    intro a within published
    have other : a ≠ b := by
      rintro rfl
      simp [Frame.grow, Pool.frame, Block.published, Block.reset] at published
    have same : (p.manager.acquire b).blocks a = p.manager.blocks a := by simp [Function.update_of_ne other]
    change ((p.manager.acquire b).blocks a).published at published
    rw [same] at published
    obtain ⟨j, member, k, fits, digest, named⟩ := h.sourced a within published
    refine ⟨j, member, k, by rw [tokens]; exact fits, ?_, ?_⟩
    · change ((p.manager.acquire b).blocks a).hash = _
      rw [same, tokens]
      exact digest
    · change chain ((p.manager.acquire b).blocks a).lineage = _
      rw [same, tokens]
      exact named
  case hashed =>
    intro j member
    by_cases self : j = i
    · subst self
      rw [Pool.store_seqs_self]
      exact (h.hashed j member).relabel rfl rfl rfl
    · rw [p.store_seqs_of_ne _ self]
      exact h.hashed j member

theorem Findable.publish (h : Findable xxh64 p ids chain) (held : Held p ids chain)
    (distinct : Distinct xxh64 p.manager.blockSize p.seqs ids) (member : i ∈ ids) {blockHash : Int}
    (entry : (p.seqs i).blockTable[k]? = some b) (unpublished : ¬(p.manager.blocks b).published)
    (hash : (p.seqs i).blockHashes[k]? = some blockHash)
    (before : ∀ a, 0 < k → (p.seqs i).blockTable[k - 1]? = some a → (p.manager.blocks a).published) :
    ∃ chain', Held ⟨p.manager.publishFullBlock b blockHash
        (slice (p.seqs i).tokenIds (k * p.manager.blockSize) ((k + 1) * p.manager.blockSize))
        (p.manager.lineageBefore (p.seqs i).blockTable k), p.seqs⟩ ids chain' ∧
      Findable xxh64 ⟨p.manager.publishFullBlock b blockHash
        (slice (p.seqs i).tokenIds (k * p.manager.blockSize) ((k + 1) * p.manager.blockSize))
        (p.manager.lineageBefore (p.seqs i).blockTable k), p.seqs⟩ ids chain' := by
  obtain ⟨chain', held', named⟩ := held.publish member entry unpublished hash before
  refine ⟨chain', held', ?_⟩
  have wf := held.wf i member
  have busy := held.accounting.held_not_free member (List.mem_of_getElem? entry)
  have inside := (List.getElem?_eq_some_iff.mp entry).1
  constructor
  case indexed =>
    refine h.indexed.publish held.index (held.accounting.identity b) unpublished (fun o found => ?_)
    obtain ⟨tokens, parent⟩ := h.owner_page held distinct member hash inside.le before found
    rw [← tokens, ← parent]
    exact ⟨held.accounting.publishedLineage held.index found _, rfl, rfl⟩
  case ordered => exact h.ordered.publish busy unpublished _ _ _
  case hashed => exact h.hashed
  case sourced =>
    intro a within published
    by_cases self : a = b
    · subst self
      have fits : (k + 1) * p.manager.blockSize ≤ (p.seqs i).tokenIds.length := by
        have below := (List.getElem?_eq_some_iff.mp hash).1
        rwa [wf.hashes, Nat.lt_iff_add_one_le, Nat.le_div_iff_mul_le held.size_pos, wf.tokens] at below
      refine ⟨i, member, k, fits, ?_, ?_⟩
      · have digest := h.hashed i member k blockHash hash
        rw [wf.block] at digest
        simpa [Block.update] using digest
      · exact (held'.tables.linked i member).chain_eq held'.index (held'.accounting.table_lt i member) entry published
    · have same : (p.manager.publishFullBlock b blockHash
          (slice (p.seqs i).tokenIds (k * p.manager.blockSize) ((k + 1) * p.manager.blockSize))
          (p.manager.lineageBefore (p.seqs i).blockTable k)).blocks a = p.manager.blocks a := by
        simp [Function.update_of_ne self]
      dsimp only at published
      rw [same] at published
      obtain ⟨j, memberJ, l, fits, digest, chain_eq⟩ := h.sourced a within published
      refine ⟨j, memberJ, l, fits, by dsimp only; rw [same]; exact digest, ?_⟩
      dsimp only
      rw [same, named _ (Or.inr (held.index.issued a within published))]
      exact chain_eq

end Findable

end NanoVllm
