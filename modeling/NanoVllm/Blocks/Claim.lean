import NanoVllm.Blocks.Prefix

set_option autoImplicit false

namespace NanoVllm

open Python Raising Naming

namespace BlockManager

variable {m : BlockManager} {seq : Sequence} {chain : Chain} {k : Nat} {parent : Int × Int}
  {previous : Option BlockId} {blocks : List BlockId}

theorem claimsFrom_ok (index : Index m chain) (size : seq.blockSize = m.blockSize)
    (known : m.lineage previous = .ok parent) (plan : Plan m seq k parent blocks)
    (short : blocks = [] ∨ k + blocks.length ≤ seq.numBlocks - 1)
    (resident : ∀ b ∈ blocks, b ∈ m.freeBlockIds ∧ b ∉ m.usedBlockIds ∧ (m.blocks b).refCount = 0 ∨
      b ∉ m.freeBlockIds ∧ b ∈ m.usedBlockIds ∧ 0 < (m.blocks b).refCount) :
    m.claimsFrom seq k previous blocks = .ok (blocks.map (fun b => (b, decide (b ∈ m.freeBlockIds)))) := by
  induction blocks generalizing k previous parent with
  | nil => rfl
  | cons b rest ih =>
      have owner := plan.indexed b (List.mem_cons_self ..)
      obtain ⟨page, rest'⟩ := plan.tail
      rw [List.length_cons] at short
      have early : k < seq.numBlocks - 1 := by
        rcases short with none | short
        · cases none
        · omega
      have block := block_ok size (show k < seq.numBlocks by omega)
      have full := length_page page.whole
      have hash : seq.blockHash k = .ok (m.blocks b).hash := by simp [Sequence.blockHash, page.hash]
      have above : (m.blocks b).parentBlockId = parent.1 := congrArg Prod.fst page.parent
      have above' : (m.blocks b).parentGeneration = parent.2 := congrArg Prod.snd page.parent
      have next := lineage_some index page.bound page.published
      have later := ih next rest' (by
        rcases short with none | short
        · cases none
        · right
          omega) (fun a member => resident a (List.mem_cons_of_mem b member))
      simp only [claimsFrom, require_of early, require_of page.bound, block, hash, known, except_ok_bind, pure_bind,
        require_of full, require_of owner, later, List.map_cons, page.tokens, above, above']
      rcases resident b (List.mem_cons_self ..) with ⟨free, unused, zero⟩ | ⟨busy, used, referenced⟩
      · simp [require, free, unused, zero]
      · simp [require, busy, used, referenced]

theorem claimsFrom_matches {claims : List (BlockId × Bool)} (index : Index m chain) (positive : 0 < m.blockSize)
    (size : seq.blockSize = m.blockSize) (checked : m.claimsFrom seq k previous blocks = .ok claims) :
    claims = blocks.map (fun b => (b, decide (b ∈ m.freeBlockIds))) ∧
      (∀ b ∈ blocks, m.hashToBlockId (m.blocks b).hash = some b) ∧
      (blocks = [] ∨ k + blocks.length ≤ seq.numBlocks - 1 ∧
        ∃ parent, m.lineage previous = .ok parent ∧ Matches m seq k parent blocks) := by
  induction blocks generalizing k previous claims with
  | nil => exact ⟨((except_pure_ok _ _).mp checked).symm, by simp, Or.inl rfl⟩
  | cons b rest ih =>
      simp only [claimsFrom] at checked
      obtain ⟨_, early, checked⟩ := except_bind_ok checked
      obtain ⟨_, bound, checked⟩ := except_bind_ok checked
      obtain ⟨tokenIds, block, checked⟩ := except_bind_ok checked
      obtain ⟨_, full, checked⟩ := except_bind_ok checked
      obtain ⟨blockHash, hash, checked⟩ := except_bind_ok checked
      obtain ⟨parent, known, checked⟩ := except_bind_ok checked
      obtain ⟨_, owner, checked⟩ := except_bind_ok checked
      obtain ⟨_, -, checked⟩ := except_bind_ok checked
      obtain ⟨_, sameHash, checked⟩ := except_bind_ok checked
      obtain ⟨_, sameTokens, checked⟩ := except_bind_ok checked
      obtain ⟨_, sameParent, checked⟩ := except_bind_ok checked
      obtain ⟨_, -, checked⟩ := except_bind_ok checked
      obtain ⟨claims', later, checked⟩ := except_bind_ok checked
      rw [except_require_ok] at early bound full owner sameHash sameTokens sameParent
      obtain ⟨-, whole⟩ := block_value block
      rw [size] at whole
      rw [whole] at full sameTokens
      obtain ⟨same, indexed, matched⟩ := ih later
      simp only [ne_eq, not_or, not_not] at sameParent
      have page : PageMatch m seq k parent b :=
        { bound := bound
          published := (index.indexed blockHash b owner).2.2
          hash := by rw [sameHash]; exact blockHash_entry hash
          tokens := sameTokens
          whole := le_length_of_slice positive full
          parent := Prod.ext sameParent.1 sameParent.2 }
      refine ⟨?_, ?_, Or.inr ⟨?_, parent, known, page, ?_⟩⟩
      · rw [List.map_cons, ← same]
        exact ((except_pure_ok _ _).mp checked).symm
      · intro a member
        rcases List.mem_cons.mp member with rfl | more
        · rw [sameHash]
          exact owner
        · exact indexed a more
      · rcases matched with rfl | ⟨few, -⟩
        · rw [List.length_singleton]
          omega
        · rw [List.length_cons]
          omega
      · rcases matched with rfl | ⟨-, identity, next, rest'⟩
        · trivial
        · rw [← (published_of_lineage next).2.2]
          exact rest'

end BlockManager

structure Claims (p p' : Pool) (ids : Finset SeqId) (chain : Chain) (i : SeqId) (blocks : List BlockId) : Prop where
  held : Held p' ids chain
  seqs : p'.seqs = Function.update p.seqs i { p.seqs i with
    blockTable := (p.seqs i).blockTable ++ blocks
    numCachedTokens := (p.seqs i).numCachedTokens + blocks.length * p.manager.blockSize }
  size : p'.manager.blockSize = p.manager.blockSize
  count : p'.manager.numBlocks = p.manager.numBlocks
  index : p'.manager.hashToBlockId = p.manager.hashToBlockId
  content : ∀ b, (p'.manager.blocks b).content = (p.manager.blocks b).content
  free : ∀ b, b ∈ p'.manager.freeBlockIds ↔ b ∈ p.manager.freeBlockIds ∧ b ∉ blocks
  taken : p'.manager.freeBlockIds.length + blocks.countP (fun b => decide (b ∈ p.manager.freeBlockIds)) =
    p.manager.freeBlockIds.length

theorem Claims.store {p p' : Pool} {ids : Finset SeqId} {chain : Chain} {i : SeqId} {blocks : List BlockId}
    (h : Claims p p' ids chain i blocks) : p.store i (p'.frame i) = p' := Pool.store_of_seqs h.seqs

theorem Claims.nil {p : Pool} {ids : Finset SeqId} {chain : Chain} {i : SeqId} (h : Held p ids chain) :
    Claims p p ids chain i [] where
  held := h
  seqs := by simp
  size := rfl
  count := rfl
  index := rfl
  content _ := rfl
  free := by simp
  taken := by simp

theorem Pool.shared_seq (p : Pool) (i : SeqId) (b : BlockId) :
    (p.store i ((p.frame i).share b)).seqs i = { p.seqs i with
    blockTable := (p.seqs i).blockTable ++ [b]
    numCachedTokens := (p.seqs i).numCachedTokens + p.manager.blockSize } := by
  simp [Frame.share, Pool.frame]

theorem Plan.shared {p : Pool} {i : SeqId} {k : Nat} {b : BlockId} {rest : List BlockId}
    (last : k = (p.seqs i).blockTable.length)
    (plan : Plan p.manager (p.seqs i) k (p.manager.lineageBefore (p.seqs i).blockTable k) (b :: rest)) :
    let q := p.store i ((p.frame i).share b)
    Plan q.manager (q.seqs i) (k + 1) (q.manager.lineageBefore (q.seqs i).blockTable (k + 1)) rest := by
  intro q
  obtain ⟨-, rest'⟩ := plan.tail
  have unmatched := (List.nodup_cons.mp plan.nodup).1
  have content := p.manager.share_content b
  have manager : q.manager = p.manager.share b := rfl
  have seq := p.shared_seq i b
  have lineage : q.manager.lineageBefore (q.seqs i).blockTable (k + 1) = (p.manager.blocks b).lineage := by
    rw [manager, seq, last]
    simp only [BlockManager.lineageBefore, List.getElem?_concat_length]
    exact (Block.content_eq (content b)).2.2.1
  rw [lineage]
  constructor
  case matched =>
    refine rest'.matched.congr ?_ ?_ (by rw [seq]) (by rw [seq]) (fun a _ => content a)
    · exact p.manager.share_blockSize b
    · exact p.manager.share_numBlocks b
  case nodup => exact rest'.nodup
  case apart =>
    intro a more
    rw [seq, List.mem_append, List.mem_singleton, not_or]
    exact ⟨rest'.apart a more, fun same => unmatched (same ▸ more)⟩
  case indexed =>
    intro a more
    rw [manager, BlockManager.share_index, (Block.content_eq (content a)).2.1]
    exact rest'.indexed a more

theorem Claims.cons {p p' : Pool} {ids : Finset SeqId} {chain : Chain} {i : SeqId} {b : BlockId}
    {rest : List BlockId} (h : Held p ids chain)
    (same : ∀ a ∈ rest, (a ∈ p.manager.freeBlockIds ↔ a ∈ (p.manager.share b).freeBlockIds))
    (done : Claims (p.store i ((p.frame i).share b)) p' ids chain i rest) : Claims p p' ids chain i (b :: rest) := by
  have manager : (p.store i ((p.frame i).share b)).manager = p.manager.share b := rfl
  have free : (p.manager.share b).freeBlockIds = p.manager.freeBlockIds.erase b := Accounting.share_free
  constructor
  case held => exact done.held
  case seqs =>
    rw [done.seqs, p.shared_seq i b]
    simp only [Pool.store, Function.update_idem, List.append_assoc, List.singleton_append, List.length_cons,
      Frame.share, Pool.frame, BlockManager.share_blockSize]
    congr 2
    rw [Nat.succ_mul]
    omega
  case size => exact done.size.trans (p.manager.share_blockSize b)
  case count => exact done.count.trans (p.manager.share_numBlocks b)
  case index => exact done.index.trans (p.manager.share_index b)
  case content => exact fun a => (done.content a).trans (p.manager.share_content b a)
  case free =>
    intro a
    rw [done.free, manager, free, h.accounting.free_nodup.mem_erase_iff, List.mem_cons, not_or]
    tauto
  case taken =>
    have taken := done.taken
    have counts : rest.countP (fun a => decide (a ∈ p.manager.freeBlockIds)) =
        rest.countP (fun a => decide (a ∈ (p.manager.share b).freeBlockIds)) :=
      List.countP_congr (fun a more => by simp only [same a more])
    rw [List.countP_cons, counts]
    rw [manager, free] at taken
    rw [free]
    by_cases freeB : b ∈ p.manager.freeBlockIds
    · have shorter := List.length_erase_of_mem freeB
      have some' := List.length_pos_of_mem freeB
      simp only [freeB, decide_true, if_true]
      omega
    · rw [List.erase_of_not_mem freeB] at taken ⊢
      simp only [freeB, decide_false, Bool.false_eq_true, if_false]
      omega

namespace Held

variable {p : Pool} {ids : Finset SeqId} {chain : Chain} {i : SeqId} {k : Nat} {blocks : List BlockId}

theorem share (h : Held p ids chain) (member : i ∈ ids) {b : BlockId}
    (page : PageMatch p.manager (p.seqs i) (p.seqs i).blockTable.length
      (p.manager.lineageBefore (p.seqs i).blockTable (p.seqs i).blockTable.length) b)
    (above : ∀ a, (p.seqs i).blockTable.getLast? = some a → (p.manager.blocks a).published)
    (absent : b ∉ (p.seqs i).blockTable) : Held (p.store i ((p.frame i).share b)) ids chain where
  accounting := h.accounting.share member page.bound absent
  index := h.index.share b
  tables := by
    refine h.tables.share member page.published ?_
    constructor
    case hash => exact page.hash
    case tokens => exact page.tokens
    case parent => exact page.parent
    case before =>
      intro a positive entry
      rw [← List.getLast?_eq_getElem?] at entry
      exact above a entry
  wf j memberJ := by
    have size : (p.store i ((p.frame i).share b)).manager.blockSize = p.manager.blockSize :=
      p.manager.share_blockSize b
    rw [size]
    by_cases self : j = i
    · subst self
      rw [Pool.store_seqs_self]
      exact (h.wf j memberJ).relabel rfl rfl rfl rfl rfl
    · rw [p.store_seqs_of_ne _ self]
      exact h.wf j memberJ

theorem claims (h : Held p ids chain) (member : i ∈ ids) (last : k = (p.seqs i).blockTable.length)
    (plan : Plan p.manager (p.seqs i) k (p.manager.lineageBefore (p.seqs i).blockTable k) blocks)
    (above : ∀ a, (p.seqs i).blockTable.getLast? = some a → (p.manager.blocks a).published) :
    ∃ p', forEach BlockManager.claimBlock (blocks.map (fun b => (b, decide (b ∈ p.manager.freeBlockIds))))
      (p.frame i) = .ok () (p'.frame i) ∧ Claims p p' ids chain i blocks := by
  induction blocks generalizing p k with
  | nil => exact ⟨p, rfl, Claims.nil h⟩
  | cons b rest ih =>
      subst last
      obtain ⟨page, -⟩ := plan.tail
      have absent := plan.apart b (List.mem_cons_self ..)
      have unmatched := (List.nodup_cons.mp plan.nodup).1
      have held := h.share member page above absent
      have turn : BlockManager.claimBlock (b, decide (b ∈ p.manager.freeBlockIds)) (p.frame i) =
          .ok () ((p.store i ((p.frame i).share b)).frame i) := by
        rw [Pool.frame_store]
        refine BlockManager.claimBlock_run (f := p.frame i) page.bound (fun freeB => ?_)
        exact ⟨h.accounting.free_refs freeB, fun used => ((h.accounting.used_iff b).mp used).2 freeB⟩
      have above' : ∀ a, ((p.store i ((p.frame i).share b)).seqs i).blockTable.getLast? = some a →
          ((p.manager.share b).blocks a).published := by
        intro a found
        rw [Pool.shared_seq, List.getLast?_concat, Option.some.injEq] at found
        subst found
        rw [Block.published, (Block.content_eq (p.manager.share_content b b)).2.1]
        exact page.published
      have same : ∀ a ∈ rest, (a ∈ p.manager.freeBlockIds ↔ a ∈ (p.manager.share b).freeBlockIds) := by
        intro a more
        have other : a ≠ b := fun self => unmatched (self ▸ more)
        rw [Accounting.share_free, h.accounting.free_nodup.mem_erase_iff]
        simp [other]
      have flags : rest.map (fun a => (a, decide (a ∈ p.manager.freeBlockIds))) =
          rest.map (fun a => (a, decide (a ∈ (p.manager.share b).freeBlockIds))) :=
        List.map_congr_left (fun a more => by simp only [same a more])
      obtain ⟨p', run, done⟩ := ih held (by rw [Pool.shared_seq]; simp) (plan.shared rfl) above'
      refine ⟨p', ?_, Claims.cons h same done⟩
      simp only [List.map_cons, forEach, flags]
      rw [bind_ok turn]
      exact run

-- A sequence that only holds published pages, all of them counted as cached.
def Validated (p : Pool) (i : SeqId) : Prop :=
  (p.seqs i).numCachedTokens = (p.seqs i).blockTable.length * p.manager.blockSize ∧
    ∀ b ∈ (p.seqs i).blockTable, (p.manager.blocks b).published

theorem matches_table (h : Held p ids chain) (member : i ∈ ids)
    (published : ∀ b ∈ (p.seqs i).blockTable, (p.manager.blocks b).published) (front rest : List BlockId)
    (split : (p.seqs i).blockTable = front ++ rest) :
    Matches p.manager (p.seqs i) front.length
      (p.manager.lineageBefore (p.seqs i).blockTable front.length) rest := by
  induction rest generalizing front with
  | nil => trivial
  | cons b rest ih =>
      have entry : (p.seqs i).blockTable[front.length]? = some b := by simp [split]
      have held : b ∈ (p.seqs i).blockTable := by simp [split]
      have live := published b held
      have bound := h.accounting.table_lt i member b held
      have link := h.tables.linked i member front.length b entry live
      have full := h.index.whole b bound live
      rw [link.tokens] at full
      constructor
      · exact ⟨bound, live, link.hash, link.tokens, le_length_of_slice h.size_pos full, link.parent⟩
      · have next := ih (front ++ [b]) (by simp [split])
        rw [List.length_append, List.length_singleton] at next
        simpa only [BlockManager.lineageBefore, entry] using next

theorem validate (h : Held p ids chain) (member : i ∈ ids) (valid : Validated p i) :
    p.manager.validateClaimedPrefix (p.seqs i) = .ok () := by
  simp only [BlockManager.validateClaimedPrefix, require_of valid.1, pure_bind]
  refine BlockManager.validateClaimedPrefixFrom_ok h.index (h.wf i member) rfl
    (h.matches_table member valid.2 [] _ rfl) (fun b held => ?_)
  have used := h.accounting.held_used member held
  exact ⟨used, h.accounting.held_not_free member held, h.accounting.used_refs used⟩

theorem published_of_validate {m : BlockManager} {seq : Sequence} (wf : seq.Wf m.blockSize)
    {previous : Option BlockId} (valid : m.validateClaimedPrefixFrom seq k previous blocks = .ok ()) :
    ∀ b ∈ blocks, (m.blocks b).published := by
  induction blocks generalizing k previous with
  | nil => simp
  | cons b rest ih =>
      obtain ⟨_, -, hash, -, -, later⟩ :=
        BlockManager.validateClaimedPrefixFrom_cons wf.size_pos wf.block valid
      intro a member
      rcases List.mem_cons.mp member with rfl | more
      · exact wf.hashed _ (List.mem_of_getElem? hash)
      · exact ih later a more

theorem validated_of_validate (h : Held p ids chain) (member : i ∈ ids)
    (valid : p.manager.validateClaimedPrefix (p.seqs i) = .ok ()) : Validated p i := by
  obtain ⟨_, cached, valid⟩ := except_bind_ok valid
  rw [except_require_ok] at cached
  exact ⟨cached, published_of_validate (h.wf i member) valid⟩

theorem lineage_table (h : Held p ids chain) (member : i ∈ ids)
    (above : ∀ a, (p.seqs i).blockTable.getLast? = some a → (p.manager.blocks a).published) :
    p.manager.lineage (p.seqs i).blockTable.getLast? =
      .ok (p.manager.lineageBefore (p.seqs i).blockTable (p.seqs i).blockTable.length) := by
  cases last : (p.seqs i).blockTable.getLast? with
  | none =>
      rw [List.getLast?_eq_none_iff.mp last]
      rfl
  | some b =>
      have held := List.mem_of_getLast? last
      have known := BlockManager.lineage_some h.index (h.accounting.table_lt i member b held) (above b last)
      have same := BlockManager.lineage_last p.manager (p.seqs i).blockTable (by rw [last]; exact known)
      rw [known, same]

theorem chain_table (h : Held p ids chain) (member : i ∈ ids)
    (above : ∀ a, (p.seqs i).blockTable.getLast? = some a → (p.manager.blocks a).published) :
    chain (p.manager.lineageBefore (p.seqs i).blockTable (p.seqs i).blockTable.length) =
      (p.seqs i).tokenIds.take ((p.seqs i).blockTable.length * p.manager.blockSize) := by
  cases length : (p.seqs i).blockTable.length with
  | zero => simp [BlockManager.lineageBefore, h.index.root_empty]
  | succ k =>
      have entry : (p.seqs i).blockTable[k]? = some (p.seqs i).blockTable[k] :=
        List.getElem?_eq_getElem (by omega)
      have last : (p.seqs i).blockTable.getLast? = some (p.seqs i).blockTable[k] := by
        rw [List.getLast?_eq_getElem?, ← entry, length, Nat.add_sub_cancel]
      simp only [BlockManager.lineageBefore, entry]
      exact (h.tables.linked i member).chain_eq h.index (h.accounting.table_lt i member) entry (above _ last)

theorem apart_of_matches (h : Held p ids chain) (member : i ∈ ids)
    (above : ∀ a, (p.seqs i).blockTable.getLast? = some a → (p.manager.blocks a).published)
    (matched : Matches p.manager (p.seqs i) (p.seqs i).blockTable.length
      (p.manager.lineageBefore (p.seqs i).blockTable (p.seqs i).blockTable.length) blocks) :
    ∀ b ∈ blocks, b ∉ (p.seqs i).blockTable := by
  intro b planned held
  obtain ⟨j, entry⟩ := List.mem_iff_getElem?.mp planned
  obtain ⟨j', entry'⟩ := List.mem_iff_getElem?.mp held
  have inside := (List.getElem?_eq_some_iff.mp entry').1
  obtain ⟨_, page⟩ := matched.page entry
  have whole := page.whole
  have later := matched.chain_eq h.index (h.chain_table member above) entry
  have earlier := (h.tables.linked i member).chain_eq h.index (h.accounting.table_lt i member) entry'
    page.published
  have lengths := congrArg List.length (later.symm.trans earlier)
  have below : (j' + 1) * p.manager.blockSize < ((p.seqs i).blockTable.length + j + 1) * p.manager.blockSize :=
    Nat.mul_lt_mul_of_pos_right (by omega) h.size_pos
  rw [List.length_take, List.length_take] at lengths
  omega

theorem resident (h : Held p ids chain) (b : BlockId) (bound : b < p.manager.numBlocks) :
    b ∈ p.manager.freeBlockIds ∧ b ∉ p.manager.usedBlockIds ∧ (p.manager.blocks b).refCount = 0 ∨
      b ∉ p.manager.freeBlockIds ∧ b ∈ p.manager.usedBlockIds ∧ 0 < (p.manager.blocks b).refCount := by
  by_cases free : b ∈ p.manager.freeBlockIds
  · exact Or.inl ⟨free, fun used => ((h.accounting.used_iff b).mp used).2 free, h.accounting.free_refs free⟩
  · have used := (h.accounting.used_iff b).mpr ⟨bound, free⟩
    exact Or.inr ⟨free, used, h.accounting.used_refs used⟩

theorem claimPrefix_run (h : Held p ids chain) (member : i ∈ ids) (valid : Validated p i)
    (plan : Plan p.manager (p.seqs i) (p.seqs i).blockTable.length
      (p.manager.lineageBefore (p.seqs i).blockTable (p.seqs i).blockTable.length) blocks)
    (short : blocks = [] ∨ (p.seqs i).blockTable.length + blocks.length ≤ (p.seqs i).numBlocks - 1) :
    ∃ p', BlockManager.claimPrefix blocks (p.frame i) = .ok () (p'.frame i) ∧ Claims p p' ids chain i blocks := by
  have above : ∀ a, (p.seqs i).blockTable.getLast? = some a → (p.manager.blocks a).published :=
    fun a last => valid.2 a (List.mem_of_getLast? last)
  obtain ⟨p', run, done⟩ := h.claims member rfl plan above
  refine ⟨p', ?_, done⟩
  have size : p.manager.assertBlockSize (p.seqs i) = .ok () := require_of (h.wf i member).block _
  have checked := BlockManager.claimsFrom_ok h.index (h.wf i member).block (h.lineage_table member above) plan short
    (fun b planned => h.resident b (plan.matched.bound planned))
  have distinct : blocks.toFinset.card = blocks.length := List.toFinset_card_of_nodup plan.nodup
  simp only [BlockManager.claimPrefix, run_get_bind, Pool.frame]
  rw [run_ofExcept_bind size, run_ofExcept_bind (h.validate member valid), run_require_bind distinct,
    run_ofExcept_bind checked]
  exact run

theorem claimPrefix_ok (h : Held p ids chain) (member : i ∈ ids) {f : Frame}
    (run : BlockManager.claimPrefix blocks (p.frame i) = .ok () f) :
    ∃ p', f = p'.frame i ∧ Claims p p' ids chain i blocks := by
  have wf := h.wf i member
  simp only [BlockManager.claimPrefix, run_get_bind, Pool.frame] at run
  obtain ⟨⟨⟩, -, run⟩ := run_ofExcept_ok run
  obtain ⟨⟨⟩, valid, run⟩ := run_ofExcept_ok run
  obtain ⟨distinct, run⟩ := run_require_ok run
  obtain ⟨claims, checked, run⟩ := run_ofExcept_ok run
  obtain ⟨same, indexed, matched⟩ := BlockManager.claimsFrom_matches h.index h.size_pos wf.block checked
  subst same
  rcases matched with rfl | ⟨-, parent, known, matched⟩
  · cases run
    exact ⟨p, rfl, Claims.nil h⟩
  · have above : ∀ a, (p.seqs i).blockTable.getLast? = some a → (p.manager.blocks a).published := by
      intro a last
      rw [last] at known
      exact (BlockManager.published_of_lineage known).2.1
    have lineage := BlockManager.lineage_last _ _ known
    subst lineage
    have plan : Plan p.manager (p.seqs i) (p.seqs i).blockTable.length
        (p.manager.lineageBefore (p.seqs i).blockTable (p.seqs i).blockTable.length) blocks :=
      { matched := matched
        nodup := Multiset.coe_nodup.mp (Multiset.toFinset_card_eq_card_iff_nodup.mp distinct)
        apart := h.apart_of_matches member above matched
        indexed := indexed }
    obtain ⟨p', run', done⟩ := h.claims member rfl plan above
    refine ⟨p', ?_, done⟩
    rw [Pool.frame] at run'
    cases run.symm.trans run'
    rfl

end Held

end NanoVllm
