import NanoVllm.Blocks.Release

set_option autoImplicit false

namespace NanoVllm

open Python Raising Naming

namespace Held

variable {p : Pool} {ids : Finset SeqId} {chain : Chain} {i : SeqId}

theorem init {numBlocks blockSize : Nat} {m : BlockManager} (made : BlockManager.init numBlocks blockSize = .ok m)
    (seqs : SeqId → Sequence) : Held ⟨m, seqs⟩ ∅ (fun _ => []) := by
  obtain ⟨_, positive, made⟩ := except_bind_ok made
  rw [except_require_ok] at positive
  rw [except_pure_ok] at made
  subst made
  have empty (b : BlockId) : holders seqs ∅ b = ∅ := rfl
  have blank (b : BlockId) : ¬(Block.init b).published := by simp [Block.published, Block.init]
  constructor
  case accounting =>
    constructor
    case size_pos => exact positive
    case identity => exact fun b => rfl
    case free_nodup => exact List.nodup_range
    case free_lt => exact fun b free => List.mem_range.mp free
    case used_iff => simp
    case free_iff => exact fun b within => iff_of_true (List.mem_range.mpr within) (empty b)
    case refs => exact fun b _ => by simp [empty, Block.init]
    case table_nodup => simp
    case table_lt => simp
  case index =>
    constructor
    case indexed => exact fun h b found => by simp [Dict.empty] at found
    case named => exact fun b _ published => absurd published (blank b)
    case whole => exact fun b _ published => absurd published (blank b)
    case issued => exact fun b _ published => absurd published (blank b)
    case parent_issued => exact fun b _ published => absurd published (blank b)
    case root_empty => rfl
  case tables => exact ⟨by simp, by simp⟩
  case wf => simp

theorem enter (h : Held p ids chain) (absent : i ∉ ids) {seq : Sequence} (wf : seq.Wf p.manager.blockSize)
    (table : seq.blockTable = []) : Held (p.store i ⟨p.manager, seq⟩) (insert i ids) chain := by
  have apart {j : SeqId} (member : j ∈ ids) : j ≠ i := fun same => absent (same ▸ member)
  have elsewhere {j : SeqId} (member : j ∈ ids) : (p.store i ⟨p.manager, seq⟩).seqs j = p.seqs j :=
    p.store_seqs_of_ne _ (apart member)
  have self : (p.store i ⟨p.manager, seq⟩).seqs i = seq := p.store_seqs_self i _
  have same (b : BlockId) :
      holders (p.store i ⟨p.manager, seq⟩).seqs (insert i ids) b = holders p.seqs ids b := by
    ext j
    simp only [mem_holders, Finset.mem_insert]
    constructor
    · rintro ⟨rfl | member, held⟩
      · simp [table] at held
      · rw [elsewhere member] at held
        exact ⟨member, held⟩
    · rintro ⟨member, held⟩
      rw [← elsewhere member] at held
      exact ⟨Or.inr member, held⟩
  constructor
  case accounting =>
    constructor
    case size_pos => exact h.accounting.size_pos
    case identity => exact h.accounting.identity
    case free_nodup => exact h.accounting.free_nodup
    case free_lt => exact h.accounting.free_lt
    case used_iff => exact h.accounting.used_iff
    case free_iff =>
      intro b within
      rw [same]
      exact h.accounting.free_iff b within
    case refs =>
      intro b within
      rw [same]
      exact h.accounting.refs b within
    case table_nodup =>
      intro j member
      rcases Finset.mem_insert.mp member with rfl | old
      · simp [table]
      · rw [elsewhere old]
        exact h.accounting.table_nodup j old
    case table_lt =>
      intro j member b held
      rcases Finset.mem_insert.mp member with rfl | old
      · simp [table] at held
      · rw [elsewhere old] at held
        exact h.accounting.table_lt j old b held
  case index => exact h.index
  case tables =>
    constructor
    case linked =>
      intro j member
      rcases Finset.mem_insert.mp member with rfl | old
      · rw [self]
        exact Linked.nil table
      · rw [elsewhere old]
        exact h.tables.linked j old
    case owner =>
      intro j memberJ k memberK b heldJ heldK unpublished
      rcases Finset.mem_insert.mp memberJ with rfl | oldJ
      · simp [table] at heldJ
      · rcases Finset.mem_insert.mp memberK with rfl | oldK
        · simp [table] at heldK
        · rw [elsewhere oldJ] at heldJ
          rw [elsewhere oldK] at heldK
          exact h.tables.owner j oldJ k oldK b heldJ heldK unpublished
  case wf =>
    intro j member
    rcases Finset.mem_insert.mp member with rfl | old
    · rw [self]
      exact wf
    · rw [elsewhere old]
      exact h.wf j old

end Held

/-- The operations of the block manager that change a sequence and its pages. -/
inductive Operation where
  | allocateNew
  | mayAppend
  | claimPrefix (blockIds : List BlockId)
  | deallocate

def Operation.run : Operation → Method Unit
  | .allocateNew => BlockManager.allocateNew
  | .mayAppend => BlockManager.mayAppend
  | .claimPrefix blockIds => BlockManager.claimPrefix blockIds
  | .deallocate => BlockManager.deallocate

-- For each block, the tokens that it was last published under, its ancestors' first.
abbrev Log := BlockId → List Token

def NewlyPublished (before after : BlockManager) (b : BlockId) : Prop :=
  (after.blocks b).published ∧
    ((before.blocks b).published → (after.blocks b).generation ≠ (before.blocks b).generation)

instance (before after : BlockManager) (b : BlockId) : Decidable (NewlyPublished before after b) := by
  unfold NewlyPublished
  infer_instance

-- The tokens of the pages of a block table up to block `b`.
def tokensUpTo (m : BlockManager) (table : List BlockId) (b : BlockId) : List Token :=
  (table.take (table.idxOf b + 1)).flatMap (fun a => (m.blocks a).tokenIds)

def record (p p' : Pool) (i : SeqId) (log : Log) : Log := fun b =>
  if NewlyPublished p.manager p'.manager b then tokensUpTo p'.manager (p'.seqs i).blockTable b else log b

/-- The pools, with the logs of their publications, that a block manager comes to in any order of
operations on any sequences. `num_cached_tokens` and `num_new_tokens` are set freely between them. -/
inductive History (xxh64 : XxHash) (numBlocks blockSize : Nat) : Pool → Finset SeqId → Log → Prop
  | init {m : BlockManager} (seqs : SeqId → Sequence) (log : Log)
      (made : BlockManager.init numBlocks blockSize = .ok m) :
      History xxh64 numBlocks blockSize ⟨m, seqs⟩ ∅ log
  | create {p : Pool} {ids : Finset SeqId} {log : Log} {i seqId : SeqId} {tokenIds : List Token}
      {params : SamplingParams} {seq : Sequence} (past : History xxh64 numBlocks blockSize p ids log)
      (absent : i ∉ ids) (made : Sequence.init xxh64 seqId tokenIds params blockSize = .ok seq) :
      History xxh64 numBlocks blockSize (p.store i ⟨p.manager, seq⟩) (insert i ids) log
  | appendToken {p : Pool} {ids : Finset SeqId} {log : Log} {i : SeqId} {tokenId : Token} {seq : Sequence}
      (past : History xxh64 numBlocks blockSize p ids log) (member : i ∈ ids)
      (run : Sequence.appendToken xxh64 tokenId (p.seqs i) = .ok () seq) :
      History xxh64 numBlocks blockSize (p.store i ⟨p.manager, seq⟩) ids log
  | setCounts {p : Pool} {ids : Finset SeqId} {log : Log} {i : SeqId} (numCachedTokens numNewTokens : Nat)
      (past : History xxh64 numBlocks blockSize p ids log) (member : i ∈ ids) :
      History xxh64 numBlocks blockSize
        (p.store i ⟨p.manager, { p.seqs i with numCachedTokens, numNewTokens }⟩) ids log
  | call {p : Pool} {ids : Finset SeqId} {log : Log} {i : SeqId} {f : Frame} (operation : Operation)
      (past : History xxh64 numBlocks blockSize p ids log) (member : i ∈ ids)
      (within : (p.seqs i).numContextTokens ≤ (p.seqs i).numTokens)
      (run : operation.run (p.frame i) = .ok () f) :
      History xxh64 numBlocks blockSize (p.store i f) ids (record p (p.store i f) i log)

def Logged (m : BlockManager) (chain : Chain) (log : Log) : Prop :=
  ∀ b, b < m.numBlocks → (m.blocks b).published → log b = chain (m.blocks b).lineage

section Logged

variable {p p' : Pool} {ids : Finset SeqId} {chain chain' : Chain} {log : Log} {i : SeqId}

theorem Linked.tokensUpTo_eq {m : BlockManager} {seq : Sequence} (h : Linked m seq) (nodup : seq.blockTable.Nodup)
    {k : Nat} {b : BlockId} (entry : seq.blockTable[k]? = some b) (published : (m.blocks b).published) :
    tokensUpTo m seq.blockTable b = seq.tokenIds.take ((k + 1) * m.blockSize) := by
  obtain ⟨inside, value⟩ := List.getElem?_eq_some_iff.mp entry
  have position : seq.blockTable.idxOf b = k := by
    rw [← value]
    exact nodup.idxOf_getElem k inside
  rw [tokensUpTo, position]
  clear position value inside
  induction k generalizing b with
  | zero =>
      have link := h 0 b entry published
      rw [List.take_add_one, entry]
      simp [link.tokens, slice]
  | succ k ih =>
      have link := h (k + 1) b entry published
      obtain ⟨a, previous, live⟩ := h.published_before entry published (Nat.le_succ k)
      rw [List.take_add_one, List.flatMap_append, ih previous live, entry]
      simp only [Option.toList_some, List.flatMap_cons, List.flatMap_nil, List.append_nil, link.tokens]
      exact take_append_slice (Nat.mul_le_mul_right _ (by omega))

theorem Logged.recount (logged : Logged p.manager chain log) (count : p'.manager.numBlocks = p.manager.numBlocks)
    (content : ∀ b, (p'.manager.blocks b).content = (p.manager.blocks b).content) :
    Logged p'.manager chain (record p p' i log) := by
  intro b within published
  obtain ⟨generation, hash, lineage, -, -⟩ := Block.content_eq (content b)
  have old : (p.manager.blocks b).published := by
    rw [Block.published, ← hash]
    exact published
  have known : ¬NewlyPublished p.manager p'.manager b := fun new => new.2 old generation
  rw [record, if_neg known, lineage]
  exact logged b (count ▸ within) old

theorem Logged.filled {contextEnd first k : Nat} {fresh : List BlockId} (logged : Logged p.manager chain log)
    (index : Index p.manager chain) (member : i ∈ ids)
    (filled : Filled p p' ids chain chain' i contextEnd first k fresh) :
    Logged p'.manager chain' (record p p' i log) := by
  intro b within published
  rw [filled.count] at within
  by_cases old : (p.manager.blocks b).published ∧ b ∉ fresh
  case pos =>
    have same := filled.kept b old.1 old.2
    have known : ¬NewlyPublished p.manager p'.manager b := fun new => new.2 old.1 (by rw [same])
    rw [record, if_neg known, same, filled.named _ (Or.inr (index.issued b within old.1))]
    exact logged b within old.1
  case neg =>
    have new : NewlyPublished p.manager p'.manager b := by
      refine ⟨published, fun before => ?_⟩
      have taken : b ∈ fresh := by_contra (fun unused => old ⟨before, unused⟩)
      rw [filled.renewed, if_pos taken]
      omega
    obtain ⟨j, -, -, entry⟩ := (filled.origin b published).resolve_left old
    have linked := filled.held.tables.linked i member
    rw [record, if_pos new,
      linked.tokensUpTo_eq (filled.held.accounting.table_nodup i member) entry published]
    exact (linked.chain_eq filled.held.index (filled.held.accounting.table_lt i member) entry published).symm

end Logged

theorem History.held {xxh64 : XxHash} {numBlocks blockSize : Nat} {p : Pool} {ids : Finset SeqId} {log : Log}
    (history : History xxh64 numBlocks blockSize p ids log) :
    ∃ chain, Held p ids chain ∧ p.manager.blockSize = blockSize ∧ Logged p.manager chain log := by
  induction history with
  | init seqs log made =>
      have held := Held.init made seqs
      obtain ⟨_, -, value⟩ := except_bind_ok made
      rw [except_pure_ok] at value
      subst value
      exact ⟨_, held, rfl, fun b _ published => absurd published (by simp [Block.published, Block.init])⟩
  | create past absent made ih =>
      obtain ⟨chain, held, size, logged⟩ := ih
      obtain ⟨wf, fresh, -⟩ := Sequence.init_ok made
      exact ⟨chain, held.enter absent (size ▸ wf) fresh.table, size, logged⟩
  | @appendToken p ids log i tokenId seq past member run ih =>
      obtain ⟨chain, held, size, logged⟩ := ih
      have wf := held.wf i member
      rw [Sequence.appendToken_run xxh64 wf tokenId] at run
      cases run
      exact ⟨chain, held.relabel member (wf.appended xxh64 tokenId) rfl
        (Sequence.appended_tokens xxh64 _ tokenId) (Sequence.appended_hashes xxh64 _ tokenId), size, logged⟩
  | @setCounts p ids log i cached new past member ih =>
      obtain ⟨chain, held, size, logged⟩ := ih
      exact ⟨chain, held.relabel member ((held.wf i member).relabel rfl rfl rfl rfl rfl) rfl
        List.prefix_rfl List.prefix_rfl, size, logged⟩
  | @call p ids log i f operation past member within run ih =>
      obtain ⟨chain, held, size, logged⟩ := ih
      cases operation with
      | allocateNew =>
          obtain ⟨-, p', chain', fresh, same, filled⟩ := held.allocateNew_ok member run
          have whole : p.store i f = p' := by rw [same, filled.store]
          rw [whole]
          exact ⟨chain', filled.held, filled.size.trans size, logged.filled held.index member filled⟩
      | mayAppend =>
          obtain ⟨p', chain', fresh, same, filled⟩ := held.mayAppend_ok member within run
          have whole : p.store i f = p' := by rw [same, filled.store]
          rw [whole]
          exact ⟨chain', filled.held, filled.size.trans size, logged.filled held.index member filled⟩
      | claimPrefix blockIds =>
          obtain ⟨p', same, claims⟩ := held.claimPrefix_ok member run
          have whole : p.store i f = p' := by rw [same, claims.store]
          rw [whole]
          exact ⟨chain, claims.held, claims.size.trans size, logged.recount claims.count claims.content⟩
      | deallocate =>
          obtain ⟨p', run', vacated⟩ := held.deallocate_run member
          have same : f = p'.frame i := by
            cases run.symm.trans run'
            rfl
          have whole : p.store i f = p' := by rw [same, vacated.store]
          rw [whole]
          exact ⟨chain, vacated.held, vacated.size.trans size, logged.recount vacated.count vacated.content⟩

/-- A block that `match_prefix` returns for a sequence was published under that sequence's tokens. -/
theorem matchPrefix_lineage {xxh64 : XxHash} {numBlocks blockSize : Nat} {p : Pool} {ids : Finset SeqId}
    {log : Log} (history : History xxh64 numBlocks blockSize p ids log) {seq : Sequence}
    {maxBlocks : Option Nat} {blockIds : List BlockId}
    (found : p.manager.matchPrefix seq maxBlocks = .ok blockIds) :
    ∀ i b, blockIds[i]? = some b →
      log b = seq.tokenIds.take ((seq.blockTable.length + i + 1) * blockSize) ∧
        (log b).length = (seq.blockTable.length + i + 1) * blockSize := by
  obtain ⟨chain, held, size, logged⟩ := history.held
  subst size
  intro i b entry
  obtain ⟨-, -, plan, more⟩ := BlockManager.matchPrefix_plan held.index held.size_pos found
  have some' : blockIds ≠ [] := List.ne_nil_of_mem (List.mem_of_getElem? entry)
  obtain ⟨-, table⟩ := more some'
  have above : chain (p.manager.lineageBefore seq.blockTable seq.blockTable.length) =
      seq.tokenIds.take (seq.blockTable.length * p.manager.blockSize) := by
    cases length : seq.blockTable.length with
    | zero => simp [BlockManager.lineageBefore, held.index.root_empty]
    | succ k =>
        have last : seq.blockTable[k]? = some seq.blockTable[k] := List.getElem?_eq_getElem (by omega)
        have lineage := table.chain_eq held.index (by simp [held.index.root_empty]) last
        rw [Nat.zero_add] at lineage
        simp only [BlockManager.lineageBefore, last]
        exact lineage
  obtain ⟨_, page⟩ := plan.matched.page entry
  have value : log b = seq.tokenIds.take ((seq.blockTable.length + i + 1) * p.manager.blockSize) := by
    rw [logged b page.bound page.published]
    exact plan.matched.chain_eq held.index above entry
  refine ⟨value, ?_⟩
  rw [value, List.length_take, Nat.min_eq_left page.whole]

-- Two requests with the same first token, under a hash that maps everything to 0.
theorem matchPrefix_lineage_collision :
    ∃ p ids log seq, History (fun _ _ => 0) 4 1 p ids log ∧
      Sequence.init (fun _ _ => 0) 1 [7, 9] {} 1 = .ok seq ∧ p.manager.matchPrefix seq = .ok [0] ∧
      log 0 = [7] := by
  have start : History (fun _ _ => 0) 4 1 _ ∅ _ := History.init (fun _ => default) (fun _ => []) rfl
  have request : Sequence.init (fun _ _ => 0) 0 [7, 8] {} 1 = .ok _ := rfl
  have created := start.create (by decide : 0 ∉ (∅ : Finset SeqId)) request
  have counted := created.setCounts 0 1 (by decide : 0 ∈ insert 0 (∅ : Finset SeqId))
  have allocated := counted.call .allocateNew (by decide : 0 ∈ insert 0 (∅ : Finset SeqId)) (by decide)
    (run_final (by decide +kernel))
  obtain ⟨p, ids, log, seq, history, made, found⟩ : ∃ p ids log seq, History (fun _ _ => 0) 4 1 p ids log ∧
      Sequence.init (fun _ _ => 0) 1 [7, 9] {} 1 = .ok seq ∧ p.manager.matchPrefix seq = .ok [0] :=
    ⟨_, _, _, _, allocated, rfl, by decide +kernel⟩
  have named := (matchPrefix_lineage history found 0 0 rfl).1
  refine ⟨p, ids, log, seq, history, made, found, ?_⟩
  cases made
  exact named

end NanoVllm
