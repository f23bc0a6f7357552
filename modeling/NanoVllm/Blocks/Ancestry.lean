import NanoVllm.Blocks.Findable

set_option autoImplicit false

namespace NanoVllm

open Python Raising Naming

/-- The tokens of block `b` after those of the blocks that its lineage follows, from the root on. -/
inductive Ancestry (m : BlockManager) : BlockId → List Token → Prop
  | root {b : BlockId} (within : b < m.numBlocks) (published : (m.blocks b).published)
      (first : (m.blocks b).parent = noLineage) : Ancestry m b (m.blocks b).tokenIds
  | after {a b : BlockId} {tokens : List Token} (above : Ancestry m a tokens) (within : b < m.numBlocks)
      (published : (m.blocks b).published) (follows : (m.blocks b).parent = (m.blocks a).lineage) :
      Ancestry m b (tokens ++ (m.blocks b).tokenIds)

theorem Ancestry.first {m : BlockManager} {b : BlockId} {tokens : List Token} (within : b < m.numBlocks)
    (published : (m.blocks b).published) (root : (m.blocks b).parent = noLineage)
    (held : (m.blocks b).tokenIds = tokens) : Ancestry m b tokens := held ▸ .root within published root

theorem Ancestry.chain_eq {m : BlockManager} {chain : Chain} {b : BlockId} {tokens : List Token}
    (ancestry : Ancestry m b tokens) (index : Index m chain) : chain (m.blocks b).lineage = tokens := by
  induction ancestry with
  | root within published first =>
      have named := index.named _ within published
      rw [Names, Block.link, first, index.root_empty, List.nil_append] at named
      exact named
  | after above within published follows ih =>
      have named := index.named _ within published
      rw [Names, Block.link, follows, ih] at named
      exact named

section Findable

variable {xxh64 : XxHash} {p : Pool} {ids : Finset SeqId} {chain : Chain} {b : BlockId} {tokens : List Token}
  {seq : Sequence}

/-- Every published page has its ancestors in the pool; the induction is on the length of its chain. -/
theorem Findable.ancestry (h : Findable xxh64 p ids chain) (held : Held p ids chain)
    (within : b < p.manager.numBlocks) (published : (p.manager.blocks b).published) :
    ∃ tokens, Ancestry p.manager b tokens := by
  generalize bound : (chain (p.manager.blocks b).lineage).length = length
  induction length using Nat.strong_induction_on generalizing b with
  | _ length ih =>
      rcases h.rooted held within published with first | ⟨a, withinA, live, lineage⟩
      · exact ⟨_, .root within published first⟩
      · have named : chain (p.manager.blocks b).lineage =
            chain (p.manager.blocks b).parent ++ (p.manager.blocks b).tokenIds := held.index.named b within published
        have whole := held.index.whole b within published
        have positive := held.size_pos
        have shorter : (chain (p.manager.blocks a).lineage).length < length := by
          rw [← bound, named, ← lineage, List.length_append]
          omega
        obtain ⟨tokens, above⟩ := ih _ shorter withinA live rfl
        exact ⟨_, above.after within published lineage.symm⟩

theorem Findable.hash_eq (h : Findable xxh64 p ids chain) (within : b < p.manager.numBlocks)
    (published : (p.manager.blocks b).published) (starts : chain (p.manager.blocks b).lineage <+: seq.tokenIds) :
    ∃ k, (k + 1) * p.manager.blockSize = (chain (p.manager.blocks b).lineage).length ∧
      (p.manager.blocks b).hash = chainHash xxh64 p.manager.blockSize seq.tokenIds (k + 1) := by
  obtain ⟨i, member, k, fits, digest, named⟩ := h.sourced b within published
  have length : (k + 1) * p.manager.blockSize = (chain (p.manager.blocks b).lineage).length := by
    rw [named, List.length_take, Nat.min_eq_left fits]
  obtain ⟨more, equal⟩ := starts
  refine ⟨k, length, ?_⟩
  rw [digest]
  apply chainHash_congr
  rw [← named, ← equal, List.take_append_of_le_length length.le, List.take_of_length_le length.ge]

theorem Findable.owners (h : Findable xxh64 p ids chain) (held : Held p ids chain)
    (ancestry : Ancestry p.manager b tokens) (wf : seq.Wf p.manager.blockSize) (hashed : seq.Hashed xxh64)
    (starts : tokens <+: seq.tokenIds) :
    ∃ front o, Matches p.manager seq 0 noLineage (front ++ [o]) ∧
      (∀ a ∈ front ++ [o], p.manager.hashToBlockId (p.manager.blocks a).hash = some a) ∧
      (front.length + 1) * p.manager.blockSize = tokens.length ∧
      (p.manager.blocks o).hash = (p.manager.blocks b).hash ∧
      (p.manager.blocks o).link = (p.manager.blocks b).link := by
  -- The owner of the hash of a block, as the page that follows the block's parent.
  have owner {b : BlockId} {before own : List Token} (within : b < p.manager.numBlocks)
      (published : (p.manager.blocks b).published) (named : chain (p.manager.blocks b).lineage = before ++ own)
      (tokens : (p.manager.blocks b).tokenIds = own) (starts : before ++ own <+: seq.tokenIds) (k : Nat)
      (level : k * p.manager.blockSize = before.length) :
      ∃ o, p.manager.hashToBlockId (p.manager.blocks o).hash = some o ∧
        (p.manager.blocks o).hash = (p.manager.blocks b).hash ∧
        (p.manager.blocks o).link = (p.manager.blocks b).link ∧
        PageMatch p.manager seq k (p.manager.blocks b).parent o ∧
        (k + 1) * p.manager.blockSize = (before ++ own).length := by
    obtain ⟨o, found, link⟩ := h.indexed b within published
    obtain ⟨bound, hash, live⟩ := held.index.indexed _ o found
    have size := held.index.whole b within published
    rw [tokens] at size
    have next : (k + 1) * p.manager.blockSize = (before ++ own).length := by
      rw [List.length_append, size, ← level, Nat.add_mul, Nat.one_mul]
    have starts' : chain (p.manager.blocks b).lineage <+: seq.tokenIds := by
      rw [named]
      exact starts
    obtain ⟨k', length, digest⟩ := h.hash_eq within published starts'
    have same : k' + 1 = k + 1 := by
      rw [named, ← next] at length
      exact Nat.eq_of_mul_eq_mul_right held.size_pos length
    obtain ⟨blockHash, -, entry, -⟩ := wf.blockHash_ok (k := k) (by
      rw [wf.tokens, next]
      exact starts.length_le)
    have value := hashed k blockHash entry
    rw [wf.block, ← same, ← digest, ← hash] at value
    refine ⟨o, by rw [hash]; exact found, hash, link, ?_, next⟩
    constructor
    case bound => exact bound
    case published => exact live
    case hash => rw [entry, value]
    case tokens =>
      obtain ⟨more, equal⟩ := starts
      have segment : (p.manager.blocks o).tokenIds = (p.manager.blocks b).tokenIds := congrArg Link.segment link
      rw [segment, tokens, slice, next, level, ← equal, List.take_left, List.drop_left]
    case whole =>
      rw [next]
      exact starts.length_le
    case parent => exact congrArg Link.parent link
  induction ancestry with
  | @root b within published first =>
      have named := (Ancestry.root within published first).chain_eq held.index
      obtain ⟨o, found, hash, link, page, next⟩ := @owner b [] _ within published named rfl starts 0 (by simp)
      rw [first] at page
      exact ⟨[], o, ⟨page, trivial⟩, by simpa using found, by simpa using next, hash, link⟩
  | @after a b tokens above within published follows ih =>
      have named := (above.after within published follows).chain_eq held.index
      obtain ⟨front, last, matched, indexed, length, -, same⟩ := ih ((List.prefix_append _ _).trans starts)
      obtain ⟨o, found, hash, link, page, next⟩ := owner within published named rfl starts _ length
      have lineage : (p.manager.blocks last).lineage = (p.manager.blocks a).lineage := congrArg Link.identity same
      refine ⟨front ++ [last], o, matched.append ⟨?_, trivial⟩, ?_, ?_, hash, link⟩
      · rw [List.getLast?_concat, List.length_append, List.length_singleton, Nat.zero_add]
        simpa [lineage, ← follows] using page
      · intro c listed
        rcases List.mem_append.mp listed with old | new
        · exact indexed c old
        · rw [List.mem_singleton.mp new]
          exact found
      · rw [List.length_append, List.length_singleton]
        exact next

theorem Held.matchPrefixFrom_follows (held : Held p ids chain) (wf : seq.Wf p.manager.blockSize)
    {blocks matched : List BlockId} {k count : Nat} {parent : Int × Int} {previous : Option BlockId}
    (known : p.manager.lineage previous = .ok parent) (plan : Plan p.manager seq k parent blocks)
    (apart : ∀ a ∈ blocks, a ∉ matched) (few : blocks.length ≤ count) (within : k + count ≤ seq.numBlocks) :
    ∃ rest, p.manager.matchPrefixFrom seq (List.range' k count) previous matched =
      .ok (matched ++ blocks ++ rest) := by
  obtain ⟨result, found⟩ := @BlockManager.matchPrefixFrom_total _ _ _ _ _ _ count matched held.index wf known within
  obtain ⟨rest, covers⟩ := BlockManager.matchPrefixFrom_covers held.index held.size_pos wf.block known plan
    (fun b planned => held.resident b (plan.matched.bound planned)) apart few found
  exact ⟨rest, by rw [found, covers]⟩

theorem Findable.matchPrefix_reaches (h : Findable xxh64 p ids chain) (held : Held p ids chain)
    (ancestry : Ancestry p.manager b tokens) (wf : seq.Wf p.manager.blockSize) (fresh : seq.Fresh)
    (hashed : seq.Hashed xxh64) (starts : tokens <+: seq.tokenIds) (longer : tokens.length < seq.tokenIds.length) :
    ∃ front o rest, p.manager.matchPrefix seq = .ok (front ++ o :: rest) ∧
      (front.length + 1) * p.manager.blockSize = tokens.length ∧
      p.manager.hashToBlockId (p.manager.blocks b).hash = some o := by
  obtain ⟨front, o, matched, indexed, length, hash, -⟩ := h.owners held ancestry wf hashed starts
  have owner : p.manager.hashToBlockId (p.manager.blocks b).hash = some o := by
    rw [← hash]
    exact indexed o (by simp)
  have plan : Plan p.manager seq 0 noLineage (front ++ [o]) :=
    ⟨matched, matched.nodup held.index held.size_pos, by simp [fresh.table], indexed⟩
  have few : front.length + 1 < seq.numBlocks := by
    rw [wf.lt_numBlocks, length, wf.tokens]
    exact longer
  have known : p.manager.lineage none = .ok noLineage := rfl
  obtain ⟨rest, found⟩ := @Held.matchPrefixFrom_follows _ _ _ _ held wf (front ++ [o]) [] 0 (seq.numBlocks - 1)
    noLineage none known plan (by simp) (by rw [List.length_append, List.length_singleton]; omega) (by omega)
  refine ⟨front, o, rest, ?_, length, owner⟩
  simp only [BlockManager.matchPrefix, BlockManager.assertBlockSize, require_of wf.block,
    BlockManager.validateClaimedPrefix, fresh.table, fresh.cached, pure_bind]
  simpa [require, BlockManager.validateClaimedPrefixFrom] using found

end Findable

end NanoVllm
