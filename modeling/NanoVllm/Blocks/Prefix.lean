import NanoVllm.Blocks.Hashes
import NanoVllm.Blocks.Tables

set_option autoImplicit false

namespace NanoVllm

open Python Raising Naming

structure Held (p : Pool) (ids : Finset SeqId) (chain : Chain) : Prop where
  accounting : Accounting p ids
  index : Index p.manager chain
  tables : Tables p ids
  wf : ∀ i ∈ ids, (p.seqs i).Wf p.manager.blockSize

namespace BlockManager

theorem lineage_some {m : BlockManager} {chain : Chain} (index : Index m chain) {b : BlockId}
    (within : b < m.numBlocks) (published : (m.blocks b).published) :
    m.lineage (some b) = .ok (m.blocks b).lineage := by
  have known := (index.issued b within published).ne_noLineage
  have hashed : (m.blocks b).hash ≠ -1 := published
  have left : (m.blocks b).lineageBlockId ≠ -1 := known.1
  have right : (m.blocks b).lineageGeneration ≠ -1 := known.2
  simp only [lineage, require_of within, require_of hashed, require_of left, require_of right]
  rfl

theorem published_of_lineage {m : BlockManager} {b : BlockId} {identity : Int × Int}
    (known : m.lineage (some b) = .ok identity) :
    b < m.numBlocks ∧ (m.blocks b).published ∧ identity = (m.blocks b).lineage := by
  simp only [lineage] at known
  obtain ⟨_, within, known⟩ := except_bind_ok known
  obtain ⟨_, hashed, known⟩ := except_bind_ok known
  obtain ⟨_, -, known⟩ := except_bind_ok known
  obtain ⟨_, -, known⟩ := except_bind_ok known
  rw [except_require_ok] at within hashed
  exact ⟨within, hashed, ((except_pure_ok _ _).mp known).symm⟩

end BlockManager

theorem Held.size_pos {p : Pool} {ids : Finset SeqId} {chain : Chain} (h : Held p ids chain) :
    0 < p.manager.blockSize := h.accounting.size_pos

/-- Block `b` holds page `k` of the sequence under the page with lineage `parent`. -/
structure PageMatch (m : BlockManager) (seq : Sequence) (k : Nat) (parent : Int × Int) (b : BlockId) : Prop where
  bound : b < m.numBlocks
  published : (m.blocks b).published
  hash : seq.blockHashes[k]? = some (m.blocks b).hash
  tokens : (m.blocks b).tokenIds = slice seq.tokenIds (k * m.blockSize) ((k + 1) * m.blockSize)
  whole : (k + 1) * m.blockSize ≤ seq.tokenIds.length
  parent : (m.blocks b).parent = parent

-- The blocks hold the pages of the sequence from page `k` on.
def Matches (m : BlockManager) (seq : Sequence) : Nat → Int × Int → List BlockId → Prop
  | _, _, [] => True
  | k, parent, b :: rest => PageMatch m seq k parent b ∧ Matches m seq (k + 1) (m.blocks b).lineage rest

namespace Matches

variable {m m' : BlockManager} {seq seq' : Sequence} {chain : Chain} {k : Nat} {parent : Int × Int}
  {blocks : List BlockId}

theorem chain_eq (h : Matches m seq k parent blocks) (index : Index m chain)
    (above : chain parent = seq.tokenIds.take (k * m.blockSize)) {j : Nat} {b : BlockId}
    (entry : blocks[j]? = some b) :
    chain (m.blocks b).lineage = seq.tokenIds.take ((k + j + 1) * m.blockSize) := by
  induction blocks generalizing k parent j with
  | nil => simp at entry
  | cons a rest ih =>
      obtain ⟨page, rest'⟩ := h
      have named := index.named a page.bound page.published
      simp only [Names, Block.link, page.parent, page.tokens, above] at named
      rw [take_append_slice (Nat.mul_le_mul_right _ (Nat.le_succ k))] at named
      cases j with
      | zero =>
          rw [List.getElem?_cons_zero, Option.some.injEq] at entry
          subst entry
          exact named
      | succ j =>
          have later := ih rest' named (by simpa using entry)
          rw [later]
          congr 2
          omega

theorem append {front : List BlockId} (h : Matches m seq k parent front)
    (rest : Matches m seq (k + front.length) (front.getLast?.elim parent (fun a => (m.blocks a).lineage)) blocks) :
    Matches m seq k parent (front ++ blocks) := by
  induction front generalizing k parent with
  | nil => exact rest
  | cons a front ih =>
      refine ⟨h.1, ih h.2 ?_⟩
      cases front with
      | nil => exact rest
      | cons c front =>
          obtain ⟨d, last⟩ : ∃ d, (c :: front).getLast? = some d :=
            ⟨_, List.getLast?_eq_some_getLast (List.cons_ne_nil c front)⟩
          rw [List.getLast?_cons_cons, last, List.length_cons, Nat.add_comm _ 1, ← Nat.add_assoc] at rest
          rw [last]
          exact rest

theorem front {rest : List BlockId} (h : Matches m seq k parent (blocks ++ rest)) : Matches m seq k parent blocks := by
  induction blocks generalizing k parent with
  | nil => trivial
  | cons a blocks ih => exact ⟨h.1, ih h.2⟩

theorem page (h : Matches m seq k parent blocks) {j : Nat} {b : BlockId} (entry : blocks[j]? = some b) :
    ∃ parent', PageMatch m seq (k + j) parent' b := by
  induction blocks generalizing k parent j with
  | nil => simp at entry
  | cons a rest ih =>
      cases j with
      | zero =>
          rw [List.getElem?_cons_zero, Option.some.injEq] at entry
          subst entry
          exact ⟨parent, h.1⟩
      | succ j =>
          obtain ⟨parent', page⟩ := ih h.2 (by simpa using entry)
          rw [Nat.add_right_comm] at page
          exact ⟨parent', page⟩

theorem bound (h : Matches m seq k parent blocks) {b : BlockId} (member : b ∈ blocks) :
    b < m.numBlocks := by
  obtain ⟨j, entry⟩ := List.mem_iff_getElem?.mp member
  obtain ⟨_, page⟩ := h.page entry
  exact page.bound

theorem nodup (h : Matches m seq 0 noLineage blocks) (index : Index m chain) (positive : 0 < m.blockSize) :
    blocks.Nodup := by
  rw [List.nodup_iff_injective_getElem]
  intro j j' same
  have entry : blocks[j.val]? = some blocks[j.val] := List.getElem?_eq_getElem j.isLt
  have entry' : blocks[j'.val]? = some blocks[j.val] := by
    rw [show blocks[j.val] = blocks[j'.val] from same]
    exact List.getElem?_eq_getElem j'.isLt
  have above : chain noLineage = seq.tokenIds.take (0 * m.blockSize) := by simp [index.root_empty]
  obtain ⟨_, page⟩ := h.page entry
  obtain ⟨_, page'⟩ := h.page entry'
  have lengths := congrArg List.length ((h.chain_eq index above entry).symm.trans (h.chain_eq index above entry'))
  rw [List.length_take, List.length_take, Nat.min_eq_left page.whole, Nat.min_eq_left page'.whole] at lengths
  have level := Nat.eq_of_mul_eq_mul_right positive lengths
  exact Fin.ext (by omega)

theorem congr (h : Matches m seq k parent blocks) (size : m'.blockSize = m.blockSize)
    (count : m'.numBlocks = m.numBlocks) (hashes : seq'.blockHashes = seq.blockHashes)
    (tokens : seq'.tokenIds = seq.tokenIds)
    (content : ∀ b ∈ blocks, (m'.blocks b).content = (m.blocks b).content) :
    Matches m' seq' k parent blocks := by
  induction blocks generalizing k parent with
  | nil => trivial
  | cons a rest ih =>
      obtain ⟨page, rest'⟩ := h
      obtain ⟨-, hash, lineage, above, held⟩ := Block.content_eq (content a (List.mem_cons_self ..))
      constructor
      · exact
          { bound := count ▸ page.bound
            published := by rw [Block.published, hash]; exact page.published
            hash := by rw [hashes, hash]; exact page.hash
            tokens := by rw [held, size, tokens]; exact page.tokens
            whole := by rw [size, tokens]; exact page.whole
            parent := by rw [above]; exact page.parent }
      · rw [lineage]
        exact ih rest' (fun b member => content b (List.mem_cons_of_mem a member))

end Matches

namespace BlockManager

variable {m : BlockManager} {seq : Sequence} {chain : Chain} {k : Nat} {parent : Int × Int}
  {previous : Option BlockId} {blocks : List BlockId}

theorem lineage_last (m : BlockManager) (table : List BlockId) (known : m.lineage table.getLast? = .ok parent) :
    parent = m.lineageBefore table table.length := by
  rcases List.eq_nil_or_concat table with rfl | ⟨front, b, rfl⟩
  · exact ((except_pure_ok _ _).mp known).symm
  · rw [List.concat_eq_append] at known ⊢
    rw [List.getLast?_concat] at known
    simp [lineageBefore, (published_of_lineage known).2.2]

theorem validateClaimedPrefixFrom_ok (index : Index m chain) (wf : seq.Wf m.blockSize)
    (known : m.lineage previous = .ok parent) (matched : Matches m seq k parent blocks)
    (used : ∀ b ∈ blocks, b ∈ m.usedBlockIds ∧ b ∉ m.freeBlockIds ∧ 0 < (m.blocks b).refCount) :
    m.validateClaimedPrefixFrom seq k previous blocks = .ok () := by
  induction blocks generalizing k previous parent with
  | nil => rfl
  | cons b rest ih =>
      obtain ⟨page, rest'⟩ := matched
      obtain ⟨inUse, notFree, referenced⟩ := used b (List.mem_cons_self ..)
      have whole := page.whole
      rw [← wf.tokens] at whole
      have reached : k < seq.numBlocks := by
        rw [wf.lt_numBlocks]
        have := wf.size_pos
        rw [Nat.add_mul] at whole
        omega
      have full := wf.page_whole.mpr whole
      have hash : seq.blockHash k = .ok (m.blocks b).hash := by simp [Sequence.blockHash, page.hash]
      have identity := (index.issued b page.bound page.published).ne_noLineage
      have left : (m.blocks b).lineageBlockId ≠ -1 := identity.1
      have right : (m.blocks b).lineageGeneration ≠ -1 := identity.2
      have above : (m.blocks b).parentBlockId = parent.1 := congrArg Prod.fst page.parent
      have above' : (m.blocks b).parentGeneration = parent.2 := congrArg Prod.snd page.parent
      have next := lineage_some index page.bound page.published
      simp only [validateClaimedPrefixFrom, require_of page.bound, wf.block_ok reached, hash, known,
        except_ok_bind, pure_bind, require_of full, require_of inUse, require_of notFree,
        require_of (show (m.blocks b).refCount > 0 from referenced), require_of page.tokens,
        require_of left, require_of right, require_of above, require_of above']
      rw [require_of trivial, pure_bind]
      exact ih next rest' (fun a member => used a (List.mem_cons_of_mem b member))

theorem blockHash_entry {hash : Int} (known : seq.blockHash k = .ok hash) :
    seq.blockHashes[k]? = some hash := by
  unfold Sequence.blockHash at known
  split at known
  next h found => rw [found, Except.ok.inj known]
  next => cases known

theorem block_value {tokenIds : List Token} (known : seq.block k = .ok tokenIds) :
    k < seq.numBlocks ∧ tokenIds = slice seq.tokenIds (k * seq.blockSize) ((k + 1) * seq.blockSize) := by
  obtain ⟨_, reached, known⟩ := except_bind_ok known
  rw [except_require_ok] at reached
  exact ⟨reached, ((except_pure_ok _ _).mp known).symm⟩

theorem block_ok (size : seq.blockSize = m.blockSize) (reached : k < seq.numBlocks) :
    seq.block k = .ok (slice seq.tokenIds (k * m.blockSize) ((k + 1) * m.blockSize)) := by
  simp only [Sequence.block, require_of reached, size, pure_bind]
  rfl

theorem validateClaimedPrefixFrom_cons {b : BlockId} {rest : List BlockId} (positive : 0 < m.blockSize)
    (size : seq.blockSize = m.blockSize)
    (valid : m.validateClaimedPrefixFrom seq k previous (b :: rest) = .ok ()) :
    ∃ parent, m.lineage previous = .ok parent ∧
      seq.blockHashes[k]? = some (m.blocks b).hash ∧
      ((m.blocks b).published → PageMatch m seq k parent b) ∧
      (b ∈ m.usedBlockIds ∧ b ∉ m.freeBlockIds ∧ 0 < (m.blocks b).refCount) ∧
      m.validateClaimedPrefixFrom seq (k + 1) (some b) rest = .ok () := by
  simp only [validateClaimedPrefixFrom] at valid
  obtain ⟨_, bound, valid⟩ := except_bind_ok valid
  obtain ⟨tokenIds, block, valid⟩ := except_bind_ok valid
  obtain ⟨_, full, valid⟩ := except_bind_ok valid
  obtain ⟨blockHash, hash, valid⟩ := except_bind_ok valid
  obtain ⟨parent, known, valid⟩ := except_bind_ok valid
  obtain ⟨_, inUse, valid⟩ := except_bind_ok valid
  obtain ⟨_, notFree, valid⟩ := except_bind_ok valid
  obtain ⟨_, referenced, valid⟩ := except_bind_ok valid
  obtain ⟨_, sameHash, valid⟩ := except_bind_ok valid
  obtain ⟨_, sameTokens, valid⟩ := except_bind_ok valid
  obtain ⟨_, -, valid⟩ := except_bind_ok valid
  obtain ⟨_, -, valid⟩ := except_bind_ok valid
  obtain ⟨_, left, valid⟩ := except_bind_ok valid
  obtain ⟨_, right, valid⟩ := except_bind_ok valid
  rw [except_require_ok] at bound full inUse notFree referenced sameHash sameTokens left right
  obtain ⟨-, whole⟩ := block_value block
  rw [size] at whole
  rw [whole] at full sameTokens
  refine ⟨parent, known, sameHash ▸ blockHash_entry hash, fun published => ?_, ⟨inUse, notFree, referenced⟩, valid⟩
  exact
    { bound := bound
      published := published
      hash := sameHash ▸ blockHash_entry hash
      tokens := sameTokens
      whole := le_length_of_slice positive full
      parent := Prod.ext left right }

theorem matches_of_validate (positive : 0 < m.blockSize) (size : seq.blockSize = m.blockSize)
    (known : m.lineage previous = .ok parent)
    (valid : m.validateClaimedPrefixFrom seq k previous blocks = .ok ())
    (last : ∀ b, blocks.getLast? = some b → (m.blocks b).published) : Matches m seq k parent blocks := by
  induction blocks generalizing k previous parent with
  | nil => trivial
  | cons b rest ih =>
      obtain ⟨parent', known', -, page, -, later⟩ := validateClaimedPrefixFrom_cons positive size valid
      have same : parent = parent' := Except.ok.inj (known.symm.trans known')
      subst same
      cases rest with
      | nil => exact ⟨page (last b rfl), trivial⟩
      | cons a rest =>
          obtain ⟨identity, next, -⟩ := validateClaimedPrefixFrom_cons positive size later
          obtain ⟨-, published, lineage⟩ := published_of_lineage next
          subst lineage
          exact ⟨page published, ih next later (fun c found => last c (by simpa using found))⟩

theorem matchPrefixFrom_cons {rest : List Nat} {matched result : List BlockId} (index : Index m chain)
    (positive : 0 < m.blockSize) (size : seq.blockSize = m.blockSize)
    (found : m.matchPrefixFrom seq (k :: rest) previous matched = .ok result) :
    result = matched ∨ ∃ b parent, m.lineage previous = .ok parent ∧ PageMatch m seq k parent b ∧
      m.hashToBlockId (m.blocks b).hash = some b ∧ k < seq.numBlocks ∧ b ∉ seq.blockTable ∧ b ∉ matched ∧
      m.matchPrefixFrom seq rest (some b) (matched ++ [b]) = .ok result := by
  simp only [matchPrefixFrom] at found
  obtain ⟨tokenIds, block, found⟩ := except_bind_ok found
  obtain ⟨reached, whole⟩ := block_value block
  rw [size] at whole
  split at found
  next => exact Or.inl ((except_pure_ok _ _).mp found).symm
  next full =>
    obtain ⟨blockHash, hash, found⟩ := except_bind_ok found
    split at found
    next => exact Or.inl ((except_pure_ok _ _).mp found).symm
    next b owner =>
      split at found
      next => exact Or.inl ((except_pure_ok _ _).mp found).symm
      next bound =>
        obtain ⟨parent, known, found⟩ := except_bind_ok found
        split at found
        next => exact Or.inl ((except_pure_ok _ _).mp found).symm
        next accepted =>
          simp only [not_or, not_not] at accepted full bound
          obtain ⟨sameHash, sameTokens, left, right, outside, unmatched, -⟩ := accepted
          rw [whole] at full sameTokens
          have page : PageMatch m seq k parent b :=
            { bound := bound
              published := (index.indexed blockHash b owner).2.2
              hash := by rw [sameHash]; exact blockHash_entry hash
              tokens := sameTokens
              whole := le_length_of_slice positive full
              parent := Prod.ext left right }
          exact Or.inr ⟨b, parent, known, page, by rw [sameHash]; exact owner, reached, outside, unmatched, found⟩

end BlockManager

structure Plan (m : BlockManager) (seq : Sequence) (k : Nat) (parent : Int × Int) (blocks : List BlockId) :
    Prop where
  matched : Matches m seq k parent blocks
  nodup : blocks.Nodup
  apart : ∀ b ∈ blocks, b ∉ seq.blockTable
  indexed : ∀ b ∈ blocks, m.hashToBlockId (m.blocks b).hash = some b

namespace Plan

variable {m : BlockManager} {seq : Sequence} {k : Nat} {parent : Int × Int} {b : BlockId} {blocks : List BlockId}

theorem nil : Plan m seq k parent [] := ⟨trivial, List.nodup_nil, by simp, by simp⟩

theorem cons (page : PageMatch m seq k parent b) (index : m.hashToBlockId (m.blocks b).hash = some b)
    (outside : b ∉ seq.blockTable) (unmatched : b ∉ blocks)
    (rest : Plan m seq (k + 1) (m.blocks b).lineage blocks) : Plan m seq k parent (b :: blocks) where
  matched := ⟨page, rest.matched⟩
  nodup := List.nodup_cons.mpr ⟨unmatched, rest.nodup⟩
  apart a member := by
    rcases List.mem_cons.mp member with rfl | later
    · exact outside
    · exact rest.apart a later
  indexed a member := by
    rcases List.mem_cons.mp member with rfl | later
    · exact index
    · exact rest.indexed a later

theorem tail (plan : Plan m seq k parent (b :: blocks)) :
    PageMatch m seq k parent b ∧ Plan m seq (k + 1) (m.blocks b).lineage blocks :=
  ⟨plan.matched.1, plan.matched.2, (List.nodup_cons.mp plan.nodup).2,
    fun a member => plan.apart a (List.mem_cons_of_mem b member),
    fun a member => plan.indexed a (List.mem_cons_of_mem b member)⟩

theorem front {rest : List BlockId} (plan : Plan m seq k parent (blocks ++ rest)) : Plan m seq k parent blocks where
  matched := plan.matched.front
  nodup := plan.nodup.of_append_left
  apart a member := plan.apart a (List.mem_append_left rest member)
  indexed a member := plan.indexed a (List.mem_append_left rest member)

end Plan

namespace BlockManager

variable {m : BlockManager} {seq : Sequence} {chain : Chain} {k : Nat} {parent : Int × Int}
  {previous : Option BlockId} {blocks : List BlockId}

theorem matchPrefixFrom_plan {count : Nat} {matched result : List BlockId} (index : Index m chain)
    (positive : 0 < m.blockSize) (size : seq.blockSize = m.blockSize)
    (found : m.matchPrefixFrom seq (List.range' k count) previous matched = .ok result) :
    ∃ blocks, result = matched ++ blocks ∧ blocks.length ≤ count ∧ (∀ b ∈ blocks, b ∉ matched) ∧
      (blocks = [] ∨ ∃ parent, m.lineage previous = .ok parent ∧ Plan m seq k parent blocks) := by
  induction count generalizing k previous matched with
  | zero =>
      have same : matched = result := (except_pure_ok _ _).mp found
      exact ⟨[], by simp [same], by simp, by simp, Or.inl rfl⟩
  | succ count ih =>
      rw [List.range'_succ] at found
      rcases matchPrefixFrom_cons index positive size found with
        stop | ⟨b, parent, known, page, owner, -, outside, unmatched, later⟩
      · exact ⟨[], by simp [stop], by simp, by simp, Or.inl rfl⟩
      · obtain ⟨blocks, same, short, apart, plan⟩ := ih later
        refine ⟨b :: blocks, by simp [same], by simpa using short, ?_, Or.inr ⟨parent, known, ?_⟩⟩
        · intro a member
          rcases List.mem_cons.mp member with rfl | more
          · exact unmatched
          · exact fun old => apart a more (List.mem_append_left _ old)
        · have fresh : b ∉ blocks := fun again => apart b again (by simp)
          refine Plan.cons page owner outside fresh ?_
          rcases plan with rfl | ⟨identity, next, rest⟩
          · exact Plan.nil
          · rw [← (published_of_lineage next).2.2]
            exact rest

theorem matchPrefixFrom_total {count : Nat} {matched : List BlockId} (index : Index m chain)
    (wf : seq.Wf m.blockSize) (known : m.lineage previous = .ok parent) (within : k + count ≤ seq.numBlocks) :
    ∃ result, m.matchPrefixFrom seq (List.range' k count) previous matched = .ok result := by
  induction count generalizing k previous parent matched with
  | zero => exact ⟨matched, rfl⟩
  | succ count ih =>
      simp only [List.range'_succ, matchPrefixFrom, wf.block_ok (show k < seq.numBlocks by omega), except_ok_bind]
      split
      next => exact ⟨matched, rfl⟩
      next full =>
        obtain ⟨blockHash, hash, -, -⟩ := wf.blockHash_ok (wf.page_whole.mp (not_not.mp full))
        simp only [hash, except_ok_bind]
        split
        next => exact ⟨matched, rfl⟩
        next b owner =>
          obtain ⟨bound, -, published⟩ := index.indexed blockHash b owner
          simp only [bound, not_true_eq_false, if_false, known, except_ok_bind]
          split
          next => exact ⟨matched, rfl⟩
          next => exact ih (lineage_some index bound published) (by omega)

theorem matchPrefixFrom_covers {count : Nat} {matched result : List BlockId} (index : Index m chain)
    (positive : 0 < m.blockSize) (size : seq.blockSize = m.blockSize) (known : m.lineage previous = .ok parent)
    (plan : Plan m seq k parent blocks)
    (resident : ∀ b ∈ blocks, b ∈ m.freeBlockIds ∧ b ∉ m.usedBlockIds ∧ (m.blocks b).refCount = 0 ∨
      b ∉ m.freeBlockIds ∧ b ∈ m.usedBlockIds ∧ 0 < (m.blocks b).refCount)
    (apart : ∀ a ∈ blocks, a ∉ matched) (few : blocks.length ≤ count)
    (found : m.matchPrefixFrom seq (List.range' k count) previous matched = .ok result) :
    matched ++ blocks <+: result := by
  induction blocks generalizing k count parent previous matched with
  | nil =>
      obtain ⟨rest, same, -⟩ := matchPrefixFrom_plan index positive size found
      exact ⟨rest, by rw [same, List.append_nil]⟩
  | cons b later ih =>
      rw [List.length_cons] at few
      obtain ⟨count, rfl⟩ : ∃ more, count = more + 1 := ⟨count - 1, by omega⟩
      obtain ⟨page, tail⟩ := plan.tail
      have full := length_page page.whole
      have hash : seq.blockHash k = .ok (m.blocks b).hash := by simp [Sequence.blockHash, page.hash]
      have owner := plan.indexed b List.mem_cons_self
      have outside := plan.apart b List.mem_cons_self
      have unmatched := apart b List.mem_cons_self
      have above : (m.blocks b).parentBlockId = parent.1 := congrArg Prod.fst page.parent
      have above' : (m.blocks b).parentGeneration = parent.2 := congrArg Prod.snd page.parent
      have fresh : ∀ a ∈ later, a ∉ matched ++ [b] := by
        intro a listed again
        rcases List.mem_append.mp again with old | self
        · exact apart a (List.mem_cons_of_mem b listed) old
        · rw [List.mem_singleton.mp self] at listed
          exact (List.nodup_cons.mp plan.nodup).1 listed
      rw [List.range'_succ, matchPrefixFrom] at found
      obtain ⟨tokenIds, block, found⟩ := except_bind_ok found
      obtain ⟨-, value⟩ := block_value block
      rw [size] at value
      subst value
      have on : m.matchPrefixFrom seq (List.range' (k + 1) count) (some b) (matched ++ [b]) = .ok result := by
        simp only [full, hash, owner, known, page.bound, page.tokens, above, above', outside, unmatched,
          except_ok_bind] at found
        rcases resident b List.mem_cons_self with ⟨free, unused, refs⟩ | ⟨busy, used, refs⟩
        · simpa [free, unused, refs] using found
        · simpa [busy, used, not_le.mpr refs] using found
      have next := ih (lineage_some index page.bound page.published) tail
        (fun a listed => resident a (List.mem_cons_of_mem b listed)) fresh (Nat.le_of_succ_le_succ few) on
      rwa [List.append_assoc, List.singleton_append] at next

theorem matchPrefix_plan {maxBlocks : Option Nat} (index : Index m chain) (positive : 0 < m.blockSize)
    (found : m.matchPrefix seq maxBlocks = .ok blocks) :
    seq.blockSize = m.blockSize ∧ seq.numCachedTokens = seq.blockTable.length * m.blockSize ∧
      Plan m seq seq.blockTable.length (m.lineageBefore seq.blockTable seq.blockTable.length) blocks ∧
      (blocks ≠ [] → seq.blockTable.length + blocks.length ≤ seq.numBlocks - 1 ∧
        Matches m seq 0 noLineage seq.blockTable) := by
  simp only [matchPrefix, assertBlockSize, validateClaimedPrefix] at found
  obtain ⟨_, size, found⟩ := except_bind_ok found
  obtain ⟨_, valid, found⟩ := except_bind_ok found
  obtain ⟨_, cached, valid⟩ := except_bind_ok valid
  rw [except_require_ok] at size cached
  obtain ⟨count, few, found⟩ : ∃ count, seq.blockTable.length + count ≤
      max seq.blockTable.length (seq.numBlocks - 1) ∧
      m.matchPrefixFrom seq (List.range' seq.blockTable.length count) seq.blockTable.getLast? [] = .ok blocks := by
    refine ⟨_, ?_, found⟩
    cases maxBlocks <;> simp only <;> omega
  obtain ⟨blocks', same, short, -, plan⟩ := matchPrefixFrom_plan index positive size found
  rw [List.nil_append] at same
  subst same
  rcases plan with rfl | ⟨parent, known, plan⟩
  · exact ⟨size, cached, Plan.nil, fun some' => absurd rfl some'⟩
  · refine ⟨size, cached, lineage_last m _ known ▸ plan, fun some' => ⟨?_, ?_⟩⟩
    · have := List.length_pos_iff.mpr some'
      omega
    · refine matches_of_validate positive size rfl valid (fun b last => ?_)
      rw [last] at known
      exact (published_of_lineage known).2.1

end BlockManager

end NanoVllm
