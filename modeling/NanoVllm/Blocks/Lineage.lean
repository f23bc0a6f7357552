import NanoVllm.Blocks.Accounting
import NanoVllm.Shared.Naming

set_option autoImplicit false

namespace NanoVllm

open Python Naming

/-- What a lineage identity stands for: the tokens of a block and of its ancestors. -/
abbrev Chain := Int × Int → List Token

def noLineage : Int × Int := (-1, -1)

def Block.link (block : Block) : Link (Int × Int) Token :=
  { identity := block.lineage, parent := block.parent, segment := block.tokenIds }

-- Identities that a publication may have used: an earlier generation of a page, or the current
-- one when the page is published.
def BlockManager.Issued (m : BlockManager) (identity : Int × Int) : Prop :=
  ∃ b g : Nat, identity = ((b : Int), (g : Int)) ∧ b < m.numBlocks ∧
    (g < (m.blocks b).generation ∨ g = (m.blocks b).generation ∧ (m.blocks b).published)

/-- The hash index and the lineage identities of the published blocks. -/
structure Index (m : BlockManager) (chain : Chain) : Prop where
  indexed : ∀ h b, m.hashToBlockId h = some b →
    b < m.numBlocks ∧ (m.blocks b).hash = h ∧ (m.blocks b).published
  named : ∀ b, b < m.numBlocks → (m.blocks b).published → Names chain (m.blocks b).link
  whole : ∀ b, b < m.numBlocks → (m.blocks b).published → (m.blocks b).tokenIds.length = m.blockSize
  issued : ∀ b, b < m.numBlocks → (m.blocks b).published → m.Issued (m.blocks b).lineage
  parent_issued : ∀ b, b < m.numBlocks → (m.blocks b).published →
    (m.blocks b).parent = noLineage ∨ m.Issued (m.blocks b).parent
  root_empty : chain noLineage = []

namespace BlockManager

theorem Issued.ne_noLineage {m : BlockManager} {identity : Int × Int} (issued : m.Issued identity) :
    identity.1 ≠ -1 ∧ identity.2 ≠ -1 := by
  obtain ⟨b, g, rfl, -⟩ := issued
  constructor <;> simp only <;> omega

theorem Issued.ne_unpublished {m : BlockManager} {identity : Int × Int} (issued : m.Issued identity)
    {b : BlockId} (unpublished : ¬(m.blocks b).published) :
    identity ≠ ((b : Int), ((m.blocks b).generation : Int)) := by
  rintro rfl
  obtain ⟨a, g, same, -, older | ⟨current, published⟩⟩ := issued
  · obtain ⟨left, right⟩ := Prod.mk.inj same
    norm_cast at left right
    subst left right
    omega
  · obtain ⟨left, -⟩ := Prod.mk.inj same
    norm_cast at left
    subst left
    exact unpublished published

theorem Issued.acquire {m : BlockManager} {identity : Int × Int} (issued : m.Issued identity) (b : BlockId) :
    (m.acquire b).Issued identity := by
  obtain ⟨a, g, same, within, bound⟩ := issued
  refine ⟨a, g, same, within, ?_⟩
  by_cases self : a = b
  next =>
    subst self
    left
    simp only [acquire_blocks, Function.update_self, Block.reset]
    omega
  next => simpa [Function.update_of_ne self] using bound

theorem Issued.publish {m : BlockManager} {identity : Int × Int} (issued : m.Issued identity) (b : BlockId)
    {blockHash : Int} (hashed : blockHash ≠ -1) (tokenIds : List Token) (parent : Int × Int) :
    (m.publishFullBlock b blockHash tokenIds parent).Issued identity := by
  obtain ⟨a, g, same, within, bound⟩ := issued
  refine ⟨a, g, same, within, ?_⟩
  by_cases self : a = b
  next =>
    subst self
    simp only [publish_blocks, Function.update_self, Block.update, Block.published]
    rcases bound with older | ⟨current, -⟩
    · exact Or.inl older
    · exact Or.inr ⟨current, hashed⟩
  next => simpa [Function.update_of_ne self] using bound

theorem publishedLineage_cases (m : BlockManager) (block : Block) (blockHash : Int) (tokenIds : List Token)
    (parent : Int × Int) :
    m.publishedLineage block blockHash tokenIds parent = ((block.blockId : Int), (block.generation : Int)) ∨
      ∃ owner, m.hashToBlockId blockHash = some owner ∧ (m.blocks owner).hash = blockHash ∧
        (m.blocks owner).tokenIds = tokenIds ∧ (m.blocks owner).parent = parent ∧
        m.publishedLineage block blockHash tokenIds parent = (m.blocks owner).lineage := by
  unfold publishedLineage
  cases found : m.hashToBlockId blockHash with
  | none => exact Or.inl rfl
  | some owner =>
      simp only
      split
      next =>
        split
        next matched =>
          exact Or.inr ⟨owner, rfl, matched.2.1, matched.2.2.1, Prod.ext matched.2.2.2.1 matched.2.2.2.2, rfl⟩
        next => exact Or.inl rfl
      next => exact Or.inl rfl

end BlockManager

namespace Index

variable {m : BlockManager} {chain : Chain}

theorem not_indexed (h : Index m chain) {b : BlockId} (unpublished : ¬(m.blocks b).published) (hash : Int) :
    m.hashToBlockId hash ≠ some b :=
  fun found => unpublished (h.indexed hash b found).2.2

theorem recount (h : Index m chain) {m' : BlockManager} (size : m'.blockSize = m.blockSize)
    (count : m'.numBlocks = m.numBlocks) (index : m'.hashToBlockId = m.hashToBlockId)
    (content : ∀ b, (m'.blocks b).content = (m.blocks b).content) : Index m' chain := by
  have hash (b : BlockId) : (m'.blocks b).hash = (m.blocks b).hash := (Block.content_eq (content b)).2.1
  have lineage (b : BlockId) : (m'.blocks b).lineage = (m.blocks b).lineage :=
    (Block.content_eq (content b)).2.2.1
  have parent (b : BlockId) : (m'.blocks b).parent = (m.blocks b).parent :=
    (Block.content_eq (content b)).2.2.2.1
  have tokens (b : BlockId) : (m'.blocks b).tokenIds = (m.blocks b).tokenIds :=
    (Block.content_eq (content b)).2.2.2.2
  have issued (identity : Int × Int) (old : m.Issued identity) : m'.Issued identity := by
    obtain ⟨a, g, same, within, bound⟩ := old
    refine ⟨a, g, same, count ▸ within, ?_⟩
    rwa [Block.published, hash, (Block.content_eq (content a)).1]
  constructor
  case indexed =>
    intro k b found
    rw [index] at found
    simpa only [count, Block.published, hash] using h.indexed k b found
  case named =>
    intro b within published
    rw [count] at within
    rw [Block.published, hash] at published
    simpa only [Names, Block.link, lineage, parent, tokens] using h.named b within published
  case whole =>
    intro b within published
    rw [count] at within
    rw [Block.published, hash] at published
    rw [tokens, size]
    exact h.whole b within published
  case issued =>
    intro b within published
    rw [count] at within
    rw [Block.published, hash] at published
    rw [lineage]
    exact issued _ (h.issued b within published)
  case parent_issued =>
    intro b within published
    rw [count] at within
    rw [Block.published, hash] at published
    rw [parent]
    exact (h.parent_issued b within published).imp_right (issued _)
  case root_empty => exact h.root_empty

theorem share (h : Index m chain) (b : BlockId) : Index (m.share b) chain :=
  h.recount (m.share_blockSize b) (m.share_numBlocks b) (m.share_index b) (m.share_content b)

theorem release (h : Index m chain) (b : BlockId) : Index (m.release b) chain :=
  h.recount (m.release_blockSize b) (m.release_numBlocks b) (m.release_index b) (m.release_content b)

theorem acquire (h : Index m chain) (b : BlockId) : Index (m.acquire b) chain := by
  have blank : ¬((m.acquire b).blocks b).published := by simp [Block.published, Block.reset]
  have kept (a : BlockId) (published : ((m.acquire b).blocks a).published) :
      a ≠ b ∧ (m.acquire b).blocks a = m.blocks a := by
    have other : a ≠ b := fun same => blank (same ▸ published)
    exact ⟨other, by simp [Function.update_of_ne other]⟩
  constructor
  case indexed =>
    intro hash a found
    have old : m.hashToBlockId hash = some a ∧ a ≠ b := by
      simp only [BlockManager.acquire] at found
      split at found
      next owner =>
        by_cases same : hash = (m.blocks b).hash
        · simp [Dict.pop, same] at found
        · rw [Dict.pop, Function.update_of_ne same] at found
          exact ⟨found, fun self => same (self ▸ (h.indexed hash a found).2.1).symm⟩
      next other =>
        refine ⟨found, ?_⟩
        rintro rfl
        exact other ((h.indexed hash a found).2.1.symm ▸ found)
    obtain ⟨within, hashed, published⟩ := h.indexed hash a old.1
    simpa [Function.update_of_ne old.2] using ⟨within, hashed, published⟩
  case named =>
    intro a within published
    obtain ⟨-, same⟩ := kept a published
    rw [same] at published ⊢
    exact h.named a within published
  case whole =>
    intro a within published
    obtain ⟨-, same⟩ := kept a published
    rw [same] at published ⊢
    exact h.whole a within published
  case issued =>
    intro a within published
    obtain ⟨-, same⟩ := kept a published
    rw [same] at published ⊢
    exact (h.issued a within published).acquire b
  case parent_issued =>
    intro a within published
    obtain ⟨-, same⟩ := kept a published
    rw [same] at published ⊢
    exact (h.parent_issued a within published).imp_right (fun issued => issued.acquire b)
  case root_empty => exact h.root_empty

-- The chains after a publication: the identity of the block stands for its tokens under its parent.
def published (chain : Chain) (block : Block) : Chain :=
  Function.update chain block.lineage (chain block.parent ++ block.tokenIds)

theorem published_stable (h : Index m chain) {b : BlockId} (identity : (m.blocks b).blockId = b)
    (unpublished : ¬(m.blocks b).published) {blockHash : Int} {tokenIds : List Token} {parent : Int × Int}
    {old : Int × Int} (known : old = noLineage ∨ m.Issued old) :
    published chain ((m.publishFullBlock b blockHash tokenIds parent).blocks b) old = chain old := by
  unfold published
  by_cases self : old = ((m.publishFullBlock b blockHash tokenIds parent).blocks b).lineage
  next =>
    simp only [BlockManager.publish_blocks, Function.update_self, Block.update, Block.lineage,
      Block.parent] at self ⊢
    rcases m.publishedLineage_cases (m.blocks b) blockHash tokenIds parent with
      own | ⟨owner, found, -, tokens, above, inherited⟩
    · rw [own, identity] at self
      rcases known with root | issued
      · rw [root, noLineage] at self
        exact absurd (Prod.mk.inj self).1 (by omega)
      · exact absurd self (issued.ne_unpublished unpublished)
    · obtain ⟨within, -, live⟩ := h.indexed blockHash owner found
      have named := h.named owner within live
      rw [inherited] at self ⊢
      rw [self, Function.update_self]
      simpa [Names, Block.link, tokens, above] using named.symm
  next => rw [Function.update_of_ne self]

theorem publish (h : Index m chain) {b : BlockId} (within : b < m.numBlocks)
    (identity : (m.blocks b).blockId = b) (unpublished : ¬(m.blocks b).published) {blockHash : Int}
    (hashed : blockHash ≠ -1) {tokenIds : List Token} (whole : tokenIds.length = m.blockSize)
    {parent : Int × Int} (above : parent = noLineage ∨ m.Issued parent) :
    Index (m.publishFullBlock b blockHash tokenIds parent)
      (published chain ((m.publishFullBlock b blockHash tokenIds parent).blocks b)) := by
  have stable {old : Int × Int} (known : old = noLineage ∨ m.Issued old) :
      published chain ((m.publishFullBlock b blockHash tokenIds parent).blocks b) old = chain old :=
    h.published_stable identity unpublished known
  have new : (m.publishFullBlock b blockHash tokenIds parent).blocks b =
      (m.blocks b).update blockHash tokenIds
        (m.publishedLineage (m.blocks b) blockHash tokenIds parent) parent := by simp
  have other (a : BlockId) (ne : a ≠ b) :
      (m.publishFullBlock b blockHash tokenIds parent).blocks a = m.blocks a := by
    simp [Function.update_of_ne ne]
  have lineageIssued : (m.publishFullBlock b blockHash tokenIds parent).Issued
      (m.publishedLineage (m.blocks b) blockHash tokenIds parent) := by
    rcases m.publishedLineage_cases (m.blocks b) blockHash tokenIds parent with own | ⟨owner, found, -, -, -, inherited⟩
    · rw [own, identity]
      exact ⟨b, (m.blocks b).generation, rfl, within, Or.inr ⟨by rw [new]; rfl, by rw [new]; exact hashed⟩⟩
    · obtain ⟨ownerWithin, -, live⟩ := h.indexed blockHash owner found
      rw [inherited]
      exact (h.issued owner ownerWithin live).publish b hashed tokenIds parent
  constructor
  case indexed =>
    intro hash a found
    simp only [BlockManager.publish_index, Dict.insert, identity] at found
    by_cases same : hash = blockHash
    · subst same
      rw [Function.update_self, Option.some.injEq] at found
      subst found
      rw [new]
      exact ⟨within, rfl, hashed⟩
    · rw [Function.update_of_ne same] at found
      have ne : a ≠ b := fun self => h.not_indexed unpublished hash (self ▸ found)
      rw [other a ne]
      exact h.indexed hash a found
  case named =>
    intro a withinA live
    by_cases self : a = b
    · subst self
      simp only [Names, Block.link]
      rw [show ((m.publishFullBlock a blockHash tokenIds parent).blocks a).parent = parent by rw [new]; rfl,
        stable above]
      rw [published, Function.update_self, new]
      rfl
    · rw [other a self] at live ⊢
      simp only [Names, Block.link]
      rw [stable (Or.inr (h.issued a withinA live)), stable (h.parent_issued a withinA live)]
      exact h.named a withinA live
  case whole =>
    intro a withinA live
    by_cases self : a = b
    · subst self
      rw [new]
      exact whole
    · rw [other a self] at live ⊢
      exact h.whole a withinA live
  case issued =>
    intro a withinA live
    by_cases self : a = b
    · subst self
      rw [new]
      exact lineageIssued
    · rw [other a self] at live ⊢
      exact (h.issued a withinA live).publish b hashed tokenIds parent
  case parent_issued =>
    intro a withinA live
    by_cases self : a = b
    · subst self
      rw [new]
      exact above.imp_right (fun issued => issued.publish a hashed tokenIds parent)
    · rw [other a self] at live ⊢
      exact (h.parent_issued a withinA live).imp_right
        (fun issued => issued.publish b hashed tokenIds parent)
  case root_empty => rw [stable (Or.inl rfl), h.root_empty]

end Index

end NanoVllm
