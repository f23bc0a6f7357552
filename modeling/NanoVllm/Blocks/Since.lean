import NanoVllm.Blocks.Exclusive
import NanoVllm.Blocks.Claim

set_option autoImplicit false

namespace NanoVllm

open Python Raising

-- A block that was published in `m` and was not taken for anything else up to `m'`.
def Unchanged (m m' : BlockManager) (b : BlockId) : Prop :=
  (m.blocks b).published ∧ (m'.blocks b).generation = (m.blocks b).generation

instance (m m' : BlockManager) (b : BlockId) : Decidable (Unchanged m m' b) :=
  inferInstanceAs (Decidable (_ ∧ _))

/-- What claims leave of the pages: all but reference counts and places in the free queue. -/
structure Recounted (m m' : BlockManager) : Prop where
  size : m'.blockSize = m.blockSize
  count : m'.numBlocks = m.numBlocks
  index : m'.hashToBlockId = m.hashToBlockId
  content : ∀ b, (m'.blocks b).content = (m.blocks b).content
  free : m'.freeBlockIds.Sublist m.freeBlockIds

theorem Recounted.refl (m : BlockManager) : Recounted m m := ⟨rfl, rfl, rfl, fun _ => rfl, List.Sublist.refl _⟩

theorem Recounted.trans {m m' m'' : BlockManager} (h : Recounted m m') (h' : Recounted m' m'') : Recounted m m'' where
  size := h'.size.trans h.size
  count := h'.count.trans h.count
  index := h'.index.trans h.index
  content b := (h'.content b).trans (h.content b)
  free := h'.free.trans h.free

/-- What the pages may go through while none is given back: claims, and pages that are taken and published. -/
inductive Evolves (m : BlockManager) : BlockManager → Prop
  | refl : Evolves m m
  | recount {m' m'' : BlockManager} (past : Evolves m m') (recounted : Recounted m' m'') : Evolves m m''
  | acquire {m' : BlockManager} (past : Evolves m m') {b : BlockId} (free : b ∈ m'.freeBlockIds) :
      Evolves m (m'.acquire b)
  | publish {m' : BlockManager} (past : Evolves m m') {b : BlockId} (unpublished : ¬(m'.blocks b).published)
      (busy : b ∉ m'.freeBlockIds) (blockHash : Int) (tokenIds : List Token) (parent : Int × Int) :
      Evolves m (m'.publishFullBlock b blockHash tokenIds parent)

theorem Evolves.trans {m m' m'' : BlockManager} (h : Evolves m m') (later : Evolves m' m'') : Evolves m m'' := by
  induction later with
  | refl => exact h
  | recount past recounted ih => exact ih.recount recounted
  | acquire past free ih => exact ih.acquire free
  | publish past unpublished busy blockHash tokenIds parent ih => exact ih.publish unpublished busy _ _ _

theorem Evolves.size {m m' : BlockManager} (h : Evolves m m') : m'.blockSize = m.blockSize := by
  induction h with
  | refl => rfl
  | recount past recounted ih => exact recounted.size.trans ih
  | acquire past free ih => exact ih
  | publish past unpublished busy blockHash tokenIds parent ih => exact ih

/-- The same, where every page is published under one of the allowed hashes. -/
inductive EvolvesIn (allowed : Int → Prop) (m : BlockManager) : BlockManager → Prop
  | refl : EvolvesIn allowed m m
  | recount {m' m'' : BlockManager} (past : EvolvesIn allowed m m') (recounted : Recounted m' m'') :
      EvolvesIn allowed m m''
  | acquire {m' : BlockManager} (past : EvolvesIn allowed m m') {b : BlockId} (free : b ∈ m'.freeBlockIds) :
      EvolvesIn allowed m (m'.acquire b)
  | publish {m' : BlockManager} (past : EvolvesIn allowed m m') {b : BlockId} (unpublished : ¬(m'.blocks b).published)
      (busy : b ∉ m'.freeBlockIds) {blockHash : Int} (free : allowed blockHash) (tokenIds : List Token)
      (parent : Int × Int) : EvolvesIn allowed m (m'.publishFullBlock b blockHash tokenIds parent)

theorem EvolvesIn.trans {allowed : Int → Prop} {m m' m'' : BlockManager} (h : EvolvesIn allowed m m')
    (later : EvolvesIn allowed m' m'') : EvolvesIn allowed m m'' := by
  induction later with
  | refl => exact h
  | recount past recounted ih => exact ih.recount recounted
  | acquire past free ih => exact ih.acquire free
  | publish past unpublished busy free tokenIds parent ih => exact ih.publish unpublished busy free _ _

theorem EvolvesIn.evolves {allowed : Int → Prop} {m m' : BlockManager} (h : EvolvesIn allowed m m') : Evolves m m' := by
  induction h with
  | refl => exact Evolves.refl
  | recount past recounted ih => exact ih.recount recounted
  | acquire past free ih => exact ih.acquire free
  | publish past unpublished busy free tokenIds parent ih => exact ih.publish unpublished busy _ _ _

structure Since (m m' : BlockManager) : Prop where
  size : m'.blockSize = m.blockSize
  count : m'.numBlocks = m.numBlocks
  identity : ∀ b, (m'.blocks b).blockId = b
  free : m'.freeBlockIds.Sublist m.freeBlockIds
  older : ∀ b, (m.blocks b).generation ≤ (m'.blocks b).generation
  kept : ∀ b, Unchanged m m' b → (m'.blocks b).content = (m.blocks b).content
  busy : ∀ b, b ∉ m.freeBlockIds → (m'.blocks b).generation = (m.blocks b).generation
  waits : ∀ b ∈ m'.freeBlockIds, (m'.blocks b).content = (m.blocks b).content
  index : ∀ hash b, m'.hashToBlockId hash = some b → Unchanged m m' b → m.hashToBlockId hash = some b
  lineage : ∀ b, (m'.blocks b).published → ¬Unchanged m m' b → ¬m.Issued (m'.blocks b).lineage ∨
    ∃ r, m.hashToBlockId (m'.blocks b).hash = some r ∧ (m.blocks r).link = (m'.blocks b).link

namespace Since

variable {m m' m'' : BlockManager} {b : BlockId}

theorem refl (identity : ∀ b, (m.blocks b).blockId = b) : Since m m where
  size := rfl
  count := rfl
  identity := identity
  free := List.Sublist.refl _
  older _ := Nat.le_refl _
  kept _ _ := rfl
  busy _ _ := rfl
  waits _ _ := rfl
  index _ _ found _ := found
  lineage _ published changed := absurd ⟨published, rfl⟩ changed

theorem recount (h : Since m m') (recounted : Recounted m' m'') : Since m m'' := by
  have content := recounted.content
  have generation (b : BlockId) : (m''.blocks b).generation = (m'.blocks b).generation :=
    (Block.content_eq (content b)).1
  have hash (b : BlockId) : (m''.blocks b).hash = (m'.blocks b).hash := (Block.content_eq (content b)).2.1
  have link (b : BlockId) : (m''.blocks b).link = (m'.blocks b).link := by
    obtain ⟨-, -, lineage, parent, tokens⟩ := Block.content_eq (content b)
    rw [Block.link, Block.link, lineage, parent, tokens]
  have unchanged (b : BlockId) : Unchanged m m'' b ↔ Unchanged m m' b := by
    rw [Unchanged, Unchanged, generation]
  constructor
  case size => exact recounted.size.trans h.size
  case count => exact recounted.count.trans h.count
  case identity => exact fun b => (congrArg Block.blockId (content b)).trans (h.identity b)
  case free => exact recounted.free.trans h.free
  case older => exact fun b => generation b ▸ h.older b
  case kept => exact fun b same => (content b).trans (h.kept b ((unchanged b).mp same))
  case busy => exact fun b held => (generation b).trans (h.busy b held)
  case waits => exact fun b listed => (content b).trans (h.waits b (recounted.free.subset listed))
  case index => exact fun k b found same => h.index k b (recounted.index ▸ found) ((unchanged b).mp same)
  case lineage =>
    intro b published changed
    rw [Block.published, hash] at published
    rw [unchanged] at changed
    rw [hash, link, show (m''.blocks b).lineage = (m'.blocks b).lineage from congrArg Naming.Link.identity (link b)]
    exact h.lineage b published changed

theorem taken (h : Since m m') : ¬Unchanged m (m'.acquire b) b := by
  rintro ⟨-, same⟩
  have before := h.older b
  simp only [BlockManager.acquire_blocks, Function.update_self, Block.reset] at same
  omega

theorem acquire (h : Since m m') (nodup : m.freeBlockIds.Nodup) (free : b ∈ m'.freeBlockIds) :
    Since m (m'.acquire b) := by
  have other {a : BlockId} (ne : a ≠ b) : (m'.acquire b).blocks a = m'.blocks a := by
    simp [Function.update_of_ne ne]
  have unchanged {a : BlockId} (same : Unchanged m (m'.acquire b) a) : a ≠ b ∧ Unchanged m m' a := by
    have ne : a ≠ b := by
      rintro rfl
      exact h.taken same
    refine ⟨ne, ?_⟩
    rwa [Unchanged, other ne] at same
  constructor
  case size => exact h.size
  case count => exact h.count
  case identity =>
    intro a
    by_cases self : a = b
    · subst self
      simpa [Block.reset] using h.identity a
    · rw [other self]
      exact h.identity a
  case free => exact List.erase_sublist.trans h.free
  case older =>
    intro a
    by_cases self : a = b
    · subst self
      have before := h.older a
      simp only [BlockManager.acquire_blocks, Function.update_self, Block.reset]
      omega
    · rw [other self]
      exact h.older a
  case kept =>
    intro a same
    obtain ⟨ne, before⟩ := unchanged same
    rw [other ne]
    exact h.kept a before
  case busy =>
    intro a held
    have ne : a ≠ b := fun self => held (self ▸ h.free.subset free)
    rw [other ne]
    exact h.busy a held
  case waits =>
    intro a left
    obtain ⟨ne, before⟩ := ((nodup.sublist h.free).mem_erase_iff).mp left
    rw [other ne]
    exact h.waits a before
  case index =>
    intro hash a found same
    obtain ⟨ne, before⟩ := unchanged same
    refine h.index hash a ?_ before
    simp only [BlockManager.acquire] at found
    split at found
    next owner =>
      by_cases popped : hash = (m'.blocks b).hash
      · simp [Dict.pop, popped] at found
      · rwa [Dict.pop, Function.update_of_ne popped] at found
    next => exact found
  case lineage =>
    intro a published changed
    by_cases self : a = b
    · subst self
      simp [Block.published, Block.reset] at published
    · rw [Unchanged, other self] at changed
      rw [other self] at published ⊢
      exact h.lineage a published changed

-- A changed page has a generation that it had not at the start, or had without being published.
theorem not_issued (h : Since m m') (changed : ¬Unchanged m m' b) :
    ¬m.Issued ((b : Int), ((m'.blocks b).generation : Int)) := by
  rintro ⟨c, g, same, -, earlier⟩
  obtain ⟨left, right⟩ := Prod.mk.inj same
  norm_cast at left right
  subst left right
  have before := h.older b
  rcases earlier with older | ⟨current, known⟩
  · omega
  · exact changed ⟨known, current⟩

theorem update_lineage (h : Since m m') (changed : ¬Unchanged m m' b) {blockHash : Int} {tokenIds : List Token}
    {parent : Int × Int} {block : Block}
    (new : block = (m'.blocks b).update blockHash tokenIds
      (m'.publishedLineage (m'.blocks b) blockHash tokenIds parent) parent) (live : block.published) :
    ¬m.Issued block.lineage ∨ ∃ r, m.hashToBlockId block.hash = some r ∧ (m.blocks r).link = block.link := by
  subst new
  rcases m'.publishedLineage_cases (m'.blocks b) blockHash tokenIds parent with
    own | ⟨owner, found, hash, tokens, above, inherited⟩
  · left
    have lineage : ((m'.blocks b).update blockHash tokenIds
        (m'.publishedLineage (m'.blocks b) blockHash tokenIds parent) parent).lineage =
        ((b : Int), ((m'.blocks b).generation : Int)) := by
      rw [own, h.identity]
      rfl
    rw [lineage]
    exact h.not_issued changed
  · have published : (m'.blocks owner).published := by
      rw [Block.published, hash]
      exact live
    have link : (m'.blocks owner).link = ((m'.blocks b).update blockHash tokenIds
        (m'.publishedLineage (m'.blocks b) blockHash tokenIds parent) parent).link := by
      rw [Block.link, Block.link, tokens, above, ← inherited]
      rfl
    by_cases same : Unchanged m m' owner
    · right
      refine ⟨owner, h.index blockHash owner found same, ?_⟩
      obtain ⟨-, -, lineage, above', tokens'⟩ := Block.content_eq (h.kept owner same)
      rw [← link, Block.link, Block.link, lineage, above', tokens']
    · have earlier := h.lineage owner published same
      rw [hash, link] at earlier
      have lineage : (m'.blocks owner).lineage = ((m'.blocks b).update blockHash tokenIds
          (m'.publishedLineage (m'.blocks b) blockHash tokenIds parent) parent).lineage :=
        congrArg Naming.Link.identity link
      rwa [lineage] at earlier

theorem publish (h : Since m m') (unpublished : ¬(m'.blocks b).published)
    (busy : b ∉ m'.freeBlockIds) (blockHash : Int) (tokenIds : List Token) (parent : Int × Int) :
    Since m (m'.publishFullBlock b blockHash tokenIds parent) := by
  have other {a : BlockId} (ne : a ≠ b) :
      (m'.publishFullBlock b blockHash tokenIds parent).blocks a = m'.blocks a := by simp [Function.update_of_ne ne]
  have new : (m'.publishFullBlock b blockHash tokenIds parent).blocks b = (m'.blocks b).update blockHash tokenIds
      (m'.publishedLineage (m'.blocks b) blockHash tokenIds parent) parent := by simp
  have generation (a : BlockId) :
      ((m'.publishFullBlock b blockHash tokenIds parent).blocks a).generation = (m'.blocks a).generation := by
    by_cases self : a = b
    · subst self
      rw [new]
      rfl
    · rw [other self]
  have changed : ¬Unchanged m m' b := by
    intro same
    have hash := (Block.content_eq (h.kept b same)).2.1
    rw [Block.published, hash] at unpublished
    exact unpublished same.1
  have unchanged {a : BlockId} (same : Unchanged m (m'.publishFullBlock b blockHash tokenIds parent) a) :
      a ≠ b ∧ Unchanged m m' a := by
    rw [Unchanged, generation] at same
    refine ⟨?_, same⟩
    rintro rfl
    exact changed same
  constructor
  case size => exact h.size
  case count => exact h.count
  case identity =>
    intro a
    by_cases self : a = b
    · subst self
      rw [new]
      exact h.identity a
    · rw [other self]
      exact h.identity a
  case free => exact h.free
  case older => exact fun a => generation a ▸ h.older a
  case kept =>
    intro a same
    obtain ⟨ne, before⟩ := unchanged same
    rw [other ne]
    exact h.kept a before
  case busy => exact fun a held => (generation a).trans (h.busy a held)
  case waits =>
    intro a left
    have ne : a ≠ b := fun self => busy (self ▸ left)
    rw [other ne]
    exact h.waits a left
  case index =>
    intro hash a found same
    obtain ⟨ne, before⟩ := unchanged same
    rw [BlockManager.publish_index, h.identity] at found
    refine h.index hash a ?_ before
    by_cases inserted : hash = blockHash
    · subst inserted
      rw [Dict.insert, Function.update_self, Option.some.injEq] at found
      exact absurd found.symm ne
    · rwa [Dict.insert, Function.update_of_ne inserted] at found
  case lineage =>
    intro a live changed'
    by_cases self : a = b
    · subst self
      exact h.update_lineage changed new live
    · rw [Unchanged, other self] at changed'
      rw [other self] at live ⊢
      exact h.lineage a live changed'

end Since

theorem Evolves.since {m m' : BlockManager} (h : Evolves m m') (identity : ∀ b, (m.blocks b).blockId = b)
    (nodup : m.freeBlockIds.Nodup) : Since m m' := by
  induction h with
  | refl => exact Since.refl identity
  | recount past recounted ih => exact ih.recount recounted
  | acquire past free ih => exact ih.acquire nodup free
  | publish past unpublished busy blockHash tokenIds parent ih => exact ih.publish unpublished busy _ _ _

-- What the index does not name for a hash it cannot name later, unless a page is published under this hash. What it names
-- it goes on to name as long as the page is not taken for something else.
theorem EvolvesIn.index {allowed : Int → Prop} {m m' : BlockManager} (h : EvolvesIn allowed m m')
    (identity : ∀ b, (m.blocks b).blockId = b) (nodup : m.freeBlockIds.Nodup)
    (indexed : ∀ hash b, m.hashToBlockId hash = some b → (m.blocks b).hash = hash ∧ (m.blocks b).published)
    {hash : Int} (excluded : ¬allowed hash) : m'.hashToBlockId hash = none ∨ ∃ b, m.hashToBlockId hash = some b ∧
      m'.hashToBlockId hash = some b ∧ (m'.blocks b).generation = (m.blocks b).generation := by
  induction h with
  | refl =>
      cases owner : m.hashToBlockId hash with
      | none => exact .inl rfl
      | some b => exact .inr ⟨b, rfl, rfl, rfl⟩
  | @recount m' m'' past recounted ih =>
      rw [recounted.index]
      refine ih.imp_right (fun ⟨b, before, after, same⟩ => ⟨b, before, after, ?_⟩)
      rw [(Block.content_eq (recounted.content b)).1, same]
  | @acquire m' past a free ih =>
      have popped (gone : m'.hashToBlockId hash = none) : (m'.acquire a).hashToBlockId hash = none := by
        simp only [BlockManager.acquire]
        split
        next =>
          rw [Dict.pop, Function.update_apply]
          split
          next => rfl
          next => exact gone
        next => exact gone
      rcases ih with gone | ⟨b, before, after, same⟩
      · exact .inl (popped gone)
      · obtain ⟨named, published⟩ := indexed hash b before
        have kept : (m'.blocks b).hash = hash := by
          rw [← named]
          exact (Block.content_eq ((past.evolves.since identity nodup).kept b ⟨published, same⟩)).2.1
        by_cases self : a = b
        · -- The page that the index names for the hash is taken.
          subst self
          left
          simp only [BlockManager.acquire, kept, after, if_true, Dict.pop, Function.update_self]
        · have other : (m'.acquire a).blocks b = m'.blocks b := by simp [Function.update_of_ne (Ne.symm self)]
          refine .inr ⟨b, before, ?_, by rw [other, same]⟩
          simp only [BlockManager.acquire]
          split
          next owner =>
            have apart : hash ≠ (m'.blocks a).hash := by
              rintro rfl
              exact self (Option.some.inj (owner.symm.trans after))
            rw [Dict.pop, Function.update_of_ne apart]
            exact after
          next => exact after
  | @publish m' past a unpublished busy blockHash free tokenIds parent ih =>
      have other : hash ≠ blockHash := by
        rintro rfl
        exact excluded free
      have generation (b : BlockId) :
          ((m'.publishFullBlock a blockHash tokenIds parent).blocks b).generation = (m'.blocks b).generation := by
        by_cases self : b = a
        · subst self
          simp [Block.update]
        · simp [Function.update_of_ne self]
      rw [BlockManager.publish_index, Dict.insert, Function.update_of_ne other]
      exact ih.imp_right (fun ⟨b, before, after, same⟩ => ⟨b, before, after, (generation b).trans same⟩)

-- The hashes of the pages that the new tokens of a request fill.
def Sequence.filled (seq : Sequence) : List Int :=
  (seq.blockHashes.take (seq.numContextTokens / seq.blockSize)).drop seq.numCachedBlocks

theorem Sequence.mem_filled {seq : Sequence} {k : Nat} {hash : Int} (positive : 0 < seq.blockSize)
    (from' : seq.numCachedBlocks ≤ k) (whole : (k + 1) * seq.blockSize ≤ seq.numContextTokens)
    (entry : seq.blockHash k = .ok hash) : hash ∈ seq.filled := by
  have below : k < seq.numContextTokens / seq.blockSize := (Nat.le_div_iff_mul_le positive).mpr whole
  have found : seq.blockHashes[k]? = some hash := by
    unfold blockHash at entry
    split at entry
    next found => rw [found, Except.ok.inj entry]
    next => cases entry
  refine List.mem_of_getElem? (i := k - seq.numCachedBlocks) ?_
  rw [filled, List.getElem?_drop, Nat.add_sub_cancel' from', List.getElem?_take_of_lt below, found]

structure Frame.Tidy (f : Frame) : Prop where
  nodup : f.manager.freeBlockIds.Nodup
  busy : ∀ b ∈ f.seq.blockTable, b ∉ f.manager.freeBlockIds

theorem Frame.Tidy.grown {f g : Frame} (h : f.Tidy) (grown : f.Grown g) : g.Tidy := by
  obtain ⟨fresh, seq, free, -⟩ := grown
  have nodup := h.nodup
  rw [free, List.nodup_append] at nodup
  refine ⟨nodup.2.1, fun b listed left => ?_⟩
  rw [seq, List.mem_append] at listed
  rcases listed with old | new
  · exact h.busy b old (free ▸ List.mem_append_right fresh left)
  · exact nodup.2.2 b new b left rfl

namespace BlockManager

variable {f g : Frame} {b : BlockId}

theorem allocateBlock_ok {m m' : BlockManager} (run : allocateBlock b m = .ok () m') :
    b ∈ m.freeBlockIds ∧ m' = m.acquire b := by
  have whole := run
  simp only [allocateBlock, run_get_bind] at run
  obtain ⟨block, found, run⟩ := run_ofExcept_ok run
  obtain ⟨within, rfl⟩ := getBlock_ok found
  obtain ⟨unreferenced, run⟩ := run_require_ok run
  have free : b ∈ m.freeBlockIds := by
    split at run
    all_goals
      simp only [run_set_bind, run_modify_bind] at run
      obtain ⟨⟨⟩, taken, removed, -⟩ := run_bind_ok run
      simp only [removeFree, run_get_bind] at removed
      exact (run_require_ok removed).1
  cases whole.symm.trans (allocateBlock_run within unreferenced free)
  exact ⟨free, rfl⟩

theorem acquire_new (m : BlockManager) (nodup : m.freeBlockIds.Nodup) :
    ¬((m.acquire b).blocks b).published ∧ b ∉ (m.acquire b).freeBlockIds :=
  ⟨by simp [Block.published, Block.reset], nodup.not_mem_erase⟩

variable {allowed : Int → Prop}

theorem appendFreeBlock_evolves (tidy : f.Tidy) (run : appendFreeBlock f = .ok b g) :
    EvolvesIn allowed f.manager g.manager ∧ ¬(g.manager.blocks b).published ∧ b ∉ g.manager.freeBlockIds := by
  simp only [appendFreeBlock, run_get_bind] at run
  obtain ⟨a, -, run⟩ := run_ofExcept_ok run
  obtain ⟨⟨⟩, h, taken, run⟩ := run_bind_ok run
  obtain ⟨m, inner, rfl⟩ := run_zoom_ok taken
  obtain ⟨free, rfl⟩ := allocateBlock_ok inner
  cases run
  exact ⟨EvolvesIn.refl.acquire free, f.manager.acquire_new tidy.nodup⟩

theorem publish_evolves {blockHash : Int} {tokenIds : List Token} {parent : Int × Int}
    (unpublished : ¬(f.manager.blocks b).published) (busy : b ∉ f.manager.freeBlockIds) (free : allowed blockHash)
    (run : publish b blockHash tokenIds parent f = .ok () g) : EvolvesIn allowed f.manager g.manager := by
  cases run
  exact EvolvesIn.refl.publish unpublished busy free _ _

-- A whole page up to `stop` is published under its hash in the sequence.
def PageAllowed (allowed : Int → Prop) (f : Frame) (stop i : Nat) : Prop :=
  (slice f.seq.tokenIds i (min (i + f.manager.blockSize) stop)).length = f.manager.blockSize →
    ∀ hash, f.seq.blockHash (i / f.manager.blockSize) = .ok hash → allowed hash

theorem mayAppendPage_evolves {i : Nat} (tidy : f.Tidy) (pages : PageAllowed allowed f f.seq.numContextTokens i)
    (run : mayAppendPage i f = .ok () g) : EvolvesIn allowed f.manager g.manager := by
  simp only [mayAppendPage, run_get_bind] at run
  obtain ⟨parent, -, run⟩ := run_ofExcept_ok run
  cases current : f.seq.blockTable[i / f.manager.blockSize]? with
  | some b =>
      simp only [current] at run
      obtain ⟨block, found, run⟩ := run_ofExcept_ok run
      obtain ⟨-, rfl⟩ := getBlock_ok found
      obtain ⟨blank, run⟩ := run_require_ok run
      split at run
      next whole =>
        obtain ⟨hash, entry, run⟩ := run_ofExcept_ok run
        exact publish_evolves (not_not.mpr blank) (tidy.busy b (List.mem_of_getElem? current)) (pages whole hash entry)
          run
      next =>
        cases run
        exact EvolvesIn.refl
  | none =>
      simp only [current] at run
      split at run
      next whole =>
        obtain ⟨hash, entry, run⟩ := run_ofExcept_ok run
        obtain ⟨b, h, taken, run⟩ := run_bind_ok run
        obtain ⟨evolves, unpublished, busy⟩ := appendFreeBlock_evolves tidy taken
        exact evolves.trans (publish_evolves unpublished busy (pages whole hash entry) run)
      next =>
        obtain ⟨b, h, taken, run⟩ := run_bind_ok run
        cases run
        exact (appendFreeBlock_evolves tidy taken).1

theorem allocateNewPage_evolves {contextEnd i : Nat} (tidy : f.Tidy) (pages : PageAllowed allowed f contextEnd i)
    (run : allocateNewPage contextEnd i f = .ok () g) : EvolvesIn allowed f.manager g.manager := by
  simp only [allocateNewPage, run_get_bind] at run
  obtain ⟨parent, -, run⟩ := run_ofExcept_ok run
  split at run
  next whole =>
    obtain ⟨hash, entry, run⟩ := run_ofExcept_ok run
    obtain ⟨b, -, run⟩ := run_ofExcept_ok run
    obtain ⟨⟨⟩, h, taken, run⟩ := run_bind_ok run
    obtain ⟨m, inner, rfl⟩ := run_zoom_ok taken
    obtain ⟨free, rfl⟩ := allocateBlock_ok inner
    obtain ⟨unpublished, busy⟩ := f.manager.acquire_new (b := b) tidy.nodup
    split at run
    next =>
      cases run
      exact (EvolvesIn.refl.acquire free).publish unpublished busy (pages whole hash entry) _ _
    next =>
      cases run
      exact EvolvesIn.refl.acquire free
  next =>
    obtain ⟨b, h, taken, run⟩ := run_bind_ok run
    cases run
    exact (appendFreeBlock_evolves tidy taken).1

theorem claimBlock_recounted {claim : BlockId × Bool} (run : claimBlock claim f = .ok () g) :
    Recounted f.manager g.manager := by
  obtain ⟨refs, used, rfl⟩ := claimBlock_ok run
  refine ⟨rfl, rfl, rfl, fun a => ?_, ?_⟩
  · by_cases self : a = claim.1
    · simp [self, setBlock, Block.content]
    · simp [setBlock, Function.update_of_ne self]
  · cases claim.2 with
    | true => exact List.erase_sublist
    | false => exact List.Sublist.refl _

theorem claimPrefix_recounted {blockIds : List BlockId} (run : claimPrefix blockIds f = .ok () g) :
    Recounted f.manager g.manager := by
  simp only [claimPrefix, run_get_bind] at run
  obtain ⟨⟨⟩, -, run⟩ := run_ofExcept_ok run
  obtain ⟨⟨⟩, -, run⟩ := run_ofExcept_ok run
  obtain ⟨-, run⟩ := run_require_ok run
  obtain ⟨claims, -, run⟩ := run_ofExcept_ok run
  refine forEach_keeps (I := fun u => Recounted f.manager u.manager) (fun e _ u before turn => ?_)
    (Recounted.refl _) run
  exact before.trans (claimBlock_recounted turn)

theorem claimPrefix_hashes {blockIds : List BlockId}
    (run : claimPrefix blockIds f = .ok () g) : g.seq.blockHashes = f.seq.blockHashes := by
  simp only [claimPrefix, run_get_bind] at run
  obtain ⟨⟨⟩, -, run⟩ := run_ofExcept_ok run
  obtain ⟨⟨⟩, -, run⟩ := run_ofExcept_ok run
  obtain ⟨-, run⟩ := run_require_ok run
  obtain ⟨claims, -, run⟩ := run_ofExcept_ok run
  refine forEach_keeps (I := fun u => u.seq.blockHashes = f.seq.blockHashes) (fun e _ u before turn => ?_) rfl run
  obtain ⟨refs, used, rfl⟩ := claimBlock_ok turn
  exact before

theorem page_allowed (filled : ∀ hash ∈ f.seq.filled, allowed hash) (size : f.seq.blockSize = f.manager.blockSize)
    {first i : Nat} (from' : f.seq.numCachedBlocks * f.manager.blockSize ≤ first)
    (listed : i ∈ range first f.seq.numContextTokens f.manager.blockSize) {h : Frame} (grown : f.Grown h)
    (same : h.manager.blockSize = f.manager.blockSize) : PageAllowed allowed h f.seq.numContextTokens i := by
  obtain ⟨fresh, seq, -⟩ := grown
  intro whole hash entry
  have positive : 0 < f.manager.blockSize := by
    refine Nat.pos_of_ne_zero (fun zero => ?_)
    simp [range, zero] at listed
  obtain ⟨a, -, rfl⟩ := List.mem_map.mp listed
  rw [same] at whole entry
  rw [seq] at entry
  refine filled hash (Sequence.mem_filled (size.symm ▸ positive) ?_ ?_ entry)
  · exact (Nat.le_div_iff_mul_le positive).mpr (from'.trans (Nat.le_add_right ..))
  · have below := Nat.div_mul_le_self (first + a * f.manager.blockSize) f.manager.blockSize
    rw [slice, List.length_drop, List.length_take] at whole
    rw [size, Nat.add_mul, Nat.one_mul]
    omega

theorem mayAppend_evolves (tidy : f.Tidy) (filled : ∀ hash ∈ f.seq.filled, allowed hash) (run : mayAppend f = .ok () g) :
    EvolvesIn allowed f.manager g.manager := by
  simp only [mayAppend, run_get_bind] at run
  obtain ⟨⟨⟩, sized, run⟩ := run_ofExcept_ok run
  have size : f.seq.blockSize = f.manager.blockSize := (except_require_ok _ _ _).mp sized
  refine (forEach_keeps (I := fun u => u.Tidy ∧ f.Grown u ∧ EvolvesIn allowed f.manager u.manager)
    (fun e listed u before turn => ?_) ⟨tidy, Frame.Grown.refl f, EvolvesIn.refl⟩ run).2.2
  obtain ⟨tidy', grown, past⟩ := before
  have pages := page_allowed filled size (Nat.le_refl _) (fst_mem_of_mem_turns listed) grown
    past.evolves.size
  have context : e.2.seq.numContextTokens = f.seq.numContextTokens := by
    obtain ⟨fresh, seq, -⟩ := grown
    rw [seq]
    rfl
  have later := mayAppendPage_grown turn
  exact ⟨tidy'.grown later, grown.trans later, past.trans (mayAppendPage_evolves tidy' (context ▸ pages) turn)⟩

theorem allocateNew_evolves (tidy : f.Tidy) (filled : ∀ hash ∈ f.seq.filled, allowed hash)
    (run : allocateNew f = .ok () g) :
    EvolvesIn allowed f.manager g.manager := by
  simp only [allocateNew, run_get_bind] at run
  obtain ⟨⟨⟩, sized, run⟩ := run_ofExcept_ok run
  have size : f.seq.blockSize = f.manager.blockSize := (except_require_ok _ _ _).mp sized
  obtain ⟨⟨⟩, -, run⟩ := run_ofExcept_ok run
  obtain ⟨-, run⟩ := run_require_ok run
  obtain ⟨-, run⟩ := run_require_ok run
  refine (forEach_keeps (I := fun u => u.Tidy ∧ f.Grown u ∧ EvolvesIn allowed f.manager u.manager)
    (fun e listed u before turn => ?_) ⟨tidy, Frame.Grown.refl f, EvolvesIn.refl⟩ run).2.2
  obtain ⟨tidy', grown, past⟩ := before
  have start : f.seq.numCachedBlocks * f.manager.blockSize ≤ f.seq.numCachedTokens := by
    rw [Sequence.numCachedBlocks, size]
    exact Nat.div_mul_le_self _ _
  have pages := page_allowed filled size start (fst_mem_of_mem_turns listed) grown past.evolves.size
  have later := allocateNewPage_grown turn
  exact ⟨tidy'.grown later, grown.trans later, past.trans (allocateNewPage_evolves tidy' pages turn)⟩

end BlockManager

section Lookup

variable {p q : Pool} {ids : Finset SeqId} {chain chain' : Chain} {i : SeqId} {seq : Sequence} {k : Nat}
  {parent : Int × Int} {b r : BlockId} {initial latest blocks : List BlockId}

theorem Held.matchPrefix_covers (h : Held p ids chain) (member : i ∈ ids) (cached : (p.seqs i).numCachedTokens = 0)
    (table : (p.seqs i).blockTable = []) (found : p.manager.matchPrefix (p.seqs i) = .ok initial)
    (plan : Plan p.manager (p.seqs i) 0 noLineage blocks) (few : blocks.length < (p.seqs i).numBlocks) :
    blocks <+: initial := by
  have wf := h.wf i member
  have known : p.manager.lineage none = .ok noLineage := rfl
  have inner : p.manager.matchPrefixFrom (p.seqs i) (List.range' 0 ((p.seqs i).numBlocks - 1)) none [] =
      .ok initial := by
    simp only [BlockManager.matchPrefix, BlockManager.assertBlockSize, require_of wf.block,
      BlockManager.validateClaimedPrefix, table, cached, pure_bind] at found
    simpa [require, BlockManager.validateClaimedPrefixFrom] using found
  have covers := BlockManager.matchPrefixFrom_covers h.index h.size_pos wf.block known plan
    (fun a planned => h.resident a (plan.matched.bound planned)) (by simp) (by omega) inner
  rwa [List.nil_append] at covers

theorem PageMatch.transfer {m m' : BlockManager} (page : PageMatch m' seq k parent b)
    (size : m'.blockSize = m.blockSize) (bound : r < m.numBlocks) (published : (m.blocks r).published)
    (hash : (m.blocks r).hash = (m'.blocks b).hash) (link : (m.blocks r).link = (m'.blocks b).link) :
    PageMatch m seq k parent r where
  bound := bound
  published := published
  hash := hash ▸ page.hash
  tokens := by
    rw [← size]
    exact (congrArg Naming.Link.segment link).trans page.tokens
  whole := size ▸ page.whole
  parent := (congrArg Naming.Link.parent link).trans page.parent

theorem Held.reaches (h : Held p ids chain) (member : i ∈ ids) (cached : (p.seqs i).numCachedTokens = 0)
    (table : (p.seqs i).blockTable = []) (found : p.manager.matchPrefix (p.seqs i) = .ok initial)
    (plan : Plan p.manager (p.seqs i) 0 noLineage initial)
    (known : (∃ front, front.length = k ∧ front <+: initial ∧
        parent = front.getLast?.elim noLineage (fun a => (p.manager.blocks a).lineage)) ∨
      parent ≠ noLineage ∧ ¬p.manager.Issued parent)
    (page : PageMatch p.manager (p.seqs i) k parent r)
    (owner : p.manager.hashToBlockId (p.manager.blocks r).hash = some r) (few : k + 1 < (p.seqs i).numBlocks) :
    ∃ front, front.length = k ∧ front ++ [r] <+: initial := by
  have issued := h.index.parent_issued r page.bound page.published
  rw [page.parent] at issued
  obtain ⟨front, length, starts, lineage⟩ := known.resolve_right (fun new => issued.elim new.1 new.2)
  obtain ⟨more, split⟩ := starts
  have before : Plan p.manager (p.seqs i) 0 noLineage front := by
    rw [← split] at plan
    exact plan.front
  have whole : Matches p.manager (p.seqs i) 0 noLineage (front ++ [r]) := by
    refine before.matched.append ⟨?_, trivial⟩
    rw [Nat.zero_add, length, ← lineage]
    exact page
  refine ⟨front, length, h.matchPrefix_covers member cached table found ⟨whole, ?_, ?_, ?_⟩ ?_⟩
  · exact whole.nodup h.index h.size_pos
  · simp [table]
  · intro a listed
    rcases List.mem_append.mp listed with front' | self
    · exact before.indexed a front'
    · rw [List.mem_singleton.mp self]
      exact owner
  · rw [List.length_append, List.length_singleton]
    omega

/-- A later lookup finds unchanged pages where the first one found them. The induction is on the pages of the later
lookup, with the lineage of the page before them: what the first lookup had there, or a new one. -/
theorem Since.follows (since : Since p.manager q.manager) (h : Held p ids chain) (h' : Held q ids chain')
    (member : i ∈ ids) (cached : (p.seqs i).numCachedTokens = 0) (table : (p.seqs i).blockTable = [])
    (found : p.manager.matchPrefix (p.seqs i) = .ok initial) (plan : Plan p.manager (p.seqs i) 0 noLineage initial)
    (matched : Matches q.manager (p.seqs i) k parent blocks)
    (indexed : ∀ b ∈ blocks, q.manager.hashToBlockId (q.manager.blocks b).hash = some b)
    (few : k + blocks.length < (p.seqs i).numBlocks)
    (known : (∃ front, front.length = k ∧ front <+: initial ∧
        parent = front.getLast?.elim noLineage (fun a => (p.manager.blocks a).lineage)) ∨
      parent ≠ noLineage ∧ ¬p.manager.Issued parent) {j : Nat} (entry : blocks[j]? = some b)
    (same : Unchanged p.manager q.manager b) : initial[k + j]? = some b := by
  induction blocks generalizing k parent j with
  | nil => simp at entry
  | cons c rest ih =>
      obtain ⟨page, matched⟩ := matched
      rw [List.length_cons] at few
      rw [List.forall_mem_cons] at indexed
      have extend {r : BlockId} (bound : r < p.manager.numBlocks) (published : (p.manager.blocks r).published)
          (hash : (p.manager.blocks r).hash = (q.manager.blocks c).hash)
          (link : (p.manager.blocks r).link = (q.manager.blocks c).link)
          (owner : p.manager.hashToBlockId (p.manager.blocks r).hash = some r) :
          ∃ front, front.length = k ∧ front ++ [r] <+: initial := by
        have old := page.transfer since.size bound published hash link
        exact h.reaches member cached table found plan known old owner (by omega)
      have next (r : BlockId) (lineage : (q.manager.blocks c).lineage = (p.manager.blocks r).lineage)
          (reaches : ∃ front, front.length = k ∧ front ++ [r] <+: initial) :
          ∃ front, front.length = k + 1 ∧ front <+: initial ∧
            (q.manager.blocks c).lineage = front.getLast?.elim noLineage (fun a => (p.manager.blocks a).lineage) := by
        obtain ⟨front, length, starts⟩ := reaches
        exact ⟨front ++ [r], by simp [length], starts, by simp [lineage]⟩
      by_cases unchanged : Unchanged p.manager q.manager c
      case pos =>
        have content := Block.content_eq (since.kept c unchanged)
        obtain ⟨-, hash, lineage, above, tokens⟩ := content
        have link : (p.manager.blocks c).link = (q.manager.blocks c).link := by
          rw [Block.link, Block.link, lineage, above, tokens]
        have reaches := extend (since.count ▸ page.bound) unchanged.1 hash.symm link
          (by rw [← hash]; exact since.index _ c indexed.1 unchanged)
        cases j with
        | zero =>
            rw [List.getElem?_cons_zero, Option.some.injEq] at entry
            subst entry
            obtain ⟨front, length, more, split⟩ := reaches
            rw [← split, Nat.add_zero, ← length]
            simp
        | succ j =>
            have later := ih matched indexed.2 (by omega) (.inl (next c lineage reaches)) (by simpa using entry)
            rwa [Nat.add_assoc, Nat.add_comm 1] at later
      case neg =>
        have known' : (∃ front, front.length = k + 1 ∧ front <+: initial ∧ (q.manager.blocks c).lineage =
              front.getLast?.elim noLineage (fun a => (p.manager.blocks a).lineage)) ∨
            (q.manager.blocks c).lineage ≠ noLineage ∧ ¬p.manager.Issued (q.manager.blocks c).lineage := by
          rcases since.lineage c page.published unchanged with new | ⟨r, owner, link⟩
          · refine .inr ⟨fun root => ?_, new⟩
            have issued := (h'.index.issued c page.bound page.published).ne_noLineage
            rw [root] at issued
            exact issued.1 rfl
          · obtain ⟨bound, hash, published⟩ := h.index.indexed _ r owner
            refine .inl (next r (congrArg Naming.Link.identity link).symm (extend bound published hash link ?_))
            rw [hash]
            exact owner
        cases j with
        | zero =>
            rw [List.getElem?_cons_zero, Option.some.injEq] at entry
            subst entry
            exact absurd same unchanged
        | succ j =>
            have later := ih matched indexed.2 (by omega) known' (by simpa using entry)
            rwa [Nat.add_assoc, Nat.add_comm 1] at later

end Lookup

end NanoVllm
