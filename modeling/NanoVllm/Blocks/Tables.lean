import NanoVllm.Blocks.Lineage

set_option autoImplicit false

namespace NanoVllm

open Python Naming

-- The lineage of the page before position `k` of a block table.
def BlockManager.lineageBefore (m : BlockManager) (table : List BlockId) : Nat → Int × Int
  | 0 => noLineage
  | k + 1 => match table[k]? with
    | some b => (m.blocks b).lineage
    | none => noLineage

structure PageLink (m : BlockManager) (seq : Sequence) (k : Nat) (b : BlockId) : Prop where
  hash : seq.blockHashes[k]? = some (m.blocks b).hash
  tokens : (m.blocks b).tokenIds = slice seq.tokenIds (k * m.blockSize) ((k + 1) * m.blockSize)
  parent : (m.blocks b).parent = m.lineageBefore seq.blockTable k
  before : ∀ a, 0 < k → seq.blockTable[k - 1]? = some a → (m.blocks a).published

def Linked (m : BlockManager) (seq : Sequence) : Prop :=
  ∀ k b, seq.blockTable[k]? = some b → (m.blocks b).published → PageLink m seq k b

namespace Linked

variable {m m' : BlockManager} {seq seq' : Sequence} {chain : Chain}

theorem lineageBefore_congr {table table' : List BlockId} {k : Nat}
    (entry : 0 < k → table'[k - 1]? = table[k - 1]?)
    (content : ∀ a, 0 < k → table[k - 1]? = some a → (m'.blocks a).content = (m.blocks a).content) :
    m'.lineageBefore table' k = m.lineageBefore table k := by
  cases k with
  | zero => rfl
  | succ k =>
      have same : table'[k]? = table[k]? := entry (by omega)
      simp only [BlockManager.lineageBefore, same]
      cases found : table[k]? with
      | none => rfl
      | some a => exact (Block.content_eq (content a (by omega) found)).2.2.1

theorem page_congr {k : Nat} {b : BlockId} (link : PageLink m seq k b)
    (size : m'.blockSize = m.blockSize)
    (hash : seq'.blockHashes[k]? = seq.blockHashes[k]?)
    (tokens : slice seq'.tokenIds (k * m.blockSize) ((k + 1) * m.blockSize) =
      slice seq.tokenIds (k * m.blockSize) ((k + 1) * m.blockSize))
    (entry : 0 < k → seq'.blockTable[k - 1]? = seq.blockTable[k - 1]?)
    (content : ∀ a, 0 < k → seq.blockTable[k - 1]? = some a → (m'.blocks a).content = (m.blocks a).content)
    (self : (m'.blocks b).content = (m.blocks b).content) : PageLink m' seq' k b where
  hash := by rw [hash, link.hash, (Block.content_eq self).2.1]
  tokens := by rw [(Block.content_eq self).2.2.2.2, link.tokens, size, tokens]
  parent := by
    rw [(Block.content_eq self).2.2.2.1, link.parent]
    exact (lineageBefore_congr entry content).symm
  before a positive found := by
    rw [entry positive] at found
    have published := link.before a positive found
    rwa [Block.published, (Block.content_eq (content a positive found)).2.1]

theorem frame (h : Linked m seq) (size : m'.blockSize = m.blockSize)
    (content : ∀ a ∈ seq.blockTable, (m'.blocks a).content = (m.blocks a).content) : Linked m' seq := by
  intro k b entry published
  have self := content b (List.mem_of_getElem? entry)
  rw [Block.published, (Block.content_eq self).2.1] at published
  exact page_congr (h k b entry published) size rfl rfl (fun _ => rfl)
    (fun a _ before => content a (List.mem_of_getElem? before)) self

theorem nil (empty : seq.blockTable = []) : Linked m seq := by
  intro k b entry
  simp [empty] at entry

theorem extend (h : Linked m seq) (whole : ∀ b ∈ seq.blockTable, (m.blocks b).published →
      (m.blocks b).tokenIds.length = m.blockSize) (positive : 0 < m.blockSize)
    (table : seq'.blockTable = seq.blockTable) (tokens : seq.tokenIds <+: seq'.tokenIds)
    (hashes : seq.blockHashes <+: seq'.blockHashes) : Linked m seq' := by
  intro k b entry published
  rw [table] at entry
  have link := h k b entry published
  obtain ⟨moreTokens, tokens⟩ := tokens
  obtain ⟨moreHashes, hashes⟩ := hashes
  have within : (k + 1) * m.blockSize ≤ seq.tokenIds.length := by
    apply le_length_of_slice positive
    rw [← link.tokens]
    exact whole b (List.mem_of_getElem? entry) published
  refine page_congr link rfl ?_ ?_ (by simp [table]) (fun _ _ _ => rfl) rfl
  · have inside := (List.getElem?_eq_some_iff.mp link.hash).1
    rw [← hashes, List.getElem?_append_left inside]
  · rw [← tokens, slice_append within]

theorem published_before (h : Linked m seq) {k : Nat} {b : BlockId} (entry : seq.blockTable[k]? = some b)
    (published : (m.blocks b).published) {j : Nat} (le : j ≤ k) :
    ∃ a, seq.blockTable[j]? = some a ∧ (m.blocks a).published := by
  induction k generalizing b with
  | zero =>
      have : j = 0 := by omega
      exact ⟨b, this ▸ entry, published⟩
  | succ k ih =>
      by_cases last : j = k + 1
      · exact ⟨b, last ▸ entry, published⟩
      · have inside := (List.getElem?_eq_some_iff.mp entry).1
        have previous : seq.blockTable[k]? = some seq.blockTable[k] := List.getElem?_eq_getElem (by omega)
        have link := h (k + 1) b entry published
        exact ih previous (link.before _ (by omega) previous) (by omega)

theorem chain_eq (h : Linked m seq) (index : Index m chain)
    (bound : ∀ b ∈ seq.blockTable, b < m.numBlocks) {k : Nat} {b : BlockId}
    (entry : seq.blockTable[k]? = some b) (published : (m.blocks b).published) :
    chain (m.blocks b).lineage = seq.tokenIds.take ((k + 1) * m.blockSize) := by
  let links := fun j => (m.blocks (seq.blockTable.getD j 0)).link
  have page (j : Nat) (le : j ≤ k) : ∃ a, seq.blockTable[j]? = some a ∧ seq.blockTable.getD j 0 = a ∧
      a < m.numBlocks ∧ (m.blocks a).published ∧ PageLink m seq j a := by
    obtain ⟨a, at', live⟩ := h.published_before entry published le
    refine ⟨a, at', by simp [at'], bound a (List.mem_of_getElem? at'), live, h j a at' live⟩
  have named (j : Nat) (le : j ≤ k) : Names chain (links j) := by
    obtain ⟨a, -, same, within, live, -⟩ := page j le
    simp only [links, same]
    exact index.named a within live
  have first : (links 0).parent = noLineage := by
    obtain ⟨a, -, same, -, -, link⟩ := page 0 (by omega)
    simp only [links, same]
    exact link.parent
  have next (j : Nat) (lt : j < k) : (links (j + 1)).parent = (links j).identity := by
    obtain ⟨a, at', same, -, -, -⟩ := page j (by omega)
    obtain ⟨a', -, same', -, -, link⟩ := page (j + 1) (by omega)
    simp only [links, same, same']
    have parent := link.parent
    rw [BlockManager.lineageBefore, at'] at parent
    exact parent
  have whole := chain_of_linked links k named index.root_empty first next
  have self : links k = (m.blocks b).link := by simp [links, entry]
  rw [self] at whole
  refine whole.trans ?_
  clear whole self named first next entry published
  induction k with
  | zero =>
      obtain ⟨a, at', -, -, -, link⟩ := page 0 (by omega)
      simp [links, at', Block.link, link.tokens, slice]
  | succ k ih =>
      rw [List.range_succ, List.flatMap_append, ih (fun j le => page j (by omega))]
      obtain ⟨a, -, same, -, -, link⟩ := page (k + 1) (by omega)
      simp only [List.flatMap_cons, List.flatMap_nil, List.append_nil, links, same, Block.link, link.tokens]
      exact take_append_slice (Nat.mul_le_mul_right _ (by omega))

end Linked

/-- The block tables: published pages belong to the sequences that hold them, and an
unpublished page has one holder. -/
structure Tables (p : Pool) (ids : Finset SeqId) : Prop where
  linked : ∀ i ∈ ids, Linked p.manager (p.seqs i)
  owner : ∀ i ∈ ids, ∀ j ∈ ids, ∀ b, b ∈ (p.seqs i).blockTable → b ∈ (p.seqs j).blockTable →
    ¬(p.manager.blocks b).published → i = j

namespace Tables

variable {p : Pool} {ids : Finset SeqId} {i : SeqId} {b : BlockId} {chain : Chain}

/-- What an operation on sequence `i` has to show: the other sequences keep their pages' content,
`i` is linked, and `i` alone holds the unpublished pages that it holds. -/
theorem store (h : Tables p ids) {f : Frame} (size : f.manager.blockSize = p.manager.blockSize)
    (content : ∀ j ∈ ids, j ≠ i → ∀ a ∈ (p.seqs j).blockTable,
      (f.manager.blocks a).content = (p.manager.blocks a).content)
    (linked : i ∈ ids → Linked f.manager f.seq)
    (alone : ∀ j ∈ ids, j ≠ i → ∀ a ∈ f.seq.blockTable, ¬(f.manager.blocks a).published →
      a ∉ (p.seqs j).blockTable) : Tables (p.store i f) ids := by
  constructor
  case linked =>
    intro j member
    by_cases self : j = i
    next =>
      subst self
      simpa using linked member
    next =>
      rw [p.store_seqs_of_ne f self]
      exact (h.linked j member).frame size (content j member self)
  case owner =>
    intro j memberJ k memberK a heldJ heldK unpublished
    by_contra different
    by_cases selfJ : j = i
    next =>
      subst selfJ
      rw [p.store_seqs_of_ne f (Ne.symm different)] at heldK
      rw [p.store_seqs_self] at heldJ
      exact alone k memberK (Ne.symm different) a heldJ unpublished heldK
    next =>
      rw [p.store_seqs_of_ne f selfJ] at heldJ
      by_cases selfK : k = i
      next =>
        subst selfK
        rw [p.store_seqs_self] at heldK
        exact alone j memberJ selfJ a heldK unpublished heldJ
      next =>
        rw [p.store_seqs_of_ne f selfK] at heldK
        have same := content j memberJ selfJ a heldJ
        rw [Pool.store_manager, Block.published, (Block.content_eq same).2.1] at unpublished
        exact different (h.owner j memberJ k memberK a heldJ heldK unpublished)

theorem relabel (h : Tables p ids) (seq : Sequence) (table : seq.blockTable = (p.seqs i).blockTable)
    (linked : i ∈ ids → Linked p.manager seq) (member : i ∈ ids) :
    Tables (p.store i ⟨p.manager, seq⟩) ids := by
  refine h.store rfl (fun _ _ _ _ _ => rfl) linked ?_
  intro j memberJ other a held unpublished heldJ
  rw [table] at held
  exact other (h.owner j memberJ i member a heldJ held unpublished)

theorem grow (h : Tables p ids) (accounting : Accounting p ids) (member : i ∈ ids)
    (free : b ∈ p.manager.freeBlockIds) : Tables (p.store i ((p.frame i).grow b)) ids := by
  have absent {j : SeqId} (memberJ : j ∈ ids) : b ∉ (p.seqs j).blockTable :=
    accounting.free_not_held free memberJ
  have content (j : SeqId) (memberJ : j ∈ ids) (a : BlockId) (held : a ∈ (p.seqs j).blockTable) :
      (p.manager.acquire b).blocks a = p.manager.blocks a := by
    have other : a ≠ b := fun same => absent memberJ (same ▸ held)
    simp [Function.update_of_ne other]
  refine h.store rfl (fun j memberJ _ a held => congrArg _ (content j memberJ a held)) ?_ ?_
  · intro _ k a entry published
    have other : a ≠ b := by
      rintro rfl
      simp [Frame.grow, Pool.frame, Block.published, Block.reset] at published
    have old : (p.seqs i).blockTable[k]? = some a := by
      simp only [Frame.grow, Pool.frame, List.getElem?_append] at entry
      split at entry
      · exact entry
      · exact absurd (List.mem_of_getElem? entry) (by simp [other])
    have inside := (List.getElem?_eq_some_iff.mp old).1
    have held := List.mem_of_getElem? old
    have same := content i member a held
    simp only [Frame.grow, Pool.frame] at published ⊢
    rw [same] at published
    refine Linked.page_congr (h.linked i member k a old published) rfl rfl rfl ?_
      (fun a' _ before => congrArg _ (content i member a' (List.mem_of_getElem? before))) (congrArg _ same)
    intro positive
    exact List.getElem?_append_left (by omega)
  · intro j memberJ other a held unpublished heldJ
    simp only [Frame.grow, Pool.frame, List.mem_append, List.mem_singleton] at held unpublished
    rcases held with old | rfl
    · rw [content i member a old] at unpublished
      exact other (h.owner j memberJ i member a heldJ old unpublished)
    · exact absent memberJ heldJ

theorem share (h : Tables p ids) (member : i ∈ ids) (published : (p.manager.blocks b).published)
    (link : PageLink p.manager (p.seqs i) (p.seqs i).blockTable.length b) :
    Tables (p.store i ((p.frame i).share b)) ids := by
  have content := p.manager.share_content b
  have size := p.manager.share_blockSize b
  refine h.store size (fun _ _ _ a _ => content a) ?_ ?_
  · intro _ k a entry live
    simp only [Frame.share, Pool.frame] at entry live ⊢
    by_cases old : k < (p.seqs i).blockTable.length
    next =>
      rw [List.getElem?_append_left old] at entry
      rw [Block.published, (Block.content_eq (content a)).2.1] at live
      refine Linked.page_congr (h.linked i member k a entry live) size rfl rfl ?_
        (fun a' _ _ => content a') (content a)
      intro positive
      exact List.getElem?_append_left (by omega)
    next =>
      have inside := (List.getElem?_eq_some_iff.mp entry).1
      simp only [List.length_append, List.length_singleton] at inside
      have last : k = (p.seqs i).blockTable.length := by omega
      subst last
      simp only [List.getElem?_concat_length, Option.some.injEq] at entry
      subst entry
      refine Linked.page_congr link size rfl rfl ?_ (fun a' _ _ => content a') (content b)
      intro positive
      exact List.getElem?_append_left (by omega)
  · intro j memberJ other a held unpublished heldJ
    simp only [Frame.share, Pool.frame, List.mem_append, List.mem_singleton] at held unpublished
    rw [Block.published, (Block.content_eq (content a)).2.1] at unpublished
    rcases held with old | rfl
    · exact other (h.owner j memberJ i member a heldJ old unpublished)
    · exact unpublished published

theorem release (h : Tables p ids) (member : i ∈ ids) (b : BlockId) {seq : Sequence}
    (table : seq.blockTable <+: (p.seqs i).blockTable) (tokens : seq.tokenIds = (p.seqs i).tokenIds)
    (hashes : seq.blockHashes = (p.seqs i).blockHashes) :
    Tables (p.store i ⟨p.manager.release b, seq⟩) ids := by
  have content := p.manager.release_content b
  have size := p.manager.release_blockSize b
  refine h.store size (fun _ _ _ a _ => content a) ?_ ?_
  · intro _ k a entry live
    obtain ⟨dropped, table⟩ := table
    have inside : k < seq.blockTable.length := (List.getElem?_eq_some_iff.mp entry).1
    have old : (p.seqs i).blockTable[k]? = some a := by
      rw [← table, List.getElem?_append_left inside]
      exact entry
    simp only [Block.published, (Block.content_eq (content a)).2.1] at live
    refine Linked.page_congr (h.linked i member k a old live) size (by rw [hashes]) (by rw [tokens]) ?_
      (fun a' _ _ => content a') (content a)
    intro positive
    have before : k - 1 < seq.blockTable.length := by omega
    rw [← table, List.getElem?_append_left before]
  · intro j memberJ other a held unpublished heldJ
    simp only [Block.published, (Block.content_eq (content a)).2.1] at unpublished
    exact other (h.owner j memberJ i member a heldJ (table.subset held) unpublished)

theorem publish (h : Tables p ids) (member : i ∈ ids) (nodup : (p.seqs i).blockTable.Nodup) {k : Nat}
    (entry : (p.seqs i).blockTable[k]? = some b) (unpublished : ¬(p.manager.blocks b).published)
    {blockHash : Int} (hash : (p.seqs i).blockHashes[k]? = some blockHash)
    (before : ∀ a, 0 < k → (p.seqs i).blockTable[k - 1]? = some a → (p.manager.blocks a).published) :
    Tables ⟨p.manager.publishFullBlock b blockHash
      (slice (p.seqs i).tokenIds (k * p.manager.blockSize) ((k + 1) * p.manager.blockSize))
      (p.manager.lineageBefore (p.seqs i).blockTable k), p.seqs⟩ ids := by
  set m' := p.manager.publishFullBlock b blockHash
    (slice (p.seqs i).tokenIds (k * p.manager.blockSize) ((k + 1) * p.manager.blockSize))
    (p.manager.lineageBefore (p.seqs i).blockTable k) with hm'
  have held := List.mem_of_getElem? entry
  have other (a : BlockId) (ne : a ≠ b) : m'.blocks a = p.manager.blocks a := by
    simp [hm', Function.update_of_ne ne]
  have elsewhere (j : SeqId) (memberJ : j ∈ ids) (ne : j ≠ i) : b ∉ (p.seqs j).blockTable :=
    fun heldJ => ne (h.owner j memberJ i member b heldJ held unpublished)
  have whole : (⟨m', p.seqs⟩ : Pool) = p.store i ⟨m', p.seqs i⟩ := by
    simp [Pool.store]
  rw [whole]
  refine h.store rfl ?_ ?_ ?_
  · intro j memberJ ne a heldA
    have apart : a ≠ b := fun same => elsewhere j memberJ ne (same ▸ heldA)
    exact congrArg _ (other a apart)
  · intro _ k' a entryA live
    simp only at entryA live ⊢
    by_cases self : a = b
    next =>
      subst self
      have same : k' = k := (List.Nodup.getElem_inj_iff nodup).mp (by
        rw [(List.getElem?_eq_some_iff.mp entryA).2, (List.getElem?_eq_some_iff.mp entry).2])
      subst same
      have predecessor (c : BlockId) (positive : 0 < k') (found : (p.seqs i).blockTable[k' - 1]? = some c) :
          c ≠ a := fun again => unpublished (again ▸ before c positive found)
      constructor
      · simpa [hm', Block.update] using hash
      · simp [hm', Block.update]
      · have parent : (m'.blocks a).parent = p.manager.lineageBefore (p.seqs i).blockTable k' := by
          simp [hm', Block.update, Block.parent]
        rw [parent]
        exact (Linked.lineageBefore_congr (fun _ => rfl)
          (fun c positive found => congrArg _ (other c (predecessor c positive found)))).symm
      · intro c positive found
        rw [other c (predecessor c positive found)]
        exact before c positive found
    next =>
      rw [other a self] at live
      have link := h.linked i member k' a entryA live
      refine Linked.page_congr link rfl rfl rfl (fun _ => rfl) ?_ (congrArg _ (other a self))
      intro c positive found
      have apart : c ≠ b := fun same => unpublished (same ▸ link.before c positive found)
      exact congrArg _ (other c apart)
  · intro j memberJ ne a heldA unpublishedA heldJ
    simp only at heldA unpublishedA
    by_cases self : a = b
    next => exact elsewhere j memberJ ne (self ▸ heldJ)
    next =>
      rw [other a self] at unpublishedA
      exact ne (h.owner j memberJ i member a heldJ heldA unpublishedA)

end Tables

end NanoVllm
