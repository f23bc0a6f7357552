import NanoVllm.Blocks.Exclusive
import NanoVllm.Blocks.Findable

set_option autoImplicit false

namespace NanoVllm

open Python Raising Naming

def Cached (xxh64 : XxHash) (p : Pool) (ids : Finset SeqId) : Prop :=
  ∃ chain, Held p ids chain ∧ Findable xxh64 p ids chain

namespace BlockManager

-- The loop of `allocate_new` or `may_append` spares the index in every turn that appends a page.
def Spared (body : Nat → Method Unit) (offsets : List Nat) (f : Frame) : Prop :=
  ∀ e ∈ turns body offsets f, e.2.seq.blockTable[e.1 / e.2.manager.blockSize]? = none → e.2.manager.Spares

instance (body : Nat → Method Unit) (offsets : List Nat) (f : Frame) : Decidable (Spared body offsets f) :=
  inferInstanceAs (Decidable (∀ e ∈ turns body offsets f, _))

end BlockManager

section Release

variable {p : Pool} {ids : Finset SeqId} {chain : Chain} {i : SeqId}

theorem Held.release_ordered (h : Held p ids chain) (ordered : p.manager.Ordered) (member : i ∈ ids)
    {front : List BlockId} {b : BlockId} (table : (p.seqs i).blockTable = front ++ [b]) :
    (p.manager.release b).Ordered := by
  have content := p.manager.release_content b
  have count := p.manager.release_numBlocks b
  by_cases last : (p.manager.blocks b).refCount = 1
  · have free : (p.manager.release b).freeBlockIds = p.manager.freeBlockIds ++ [b] := by
      unfold BlockManager.release
      dsimp only
      rw [if_pos last]
    have listed : b ∈ (p.seqs i).blockTable := by
      rw [table]
      exact List.mem_append_right front (List.mem_singleton_self b)
    have busy := h.accounting.held_not_free member listed
    have carried {a : BlockId} {parent : Int × Int} (within : a < p.manager.numBlocks)
        (live : (p.manager.blocks a).published) (lineage : (p.manager.blocks a).lineage = parent)
        {c : BlockId} (after : ¬[a, c].Sublist (p.manager.freeBlockIds ++ [b])) :
        ∃ a < (p.manager.release b).numBlocks, ((p.manager.release b).blocks a).published ∧
          ((p.manager.release b).blocks a).lineage = parent ∧ ¬[a, c].Sublist (p.manager.release b).freeBlockIds := by
      refine ⟨a, by rw [count]; exact within, ?_, ?_, by rw [free]; exact after⟩
      · rw [Block.published, (Block.content_eq (content a)).2.1]
        exact live
      · rw [(Block.content_eq (content a)).2.2.1]
        exact lineage
    intro c waits published
    rw [free] at waits
    rw [Block.published, (Block.content_eq (content c)).2.1] at published
    rw [(Block.content_eq (content c)).2.2.2.1]
    rcases List.mem_append.mp waits with old | new
    · rcases ordered c old published with root | ⟨a, within, live, lineage, after⟩
      · exact Or.inl root
      · refine Or.inr (carried within live lineage (fun before => after ?_))
        rcases List.sublist_append_iff.mp before with ⟨xs, ys, split, first, second⟩
        rcases List.sublist_singleton.mp second with rfl | rfl
        · rw [List.append_nil] at split
          rwa [split]
        · have self : c = b := by
            have lasts := congrArg List.getLast? split
            rw [List.getLast?_concat] at lasts
            exact Option.some.inj lasts
          exact absurd (self ▸ old) busy
    · have self := List.mem_singleton.mp new
      subst self
      have entry : (p.seqs i).blockTable[front.length]? = some c := by
        rw [table]
        exact List.getElem?_concat_length
      have link := h.tables.linked i member front.length c entry published
      rw [link.parent]
      cases shape : front.length with
      | zero => exact Or.inl rfl
      | succ k =>
          have inside := (List.getElem?_eq_some_iff.mp entry).1
          have before : (p.seqs i).blockTable[k]? = some (p.seqs i).blockTable[k] :=
            List.getElem?_eq_getElem (by omega)
          have held := List.mem_of_getElem? before
          rw [BlockManager.lineageBefore, before]
          refine Or.inr (carried (h.accounting.table_lt i member _ held) (link.before _ (by omega) ?_) rfl ?_)
          · rw [shape]
            exact before
          · intro again
            rcases List.sublist_append_iff.mp again with ⟨xs, ys, split, first, second⟩
            have busy' := h.accounting.held_not_free member held
            cases xs with
            | nil =>
                rw [List.nil_append] at split
                have short := second.length_le
                rw [← split] at short
                simp at short
            | cons x xs =>
                rw [List.cons_append, List.cons.injEq] at split
                exact busy' (first.subset (by rw [split.1]; exact List.mem_cons_self))
  · refine ordered.recount count content ?_
    unfold BlockManager.release
    dsimp only
    rw [if_neg last]

theorem Held.releaseAll_ordered (h : Held p ids chain) (ordered : p.manager.Ordered) (member : i ∈ ids)
    (pages : List BlockId) {seq : Sequence} {f : Frame} (table : (p.seqs i).blockTable = pages.reverse)
    (run : forEach (fun b => BlockManager.onManager (BlockManager.releaseBlock b)) pages ⟨p.manager, seq⟩ = .ok () f) :
    f.manager.Ordered := by
  induction pages generalizing p with
  | nil =>
      cases run
      exact ordered
  | cons b rest ih =>
      rw [List.reverse_cons] at table
      have held : b ∈ (p.seqs i).blockTable := by simp [table]
      have turn : BlockManager.onManager (BlockManager.releaseBlock b) ⟨p.manager, seq⟩ =
          .ok () ⟨p.manager.release b, seq⟩ :=
        BlockManager.onManager_ok (BlockManager.releaseBlock_run (h.accounting.table_lt i member b held)
          (h.accounting.held_used member held))
      obtain ⟨⟨⟩, g, first, run⟩ := run_bind_ok run
      cases turn.symm.trans first
      exact ih (h.release member table) (h.release_ordered ordered member table) (by simp) run

end Release

-- Page `k` was reached, and perhaps published.
def Frame.Paged (f f' : Frame) (k : Nat) : Prop :=
  f' = f.reach k ∨ (∃ blockHash, f.seq.blockHashes[k]? = some blockHash) ∧ f' = (f.reach k).publishPage k

section Page

variable {p : Pool} {ids : Finset SeqId} {chain : Chain} {i : SeqId} {k contextEnd : Nat} {f : Frame}

theorem Held.mayAppendPage_ok (h : Held p ids chain) (member : i ∈ ids)
    (run : BlockManager.mayAppendPage (k * p.manager.blockSize) (p.frame i) = .ok () f) :
    (p.frame i).Paged f k := by
  have positive := h.size_pos
  have ready := h.mayAppendPage_ready run
  have parent := h.lineageBefore_ok member ready
  have index : k * p.manager.blockSize / p.manager.blockSize = k := Nat.mul_div_cancel _ positive
  have next : (k + 1) * p.manager.blockSize = k * p.manager.blockSize + p.manager.blockSize := by
    rw [Nat.add_mul, Nat.one_mul]
  have whole (full : (slice (p.seqs i).tokenIds (k * p.manager.blockSize) (min (k * p.manager.blockSize +
      p.manager.blockSize) ((p.seqs i).numCachedTokens + (p.seqs i).numNewTokens))).length = p.manager.blockSize) :
      (k + 1) * p.manager.blockSize ≤ (p.seqs i).numCachedTokens + (p.seqs i).numNewTokens := by
    rw [length_slice] at full
    omega
  simp only [BlockManager.mayAppendPage, run_get_bind, Pool.frame, index] at run
  rw [run_ofExcept_bind parent] at run
  cases current : (p.seqs i).blockTable[k]? with
  | some b =>
      have inside := (List.getElem?_eq_some_iff.mp current).1
      have reached : (p.frame i).reach k = p.frame i := if_pos inside
      simp only [current] at run
      obtain ⟨block, -, run⟩ := run_ofExcept_ok run
      obtain ⟨-, run⟩ := run_require_ok run
      split at run
      next full =>
        obtain ⟨blockHash, found, run⟩ := run_ofExcept_ok run
        have entry := BlockManager.blockHash_entry found
        cases run
        refine Or.inr ⟨⟨blockHash, entry⟩, ?_⟩
        rw [reached]
        simp only [Frame.publishPage, Pool.frame, current, entry, pageTokens_whole (whole full)]
      next =>
        cases run
        exact Or.inl reached.symm
  | none =>
      have last : k = (p.seqs i).blockTable.length := by
        have := List.getElem?_eq_none_iff.mp current
        have := ready.reached
        omega
      obtain ⟨b, rest, first⟩ := List.exists_cons_of_ne_nil (ready.room last)
      have free : b ∈ p.manager.freeBlockIds := by simp [first]
      have append : BlockManager.appendFreeBlock ⟨p.manager, p.seqs i⟩ = .ok b ((p.frame i).grow b) :=
        BlockManager.appendFreeBlock_run (f := p.frame i) first (h.accounting.free_lt b free)
          (h.accounting.free_refs free)
      have outside : ¬k < (p.seqs i).blockTable.length := by omega
      have reached : (p.frame i).reach k = (p.frame i).grow b := by
        simp only [Frame.reach, Pool.frame, if_neg outside, first]
      simp only [current] at run
      split at run
      next full =>
        obtain ⟨blockHash, found, run⟩ := run_ofExcept_ok run
        have entry := BlockManager.blockHash_entry found
        rw [bind_ok append] at run
        cases run
        have grown := h.lineageBefore_grow member free ready.reached
        have entry' : ((p.seqs i).blockTable ++ [b])[k]? = some b := by simp [last]
        refine Or.inr ⟨⟨blockHash, entry⟩, ?_⟩
        rw [reached]
        simp only [Frame.publishPage, Frame.grow, Pool.frame, entry, entry', grown, pageTokens_whole (whole full),
          BlockManager.acquire_blockSize]
      next =>
        rw [bind_ok append] at run
        cases run
        exact Or.inl reached.symm

theorem Held.allocateNewPage_ready (last : k = (p.seqs i).blockTable.length)
    (run : BlockManager.allocateNewPage contextEnd (k * p.manager.blockSize) (p.frame i) = .ok () f) :
    PageReady p.manager (p.seqs i) k := by
  simp only [BlockManager.allocateNewPage, run_get_bind, Pool.frame] at run
  obtain ⟨parent, known, run⟩ := run_ofExcept_ok run
  have some' : p.manager.freeBlockIds ≠ [] := by
    intro empty
    have none' : p.manager.firstFree = .error (.indexError "deque index out of range") := by
      rw [BlockManager.firstFree, empty]
    split at run
    next =>
      obtain ⟨_, -, run⟩ := run_ofExcept_ok run
      obtain ⟨_, first, -⟩ := run_ofExcept_ok run
      rw [none'] at first
      cases first
    next =>
      obtain ⟨_, _, appended, -⟩ := run_bind_ok run
      simp only [BlockManager.appendFreeBlock, run_get_bind] at appended
      obtain ⟨_, first, -⟩ := run_ofExcept_ok appended
      rw [none'] at first
      cases first
  refine ⟨last.le, fun a positive entry => ?_, fun b entry => ?_, fun _ => some'⟩
  · rw [last, ← List.getLast?_eq_getElem?] at entry
    rw [entry] at known
    exact (BlockManager.published_of_lineage known).2.1
  · rw [last, List.getElem?_eq_none (Nat.le_refl _)] at entry
    cases entry

end Page

namespace Cached

variable {xxh64 : XxHash} {p : Pool} {ids : Finset SeqId} {i : SeqId} {k : Nat} {f : Frame}

/-- A pool that was reached from `p` with the same tokens in its sequences. -/
structure Follows (xxh64 : XxHash) (p p' : Pool) (ids : Finset SeqId) : Prop where
  cached : Cached xxh64 p' ids
  size : p'.manager.blockSize = p.manager.blockSize
  tokens : ∀ j, (p'.seqs j).tokenIds = (p.seqs j).tokenIds

theorem Follows.trans {p' p'' : Pool} (h : Follows xxh64 p p' ids) (h' : Follows xxh64 p' p'' ids) :
    Follows xxh64 p p'' ids :=
  ⟨h'.cached, h'.size.trans h.size, fun j => (h'.tokens j).trans (h.tokens j)⟩

theorem Follows.distinct {p' : Pool} (h : Follows xxh64 p p' ids)
    (distinct : Distinct xxh64 p.manager.blockSize p.seqs ids) :
    Distinct xxh64 p'.manager.blockSize p'.seqs ids := by
  rw [h.size]
  refine distinct.mono (Finset.Subset.refl ids) (fun j _ => ?_)
  rw [h.tokens j]

theorem init {numBlocks blockSize : Nat} {m : BlockManager} (made : BlockManager.init numBlocks blockSize = .ok m)
    (seqs : SeqId → Sequence) : Cached xxh64 ⟨m, seqs⟩ ∅ := by
  refine ⟨_, Held.init made seqs, ?_⟩
  obtain ⟨_, -, value⟩ := except_bind_ok made
  rw [except_pure_ok] at value
  subst value
  have blank (b : BlockId) : ¬(Block.init b).published := by simp [Block.published, Block.init]
  constructor
  case indexed => exact fun b _ published => absurd published (blank b)
  case ordered => exact fun b _ published => absurd published (blank b)
  case sourced => exact fun b _ published => absurd published (blank b)
  case hashed => simp

theorem enter (h : Cached xxh64 p ids) (absent : i ∉ ids) {seq : Sequence} (wf : seq.Wf p.manager.blockSize)
    (table : seq.blockTable = []) (hashed : seq.Hashed xxh64) :
    Cached xxh64 (p.store i ⟨p.manager, seq⟩) (insert i ids) := by
  obtain ⟨chain, held, find⟩ := h
  have elsewhere {j : SeqId} (member : j ∈ ids) : (p.store i ⟨p.manager, seq⟩).seqs j = p.seqs j :=
    p.store_seqs_of_ne _ (fun same => absent (same ▸ member))
  refine ⟨chain, held.enter absent wf table, ?_⟩
  constructor
  case indexed => exact find.indexed
  case ordered => exact find.ordered
  case sourced =>
    intro b within published
    obtain ⟨j, member, k, fits, digest, named⟩ := find.sourced b within published
    refine ⟨j, Finset.mem_insert_of_mem member, k, ?_, ?_, ?_⟩
    · rw [elsewhere member]
      exact fits
    · rw [elsewhere member]
      exact digest
    · rw [elsewhere member]
      exact named
  case hashed =>
    intro j member
    rcases Finset.mem_insert.mp member with rfl | old
    · rw [Pool.store_seqs_self]
      exact hashed
    · rw [elsewhere old]
      exact find.hashed j old

theorem relabel (h : Cached xxh64 p ids) (member : i ∈ ids) {seq : Sequence} (wf : seq.Wf p.manager.blockSize)
    (table : seq.blockTable = (p.seqs i).blockTable) (tokens : (p.seqs i).tokenIds <+: seq.tokenIds)
    (hashes : (p.seqs i).blockHashes <+: seq.blockHashes) (hashed : seq.Hashed xxh64) :
    Cached xxh64 (p.store i ⟨p.manager, seq⟩) ids := by
  obtain ⟨chain, held, find⟩ := h
  refine ⟨chain, held.relabel member wf table tokens hashes, ?_⟩
  exact find.recount rfl rfl rfl (fun _ => rfl) find.ordered rfl tokens (fun _ => hashed)

theorem relabel_same (h : Cached xxh64 p ids) (member : i ∈ ids) {seq : Sequence} (wf : seq.Wf p.manager.blockSize)
    (table : seq.blockTable = (p.seqs i).blockTable) (block : seq.blockSize = (p.seqs i).blockSize)
    (tokens : seq.tokenIds = (p.seqs i).tokenIds) (hashes : seq.blockHashes = (p.seqs i).blockHashes) :
    Follows xxh64 p (p.store i ⟨p.manager, seq⟩) ids := by
  have hashed : (p.seqs i).Hashed xxh64 := by
    obtain ⟨chain, held, find⟩ := h
    exact find.hashed i member
  refine ⟨h.relabel member wf table (by rw [tokens]) (by rw [hashes]) (hashed.relabel block tokens hashes), rfl,
    fun j => ?_⟩
  by_cases self : j = i
  · subst self
    rw [Pool.store_seqs_self]
    exact tokens
  · rw [p.store_seqs_of_ne _ self]

theorem restatus (h : Cached xxh64 p ids) (status : SeqId → SequenceStatus) :
    Follows xxh64 p ⟨p.manager, fun i => { p.seqs i with status := status i }⟩ ids := by
  obtain ⟨chain, held, find⟩ := h
  refine ⟨⟨chain, ?_, ⟨find.indexed, find.ordered, find.sourced, find.hashed⟩⟩, rfl, fun _ => rfl⟩
  obtain ⟨accounting, index, tables, wf⟩ := held
  constructor
  case accounting =>
    obtain ⟨size, identity, nodup, lt, used, free, refs, once, inside⟩ := accounting
    exact ⟨size, identity, nodup, lt, used, free, refs, once, inside⟩
  case index => exact index
  case tables =>
    refine ⟨fun i member k b entry published => ?_, tables.owner⟩
    obtain ⟨hash, tokens, parent, before⟩ := tables.linked i member k b entry published
    exact ⟨hash, tokens, parent, before⟩
  case wf => exact fun i member => (wf i member).relabel rfl rfl rfl rfl rfl

theorem claimPrefix (h : Cached xxh64 p ids) (member : i ∈ ids) {blockIds : List BlockId}
    (run : BlockManager.claimPrefix blockIds (p.frame i) = .ok () f) : Follows xxh64 p (p.store i f) ids := by
  obtain ⟨chain, held, find⟩ := h
  have free := (BlockManager.claimPrefix_shared held.accounting.free_nodup run).2.1.free
  obtain ⟨p', same, claims⟩ := held.claimPrefix_ok member run
  have whole : p.store i f = p' := by rw [same, claims.store]
  rw [same] at free
  rw [whole]
  have ordered := find.ordered.recount claims.count claims.content free
  refine ⟨⟨chain, claims.held, ?_⟩, claims.size, fun j => ?_⟩
  · exact find.recount claims.size claims.count claims.index claims.content ordered claims.seqs List.prefix_rfl
      (fun _ => (find.hashed i member).relabel rfl rfl rfl)
  · rw [claims.seqs]
    by_cases self : j = i
    · subst self
      rw [Function.update_self]
    · rw [Function.update_of_ne self]

theorem deallocate (h : Cached xxh64 p ids) (member : i ∈ ids)
    (run : BlockManager.deallocate (p.frame i) = .ok () f) : Cached xxh64 (p.store i f) ids := by
  obtain ⟨chain, held, find⟩ := h
  have ordered : f.manager.Ordered := by
    simp only [BlockManager.deallocate, run_get_bind] at run
    obtain ⟨⟨⟩, -, run⟩ := run_ofExcept_ok run
    obtain ⟨⟨⟩, g, released, run⟩ := run_bind_ok run
    have ended := held.releaseAll_ordered find.ordered member _ (List.reverse_reverse _).symm released
    cases run
    exact ended
  obtain ⟨p', run', vacated⟩ := held.deallocate_run member
  have same : f = p'.frame i := by
    cases run.symm.trans run'
    rfl
  have whole : p.store i f = p' := by rw [same, vacated.store]
  rw [same] at ordered
  rw [whole]
  refine ⟨chain, vacated.held, ?_⟩
  exact find.recount vacated.size vacated.count vacated.index vacated.content ordered vacated.seqs List.prefix_rfl
    (fun _ => (find.hashed i member).relabel rfl rfl rfl)

theorem publishPage (h : Cached xxh64 p ids) (member : i ∈ ids)
    (distinct : Distinct xxh64 p.manager.blockSize p.seqs ids) {b : BlockId} {blockHash : Int}
    (entry : (p.seqs i).blockTable[k]? = some b) (unpublished : ¬(p.manager.blocks b).published)
    (before : ∀ a, 0 < k → (p.seqs i).blockTable[k - 1]? = some a → (p.manager.blocks a).published)
    (hash : (p.seqs i).blockHashes[k]? = some blockHash) :
    Cached xxh64 (p.store i ((p.frame i).publishPage k)) ids := by
  obtain ⟨chain, held, find⟩ := h
  have value : p.store i ((p.frame i).publishPage k) =
      ⟨p.manager.publishFullBlock b blockHash
        (slice (p.seqs i).tokenIds (k * p.manager.blockSize) ((k + 1) * p.manager.blockSize))
        (p.manager.lineageBefore (p.seqs i).blockTable k), p.seqs⟩ := by
    simp [Frame.publishPage, Pool.frame, Pool.store, entry, hash]
  rw [value]
  exact find.publish held distinct member entry unpublished hash before

theorem page (h : Cached xxh64 p ids) (member : i ∈ ids) (distinct : Distinct xxh64 p.manager.blockSize p.seqs ids)
    (ready : PageReady p.manager (p.seqs i) k) (spares : (p.seqs i).blockTable[k]? = none → p.manager.Spares) :
    Cached xxh64 (p.store i ((p.frame i).reach k)) ids ∧
      ∀ blockHash, (p.seqs i).blockHashes[k]? = some blockHash →
        Cached xxh64 (p.store i (((p.frame i).reach k).publishPage k)) ids := by
  by_cases inside : k < (p.seqs i).blockTable.length
  · have reached : (p.frame i).reach k = p.frame i := if_pos inside
    have entry : (p.seqs i).blockTable[k]? = some (p.seqs i).blockTable[k] := List.getElem?_eq_getElem inside
    rw [reached, Pool.store_frame]
    exact ⟨h, fun blockHash hash => h.publishPage member distinct entry (ready.current _ entry) ready.before hash⟩
  · have last : k = (p.seqs i).blockTable.length := by
      have reached := ready.reached
      omega
    have outside : (p.seqs i).blockTable[k]? = none := List.getElem?_eq_none (by omega)
    obtain ⟨b, rest, first⟩ := List.exists_cons_of_ne_nil (ready.room last)
    have reached : (p.frame i).reach k = (p.frame i).grow b := by
      simp only [Frame.reach, Pool.frame, if_neg inside, first]
    obtain ⟨chain, held, find⟩ := h
    have free : b ∈ p.manager.freeBlockIds := by simp [first]
    have grown : Cached xxh64 (p.store i ((p.frame i).grow b)) ids :=
      ⟨chain, held.grow member free, find.grow held (by rw [first]; rfl) (spares outside)⟩
    have self : (p.store i ((p.frame i).grow b)).seqs i =
        { p.seqs i with blockTable := (p.seqs i).blockTable ++ [b] } := p.store_seqs_self i _
    rw [reached]
    refine ⟨grown, fun blockHash hash => ?_⟩
    have distinct' : Distinct xxh64 p.manager.blockSize (p.store i ((p.frame i).grow b)).seqs ids := by
      refine distinct.mono (Finset.Subset.refl ids) (fun j _ => ?_)
      by_cases same : j = i
      · subst same
        rw [self]
      · rw [p.store_seqs_of_ne _ same]
    have published := grown.publishPage (k := k) (b := b) member distinct' ?_ ?_ ?_ (by rw [self]; exact hash)
    · rwa [Pool.frame_store, Pool.store_store] at published
    · rw [self, last]
      exact List.getElem?_concat_length
    · simp [Frame.grow, Pool.frame, Block.published, Block.reset]
    · intro a positive entry
      rw [self] at entry
      rw [List.getElem?_append_left (by omega)] at entry
      have other : a ≠ b := by
        rintro rfl
        exact held.accounting.free_not_held free member (List.mem_of_getElem? entry)
      change ((p.manager.acquire b).blocks a).published
      rw [BlockManager.acquire_blocks, Function.update_of_ne other]
      exact ready.before a positive entry

-- What the turns of a loop on sequence `i` keep, when the loop started in `p`.
def Turning (xxh64 : XxHash) (p : Pool) (ids : Finset SeqId) (i : SeqId) (f : Frame) : Prop :=
  Cached xxh64 (p.store i f) ids ∧ f.manager.blockSize = p.manager.blockSize ∧
    ∃ table, f.seq = { p.seqs i with blockTable := table }

theorem Turning.follows {f : Frame} (h : Turning xxh64 p ids i f) : Follows xxh64 p (p.store i f) ids := by
  obtain ⟨cached, size, table, seq⟩ := h
  refine ⟨cached, size, fun j => ?_⟩
  by_cases self : j = i
  · subst self
    rw [Pool.store_seqs_self, seq]
  · rw [p.store_seqs_of_ne _ self]

theorem reach_frame (f : Frame) : (f.reach k).manager.blockSize = f.manager.blockSize ∧
    ∃ table, (f.reach k).seq = { f.seq with blockTable := table } := by
  unfold Frame.reach
  split
  · exact ⟨rfl, _, rfl⟩
  · split
    · exact ⟨rfl, _, rfl⟩
    · exact ⟨rfl, _, rfl⟩

theorem publishPage_frame (f : Frame) : (f.publishPage k).manager.blockSize = f.manager.blockSize ∧
    (f.publishPage k).seq = f.seq := by
  unfold Frame.publishPage
  split
  · exact ⟨rfl, rfl⟩
  · exact ⟨rfl, rfl⟩

theorem Turning.page {f f' : Frame} (h : Turning xxh64 p ids i f) (member : i ∈ ids)
    (distinct : Distinct xxh64 p.manager.blockSize p.seqs ids) (ready : PageReady f.manager f.seq k)
    (spares : f.seq.blockTable[k]? = none → f.manager.Spares) (paged : f.Paged f' k) : Turning xxh64 p ids i f' := by
  have distinct' := h.follows.distinct distinct
  obtain ⟨cached, size, table, seq⟩ := h
  obtain ⟨reached, published⟩ := cached.page (k := k) member distinct' (by simpa using ready) (by simpa using spares)
  rw [Pool.frame_store, Pool.store_store] at reached
  rw [Pool.store_seqs_self] at published
  obtain ⟨size', table', seq'⟩ := @reach_frame k f
  have whole : (f.reach k).seq = { p.seqs i with blockTable := table' } := by
    rw [seq', seq]
  rcases paged with rfl | ⟨⟨blockHash, hash⟩, rfl⟩
  · exact ⟨reached, size'.trans size, table', whole⟩
  · have published' := published blockHash hash
    rw [Pool.frame_store, Pool.store_store] at published'
    obtain ⟨size'', seq''⟩ := @publishPage_frame k (f.reach k)
    exact ⟨published', (size''.trans size').trans size, table', seq''.trans whole⟩

theorem Turning.mayAppendPage {f f' : Frame} (h : Turning xxh64 p ids i f) (member : i ∈ ids)
    (run : BlockManager.mayAppendPage (k * p.manager.blockSize) f = .ok () f') :
    PageReady f.manager f.seq k ∧ f.Paged f' k := by
  obtain ⟨⟨chain, held, -⟩, size, -⟩ := h
  rw [← size, ← Pool.frame_store p i f] at run
  have ready := held.mayAppendPage_ready run
  have paged := held.mayAppendPage_ok member run
  rw [Pool.frame_store] at paged
  exact ⟨by simpa using ready, paged⟩

theorem reach_length {f : Frame} (last : k = f.seq.blockTable.length) (some' : f.manager.freeBlockIds ≠ []) :
    (f.reach k).seq.blockTable.length = k + 1 := by
  obtain ⟨b, rest, first⟩ := List.exists_cons_of_ne_nil some'
  have outside : ¬k < f.seq.blockTable.length := by omega
  simp only [Frame.reach, if_neg outside, first, Frame.grow, List.length_append, List.length_singleton]
  omega

theorem Turning.allocateNewPage {f f' : Frame} {contextEnd : Nat} (h : Turning xxh64 p ids i f) (member : i ∈ ids)
    (within : contextEnd ≤ (p.seqs i).numTokens) (last : k = f.seq.blockTable.length)
    (run : BlockManager.allocateNewPage contextEnd (k * p.manager.blockSize) f = .ok () f') :
    PageReady f.manager f.seq k ∧ f.Paged f' k ∧ k + 1 = f'.seq.blockTable.length := by
  obtain ⟨⟨chain, held, -⟩, size, table, seq⟩ := h
  rw [← size, ← Pool.frame_store p i f] at run
  have ready := Held.allocateNewPage_ready (p := p.store i f) (by simpa using last) run
  have within' : contextEnd ≤ ((p.store i f).seqs i).numTokens := by
    rw [Pool.store_seqs_self, seq]
    exact within
  have ran := held.allocateNewPage_run member ready (by simpa using last) within'
  have value : f' = f.page contextEnd k := by
    cases run.symm.trans ran
    rw [Pool.frame_store]
  rw [Pool.store_seqs_self, Pool.store_manager] at ready
  have length := reach_length last (ready.room last)
  refine ⟨ready, ?_⟩
  rw [value]
  unfold Frame.page
  split
  next whole =>
    have wf := held.wf i member
    rw [Pool.store_seqs_self, Pool.store_manager] at wf
    obtain ⟨blockHash, -, entry, -⟩ := wf.blockHash_ok (whole.trans (by rw [seq]; exact within))
    refine ⟨Or.inr ⟨⟨blockHash, entry⟩, rfl⟩, ?_⟩
    rw [(publishPage_frame _).2]
    exact length.symm
  next => exact ⟨Or.inl rfl, length.symm⟩

theorem turning (h : Cached xxh64 p ids) (i : SeqId) : Turning xxh64 p ids i (p.frame i) := by
  refine ⟨?_, rfl, _, rfl⟩
  rw [Pool.store_frame]
  exact h

theorem page_of_turn (h : Cached xxh64 p ids) {body : Nat → Method Unit} {start stop : Nat} {f : Frame} {e : Nat × Frame}
    (listed : e ∈ turns body (range (start * p.manager.blockSize) stop p.manager.blockSize) f) :
    ∃ k, e.1 = k * p.manager.blockSize ∧ e.1 / p.manager.blockSize = k := by
  obtain ⟨chain, held, -⟩ := h
  have offset := fst_mem_of_mem_turns listed
  rw [range_pages held.size_pos, List.mem_map] at offset
  obtain ⟨k, -, offset⟩ := offset
  exact ⟨k, offset.symm, by rw [← offset, Nat.mul_div_cancel k held.size_pos]⟩

theorem mayAppend (h : Cached xxh64 p ids) (member : i ∈ ids)
    (distinct : Distinct xxh64 p.manager.blockSize p.seqs ids)
    (spared : BlockManager.Spared BlockManager.mayAppendPage
      (range ((p.seqs i).numCachedBlocks * p.manager.blockSize) (p.seqs i).numContextTokens p.manager.blockSize)
      (p.frame i))
    (run : BlockManager.mayAppend (p.frame i) = .ok () f) : Follows xxh64 p (p.store i f) ids := by
  simp only [BlockManager.mayAppend, run_get_bind] at run
  obtain ⟨⟨⟩, -, run⟩ := run_ofExcept_ok run
  refine (forEach_keeps (I := Turning xxh64 p ids i) (fun e listed u kept turn => ?_) (h.turning i) run).follows
  have spares := spared e listed
  obtain ⟨k, offset, index⟩ := h.page_of_turn listed
  rw [offset] at turn
  rw [kept.2.1, index] at spares
  obtain ⟨ready, paged⟩ := kept.mayAppendPage member turn
  exact kept.page member distinct ready spares paged

theorem Turning.allocate {f f' : Frame} {contextEnd count : Nat} (h : Turning xxh64 p ids i f) (member : i ∈ ids)
    (distinct : Distinct xxh64 p.manager.blockSize p.seqs ids) (within : contextEnd ≤ (p.seqs i).numTokens)
    (last : k = f.seq.blockTable.length)
    (spared : BlockManager.Spared (BlockManager.allocateNewPage contextEnd)
      ((List.range' k count).map (fun k => k * p.manager.blockSize)) f)
    (run : forEach (BlockManager.allocateNewPage contextEnd)
      ((List.range' k count).map (fun k => k * p.manager.blockSize)) f = .ok () f') : Turning xxh64 p ids i f' := by
  induction count generalizing k f with
  | zero =>
      cases run
      exact h
  | succ count ih =>
      rw [List.range'_succ, List.map_cons] at run spared
      obtain ⟨⟨⟩, g, turn, run⟩ := run_bind_ok run
      unfold BlockManager.Spared at spared
      rw [turns_ok turn, List.forall_mem_cons] at spared
      obtain ⟨first, later⟩ := spared
      have positive : 0 < p.manager.blockSize := by
        obtain ⟨⟨chain, held, -⟩, size, -⟩ := h
        exact size ▸ held.size_pos
      dsimp only at first
      rw [h.2.1, Nat.mul_div_cancel k positive] at first
      obtain ⟨ready, paged, length⟩ := h.allocateNewPage member within last turn
      exact ih (h.page member distinct ready first paged) length later run

theorem allocateNew_span (h : Cached xxh64 p ids) (member : i ∈ ids)
    (run : BlockManager.allocateNew (p.frame i) = .ok () f) :
    (p.seqs i).numContextTokens ≤ (p.seqs i).numTokens ∧
      ∃ count, range (p.seqs i).numCachedTokens (p.seqs i).numContextTokens p.manager.blockSize =
        (List.range' (p.seqs i).blockTable.length count).map (fun k => k * p.manager.blockSize) ∧
      forEach (BlockManager.allocateNewPage (p.seqs i).numContextTokens)
        (range (p.seqs i).numCachedTokens (p.seqs i).numContextTokens p.manager.blockSize) (p.frame i) = .ok () f := by
  obtain ⟨chain, held, -⟩ := h
  simp only [BlockManager.allocateNew, run_get_bind] at run
  obtain ⟨⟨⟩, -, run⟩ := run_ofExcept_ok run
  obtain ⟨⟨⟩, valid, run⟩ := run_ofExcept_ok run
  obtain ⟨within, run⟩ := run_require_ok run
  obtain ⟨-, run⟩ := run_require_ok run
  have cached : (p.seqs i).numCachedTokens = (p.seqs i).blockTable.length * p.manager.blockSize :=
    (held.validated_of_validate member valid).1
  have span := range_pages held.size_pos (p.seqs i).blockTable.length (p.seqs i).numContextTokens
  rw [← cached] at span
  exact ⟨within, _, span, run⟩

theorem allocateNew (h : Cached xxh64 p ids) (member : i ∈ ids)
    (distinct : Distinct xxh64 p.manager.blockSize p.seqs ids)
    (spared : BlockManager.Spared (BlockManager.allocateNewPage (p.seqs i).numContextTokens)
      (range (p.seqs i).numCachedTokens (p.seqs i).numContextTokens p.manager.blockSize) (p.frame i))
    (run : BlockManager.allocateNew (p.frame i) = .ok () f) : Follows xxh64 p (p.store i f) ids := by
  obtain ⟨within, count, span, run⟩ := h.allocateNew_span member run
  rw [span] at spared run
  exact ((h.turning i).allocate member distinct within rfl spared run).follows

end Cached

end NanoVllm
