import NanoVllm.Blocks.History

set_option autoImplicit false

namespace NanoVllm

open Python Raising Naming

namespace Frame

-- The counts that are set between two calls of the block manager.
def recount (f : Frame) (numCachedTokens numNewTokens : Nat) : Frame :=
  ⟨f.manager, { f.seq with numCachedTokens, numNewTokens }⟩

section Pages

variable {f : Frame} {contextEnd contextEnd' first count k : Nat}

theorem recount_reach (cached new : Nat) : (f.recount cached new).reach k = (f.reach k).recount cached new := by
  by_cases inside : k < f.seq.blockTable.length
  · simp [reach, recount, inside]
  · cases free : f.manager.freeBlockIds <;> simp [reach, recount, inside, free, grow]

theorem recount_publishPage (cached new : Nat) :
    (f.recount cached new).publishPage k = (f.publishPage k).recount cached new := by
  cases entry : f.seq.blockTable[k]? <;> cases hash : f.seq.blockHashes[k]? <;>
    simp [publishPage, recount, entry, hash]

theorem recount_page (cached new : Nat) :
    (f.recount cached new).page contextEnd k = (f.page contextEnd k).recount cached new := by
  unfold page
  rw [recount_reach, recount_publishPage]
  exact (apply_ite (fun g : Frame => g.recount cached new) _ _ _).symm

theorem recount_pages (cached new : Nat) :
    (f.recount cached new).pages contextEnd first count = (f.pages contextEnd first count).recount cached new := by
  induction count generalizing f first with
  | zero => rfl
  | succ count ih =>
      have next := @ih (f.page contextEnd first) (first + 1)
      rw [← recount_page] at next
      simpa only [pages, List.range'_succ, List.foldl_cons] using next

theorem reach_blockSize : (f.reach k).manager.blockSize = f.manager.blockSize := by
  unfold reach
  split
  · rfl
  · split <;> rfl

theorem publishPage_kept :
    (f.publishPage k).manager.blockSize = f.manager.blockSize ∧
      (f.publishPage k).manager.freeBlockIds = f.manager.freeBlockIds ∧ (f.publishPage k).seq = f.seq := by
  unfold publishPage
  split <;> exact ⟨rfl, rfl, rfl⟩

theorem page_blockSize : (f.page contextEnd k).manager.blockSize = f.manager.blockSize := by
  unfold page
  split
  · rw [publishPage_kept.1, reach_blockSize]
  · exact reach_blockSize

theorem pages_one : f.pages contextEnd k 1 = f.page contextEnd k := rfl

theorem pages_succ :
    f.pages contextEnd first (count + 1) = (f.page contextEnd first).pages contextEnd (first + 1) count := by
  rw [pages, List.range'_succ, List.foldl_cons, pages]

theorem pages_add (more : Nat) : f.pages contextEnd first (count + more) =
    (f.pages contextEnd first count).pages contextEnd (first + count) more := by
  rw [pages, ← List.range'_append_1, List.foldl_append, pages, pages]

theorem pages_blockSize : (f.pages contextEnd first count).manager.blockSize = f.manager.blockSize := by
  induction count generalizing f first with
  | zero => rfl
  | succ count ih => rw [pages_succ, ih, page_blockSize]

theorem page_takes (last : f.seq.blockTable.length = k) {b : BlockId} {rest : List BlockId}
    (first : f.manager.freeBlockIds = b :: rest) :
    (f.page contextEnd k).seq.blockTable.length = k + 1 ∧ (f.page contextEnd k).manager.freeBlockIds = rest := by
  have outside : ¬k < f.seq.blockTable.length := by omega
  have reached : f.reach k = f.grow b := by simp [reach, outside, first]
  have taken : (f.grow b).seq.blockTable.length = k + 1 ∧ (f.grow b).manager.freeBlockIds = rest := by
    simp [grow, last, first]
  unfold page
  rw [reached]
  split
  · obtain ⟨-, free, seq⟩ := @publishPage_kept (f.grow b) k
    rwa [seq, free]
  · exact taken

theorem pages_reach (last : f.seq.blockTable.length = first) (room : count ≤ f.manager.freeBlockIds.length) :
    (f.pages contextEnd first count).seq.blockTable.length = first + count := by
  induction count generalizing f first with
  | zero => exact last
  | succ count ih =>
      obtain ⟨b, rest, free⟩ := List.exists_cons_of_length_pos (show 0 < f.manager.freeBlockIds.length by omega)
      obtain ⟨length, left⟩ := @page_takes f contextEnd first last b rest free
      rw [free, List.length_cons] at room
      rw [pages_succ, ih length (by rw [left]; omega)]
      omega

theorem pages_whole (whole : (first + count) * f.manager.blockSize ≤ contextEnd) (le : contextEnd ≤ contextEnd') :
    f.pages contextEnd first count = f.pages contextEnd' first count := by
  induction count generalizing f first with
  | zero => rfl
  | succ count ih =>
      have start : (first + 1) * f.manager.blockSize ≤ contextEnd :=
        (Nat.mul_le_mul_right _ (by omega)).trans whole
      have same : f.page contextEnd first = f.page contextEnd' first := by
        unfold page
        rw [if_pos start, if_pos (start.trans le)]
      rw [pages_succ, pages_succ, same]
      apply ih
      rw [page_blockSize]
      rwa [Nat.add_right_comm]

theorem page_again (reached : k ≤ f.seq.blockTable.length) (part : ¬(k + 1) * f.manager.blockSize ≤ contextEnd) :
    (f.page contextEnd k).page contextEnd' k = f.page contextEnd' k := by
  have twice : (f.reach k).reach k = f.reach k := by
    by_cases inside : k < f.seq.blockTable.length
    · simp [reach, inside]
    · cases free : f.manager.freeBlockIds with
      | nil => simp [reach, inside, free]
      | cons b rest =>
          have last : k < f.seq.blockTable.length + 1 := by omega
          simp [reach, inside, free, grow, last]
  have once : f.page contextEnd k = f.reach k := if_neg part
  rw [once]
  unfold page
  rw [twice, reach_blockSize]

theorem pages_resume (positive : 0 < f.manager.blockSize) (last : f.seq.blockTable.length = first)
    (start : first * f.manager.blockSize ≤ contextEnd) (le : contextEnd ≤ contextEnd')
    (room : pagesFor f.manager.blockSize contextEnd - first ≤ f.manager.freeBlockIds.length) :
    (f.pages contextEnd first (pagesFor f.manager.blockSize contextEnd - first)).pages contextEnd'
        (contextEnd / f.manager.blockSize)
        (pagesFor f.manager.blockSize contextEnd' - contextEnd / f.manager.blockSize) =
      f.pages contextEnd' first (pagesFor f.manager.blockSize contextEnd' - first) := by
  have more := pagesFor_mono positive le
  have covered := div_le_pagesFor (n := contextEnd) positive
  generalize whole : contextEnd / f.manager.blockSize = q at *
  have fits : q * f.manager.blockSize ≤ contextEnd := whole ▸ Nat.div_mul_le_self _ _
  have from' : first ≤ q := by
    rw [← whole]
    exact (Nat.le_div_iff_mul_le positive).mpr start
  have front : f.pages contextEnd first (q - first) = f.pages contextEnd' first (q - first) :=
    pages_whole (by rwa [Nat.add_sub_cancel' from']) le
  have split (n : Nat) : f.pages contextEnd' first (q - first + n) =
      (f.pages contextEnd' first (q - first)).pages contextEnd' q n := by
    rw [pages_add, Nat.add_sub_cancel' from']
  have total : pagesFor f.manager.blockSize contextEnd' - first =
      q - first + (pagesFor f.manager.blockSize contextEnd' - q) := by omega
  rw [total, split]
  by_cases aligned : contextEnd % f.manager.blockSize = 0
  next => rw [pagesFor_of_mod positive aligned, whole, front]
  next =>
    have pages := pagesFor_of_mod_ne positive aligned
    rw [whole] at pages
    rw [pages] at more room ⊢
    have reached : q ≤ (f.pages contextEnd' first (q - first)).seq.blockTable.length := by
      rw [pages_reach last (by omega), Nat.add_sub_cancel' from']
    have part : ¬(q + 1) * (f.pages contextEnd' first (q - first)).manager.blockSize ≤ contextEnd := by
      rw [pages_blockSize, not_le]
      exact (Nat.div_lt_iff_lt_mul positive).mp (by omega)
    have one : q + 1 - first = q - first + 1 := by omega
    have rest : pagesFor f.manager.blockSize contextEnd' - q =
        pagesFor f.manager.blockSize contextEnd' - (q + 1) + 1 := by omega
    rw [one, pages_add, Nat.add_sub_cancel' from', front, pages_one, rest, pages_succ, pages_succ,
      page_again reached part]

end Pages

end Frame

namespace BlockManager

-- `allocate_new` for the first chunk of a request.
def allocateChunk (numNewTokens : Nat) : Method Unit := do
  modify (fun f => f.recount f.seq.numCachedTokens numNewTokens)
  allocateNew

-- `may_append` for a later chunk, once the tokens before it are in the cache.
def appendChunk (numNewTokens : Nat) : Method Unit := do
  modify (fun f => f.recount (f.seq.numCachedTokens + f.seq.numNewTokens) numNewTokens)
  mayAppend

def allocateChunks (first : Nat) (rest : List Nat) : Method Unit := do
  allocateChunk first
  forEach appendChunk rest

end BlockManager

-- Sequence `i` and its pages after `n` tokens were allocated at once.
def Pool.allocated (p : Pool) (i : SeqId) (n : Nat) : Frame :=
  (p.frame i).pages ((p.seqs i).numCachedTokens + n) (p.seqs i).blockTable.length
    (pagesFor p.manager.blockSize ((p.seqs i).numCachedTokens + n) - (p.seqs i).blockTable.length)

namespace Held

variable {p : Pool} {ids : Finset SeqId} {chain : Chain} {i : SeqId} {n more : Nat}

theorem recount (h : Held p ids chain) (member : i ∈ ids) (cached new : Nat) :
    Held (p.store i ((p.frame i).recount cached new)) ids chain :=
  h.relabel member ((h.wf i member).relabel rfl rfl rfl rfl rfl) rfl List.prefix_rfl List.prefix_rfl

theorem allocateNew_at_once (h : Held p ids chain) (member : i ∈ ids) (valid : Held.Validated p i)
    (within : (p.seqs i).numCachedTokens + n ≤ (p.seqs i).numTokens)
    (room : pagesFor p.manager.blockSize n ≤ p.manager.freeBlockIds.length) :
    ∃ p' chain' fresh,
      BlockManager.allocateNew ((p.frame i).recount (p.seqs i).numCachedTokens n) = .ok () (p'.frame i) ∧
      Filled (p.store i ((p.frame i).recount (p.seqs i).numCachedTokens n)) p' ids chain chain' i
        ((p.seqs i).numCachedTokens + n) (p.seqs i).blockTable.length
        (pagesFor p.manager.blockSize ((p.seqs i).numCachedTokens + n)) fresh ∧
      p'.frame i = (p.allocated i n).recount (p.seqs i).numCachedTokens n := by
  have held := h.recount member (p.seqs i).numCachedTokens n
  have valid' : Held.Validated (p.store i ((p.frame i).recount (p.seqs i).numCachedTokens n)) i := by
    rw [Held.Validated, Pool.store_seqs_self]
    exact valid
  have run := held.allocateNew_run member valid'
  rw [Pool.frame_store, Pool.store_seqs_self] at run
  obtain ⟨p', chain', fresh, run, filled, same⟩ := run within room
  rw [Frame.recount_pages] at same
  exact ⟨p', chain', fresh, run, filled, same⟩

theorem Filled.resumable {p' : Pool} {chain' : Chain} {fresh : List BlockId} {cached new : Nat}
    (filled : Filled (p.store i ((p.frame i).recount cached new)) p' ids chain chain' i (cached + n)
      (p.seqs i).blockTable.length (pagesFor p.manager.blockSize (cached + n)) fresh)
    (h : Held p ids chain) (member : i ∈ ids) (valid : Held.Validated p i)
    (start : (p.seqs i).numCachedTokens = cached) (within : cached + (n + more) ≤ (p.seqs i).numTokens)
    (room : pagesFor p.manager.blockSize (n + more) ≤ p.manager.freeBlockIds.length) :
    Fillable (p'.store i ((p'.frame i).recount (cached + n) more)) i (cached + n + more)
      ((cached + n) / p.manager.blockSize) := by
  have positive := h.size_pos
  have cachedPages : cached = (p.seqs i).blockTable.length * p.manager.blockSize := start ▸ valid.1
  have table : (p'.seqs i).blockTable = (p.seqs i).blockTable ++ fresh := by simp [filled.seqs, Frame.recount, Pool.frame]
  have free : p.manager.freeBlockIds = fresh ++ p'.manager.freeBlockIds := filled.free
  have sum := congrArg List.length free
  rw [List.length_append] at sum
  have pages (k : Nat) : pagesFor p.manager.blockSize (cached + k) =
      (p.seqs i).blockTable.length + pagesFor p.manager.blockSize k := by
    rw [cachedPages, pagesFor_add_mul positive]
  have length : (p'.seqs i).blockTable.length = pagesFor p.manager.blockSize (cached + n) := by
    have reached := filled.reached (by simp [Frame.recount, Pool.frame])
    rw [Pool.store_seqs_self] at reached
    simp only [Frame.recount, Pool.frame] at reached
    rw [reached, pages n]
    omega
  have below : (p.seqs i).blockTable.length ≤ (cached + n) / p.manager.blockSize := by
    rw [Nat.le_div_iff_mul_le positive, ← cachedPages]
    omega
  have published (k : Nat) (b : BlockId) (beyond : (p.seqs i).blockTable.length ≤ k)
      (entry : (p'.seqs i).blockTable[k]? = some b) :
      (p'.manager.blocks b).published ↔ (k + 1) * p.manager.blockSize ≤ cached + n := by
    refine filled.pages k b beyond ?_ entry
    rw [← length]
    exact (List.getElem?_eq_some_iff.mp entry).1
  constructor
  case reached =>
    rw [Pool.store_seqs_self]
    simp only [Frame.recount, Pool.frame, length]
    exact div_le_pagesFor positive
  case before =>
    intro a some' entry
    rw [Pool.store_seqs_self] at entry
    simp only [Frame.recount, Pool.frame] at entry
    by_cases own : (p.seqs i).blockTable.length ≤ (cached + n) / p.manager.blockSize - 1
    · apply (published _ a own entry).mpr
      rw [Nat.sub_add_cancel some']
      exact Nat.div_mul_le_self _ _
    · rw [table, List.getElem?_append_left (by omega)] at entry
      have held := List.mem_of_getElem? entry
      have busy := h.accounting.held_not_free member held
      rw [free] at busy
      have kept := filled.kept a (valid.2 a held) (fun new => busy (List.mem_append_left _ new))
      simp only [Pool.store_manager, Frame.recount, Pool.frame]
      rw [Block.published, kept]
      exact valid.2 a held
  case current =>
    intro k b beyond entry
    rw [Pool.store_seqs_self] at entry
    simp only [Frame.recount, Pool.frame] at entry
    simp only [Pool.store_manager, Frame.recount, Pool.frame]
    rw [published k b (by omega) entry, not_le]
    exact (Nat.div_lt_iff_lt_mul positive).mp (by omega)
  case room =>
    rw [Pool.store_seqs_self]
    simp only [Frame.recount, Pool.frame, Pool.store_manager, table, List.length_append]
    rw [show p'.manager.blockSize = p.manager.blockSize from filled.size, Nat.add_assoc, pages]
    omega
  case within =>
    rw [Pool.store_seqs_self]
    simp only [Frame.recount, Pool.frame, filled.seqs, Function.update_self, Pool.store_seqs_self]
    omega

theorem mayAppend_resumes (h : Held p ids chain) (member : i ∈ ids) (valid : Held.Validated p i)
    (within : (p.seqs i).numCachedTokens + (n + more) ≤ (p.seqs i).numTokens)
    (room : pagesFor p.manager.blockSize (n + more) ≤ p.manager.freeBlockIds.length) :
    BlockManager.mayAppend ((p.allocated i n).recount ((p.seqs i).numCachedTokens + n) more) =
      .ok () ((p.allocated i (n + more)).recount ((p.seqs i).numCachedTokens + n) more) := by
  have positive := h.size_pos
  have less := pagesFor_mono positive (Nat.le_add_right n more)
  obtain ⟨p', chain', fresh, -, filled, same⟩ := h.allocateNew_at_once member valid
    (show (p.seqs i).numCachedTokens + n ≤ (p.seqs i).numTokens by omega) (less.trans room)
  have resumed := Filled.resumable filled h member valid rfl within room
  have held := filled.held.recount member ((p.seqs i).numCachedTokens + n) more
  have size : p'.manager.blockSize = p.manager.blockSize := filled.size
  have block : (p'.seqs i).blockSize = p.manager.blockSize := (filled.held.wf i member).block.trans size
  set q := p'.store i ((p'.frame i).recount ((p.seqs i).numCachedTokens + n) more) with hq
  have frame : q.frame i = (p.allocated i n).recount ((p.seqs i).numCachedTokens + n) more := by
    rw [hq, Pool.frame_store, same]
    rfl
  have context : (q.seqs i).numContextTokens = (p.seqs i).numCachedTokens + n + more := by
    rw [hq, Pool.store_seqs_self]
    rfl
  have first : (q.seqs i).numCachedBlocks = ((p.seqs i).numCachedTokens + n) / p.manager.blockSize := by
    rw [hq, Pool.store_seqs_self, ← block]
    rfl
  have sizes : q.manager.blockSize = p.manager.blockSize := size
  obtain ⟨p'', -, -, run, -, pages⟩ := held.mayAppend_run member (by rw [context, first]; exact resumed)
  rw [frame] at run pages
  rw [context, first, sizes, Frame.recount_pages] at pages
  have start : (p.seqs i).numCachedTokens = (p.seqs i).blockTable.length * p.manager.blockSize := valid.1
  have resume : (p.allocated i n).pages ((p.seqs i).numCachedTokens + n + more)
      (((p.seqs i).numCachedTokens + n) / p.manager.blockSize)
      (pagesFor p.manager.blockSize ((p.seqs i).numCachedTokens + n + more) -
        ((p.seqs i).numCachedTokens + n) / p.manager.blockSize) = p.allocated i (n + more) := by
    have fits : pagesFor p.manager.blockSize ((p.seqs i).numCachedTokens + n) - (p.seqs i).blockTable.length ≤
        p.manager.freeBlockIds.length := by
      rw [start, pagesFor_add_mul positive]
      omega
    have from' : (p.seqs i).blockTable.length * p.manager.blockSize ≤ (p.seqs i).numCachedTokens + n := by omega
    rw [Pool.allocated, Pool.allocated, ← Nat.add_assoc]
    exact Frame.pages_resume (f := p.frame i) positive rfl from' (Nat.le_add_right _ _) fits
  rw [run, pages, resume]

theorem appendChunks_resume (h : Held p ids chain) (member : i ∈ ids) (valid : Held.Validated p i) (rest : List Nat)
    (within : (p.seqs i).numCachedTokens + (n + rest.sum) ≤ (p.seqs i).numTokens)
    (room : pagesFor p.manager.blockSize (n + rest.sum) ≤ p.manager.freeBlockIds.length) {cached new : Nat}
    (counted : cached + new = (p.seqs i).numCachedTokens + n) :
    ∃ cached' new', forEach BlockManager.appendChunk rest ((p.allocated i n).recount cached new) =
      .ok () ((p.allocated i (n + rest.sum)).recount cached' new') := by
  induction rest generalizing n cached new with
  | nil => exact ⟨cached, new, rfl⟩
  | cons more rest ih =>
      rw [List.sum_cons, ← Nat.add_assoc n more] at within room ⊢
      have fits := (pagesFor_mono h.size_pos (Nat.le_add_right (n + more) rest.sum)).trans room
      have turn : BlockManager.appendChunk more ((p.allocated i n).recount cached new) =
          .ok () ((p.allocated i (n + more)).recount ((p.seqs i).numCachedTokens + n) more) := by
        rw [← h.mayAppend_resumes member valid (by omega) fits, ← counted]
        rfl
      obtain ⟨cached', new', later⟩ := ih within room (Nat.add_assoc _ n more)
      refine ⟨cached', new', ?_⟩
      rw [forEach, bind_ok turn]
      exact later

end Held

/-- A request that is allocated in chunks comes to the pool that one call of `allocate_new` leaves. -/
theorem allocateChunks_invisible {xxh64 : XxHash} {numBlocks blockSize : Nat} {p : Pool} {ids : Finset SeqId}
    {log : Log} (history : History xxh64 numBlocks blockSize p ids log) {i : SeqId} (member : i ∈ ids)
    (valid : p.manager.validateClaimedPrefix (p.seqs i) = .ok ()) (first : Nat) (rest : List Nat)
    (within : (p.seqs i).numCachedTokens + (first + rest.sum) ≤ (p.seqs i).numTokens)
    (room : pagesFor blockSize (first + rest.sum) ≤ p.manager.freeBlockIds.length) :
    ∃ chunked whole, BlockManager.allocateChunks first rest (p.frame i) = .ok () chunked ∧
      BlockManager.allocateChunk (first + rest.sum) (p.frame i) = .ok () whole ∧
      chunked.manager = whole.manager ∧ chunked.seq.blockTable = whole.seq.blockTable := by
  obtain ⟨chain, held, size, -⟩ := history.held
  subst size
  have validated := held.validated_of_validate member valid
  have single {n : Nat} (within : (p.seqs i).numCachedTokens + n ≤ (p.seqs i).numTokens)
      (room : pagesFor p.manager.blockSize n ≤ p.manager.freeBlockIds.length) :
      BlockManager.allocateChunk n (p.frame i) =
        .ok () ((p.allocated i n).recount (p.seqs i).numCachedTokens n) := by
    obtain ⟨p', -, -, run, -, same⟩ := held.allocateNew_at_once member validated within room
    rw [← same, ← run]
    rfl
  have fits := (pagesFor_mono held.size_pos (Nat.le_add_right first rest.sum)).trans room
  have start := single (show (p.seqs i).numCachedTokens + first ≤ (p.seqs i).numTokens by omega) fits
  obtain ⟨cached', new', later⟩ := held.appendChunks_resume member validated rest within room rfl
  refine ⟨(p.allocated i (first + rest.sum)).recount cached' new', _, ?_, single within room, rfl, rfl⟩
  rw [BlockManager.allocateChunks, bind_ok start]
  exact later

-- Five tokens over pages of two: the first chunk ends inside the second page.
theorem allocateChunks_invisible_split :
    ∃ p ids log chunked whole, History (fun _ _ => 0) 4 2 p ids log ∧
      BlockManager.allocateChunks 3 [2] (p.frame 0) = .ok () chunked ∧
      BlockManager.allocateChunk 5 (p.frame 0) = .ok () whole ∧ chunked.manager = whole.manager ∧
      chunked.seq.blockTable = whole.seq.blockTable := by
  have start : History (fun _ _ => 0) 4 2 _ ∅ _ := History.init (fun _ => default) (fun _ => []) rfl
  have request : Sequence.init (fun _ _ => 0) 0 [7, 8, 9, 10, 11] {} 2 = .ok _ := rfl
  have created := start.create (by decide : 0 ∉ (∅ : Finset SeqId)) request
  obtain ⟨chunked, whole, same⟩ := allocateChunks_invisible created (by decide : 0 ∈ insert 0 (∅ : Finset SeqId))
    (by decide +kernel) 3 [2] (by decide +kernel) (by decide +kernel)
  exact ⟨_, _, _, chunked, whole, created, same⟩

end NanoVllm
