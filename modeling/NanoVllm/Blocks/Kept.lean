import NanoVllm.Blocks.History

set_option autoImplicit false

namespace NanoVllm

open Python Raising Naming

/-- The block table covers the context, and the pages that the context fills are published. -/
structure Covered (m : BlockManager) (seq : Sequence) : Prop where
  within : seq.numContextTokens ≤ seq.numTokens
  length : seq.blockTable.length = pagesFor m.blockSize seq.numContextTokens
  pages : ∀ k b, seq.blockTable[k]? = some b →
    ((m.blocks b).published ↔ (k + 1) * m.blockSize ≤ seq.numContextTokens)

/-- The KV cache: for each slot, the tokens whose last key and value it holds. -/
abbrev Cache := Int → List Token

def slotOf (size : Nat) (b : BlockId) (o : Nat) : Int := ((b * size + o : Nat) : Int)

-- The scheduled tokens of the sequence will fill place `o` of block `b`.
def Pending (m : BlockManager) (seq : Sequence) (b : BlockId) (o : Nat) : Prop :=
  ∃ k, seq.blockTable[k]? = some b ∧ seq.numCachedTokens ≤ k * m.blockSize + o ∧
    k * m.blockSize + o < seq.numContextTokens

/-- Every place of a published block holds its tokens or is about to, and so does every computed
place of a page that is not published yet. -/
structure Stored (cache : Cache) (p : Pool) (ids : Finset SeqId) (chain : Chain) : Prop where
  full : ∀ b, b < p.manager.numBlocks → (p.manager.blocks b).published → ∀ o < p.manager.blockSize,
    (∃ i ∈ ids, Pending p.manager (p.seqs i) b o) ∨
      cache (slotOf p.manager.blockSize b o) = (chain (p.manager.blocks b).lineage).take
        ((chain (p.manager.blocks b).lineage).length - p.manager.blockSize + o + 1)
  open' : ∀ i ∈ ids, ∀ k b, (p.seqs i).blockTable[k]? = some b → ¬(p.manager.blocks b).published →
    ∀ o < p.manager.blockSize, k * p.manager.blockSize + o < (p.seqs i).numCachedTokens →
      cache (slotOf p.manager.blockSize b o) = (p.seqs i).tokenIds.take (k * p.manager.blockSize + o + 1)

structure Kept (cache : Cache) (p : Pool) (ids : Finset SeqId) (chain : Chain) : Prop where
  held : Held p ids chain
  covered : ∀ i ∈ ids, Covered p.manager (p.seqs i)
  stored : Stored cache p ids chain

theorem Pending.congr {m m' : BlockManager} {seq seq' : Sequence} {b : BlockId} {o : Nat}
    (pending : Pending m seq b o) (size : m'.blockSize = m.blockSize)
    (table : seq.blockTable <+: seq'.blockTable) (cached : seq'.numCachedTokens = seq.numCachedTokens)
    (context : seq.numContextTokens ≤ seq'.numContextTokens) : Pending m' seq' b o := by
  obtain ⟨k, entry, from', below⟩ := pending
  refine ⟨k, ?_, ?_, ?_⟩
  · obtain ⟨more, table⟩ := table
    rw [← table, List.getElem?_append_left (List.getElem?_eq_some_iff.mp entry).1]
    exact entry
  · rw [size, cached]
    exact from'
  · rw [size]
    exact below.trans_le context

namespace Covered

variable {m m' : BlockManager} {seq seq' : Sequence}

theorem congr (h : Covered m seq) (size : m'.blockSize = m.blockSize)
    (table : seq'.blockTable = seq.blockTable) (context : seq'.numContextTokens = seq.numContextTokens)
    (within : seq.numTokens ≤ seq'.numTokens)
    (published : ∀ b ∈ seq.blockTable, ((m'.blocks b).published ↔ (m.blocks b).published)) :
    Covered m' seq' where
  within := by
    rw [context]
    exact h.within.trans within
  length := by rw [table, context, size, h.length]
  pages k b entry := by
    rw [table] at entry
    rw [published b (List.mem_of_getElem? entry), context, size]
    exact h.pages k b entry

theorem idle (positive : 0 < m.blockSize) (table : seq.blockTable = []) (context : seq.numContextTokens = 0) :
    Covered m seq where
  within := by omega
  length := by simp [table, context, positive]
  pages k b entry := by simp [table] at entry

theorem published_of_lt (h : Covered m seq) {k : Nat} {b : BlockId} (entry : seq.blockTable[k]? = some b)
    (before : k < seq.numContextTokens / m.blockSize) (positive : 0 < m.blockSize) :
    (m.blocks b).published :=
  (h.pages k b entry).mpr ((Nat.le_div_iff_mul_le positive).mp before)

end Covered

namespace Filled

variable {p p' : Pool} {ids : Finset SeqId} {chain chain' : Chain} {i : SeqId} {contextEnd first k : Nat}
  {fresh : List BlockId}

theorem other_seq (h : Filled p p' ids chain chain' i contextEnd first k fresh) {j : SeqId} (other : j ≠ i) :
    p'.seqs j = p.seqs j := by
  rw [h.seqs, Function.update_of_ne other]

theorem fresh_free (h : Filled p p' ids chain chain' i contextEnd first k fresh) {b : BlockId}
    (taken : b ∈ fresh) : b ∈ p.manager.freeBlockIds := by
  rw [h.free]
  exact List.mem_append_left _ taken

theorem other_page (h : Filled p p' ids chain chain' i contextEnd first k fresh) (origin : Held p ids chain)
    (member : i ∈ ids) {j : SeqId} (memberJ : j ∈ ids) (other : j ≠ i) {b : BlockId}
    (held : b ∈ (p.seqs j).blockTable) :
    ((p'.manager.blocks b).published ↔ (p.manager.blocks b).published) := by
  have unused : b ∉ fresh := fun taken => origin.accounting.free_not_held (h.fresh_free taken) memberJ held
  constructor
  · intro published
    by_contra blank
    obtain ⟨k', -, -, entry⟩ := (h.origin b published).resolve_left (fun old => blank old.1)
    have listed := List.mem_of_getElem? entry
    rw [h.table, List.mem_append] at listed
    rcases listed with mine | taken
    · exact other (origin.tables.owner j memberJ i member b held mine blank)
    · exact unused taken
  · intro published
    rw [h.kept b published unused]
    exact published

end Filled

namespace Kept

variable {cache : Cache} {p p' : Pool} {ids : Finset SeqId} {chain chain' : Chain} {i : SeqId}

theorem size_pos (h : Kept cache p ids chain) : 0 < p.manager.blockSize := h.held.size_pos

theorem not_pending {m : BlockManager} {seq : Sequence} (idle : seq.numNewTokens = 0) {b : BlockId} {o : Nat} :
    ¬Pending m seq b o := by
  rintro ⟨k, -, from', below⟩
  simp only [Sequence.numContextTokens] at below
  omega

-- The pool in which sequence `i` has `n` new tokens.
def scheduled (p : Pool) (i : SeqId) (n : Nat) : Pool :=
  p.store i ⟨p.manager, { p.seqs i with numNewTokens := n }⟩

theorem scheduled_held (h : Kept cache p ids chain) (member : i ∈ ids) (n : Nat) :
    Held (scheduled p i n) ids chain :=
  h.held.relabel member ((h.held.wf i member).relabel rfl rfl rfl rfl rfl) rfl List.prefix_rfl List.prefix_rfl

theorem context_idle {seq : Sequence} (idle : seq.numNewTokens = 0) :
    seq.numContextTokens = seq.numCachedTokens := by
  rw [Sequence.numContextTokens, idle, Nat.add_zero]

theorem table_length (h : Kept cache p ids chain) (member : i ∈ ids) (idle : (p.seqs i).numNewTokens = 0) :
    (p.seqs i).blockTable.length = pagesFor p.manager.blockSize (p.seqs i).numCachedTokens := by
  rw [(h.covered i member).length, context_idle idle]

end Kept

namespace Filled

variable {cache : Cache} {p p' : Pool} {ids : Finset SeqId} {chain chain' : Chain} {i : SeqId} {n first : Nat}
  {fresh : List BlockId}

section

variable (filled : Filled (Kept.scheduled p i n) p' ids chain chain' i ((p.seqs i).numCachedTokens + n) first
  (pagesFor p.manager.blockSize ((p.seqs i).numCachedTokens + n)) fresh)

include filled

theorem seq : p'.seqs i = { p.seqs i with
    numNewTokens := n
    blockTable := (p.seqs i).blockTable ++ fresh } := by
  rw [filled.seqs, Function.update_self, Kept.scheduled, Pool.store_seqs_self]

theorem scheduled_context : (p'.seqs i).numContextTokens = (p.seqs i).numCachedTokens + n := by
  rw [filled.seq, Sequence.numContextTokens]

theorem unscheduled {j : SeqId} (other : j ≠ i) : p'.seqs j = p.seqs j := by
  rw [filled.other_seq other, Kept.scheduled, p.store_seqs_of_ne _ other]

theorem old_entry {k : Nat} {b : BlockId} (inside : k < (p.seqs i).blockTable.length)
    (entry : (p'.seqs i).blockTable[k]? = some b) : (p.seqs i).blockTable[k]? = some b := by
  rw [filled.seq, List.getElem?_append_left inside] at entry
  exact entry

theorem not_drawn (h : Kept cache p ids chain) {j : SeqId} (member : j ∈ ids) {b : BlockId}
    (held : b ∈ (p.seqs j).blockTable) : b ∉ fresh :=
  fun taken => h.held.accounting.free_not_held (filled.fresh_free taken) member held

theorem others (h : Kept cache p ids chain) (member : i ∈ ids) {j : SeqId} (memberJ : j ∈ ids) (other : j ≠ i)
    {b : BlockId} (held : b ∈ (p.seqs j).blockTable) :
    ((p'.manager.blocks b).published ↔ (p.manager.blocks b).published) := by
  refine filled.other_page (h.scheduled_held member n) member memberJ other ?_
  rw [Kept.scheduled, p.store_seqs_of_ne _ other]
  exact held

theorem pending (idle : (p.seqs i).numNewTokens = 0) {b : BlockId} {o : Nat}
    (pending : ∃ j ∈ ids, Pending p.manager (p.seqs j) b o) : ∃ j ∈ ids, Pending p'.manager (p'.seqs j) b o := by
  obtain ⟨j, memberJ, pending⟩ := pending
  have other : j ≠ i := by
    rintro rfl
    exact Kept.not_pending idle pending
  refine ⟨j, memberJ, ?_⟩
  rw [filled.unscheduled other]
  exact pending.congr filled.size List.prefix_rfl rfl (Nat.le_refl _)

end

section

variable (h : Kept cache p ids chain) (member : i ∈ ids) (idle : (p.seqs i).numNewTokens = 0)
  (filled : Filled (Kept.scheduled p i n) p' ids chain chain' i ((p.seqs i).numCachedTokens + n) first
    (pagesFor p.manager.blockSize ((p.seqs i).numCachedTokens + n)) fresh)

include h member idle filled

theorem table_needed (le : first * p.manager.blockSize ≤ (p.seqs i).numCachedTokens) :
    (p'.seqs i).blockTable.length = pagesFor p.manager.blockSize ((p.seqs i).numCachedTokens + n) := by
  have positive := h.size_pos
  have length := h.table_length member idle
  have start : first ≤ (p.seqs i).blockTable.length := by
    rw [length, ← pagesFor_mul (k := first) positive]
    exact pagesFor_mono positive le
  have more := pagesFor_mono positive (Nat.le_add_right (p.seqs i).numCachedTokens n)
  have reach := filled.reached (by rw [Kept.scheduled, Pool.store_seqs_self]; exact start)
  rw [reach, Kept.scheduled, Pool.store_seqs_self]
  simp only
  omega

theorem early (le : first * p.manager.blockSize ≤ (p.seqs i).numCachedTokens) {k : Nat} {b : BlockId}
    (before : k < first) (entry : (p'.seqs i).blockTable[k]? = some b) : (p'.manager.blocks b).published := by
  have positive := h.size_pos
  have whole : (k + 1) * p.manager.blockSize ≤ (p.seqs i).numCachedTokens :=
    (Nat.mul_le_mul_right _ before).trans le
  have inside : k < (p.seqs i).blockTable.length := by
    rw [h.table_length member idle]
    refine (lt_pagesFor positive).mpr ?_
    rw [Nat.add_mul, Nat.one_mul] at whole
    omega
  have old := filled.old_entry inside entry
  have published := ((h.covered i member).pages k b old).mpr (by rw [Kept.context_idle idle]; exact whole)
  rw [filled.kept b published (filled.not_drawn h member (List.mem_of_getElem? old))]
  exact published

theorem covered (le : first * p.manager.blockSize ≤ (p.seqs i).numCachedTokens)
    (within : (p.seqs i).numCachedTokens + n ≤ (p.seqs i).numTokens) : Covered p'.manager (p'.seqs i) := by
  have size : p'.manager.blockSize = p.manager.blockSize := filled.size
  have needed := filled.table_needed h member idle le
  constructor
  case within =>
    rw [filled.scheduled_context, filled.seq]
    exact within
  case length => rw [needed, filled.scheduled_context, size]
  case pages =>
    intro k b entry
    rw [filled.scheduled_context, size]
    by_cases before : k < first
    · refine iff_of_true (filled.early h member idle le before entry) ?_
      exact (Nat.mul_le_mul_right _ before).trans (le.trans (Nat.le_add_right _ _))
    · have inside := (List.getElem?_eq_some_iff.mp entry).1
      exact filled.pages k b (by omega) (by omega) entry

theorem full (fits : (p.seqs i).numCachedTokens + n ≤ (p.seqs i).numTokens) (stored : Stored cache p ids chain)
    {b : BlockId} (within : b < p.manager.numBlocks) (published : (p'.manager.blocks b).published) {o : Nat}
    (below : o < p.manager.blockSize) :
    (∃ j ∈ ids, Pending p'.manager (p'.seqs j) b o) ∨
      cache (slotOf p.manager.blockSize b o) = (chain' (p'.manager.blocks b).lineage).take
        ((chain' (p'.manager.blocks b).lineage).length - p.manager.blockSize + o + 1) := by
  have positive := h.size_pos
  have size : p'.manager.blockSize = p.manager.blockSize := filled.size
  by_cases old : (p.manager.blocks b).published ∧ b ∉ fresh
  case pos =>
    have same : p'.manager.blocks b = p.manager.blocks b := filled.kept b old.1 old.2
    have named : chain' (p.manager.blocks b).lineage = chain (p.manager.blocks b).lineage :=
      filled.named _ (Or.inr (h.held.index.issued b within old.1))
    rw [same, named]
    exact (stored.full b within old.1 o below).imp_left (filled.pending idle)
  case neg =>
    obtain ⟨k, from', upto, entry⟩ := (filled.origin b published).resolve_left old
    have whole := (filled.pages k b from' upto entry).mp published
    have sameSize : (Kept.scheduled p i n).manager.blockSize = p.manager.blockSize := rfl
    rw [sameSize, Nat.add_mul, Nat.one_mul] at whole
    by_cases computed : (p.seqs i).numCachedTokens ≤ k * p.manager.blockSize + o
    · left
      refine ⟨i, member, k, entry, ?_, ?_⟩
      · rw [filled.seq, size]
        exact computed
      · rw [filled.scheduled_context, size]
        omega
    · right
      have inside : k < (p.seqs i).blockTable.length := by
        rw [h.table_length member idle]
        exact (lt_pagesFor positive).mpr (by omega)
      have entry' := filled.old_entry inside entry
      have blank : ¬(p.manager.blocks b).published := fun live =>
        old ⟨live, filled.not_drawn h member (List.mem_of_getElem? entry')⟩
      have chained : chain' (p'.manager.blocks b).lineage =
          (p'.seqs i).tokenIds.take ((k + 1) * p'.manager.blockSize) :=
        (filled.held.tables.linked i member).chain_eq filled.held.index
          (filled.held.accounting.table_lt i member) entry published
      have enough : (k + 1) * p.manager.blockSize ≤ (p.seqs i).tokenIds.length := by
        rw [← (h.held.wf i member).tokens, Nat.add_mul, Nat.one_mul]
        exact whole.trans fits
      rw [stored.open' i member k b entry' blank o below (by omega), chained, filled.seq, size,
        List.length_take, Nat.min_eq_left enough, List.take_take, Nat.add_mul, Nat.one_mul]
      congr 1
      omega

theorem open' (stored : Stored cache p ids chain) {k : Nat} {b : BlockId}
    (entry : (p'.seqs i).blockTable[k]? = some b) (blank : ¬(p'.manager.blocks b).published) {o : Nat}
    (below : o < p.manager.blockSize) (computed : k * p.manager.blockSize + o < (p.seqs i).numCachedTokens) :
    cache (slotOf p.manager.blockSize b o) =
      (p'.seqs i).tokenIds.take (k * p.manager.blockSize + o + 1) := by
  have inside : k < (p.seqs i).blockTable.length := by
    rw [h.table_length member idle]
    exact (lt_pagesFor h.size_pos).mpr (by omega)
  have old := filled.old_entry inside entry
  have unused := filled.not_drawn h member (List.mem_of_getElem? old)
  have blank' : ¬(p.manager.blocks b).published := fun live =>
    blank (by rw [filled.kept b live unused]; exact live)
  rw [stored.open' i member k b old blank' o below computed, filled.seq]

end

end Filled

namespace Kept

variable {cache : Cache} {p p' : Pool} {ids : Finset SeqId} {chain chain' : Chain} {i : SeqId}

theorem filled (h : Kept cache p ids chain) (member : i ∈ ids) (idle : (p.seqs i).numNewTokens = 0) {n first : Nat}
    {fresh : List BlockId} (within : (p.seqs i).numCachedTokens + n ≤ (p.seqs i).numTokens)
    (le : first * p.manager.blockSize ≤ (p.seqs i).numCachedTokens)
    (filled : Filled (scheduled p i n) p' ids chain chain' i ((p.seqs i).numCachedTokens + n) first
      (pagesFor p.manager.blockSize ((p.seqs i).numCachedTokens + n)) fresh) :
    Kept cache p' ids chain' := by
  have size : p'.manager.blockSize = p.manager.blockSize := filled.size
  have count : p'.manager.numBlocks = p.manager.numBlocks := filled.count
  constructor
  case held => exact filled.held
  case covered =>
    intro j memberJ
    by_cases self : j = i
    case pos =>
      subst self
      exact filled.covered h member idle le within
    case neg =>
      have same := filled.unscheduled self
      exact (h.covered j memberJ).congr size (by rw [same]) (by rw [same]) (by rw [same])
        (fun b held => filled.others h member memberJ self held)
  case stored =>
    constructor
    case full =>
      intro b within' published o below
      rw [count] at within'
      rw [size] at below ⊢
      exact filled.full h member idle within h.stored within' published below
    case open' =>
      intro j memberJ k b entry blank o below computed
      rw [size] at below computed ⊢
      by_cases self : j = i
      case pos =>
        subst self
        rw [filled.seq] at computed
        exact filled.open' h member idle h.stored entry blank below computed
      case neg =>
        rw [filled.unscheduled self] at entry computed ⊢
        have blank' := (filled.others h member memberJ self (List.mem_of_getElem? entry)).not.mp blank
        exact h.stored.open' j memberJ k b entry blank' o below computed

end Kept

/-- What `may_append` and `allocate_new` do for `n` new tokens of sequence `i`. -/
structure Extended (cache : Cache) (p p' : Pool) (ids : Finset SeqId) (i : SeqId) (n : Nat) (fresh : List BlockId) :
    Prop where
  kept : ∃ chain, Kept cache p' ids chain
  seqs : p'.seqs = Function.update p.seqs i { p.seqs i with
    numNewTokens := n
    blockTable := (p.seqs i).blockTable ++ fresh }
  free : p.manager.freeBlockIds = fresh ++ p'.manager.freeBlockIds
  needed : (p.seqs i).blockTable.length + fresh.length =
    pagesFor p.manager.blockSize ((p.seqs i).numCachedTokens + n)
  size : p'.manager.blockSize = p.manager.blockSize
  count : p'.manager.numBlocks = p.manager.numBlocks

namespace Kept

variable {cache : Cache} {p p' : Pool} {ids : Finset SeqId} {chain chain' : Chain} {i : SeqId}

theorem extended (h : Kept cache p ids chain) (member : i ∈ ids) (idle : (p.seqs i).numNewTokens = 0) {n first : Nat}
    {fresh : List BlockId} (within : (p.seqs i).numCachedTokens + n ≤ (p.seqs i).numTokens)
    (le : first * p.manager.blockSize ≤ (p.seqs i).numCachedTokens)
    (filled : Filled (scheduled p i n) p' ids chain chain' i ((p.seqs i).numCachedTokens + n) first
      (pagesFor p.manager.blockSize ((p.seqs i).numCachedTokens + n)) fresh) :
    Extended cache p p' ids i n fresh where
  kept := ⟨chain', h.filled member idle within le filled⟩
  seqs := by
    rw [filled.seqs]
    simp [scheduled, Pool.store]
  free := filled.free
  needed := by
    have needed := filled.table_needed h member idle le
    rw [filled.seq, List.length_append] at needed
    exact needed
  size := filled.size
  count := filled.count

theorem mayAppend_run (h : Kept cache p ids chain) (member : i ∈ ids) (idle : (p.seqs i).numNewTokens = 0) {n : Nat}
    (within : (p.seqs i).numCachedTokens + n ≤ (p.seqs i).numTokens)
    (room : pagesFor p.manager.blockSize ((p.seqs i).numCachedTokens + n) ≤
      (p.seqs i).blockTable.length + p.manager.freeBlockIds.length) :
    ∃ p' fresh, BlockManager.mayAppend ((scheduled p i n).frame i) = .ok () (p'.frame i) ∧
      Extended cache p p' ids i n fresh := by
  have positive := h.size_pos
  have covered := h.covered i member
  have length := h.table_length member idle
  have context := context_idle idle
  have wf := h.held.wf i member
  have seq : (scheduled p i n).seqs i = { p.seqs i with numNewTokens := n } := by
    rw [scheduled, Pool.store_seqs_self]
  have blocks : (p.seqs i).numCachedBlocks = (p.seqs i).numCachedTokens / p.manager.blockSize := by
    rw [Sequence.numCachedBlocks, wf.block]
  have whole : (p.seqs i).numCachedBlocks * p.manager.blockSize ≤ (p.seqs i).numCachedTokens := by
    rw [blocks]
    exact Nat.div_mul_le_self _ _
  have start : Fillable (scheduled p i n) i ((p.seqs i).numCachedTokens + n) (p.seqs i).numCachedBlocks := by
    constructor
    case reached =>
      rw [seq, blocks]
      simp only
      rw [length]
      exact div_le_pagesFor positive
    case before =>
      intro a some' entry
      rw [seq] at entry
      refine covered.published_of_lt entry ?_ positive
      rw [context, ← blocks]
      omega
    case current =>
      intro k b from' entry
      rw [seq] at entry
      rw [blocks] at from'
      refine (covered.pages k b entry).not.mpr ?_
      rw [context, not_le]
      exact (Nat.div_lt_iff_lt_mul positive).mp (Nat.lt_succ_of_le from')
    case room =>
      rw [seq]
      exact room
    case within =>
      rw [seq]
      exact within
  obtain ⟨p', chain', fresh, run, filled, -⟩ := (h.scheduled_held member n).mayAppend_run member (by
    rw [seq]
    exact start)
  rw [seq] at filled
  have upto : max (p.seqs i).numCachedBlocks
      (pagesFor p.manager.blockSize ((p.seqs i).numCachedTokens + n)) =
        pagesFor p.manager.blockSize ((p.seqs i).numCachedTokens + n) := by
    have reached := start.reached
    rw [seq] at reached
    simp only at reached
    have more := pagesFor_mono positive (Nat.le_add_right (p.seqs i).numCachedTokens n)
    omega
  have stop : (scheduled p i n).manager.blockSize = p.manager.blockSize := rfl
  simp only [Sequence.numContextTokens, Sequence.numCachedBlocks, stop] at filled upto
  rw [upto] at filled
  exact ⟨p', fresh, run, h.extended member idle within whole filled⟩

theorem allocateNew_run (h : Kept cache p ids chain) (member : i ∈ ids) (idle : (p.seqs i).numNewTokens = 0) {n : Nat}
    (valid : Held.Validated p i) (within : (p.seqs i).numCachedTokens + n ≤ (p.seqs i).numTokens)
    (room : pagesFor p.manager.blockSize n ≤ p.manager.freeBlockIds.length) :
    ∃ p' fresh, BlockManager.allocateNew ((scheduled p i n).frame i) = .ok () (p'.frame i) ∧
      Extended cache p p' ids i n fresh ∧ fresh.length = pagesFor p.manager.blockSize n := by
  have positive := h.size_pos
  have seq : (scheduled p i n).seqs i = { p.seqs i with numNewTokens := n } := by
    rw [scheduled, Pool.store_seqs_self]
  have valid' : Held.Validated (scheduled p i n) i := by
    rw [Held.Validated, seq]
    exact valid
  obtain ⟨p', chain', fresh, run, filled, -⟩ := (h.scheduled_held member n).allocateNew_run member valid'
    (by rw [seq]; exact within) (by rw [seq]; exact room)
  rw [seq] at filled
  have done := h.extended member idle within (Nat.le_of_eq valid.1.symm) filled
  refine ⟨p', fresh, run, done, ?_⟩
  have needed := done.needed
  rw [valid.1, pagesFor_add_mul positive] at needed
  omega

theorem claim (h : Kept cache p ids chain) (member : i ∈ ids) (idle : (p.seqs i).numNewTokens = 0)
    {blocks : List BlockId} (valid : Held.Validated p i)
    (short : ((p.seqs i).blockTable.length + blocks.length) * p.manager.blockSize ≤ (p.seqs i).numTokens)
    (claims : Claims p p' ids chain i blocks)
    (published : ∀ b ∈ blocks, (p.manager.blocks b).published) : Kept cache p' ids chain := by
  have positive := h.size_pos
  have live (b : BlockId) : ((p'.manager.blocks b).published ↔ (p.manager.blocks b).published) := by
    rw [Block.published, Block.published, (Block.content_eq (claims.content b)).2.1]
  have seqI : p'.seqs i = { p.seqs i with
      blockTable := (p.seqs i).blockTable ++ blocks
      numCachedTokens := (p.seqs i).numCachedTokens + blocks.length * p.manager.blockSize } := by
    rw [claims.seqs, Function.update_self]
  have seqJ (j : SeqId) (other : j ≠ i) : p'.seqs j = p.seqs j := by
    rw [claims.seqs, Function.update_of_ne other]
  have cached : (p'.seqs i).numCachedTokens =
      ((p.seqs i).blockTable.length + blocks.length) * p.manager.blockSize := by
    rw [seqI, Nat.add_mul, ← valid.1]
  have context : (p'.seqs i).numContextTokens =
      ((p.seqs i).blockTable.length + blocks.length) * p.manager.blockSize := by
    rw [context_idle (by rw [seqI]; exact idle), cached]
  have all (b : BlockId) (held : b ∈ (p'.seqs i).blockTable) : (p'.manager.blocks b).published := by
    rw [seqI, List.mem_append] at held
    exact (live b).mpr (held.elim (valid.2 b) (published b))
  have mono (b : BlockId) (o : Nat) (pending : ∃ j ∈ ids, Pending p.manager (p.seqs j) b o) :
      ∃ j ∈ ids, Pending p'.manager (p'.seqs j) b o := by
    obtain ⟨j, memberJ, pending⟩ := pending
    have other : j ≠ i := by
      rintro rfl
      exact not_pending idle pending
    exact ⟨j, memberJ, by
      rw [seqJ j other]
      exact pending.congr claims.size List.prefix_rfl rfl (Nat.le_refl _)⟩
  constructor
  case held => exact claims.held
  case covered =>
    intro j memberJ
    by_cases self : j = i
    case neg =>
      exact (h.covered j memberJ).congr claims.size (by rw [seqJ j self]) (by rw [seqJ j self])
        (by rw [seqJ j self]) (fun b _ => live b)
    case pos =>
      subst self
      constructor
      case within =>
        rw [context, seqI]
        exact short
      case length =>
        rw [context, claims.size, pagesFor_mul positive, seqI, List.length_append]
      case pages =>
        intro k b entry
        refine iff_of_true (all b (List.mem_of_getElem? entry)) ?_
        have inside := (List.getElem?_eq_some_iff.mp entry).1
        rw [seqI, List.length_append] at inside
        rw [context, claims.size]
        exact Nat.mul_le_mul_right _ inside
  case stored =>
    constructor
    case full =>
      intro b within live' o below
      rw [claims.count] at within
      rw [claims.size] at below ⊢
      rw [(Block.content_eq (claims.content b)).2.2.1]
      exact (h.stored.full b within ((live b).mp live') o below).imp_left (mono b o)
    case open' =>
      intro j memberJ k b entry blank o below computed
      by_cases self : j = i
      case pos =>
        subst self
        exact absurd (all b (List.mem_of_getElem? entry)) blank
      case neg =>
        rw [seqJ j self] at entry computed ⊢
        rw [claims.size] at below computed ⊢
        exact h.stored.open' j memberJ k b entry (fun old => blank ((live b).mpr old)) o below computed

theorem restatus (h : Kept cache p ids chain) (member : i ∈ ids) (status : SequenceStatus) :
    Kept cache (p.store i ⟨p.manager, { p.seqs i with status }⟩) ids chain := by
  have seqI : (p.store i ⟨p.manager, { p.seqs i with status }⟩).seqs i = { p.seqs i with status } :=
    p.store_seqs_self i _
  have seqJ (j : SeqId) (other : j ≠ i) :
      (p.store i ⟨p.manager, { p.seqs i with status }⟩).seqs j = p.seqs j := p.store_seqs_of_ne _ other
  have same (j : SeqId) : { (p.store i ⟨p.manager, { p.seqs i with status }⟩).seqs j with
      status := (p.seqs j).status } = p.seqs j := by
    by_cases self : j = i
    · subst self
      rw [seqI]
    · rw [seqJ j self]
  have pending (j : SeqId) (b : BlockId) (o : Nat) (old : Pending p.manager (p.seqs j) b o) :
      Pending p.manager ((p.store i ⟨p.manager, { p.seqs i with status }⟩).seqs j) b o := by
    rw [← same j] at old
    exact old
  constructor
  case held =>
    exact h.held.relabel member ((h.held.wf i member).relabel rfl rfl rfl rfl rfl) rfl
      List.prefix_rfl List.prefix_rfl
  case covered =>
    intro j memberJ
    have covered := h.covered j memberJ
    rw [← same j] at covered
    exact ⟨covered.within, covered.length, covered.pages⟩
  case stored =>
    constructor
    case full =>
      intro b bound published o below
      exact (h.stored.full b bound published o below).imp_left
        (fun ⟨j, memberJ, old⟩ => ⟨j, memberJ, pending j b o old⟩)
    case open' =>
      intro j memberJ
      have old := h.stored.open' j memberJ
      rw [← same j] at old
      exact old

end Kept

end NanoVllm
