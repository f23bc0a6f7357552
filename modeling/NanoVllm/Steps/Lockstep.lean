import NanoVllm.Steps.Evolves

set_option autoImplicit false

namespace NanoVllm

open Python Raising

/-- `e'` is an entry for the request of `e` that reaches at least as far, and computes no more for a whole request. -/
structure Entry.Outdoes (s : Scheduler) (e e' : Entry) : Prop where
  seqId : e'.seqId = e.seqId
  reaches : e.blockIds.length * s.blockManager.blockSize + e.numNewTokens ≤
    e'.blockIds.length * s.blockManager.blockSize + e'.numNewTokens
  computes : e.Whole s → e'.numNewTokens ≤ e.numNewTokens

/-- The frozen plan from `u` beside the same-step loop that came to `v`. The plan has `tokenBudget` and `freeBudget`
left; the loop has `latestBudget` tokens, more by the `saved` pages that it found and the plan did not. -/
structure Lockstep (cache : Cache) (u v : Scheduler) (ids : Finset SeqId) (appended : List (SeqId × Nat))
    (before : List Entry) (reserved : Nat) (protectedFreeIds : Finset BlockId)
    (tokenBudget freeBudget latestBudget saved : Nat) : Prop where
  stage : Stage cache u v ids [] appended before
  exclusive : Exclusive v.pool ids
  evolves : Evolves u.blockManager v.blockManager
  tokens : latestBudget = tokenBudget + saved * u.blockManager.blockSize
  room : reserved + freeBudget + saved ≤ v.blockManager.freeBlockIds.length
  spent : ∀ b ∈ protectedFreeIds, b ∈ v.blockManager.freeBlockIds →
    v.blockManager.hashToBlockId (v.blockManager.blocks b).hash ≠ some b

structure Planned (u : Scheduler) (protectedFreeIds : Finset BlockId) (tokenBudget freeBudget active : Nat)
    (entries : List Entry) : Prop where
  fits : Fits u tokenBudget active entries
  budget : Budgeted u.blockManager protectedFreeIds freeBudget entries
  greedy : Greedy u tokenBudget entries
  positive : ∀ e ∈ entries, 0 < e.numNewTokens
  initial : ∀ e ∈ entries, u.blockManager.matchPrefix (u.seqs e.seqId) = .ok e.blockIds

theorem Planned.tail {u : Scheduler} {protectedFreeIds : Finset BlockId} {tokenBudget freeBudget active : Nat}
    {e : Entry} {entries : List Entry} (h : Planned u protectedFreeIds tokenBudget freeBudget active (e :: entries)) :
    Planned u (protectedFreeIds ∪ u.blockManager.newlyProtected protectedFreeIds e.blockIds)
      (tokenBudget - e.numNewTokens)
      (freeBudget - ((u.blockManager.newlyProtected protectedFreeIds e.blockIds).card +
        pagesFor u.blockManager.blockSize e.numNewTokens)) (active + 1) entries where
  fits := h.fits.tail
  budget := h.budget.2
  greedy := h.greedy.2
  positive a listed := h.positive a (List.mem_cons_of_mem e listed)
  initial a listed := h.initial a (List.mem_cons_of_mem e listed)

theorem Stage.found {cache : Cache} {origin s : Scheduler} {ids : Finset SeqId} {claimed before : List Entry}
    {appended : List (SeqId × Nat)} (h : Stage cache origin s ids claimed appended before) (inv : Inv cache origin ids)
    {i : SeqId} (waits : i ∈ s.waiting) (unclaimed : i ∉ claimed.map Entry.seqId) {blocks : List BlockId}
    (matched : s.blockManager.matchPrefix (s.seqs i) = .ok blocks) :
    Plan s.blockManager (origin.seqs i) 0 noLineage blocks ∧
      blocks.length * origin.blockManager.blockSize < (origin.seqs i).numTokens := by
  obtain ⟨chain, kept⟩ := h.kept
  obtain ⟨same, idle, member⟩ := h.idle inv waits unclaimed
  obtain ⟨blocks', value, plan, short⟩ := kept.held.matchPrefix_idle member idle.cached idle.table
  cases matched.symm.trans value
  rw [Scheduler.pool_seqs, Scheduler.pool_manager, same] at plan
  rw [Scheduler.pool_seqs, Scheduler.pool_manager, same, h.size] at short
  exact ⟨plan, short⟩

namespace Lockstep

open Scheduler

variable {cache : Cache} {u v v' : Scheduler} {ids : Finset SeqId} {appended : List (SeqId × Nat)}
  {before : List Entry} {protectedFreeIds : Finset BlockId}
  {reserved active tokenBudget freeBudget latestBudget saved : Nat} {e e' : Entry} {b : BlockId}

section Turn

variable (h : Lockstep cache u v ids appended before reserved protectedFreeIds tokenBudget freeBudget latestBudget saved)
  (inv : Inv cache u ids)

include h inv

theorem since : Since u.blockManager v.blockManager := by
  obtain ⟨chain, held, -⟩ := inv.pool
  exact h.evolves.since held.accounting.identity held.accounting.free_nodup

theorem fewer (waits : e.seqId ∈ v.waiting) (initial : u.blockManager.matchPrefix (u.seqs e.seqId) = .ok e.blockIds)
    {latest : List BlockId} (matched : v.blockManager.matchPrefix (v.seqs e.seqId) = .ok latest) :
    latest.countP (fun b => decide (b ∈ v.blockManager.freeBlockIds)) ≤
      (u.blockManager.newlyProtected protectedFreeIds e.blockIds).card := by
  obtain ⟨chain, held, -⟩ := inv.pool
  obtain ⟨chain', kept⟩ := h.stage.kept
  obtain ⟨same, idle, member⟩ := h.stage.idle inv waits (by simp)
  obtain ⟨plan, -⟩ := h.stage.found inv waits (by simp) matched
  have since := h.since inv
  have live := kept.held.matchPrefix_live member idle matched
  rw [List.countP_eq_length_filter, ← List.toFinset_card_of_nodup (plan.nodup.filter _)]
  apply Finset.card_le_card
  intro b listed
  rw [List.mem_toFinset, List.mem_filter, decide_eq_true_iff] at listed
  obtain ⟨found, free⟩ := listed
  obtain ⟨generation, hash, -⟩ := Block.content_eq (since.waits b free)
  have published : (u.blockManager.blocks b).published := by
    rw [Block.published, ← hash]
    exact live b found
  obtain ⟨k, entry⟩ := List.mem_iff_getElem?.mp found
  have place := since.matchPrefix held kept.held member (same ▸ idle) same initial matched entry ⟨published, generation⟩
  rw [BlockManager.newlyProtected, Finset.mem_filter, List.mem_toFinset]
  refine ⟨List.mem_of_getElem? place, since.free.subset free, fun spent => ?_⟩
  exact h.spent b spent free (plan.indexed b found)

theorem spend (waits : e.seqId ∈ v.waiting) (self : e'.seqId = e.seqId)
    (initial : u.blockManager.matchPrefix (u.seqs e.seqId) = .ok e.blockIds)
    (longer : e.blockIds.length ≤ e'.blockIds.length)
    (committed : Committed cache u v v' ids appended before latestBudget reserved e')
    (later : Since v.blockManager v'.blockManager)
    (listed : b ∈ protectedFreeIds ∪ u.blockManager.newlyProtected protectedFreeIds e.blockIds)
    (free : b ∈ v'.blockManager.freeBlockIds) :
    v'.blockManager.hashToBlockId (v'.blockManager.blocks b).hash ≠ some b := by
  intro indexed
  obtain ⟨chain, kept⟩ := committed.stage.kept
  have free' := later.free.subset free
  have published : (v'.blockManager.blocks b).published := (kept.held.index.indexed _ b indexed).2.2
  obtain ⟨generation, hash, -⟩ := Block.content_eq (later.waits b free)
  rw [Block.published, hash] at published
  rw [hash] at indexed
  have indexed' := later.index _ b indexed ⟨published, generation⟩
  rcases Finset.mem_union.mp listed with old | new
  · exact h.spent b old free' indexed'
  -- The longer match has a page in the place of `b`, which the index names for the hash of `b`.
  · rw [BlockManager.newlyProtected, Finset.mem_filter, List.mem_toFinset] at new
    obtain ⟨k, entry⟩ := List.mem_iff_getElem?.mp new.1
    have within := longer.trans_lt' (List.getElem?_eq_some_iff.mp entry).1
    have waits' := (h.stage.waiting_old inv waits).1
    obtain ⟨plan, -⟩ := (Stage.start inv).found inv waits' (by simp) initial
    obtain ⟨plan', -⟩ := h.stage.found inv waits (by simp) (self ▸ committed.matched)
    obtain ⟨_, page⟩ := plan.matched.page entry
    obtain ⟨_, page'⟩ := plan'.matched.page (List.getElem?_eq_getElem within)
    have equal : (v.blockManager.blocks e'.blockIds[k]).hash = (v.blockManager.blocks b).hash := by
      rw [(Block.content_eq ((h.since inv).waits b free')).2.1]
      exact Option.some.inj (page'.hash.symm.trans page.hash)
    have named := plan'.indexed _ (List.getElem_mem within)
    rw [equal, indexed', Option.some.injEq] at named
    exact committed.gone b (named ▸ List.getElem_mem within) free

theorem affords (waits : e.seqId ∈ v.waiting) {entries : List Entry}
    (planned : Planned u protectedFreeIds tokenBudget freeBudget (active + before.length) (e :: entries))
    {latest : List BlockId} (matched : v.blockManager.matchPrefix (v.seqs e.seqId) = .ok latest)
    (longer : e.blockIds.length ≤ latest.length) :
    ¬v.Refuses e.seqId latest latestBudget (v.blockManager.freeBlockIds.length - reserved)
      (active + before.length) := by
  obtain ⟨chain, held, -⟩ := inv.pool
  obtain ⟨same, -, -⟩ := h.stage.idle inv waits (by simp)
  obtain ⟨-, short⟩ := h.stage.found inv waits (by simp) matched
  have block : 0 < u.blockManager.blockSize := held.size_pos
  have first := List.mem_cons_self (a := e) (l := entries)
  have share := planned.greedy.1
  have positive := planned.positive e first
  have seats := planned.fits.seats (List.cons_ne_nil e entries)
  have tokens := h.tokens
  have room := h.room
  have cost := planned.budget.1
  have fewer := h.fewer inv waits (planned.initial e first) matched
  have size : v.blockManager.blockSize = u.blockManager.blockSize := h.stage.size
  have scaled := Nat.mul_le_mul_right u.blockManager.blockSize longer
  rw [List.length_cons] at seats
  rw [Refuses, same, size, h.stage.config]
  rintro (full | ⟨plain, large⟩ | none | tight)
  · omega
  · have whole := planned.fits.whole plain e first
    rw [Entry.Whole] at whole
    omega
  · omega
  · have more : min ((u.seqs e.seqId).numTokens - latest.length * u.blockManager.blockSize) latestBudget ≤
        saved * u.blockManager.blockSize + e.numNewTokens := by omega
    have pages := pagesFor_mono block more
    rw [pagesFor_add_mul block] at pages
    omega

theorem turn (waits : e.seqId ∈ v.waiting) {found : Dict SeqId (List BlockId)}
    (known : ∃ blocks, found e.seqId = some blocks) {entries : List Entry}
    (planned : Planned u protectedFreeIds tokenBudget freeBudget (active + before.length) (e :: entries))
    (longer : ∀ latest, v.blockManager.matchPrefix (v.seqs e.seqId) = .ok latest →
      e.blockIds.length ≤ latest.length) :
    ∃ e' v', e.Outdoes u e' ∧ Committed cache u v v' ids appended before latestBudget reserved e' ∧
      (e.Whole u → e'.Whole u ∧ ∃ saved', Lockstep cache u v' ids appended (before ++ [e']) reserved
        (protectedFreeIds ∪ u.blockManager.newlyProtected protectedFreeIds e.blockIds) (tokenBudget - e.numNewTokens)
        (freeBudget - ((u.blockManager.newlyProtected protectedFreeIds e.blockIds).card +
          pagesFor u.blockManager.blockSize e.numNewTokens)) (latestBudget - e'.numNewTokens) saved') ∧
      ((e'.Whole u ∧ ∀ rest, commitWaitingSameStepFrom found reserved active (e.seqId :: rest) latestBudget
          (before.map Entry.seqId) v =
        commitWaitingSameStepFrom found reserved active rest (latestBudget - e'.numNewTokens)
          ((before ++ [e']).map Entry.seqId) v') ∨
      ¬e'.Whole u ∧ ∀ rest, commitWaitingSameStepFrom found reserved active (e.seqId :: rest) latestBudget
          (before.map Entry.seqId) v = .ok ((before ++ [e']).map Entry.seqId) v') := by
  have room := h.room
  rcases @Stage.commit_turn _ _ _ _ _ _ reserved active latestBudget found h.stage inv (by omega) _ waits known with
    ⟨-, latest, matched, refused⟩ | ⟨e', v', self, committed, -, next⟩
  · exact absurd refused (h.affords inv waits planned matched (longer latest matched))
  have matched := committed.matched
  rw [self] at matched
  have longer' := longer e'.blockIds matched
  obtain ⟨chain, held, -⟩ := inv.pool
  obtain ⟨chain', kept⟩ := h.stage.kept
  obtain ⟨same, -, member⟩ := h.stage.idle inv waits (by simp)
  obtain ⟨-, short⟩ := h.stage.found inv waits (by simp) matched
  have block : 0 < u.blockManager.blockSize := held.size_pos
  have size : v.blockManager.blockSize = u.blockManager.blockSize := h.stage.size
  have first := List.mem_cons_self (a := e) (l := entries)
  have share := planned.greedy.1
  have share' := committed.tokens
  rw [self, same, size] at share'
  have tokens := h.tokens
  obtain ⟨more, split⟩ := Nat.exists_eq_add_of_le longer'
  have scaled : e'.blockIds.length * u.blockManager.blockSize =
      e.blockIds.length * u.blockManager.blockSize + more * u.blockManager.blockSize := by rw [split, Nat.add_mul]
  refine ⟨e', v', ⟨self, by omega, fun whole => ?_⟩, committed, fun whole => ?_, next⟩
  · rw [Entry.Whole] at whole
    omega
  · have whole' : e'.Whole u := by
      rw [Entry.Whole] at whole ⊢
      rw [self]
      omega
    refine ⟨whole', saved + more, ?_⟩
    rw [Entry.Whole] at whole whole'
    rw [self] at whole'
    have members : ∀ call ∈ [e'.claim, e'.allocate], call.seqId ∈ ids := by
      have inside : e'.seqId ∈ ids := self ▸ member
      simp [Entry.claim, Entry.allocate, Call.seqId, inside]
    have evolves := committed.traced.evolves h.exclusive members
    have later := evolves.since kept.held.accounting.identity kept.held.accounting.free_nodup
    constructor
    case stage => exact committed.stage
    case exclusive => exact committed.traced.exclusive h.exclusive members
    case evolves => exact h.evolves.trans evolves
    case tokens =>
      rw [Nat.add_mul]
      omega
    case room =>
      have fewer := h.fewer inv waits (planned.initial e first) matched
      have cost := planned.budget.1
      have paid := committed.paid
      have pages : pagesFor u.blockManager.blockSize e.numNewTokens =
          more + pagesFor u.blockManager.blockSize e'.numNewTokens := by
        rw [← pagesFor_add_mul block]
        congr 1
        omega
      rw [size] at paid
      omega
    case spent =>
      exact fun b listed free =>
        h.spend inv waits self (planned.initial e first) longer' committed later listed free

end Turn

/-- The loop admits what the frozen plan admits, as long as it finds as many pages. The induction is on the entries
before `e`; each of them is whole, so that the loop goes on behind it. -/
theorem admits
    (h : Lockstep cache u v ids appended before reserved protectedFreeIds tokenBudget freeBudget latestBudget saved)
    (inv : Inv cache u ids) {found : Dict SeqId (List BlockId)} {front more : List Entry} {tail : List SeqId}
    (planned : Planned u protectedFreeIds tokenBudget freeBudget (active + before.length) (front ++ e :: more))
    (once : (front.map Entry.seqId ++ e.seqId :: tail).Nodup)
    (waits : ∀ i ∈ front.map Entry.seqId ++ e.seqId :: tail, i ∈ v.waiting)
    (known : ∀ i ∈ front.map Entry.seqId ++ e.seqId :: tail, ∃ blocks, found i = some blocks)
    (longer : ∀ front' a rest, front ++ [e] = front' ++ a :: rest → ∀ w latest,
      commitWaitingSameStepFrom found reserved active (front'.map Entry.seqId) latestBudget (before.map Entry.seqId) v =
        .ok ((before ++ front').map Entry.seqId) w →
      w.blockManager.matchPrefix (w.seqs a.seqId) = .ok latest → a.blockIds.length ≤ latest.length) :
    ∃ e' others w, e.Outdoes u e' ∧ e' ∈ others ∧ Stage cache u w ids [] appended others ∧
      commitWaitingSameStepFrom found reserved active (front.map Entry.seqId ++ e.seqId :: tail) latestBudget
        (before.map Entry.seqId) v = .ok (others.map Entry.seqId) w := by
  induction front generalizing v before protectedFreeIds tokenBudget freeBudget latestBudget saved with
  | nil =>
      rw [List.map_nil, List.nil_append] at once waits known ⊢
      rw [List.nodup_cons] at once
      rw [List.forall_mem_cons] at waits known
      obtain ⟨e', v', outdoes, committed, -, turn⟩ := h.turn inv waits.1 known.1 planned
        (fun latest => longer [] e [] rfl v latest (by rw [List.append_nil]; rfl))
      rcases turn with ⟨whole, run⟩ | ⟨-, run⟩
      · have waits' : ∀ i ∈ tail, i ∈ v'.waiting := by
          intro i later
          have other : i ≠ e'.seqId := fun self => once.1 (outdoes.seqId ▸ self ▸ later)
          rw [committed.queue]
          exact (List.mem_erase_of_ne other).mpr (waits.2 i later)
        obtain ⟨w, entries, run', stage, -⟩ := @Stage.commit _ _ _ _ _ (before ++ [e']) reserved active
          (latestBudget - e'.numNewTokens) found committed.stage inv committed.room _ once.2 waits' known.2
        exact ⟨e', before ++ [e'] ++ entries, w, outdoes, by simp, stage, (run tail).trans run'⟩
      · exact ⟨e', before ++ [e'], v', outdoes, by simp, committed.stage, run tail⟩
  | cons a front ih =>
      rw [List.map_cons, List.cons_append] at once waits known ⊢
      rw [List.nodup_cons] at once
      rw [List.forall_mem_cons] at waits known
      obtain ⟨a', v', outdoes, committed, next, turn⟩ := h.turn inv waits.1 known.1 planned
        (fun latest => longer [] a (front ++ [e]) rfl v latest (by rw [List.append_nil]; rfl))
      have whole : a.Whole u := planned.fits.full a (by
        rw [List.cons_append, List.dropLast_cons_of_ne_nil (by simp)]
        exact List.mem_cons_self ..)
      obtain ⟨whole', saved', lockstep⟩ := next whole
      rcases turn with ⟨-, run⟩ | ⟨part, -⟩
      · have waits' : ∀ i ∈ front.map Entry.seqId ++ e.seqId :: tail, i ∈ v'.waiting := by
          intro i later
          have other : i ≠ a'.seqId := fun self => once.1 (outdoes.seqId ▸ self ▸ later)
          rw [committed.queue]
          exact (List.mem_erase_of_ne other).mpr (waits.2 i later)
        have planned' := planned.tail
        rw [Nat.add_assoc, ← List.length_singleton (a := a'), ← List.length_append] at planned'
        obtain ⟨e', others, w, outdoes', listed, stage, run'⟩ := ih lockstep planned' once.2 waits' known.2 (by
          intro front' b rest split w latest reached
          refine longer (a :: front') b rest (by rw [List.cons_append, split]; rfl) w latest ?_
          rw [List.map_cons, run]
          rw [List.append_assoc] at reached
          simpa [outdoes.seqId] using reached)
        exact ⟨e', others, w, outdoes', listed, stage, (run _).trans run'⟩
      · exact absurd whole' part

end Lockstep

end NanoVllm
