import NanoVllm.Steps.Stage

set_option autoImplicit false

namespace NanoVllm

open Python Raising

theorem Held.matchPrefix_idle {p : Pool} {ids : Finset SeqId} {chain : Chain} {i : SeqId} (h : Held p ids chain)
    (member : i ∈ ids) (cached : (p.seqs i).numCachedTokens = 0) (table : (p.seqs i).blockTable = []) :
    ∃ blocks, p.manager.matchPrefix (p.seqs i) = .ok blocks ∧
      Plan p.manager (p.seqs i) 0 noLineage blocks ∧
      blocks.length * p.manager.blockSize < (p.seqs i).numTokens := by
  have wf := h.wf i member
  have filled : 0 < (p.seqs i).numTokens := wf.prompt_pos.trans_le wf.prompt_le
  have paged : 0 < (p.seqs i).numBlocks := wf.lt_numBlocks.mpr (by simpa using filled)
  have known : p.manager.lineage none = .ok noLineage := rfl
  obtain ⟨blocks, found⟩ := @BlockManager.matchPrefixFrom_total _ _ _ 0 _ none ((p.seqs i).numBlocks - 1) []
    h.index wf known (by omega)
  have run : p.manager.matchPrefix (p.seqs i) = .ok blocks := by
    simp only [BlockManager.matchPrefix, BlockManager.assertBlockSize, require_of wf.block,
      BlockManager.validateClaimedPrefix, table, cached, pure_bind]
    simpa [require, BlockManager.validateClaimedPrefixFrom] using found
  obtain ⟨-, -, plan, short⟩ := BlockManager.matchPrefix_plan h.index h.size_pos run
  rw [table] at plan short
  refine ⟨blocks, run, plan, ?_⟩
  by_cases none : blocks = []
  · simpa [none] using filled
  · have few := (short none).1
    rw [List.length_nil] at few
    exact wf.lt_numBlocks.mp (by omega)

namespace Scheduler

variable {s : Scheduler}

theorem matchWaitingFrom_ok {seqs : List SeqId}
    (each : ∀ i ∈ seqs, ∃ blocks, s.blockManager.matchPrefix (s.seqs i) = .ok blocks)
    (before : Dict SeqId (List BlockId)) :
    ∃ found, s.matchWaitingFrom seqs before = .ok found ∧
      (∀ i ∈ seqs, ∃ blocks, found i = some blocks ∧ s.blockManager.matchPrefix (s.seqs i) = .ok blocks) ∧
      (∀ i, i ∉ seqs → found i = before i) := by
  induction seqs generalizing before with
  | nil => exact ⟨before, rfl, by simp, by simp⟩
  | cons i rest ih =>
      obtain ⟨blocks, matched⟩ := each i (List.mem_cons_self ..)
      obtain ⟨found, run, all, others⟩ := ih (fun j later => each j (List.mem_cons_of_mem i later))
        (before.insert i blocks)
      refine ⟨found, ?_, ?_, ?_⟩
      · simp only [matchWaitingFrom, matched, except_ok_bind, run]
      · intro j listed
        by_cases again : j ∈ rest
        · exact all j again
        · have self : j = i := (List.mem_cons.mp listed).resolve_right again
          subst self
          exact ⟨blocks, by rw [others j again, Dict.insert, Function.update_self], matched⟩
      · intro j outside
        rw [List.mem_cons, not_or] at outside
        rw [others j outside.2, Dict.insert, Function.update_of_ne outside.1]

theorem rankWaiting_perm (s : Scheduler) (waiting : List SeqId) (found : Dict SeqId (List BlockId)) :
    (s.rankWaiting waiting found).Perm waiting := List.perm_insertionSort _ _

/-- The requests that a step tries to admit, in their order, with their initial matches. -/
structure Ranked (s : Scheduler) (plan : ChunkPlan) (ranked : List SeqId) (found : Dict SeqId (List BlockId)) :
    Prop where
  value : ranked =
    if plan.allowWaiting ∧ s.waiting ≠ [] ∧ plan.tokenBudget > 0 then s.rankWaiting s.waiting found else []
  known : ∀ i ∈ ranked, ∃ blocks, found i = some blocks ∧ s.blockManager.matchPrefix (s.seqs i) = .ok blocks

namespace Ranked

variable {plan : ChunkPlan} {ranked : List SeqId} {found : Dict SeqId (List BlockId)}

theorem perm (h : Ranked s plan ranked found) : ranked = [] ∨ ranked.Perm s.waiting := by
  rw [h.value]
  split
  · exact Or.inr (s.rankWaiting_perm s.waiting found)
  · exact Or.inl rfl

theorem waits (h : Ranked s plan ranked found) : ∀ i ∈ ranked, i ∈ s.waiting := by
  rcases h.perm with none | perm
  · simp [none]
  · exact fun i listed => perm.mem_iff.mp listed

theorem nodup (h : Ranked s plan ranked found) (once : s.waiting.Nodup) : ranked.Nodup := by
  rcases h.perm with none | perm
  · simp [none]
  · exact perm.nodup_iff.mpr once

theorem closed (h : Ranked s plan ranked found) (closed' : plan.allowWaiting = false) : ranked = [] := by
  simp [h.value, closed']

theorem open_eq (h : Ranked s plan ranked found) (open' : plan.allowWaiting = true) (some' : s.waiting ≠ [])
    (budget : 0 < plan.tokenBudget) : ranked = s.rankWaiting s.waiting found := by
  rw [h.value, if_pos ⟨open', some', budget⟩]

end Ranked

/-- What a step does with the chunk, under the budgets that decode leaves. -/
inductive Decision (s : Scheduler) (tokenBudget freeBudget : Nat) : ChunkPlan → Prop
  | absent (chunk : s.chunkedReq = none) :
      Decision s tokenBudget freeBudget ⟨none, 0, tokenBudget, freeBudget, true⟩
  | paused {c : SeqId} (chunk : s.chunkedReq = some c) (stuck : tokenBudget = 0 ∨ freeBudget <
      s.blockManager.need (s.seqs c) (min ((s.seqs c).numTokens - (s.seqs c).numCachedTokens) tokenBudget)) :
      Decision s tokenBudget freeBudget ⟨none, 0, tokenBudget, freeBudget, false⟩
  | resumed {c : SeqId} {n : Nat} (chunk : s.chunkedReq = some c) (positive : 0 < n)
      (tokens : n = min ((s.seqs c).numTokens - (s.seqs c).numCachedTokens) tokenBudget)
      (fits : s.blockManager.need (s.seqs c) n ≤ freeBudget) :
      Decision s tokenBudget freeBudget ⟨some c, n, tokenBudget - n, freeBudget - s.blockManager.need (s.seqs c) n,
        !decide (n < (s.seqs c).numTokens - (s.seqs c).numCachedTokens)⟩

end Scheduler

section Phases

variable {cache : Cache} {s : Scheduler} {ids : Finset SeqId}

theorem Inv.waiting_nodup (h : Inv cache s ids) : s.waiting.Nodup :=
  (List.nodup_append.mp (List.nodup_append.mp h.seats).1).1

theorem Inv.matchPrefix (h : Inv cache s ids) {i : SeqId} (waits : i ∈ s.waiting) :
    ∃ blocks, s.blockManager.matchPrefix (s.seqs i) = .ok blocks ∧
      Plan s.blockManager (s.seqs i) 0 noLineage blocks ∧
      blocks.length * s.blockManager.blockSize < (s.seqs i).numTokens := by
  obtain ⟨chain, held, -⟩ := h.pool
  exact held.matchPrefix_idle (h.waiting_mem waits).1 (h.waiting i waits).cached (h.waiting i waits).table

theorem Inv.rankedWaiting (h : Inv cache s ids) (plan : Scheduler.ChunkPlan) :
    ∃ ranked found, s.rankedWaiting plan = .ok (ranked, found) ∧ Scheduler.Ranked s plan ranked found := by
  by_cases tries : plan.allowWaiting ∧ s.waiting ≠ [] ∧ plan.tokenBudget > 0
  · obtain ⟨found, run, all, -⟩ := @Scheduler.matchWaitingFrom_ok s s.waiting
      (fun i waits => by
        obtain ⟨blocks, matched, -⟩ := h.matchPrefix waits
        exact ⟨blocks, matched⟩) Dict.empty
    refine ⟨s.rankWaiting s.waiting found, found, ?_, ?_, ?_⟩
    · simp only [Scheduler.rankedWaiting, if_pos tries, Scheduler.matchWaiting, run, except_ok_bind]
      rfl
    · rw [if_pos tries]
    · exact fun i listed => all i ((s.rankWaiting_perm s.waiting found).mem_iff.mp listed)
  · refine ⟨[], Dict.empty, ?_, ?_, by simp⟩
    · simp only [Scheduler.rankedWaiting, if_neg tries]
      rfl
    · rw [if_neg tries]

theorem Inv.planChunk (h : Inv cache s ids) (tokenBudget freeBudget : Nat) :
    ∃ plan, s.planChunk tokenBudget freeBudget = .ok plan ∧
      Scheduler.Decision s tokenBudget freeBudget plan := by
  cases chunk : s.chunkedReq with
  | none =>
      refine ⟨_, ?_, .absent chunk⟩
      simp only [Scheduler.planChunk, chunk]
      rfl
  | some c =>
      obtain ⟨chain, held, -⟩ := h.pool
      have wf := held.wf c (h.chunk_mem chunk).1
      have uncomputed : (s.seqs c).numTokens - (s.seqs c).numCachedTokens > 0 := by
        have cached := (h.chunk c chunk).cached
        have prompt : (s.seqs c).numPromptTokens ≤ (s.seqs c).numTokens := wf.prompt_le
        omega
      have size : (s.seqs c).blockSize = s.blockManager.blockSize := wf.block
      have blocks := Scheduler.numBlocksToAppend_ok size
        (min ((s.seqs c).numTokens - (s.seqs c).numCachedTokens) tokenBudget)
      simp only [Scheduler.planChunk, chunk, require_of uncomputed, pure_bind, blocks, except_ok_bind]
      split
      next stop =>
        refine ⟨_, rfl, .paused chunk ?_⟩
        rcases stop with none | full
        · exact Or.inl (by omega)
        · exact Or.inr full
      next go =>
        rw [not_or, not_lt] at go
        exact ⟨_, rfl, .resumed chunk (by omega) rfl go.2⟩

end Phases

end NanoVllm
