import NanoVllm.Model.BenchScheduler
import NanoVllm.Runs.Hits

set_option autoImplicit false

namespace NanoVllm

open Python Raising SchedulerMetrics

-- The prompt tokens of a request that are behind it.
def Sequence.prefilled (seq : Sequence) : Nat :=
  if seq.status = .finished then seq.numPromptTokens else min seq.numCachedTokens seq.numPromptTokens

theorem Sequence.prefilled_congr {seq seq' : Sequence} (request : seq'.request = seq.request)
    (ended : seq'.status = .finished ↔ seq.status = .finished) (cached : seq'.numCachedTokens = seq.numCachedTokens) :
    seq'.prefilled = seq.prefilled := by
  obtain ⟨-, -, prompt, -⟩ := Sequence.request_eq request
  simp only [prefilled, ended, cached, prompt]

theorem Turn.prefilled {xxh64 : XxHash} {config : Config} {seq seq' : Sequence} {size : Nat}
    (turn : Turn xxh64 config seq seq') (wf : seq.Wf size) (live : seq.status ≠ .finished) :
    seq'.prefilled = min seq.numCachedTokens seq.numPromptTokens + computedPrompt seq := by
  have context : min seq.numContextTokens seq.numPromptTokens =
      min seq.numCachedTokens seq.numPromptTokens + computedPrompt seq := by
    rw [Sequence.numContextTokens, computedPrompt]
    omega
  rw [← context]
  cases turn with
  | ends tokenId complete stop =>
      have whole : seq.numContextTokens = seq.numTokens := complete
      rw [whole, Nat.min_eq_right wf.prompt_le]
      exact if_pos rfl
  | grows tokenId complete more => exact if_neg live
  | advances rest => exact if_neg live

theorem Turn.prompt {xxh64 : XxHash} {config : Config} {seq seq' : Sequence} (turn : Turn xxh64 config seq seq') :
    seq'.numPromptTokens = seq.numPromptTokens := by
  cases turn <;> rfl

theorem Turn.completion_pos {xxh64 : XxHash} {config : Config} {seq seq' : Sequence} {size : Nat}
    (turn : Turn xxh64 config seq seq') (wf : seq.Wf size) (live : seq.status ≠ .finished)
    (ended : seq'.status = .finished) : 0 < seq'.numCompletionTokens := by
  have prompt := wf.prompt_le
  cases turn with
  | ends tokenId complete stop =>
      change 0 < seq.numTokens + 1 - seq.numPromptTokens
      omega
  | grows tokenId complete more => exact absurd ended live
  | advances rest => exact absurd ended live

namespace Scheduler

-- The blocks that the counters of a step record for a request.
def hitBlocks (t : Scheduler) (i : SeqId) : Nat :=
  (t.initialPersistentHitBlocksBySeq i).getD 0 + (t.sameStepHitBlocksBySeq i).getD 0

def account (t : Scheduler) (batch : List SeqId) (i : SeqId) : Nat :=
  t.hitBlocks i * t.blockManager.blockSize + (if i ∈ batch then computedPrompt (t.seqs i) else 0)

end Scheduler

section Accounts

open Scheduler

variable {cache : Cache} {xxh64 : XxHash} {s u t w : Scheduler} {ids : Finset SeqId} {batch : List SeqId} {i : SeqId}

theorem Inv.cached_hits (h : Inv cache s ids) (preempted : Scheduler.preemptDecodeTail s.resetCounters = .ok () u)
    (run : Scheduler.schedule s = .ok batch t) :
    (t.seqs i).numCachedTokens = (u.seqs i).numCachedTokens + t.hitBlocks i * t.blockManager.blockSize ∧
      (t.hitBlocks i ≠ 0 → i ∈ u.waiting ∧ i ∈ batch) := by
  obtain ⟨s₁, s₂, tail, plan, ranked, found, entries, phases, outcome⟩ := h.schedule
  cases preempted.symm.trans phases.preempting
  have inv := phases.inv
  rw [run] at outcome
  cases outcome with
  | batch s₃ decoding decoded some' =>
      by_cases admitted : i ∈ entries.map Entry.seqId
      · have waits := phases.ranks.waits i (phases.prefilled.order.subset admitted)
        obtain ⟨v, blocks, admits⟩ := phases.admits (phases.no_hits i) admitted
        have last := admits.later (phases.decodes_keep admits.holds.exclusive decoding i)
        have size : (s₃.counted (prefillSeqs plan entries)).blockManager.blockSize = v.blockManager.blockSize :=
          decoded.stage.size.trans last.since.size.symm
        have counted : (s₃.counted (prefillSeqs plan entries)).hitBlocks i = blocks.length := by
          rw [hitBlocks, last.initial, last.sameStep]
          omega
        refine ⟨?_, fun _ => ⟨waits, List.mem_append_left _ (List.mem_append_right _ admitted)⟩⟩
        rw [last.holds.cached, (inv.waiting i waits).cached, counted, size, Nat.zero_add]
      · have keeps := phases.keeps admitted
        have last := keeps.trans (phases.decodes_keep keeps.exclusive decoding i)
        obtain ⟨initial, sameStep⟩ := Prod.mk.inj (last.hits.trans (phases.no_hits i))
        have none : (s₃.counted (prefillSeqs plan entries)).hitBlocks i = 0 := by
          rw [hitBlocks, initial, sameStep]
          rfl
        refine ⟨?_, fun some' => absurd none some'⟩
        rw [last.cached, none, Nat.zero_mul, Nat.add_zero]

theorem Inv.batch_live (h : Inv cache s ids) (run : Scheduler.schedule s = .ok batch t) (listed : i ∈ batch) :
    i ∈ ids ∧ (s.seqs i).status ≠ .finished := by
  obtain ⟨prefill, input, scheduled⟩ := h.scheduled run
  have member := scheduled.shape.member (scheduled.order ▸ listed)
  exact ⟨member.1, fun ended => member.2 ((scheduled.ended i).mpr ended)⟩

theorem Inv.account_outside (h : Inv cache s ids) (run : Scheduler.schedule s = .ok batch t) (outside : i ∉ batch) :
    t.account batch i = 0 := by
  obtain ⟨u, tail, preempted, -⟩ := Inv.preemptDecodeTail h.reset
  have none : t.hitBlocks i = 0 := by
    by_contra some'
    exact outside ((h.cached_hits preempted run).2 some').2
  rw [account, none, Nat.zero_mul, if_neg outside]

theorem Inv.prompt_step (h : Inv cache s ids) (step : Step xxh64 s batch t w) (member : i ∈ ids) :
    (w.seqs i).numPromptTokens = (s.seqs i).numPromptTokens ∧
      ((s.seqs i).status = .finished → (w.seqs i).status = .finished) ∧
      ((w.seqs i).status = .finished → (s.seqs i).status = .finished ∨ 0 < (w.seqs i).numCompletionTokens) := by
  obtain ⟨prefill, input, samples, scheduled, advanced, -, -⟩ := h.step step
  have shape := scheduled.shape
  obtain ⟨-, -, prompt, -⟩ := Sequence.request_eq (scheduled.request i)
  by_cases inside : i ∈ prefill ++ t.running
  · have live := (shape.member inside).2
    have turn := advanced.turn i inside
    obtain ⟨chain, kept⟩ := shape.kept
    refine ⟨turn.prompt.trans prompt, fun ended => absurd ((scheduled.ended i).mpr ended) live, fun ended => .inr ?_⟩
    exact turn.completion_pos (kept.held.wf i member) live ended
  · rw [advanced.others i inside]
    exact ⟨prompt, (scheduled.ended i).mpr, fun ended => .inl ((scheduled.ended i).mp ended)⟩

theorem Inv.waiting_step (h : Inv cache s ids)
    (calm : Scheduler.preemptDecodeTail s.resetCounters = .ok () s.resetCounters) (step : Step xxh64 s batch t w)
    (waits : i ∈ w.waiting) : i ∈ s.waiting ∧ (w.seqs i).numTokens = (s.seqs i).numTokens ∧
      (w.seqs i).numPromptTokens = (s.seqs i).numPromptTokens := by
  obtain ⟨prefill, input, samples, scheduled, advanced, -, -⟩ := h.step step
  rw [advanced.waiting] at waits
  have outside : i ∉ prefill ++ t.running := fun listed => scheduled.shape.apart listed waits
  obtain ⟨-, tokens, prompt, -⟩ := Sequence.request_eq (scheduled.request i)
  rw [advanced.others i outside]
  refine ⟨?_, tokens, prompt⟩
  obtain ⟨s₁, s₂, tail, plan, ranked, found, entries, phases, outcome⟩ := h.schedule
  cases calm.symm.trans phases.preempting
  have run := step.scheduled
  rw [run] at outcome
  cases outcome with
  | batch s₃ decoding decoded some' => exact decoded.stage.order.subset waits

theorem Inv.accounts (h : Inv cache s ids) (calm : Scheduler.preemptDecodeTail s.resetCounters = .ok () s.resetCounters)
    (step : Step xxh64 s batch t w) (fresh : ∀ i ∈ s.waiting, (s.seqs i).numTokens = (s.seqs i).numPromptTokens)
    (member : i ∈ ids) : (w.seqs i).prefilled = (s.seqs i).prefilled + t.account batch i := by
  obtain ⟨prefill, input, samples, scheduled, advanced, -, -⟩ := h.step step
  have shape := scheduled.shape
  have order := scheduled.order
  obtain ⟨cached, hits⟩ := h.cached_hits (i := i) calm step.scheduled
  obtain ⟨-, tokens, prompt, -⟩ := Sequence.request_eq (scheduled.request i)
  rw [account]
  by_cases listed : i ∈ batch
  · have inside : i ∈ prefill ++ t.running := order ▸ listed
    have live := (shape.member inside).2
    have live' : (s.seqs i).status ≠ .finished := fun ended => live ((scheduled.ended i).mpr ended)
    obtain ⟨chain, kept⟩ := shape.kept
    rw [(advanced.turn i inside).prefilled (kept.held.wf i member) live, if_pos listed, Sequence.prefilled,
      if_neg live', prompt, cached, ← Nat.add_assoc]
    congr 1
    by_cases none : t.hitBlocks i = 0
    · rw [none, Nat.zero_mul]
      rfl
    · have waits : i ∈ s.waiting := (hits none).1
      have idle : (s.resetCounters.seqs i).numCachedTokens = 0 := (h.waiting i waits).cached
      -- The last token of a prompt is never a hit.
      have within : (t.seqs i).numContextTokens ≤ (t.seqs i).numTokens := (kept.covered i member).within
      rw [Sequence.numContextTokens, cached, idle, tokens, fresh i waits] at within
      rw [idle, (h.waiting i waits).cached]
      omega
  · have outside : i ∉ prefill ++ t.running := order ▸ listed
    have none : t.hitBlocks i = 0 := by
      by_contra some'
      exact listed (hits some').2
    rw [none, Nat.zero_mul, Nat.add_zero] at cached
    rw [advanced.others i outside, if_neg listed, none, Nat.zero_mul, Nat.add_zero]
    exact Sequence.prefilled_congr (scheduled.request i) (scheduled.ended i) cached

end Accounts

end NanoVllm
