import NanoVllm.Bench.Accounts
import NanoVllm.Runs.Contract
import NanoVllm.Runs.Phase
import NanoVllm.Runs.Serving
import NanoVllm.Runs.Termination

set_option autoImplicit false

namespace NanoVllm

open Python Raising

/-- The KV cache holds as many requests of full length as run together, and every prefill fits its steps. -/
structure Config.Ample (config : Config) : Prop where
  seats : 1 ≤ config.maxNumSeqs
  budget : 1 ≤ config.maxNumBatchedTokens
  pages : config.maxNumSeqs * pagesFor config.kvcacheBlockSize (config.maxModelLen - 1) ≤ config.numKvcacheBlocks
  prefill : config.chunkedPrefill = true ∨ config.maxModelLen ≤ config.maxNumBatchedTokens + 1

def Fresh (s : Scheduler) : Prop :=
  (∀ i ∈ s.waiting, (s.seqs i).numTokens = (s.seqs i).numPromptTokens) ∧
    ∀ i, s.chunkedReq = some i → (s.seqs i).numTokens = (s.seqs i).numPromptTokens

theorem sum_rest {α : Type} {xs : List α} {f : α → Nat} {bound : Nat} (each : ∀ x ∈ xs, f x ≤ bound) :
    (xs.map (fun x => bound - f x)).sum + (xs.map f).sum = xs.length * bound := by
  rw [← List.sum_map_add, List.map_congr_left (fun x listed => Nat.sub_add_cancel (each x listed)), List.map_const',
    List.sum_replicate, smul_eq_mul]

section Ample

open Scheduler

variable {cache : Cache} {xxh64 : XxHash} {config : Config} {s t w : Scheduler} {ids : Finset SeqId}
  {batch prefill : List SeqId} {i : SeqId}

theorem Config.Ample.roomy (ample : config.Ample) : config.Roomy := by
  have pages := Nat.le_mul_of_pos_left (pagesFor config.kvcacheBlockSize (config.maxModelLen - 1)) ample.seats
  exact (le_pagesFor_mul config.kvcacheBlockSize_pos).trans (Nat.mul_le_mul_right _ (pages.trans ample.pages))

theorem Inv.live_mem (h : Inv cache s ids) (listed : i ∈ s.live) : i ∈ ids ∧ (s.seqs i).status ≠ .finished := by
  refine (h.seated i).mp ?_
  rw [List.append_assoc]
  exact List.mem_append_right _ listed

theorem Inv.reserve_le (h : Inv cache s ids) (seated : Seated s.config s) (ample : s.config.Ample) :
    s.reserve s.running ≤ s.blockManager.freeBlockIds.length := by
  obtain ⟨chain, held, -⟩ := h.pool
  have positive : 0 < s.blockManager.blockSize := held.size_pos
  have pages := ample.pages
  rw [← h.size, ← h.count] at pages
  generalize full' : pagesFor s.blockManager.blockSize (s.config.maxModelLen - 1) = full at pages
  have pagesOf (i : SeqId) (listed : i ∈ s.live) {n : Nat} (within : n ≤ (s.seqs i).numTokens) :
      pagesFor s.blockManager.blockSize n ≤ full := by
    obtain ⟨member, unended⟩ := h.live_mem listed
    have length := (h.limits i member unended).length
    exact full' ▸ pagesFor_mono positive (by omega)
  have table (i : SeqId) (listed : i ∈ s.live) : (s.seqs i).blockTable.length ≤ full := by
    have member := (h.live_mem listed).1
    rw [(h.covered i member).length]
    exact pagesOf i listed (h.covered i member).within
  have needs : s.reserve s.running ≤ (s.live.map (fun i => full - (s.seqs i).blockTable.length)).sum := by
    rw [live, List.map_append, List.sum_append, reserve]
    refine (List.sum_le_sum (fun i runs => ?_)).trans (Nat.le_add_left _ _)
    exact Nat.sub_le_sub_right (pagesOf i (List.mem_append_right _ runs) (h.running i runs).cached) _
  have whole := sum_rest table
  have seats := Nat.mul_le_mul_right full (s.active_eq.symm.trans_le seated.seats)
  have blocks := h.numBlocks_le
  rw [live] at *
  omega

theorem Inv.calm (h : Inv cache s ids) (seated : Seated s.config s) (ample : s.config.Ample) :
    Scheduler.preemptDecodeTail s.resetCounters = .ok () s.resetCounters := by
  have affordable : s.resetCounters.Affordable := ⟨seated.tokens, h.reserve_le seated ample⟩
  unfold Scheduler.preemptDecodeTail
  rw [run_get_bind]
  cases turns : s.resetCounters.running.length with
  | zero => rfl
  | succ fuel =>
      rcases h.reset.preempt_turn with ⟨-, stays⟩ | ⟨u, i, -, -, poor, -⟩
      · exact stays fuel
      · exact absurd affordable poor

theorem Inv.taken (h : Inv cache s ids) (calm : Scheduler.preemptDecodeTail s.resetCounters = .ok () s.resetCounters)
    (run : Scheduler.schedule s = .ok batch t) : t.waiting ⊆ s.waiting ∧
      ∀ i ∈ batch, i ∈ t.running ∨ i ∈ s.waiting ∨ s.chunkedReq = some i := by
  obtain ⟨s₁, s₂, tail, plan, ranked, found, entries, phases, outcome⟩ := h.schedule
  cases calm.symm.trans phases.preempting
  rw [run] at outcome
  cases outcome with
  | batch s₃ decoding decoded some' =>
      refine ⟨fun i waits => decoded.stage.order.subset waits, fun i listed => ?_⟩
      rcases List.mem_append.mp listed with prefills | runs
      · right
        rcases List.mem_append.mp prefills with resumed | admitted
        · right
          have decision := phases.decision
          cases decision with
          | absent chunk => simp [ChunkPlan.resumes] at resumed
          | paused chunk stuck => simp [ChunkPlan.resumes] at resumed
          | resumed chunk positive tokens fits =>
              simp only [ChunkPlan.resumes, Option.toList_some, List.map_cons, List.map_nil,
                List.mem_singleton] at resumed
              rw [resumed]
              exact chunk
        · exact Or.inl (phases.ranks.waits i (phases.prefilled.order.subset admitted))
      · left
        exact decoded.stage.running.symm ▸ runs

theorem Inv.fresh_step (h : Inv cache s ids)
    (calm : Scheduler.preemptDecodeTail s.resetCounters = .ok () s.resetCounters) (fresh : Fresh s)
    (step : Step xxh64 s batch t w) : Clean t batch ∧ ¬Stalls t batch ∧ Fresh w := by
  obtain ⟨prefill, input, samples, scheduled, adv, -, -⟩ := h.step step
  have shape := scheduled.shape
  obtain ⟨waits, taken⟩ := h.taken calm step.scheduled
  have short (i : SeqId) (listed : i ∈ batch) :
      (t.seqs i).Complete ∨ (t.seqs i).numTokens = (t.seqs i).numPromptTokens := by
    obtain ⟨-, tokens, prompt, -⟩ := Sequence.request_eq (scheduled.request i)
    rw [tokens, prompt]
    rcases taken i listed with runs | waiting | chunk
    · exact Or.inl (shape.running i runs).1
    · exact Or.inr (fresh.1 i waiting)
    · exact Or.inr (fresh.2 i chunk)
  refine ⟨fun i listed past => ?clean, ?steady, fun i waiting => ?waiting, fun i chunk => ?chunk⟩
  case clean =>
    rcases short i listed with complete | prompt
    · have whole : (t.seqs i).numContextTokens = (t.seqs i).numTokens := complete
      omega
    · omega
  case steady =>
    rintro ⟨i, listed, past, part, -⟩
    rcases short i listed with complete | prompt
    · exact absurd complete part.ne
    · omega
  case waiting =>
    rw [adv.waiting] at waiting
    have outside : i ∉ prefill ++ t.running := fun listed => shape.apart listed waiting
    obtain ⟨-, tokens, prompt, -⟩ := Sequence.request_eq (scheduled.request i)
    rw [adv.others i outside, tokens, prompt]
    exact fresh.1 i (waits waiting)
  case chunk =>
    rw [adv.chunk] at chunk
    split at chunk
    next none =>
      obtain ⟨-, tokens, prompt, -⟩ := Sequence.request_eq (scheduled.request i)
      have before : s.chunkedReq = some i := scheduled.chunkedReq.symm.trans chunk
      have outside : i ∉ prefill ++ t.running := by
        rw [none, List.nil_append]
        intro runs
        exact absurd (shape.running i runs).2.2 (not_le.mpr (shape.paused none i chunk).cached)
      rw [adv.others i outside, tokens, prompt]
      exact fresh.2 i before
    next =>
      obtain ⟨prefills, part⟩ := List.mem_filter.mp (List.mem_of_mem_head? chunk)
      have listed : i ∈ prefill ++ t.running := List.mem_append_left _ prefills
      obtain ⟨live, below⟩ := of_decide_eq_true part
      obtain ⟨chain, kept⟩ := shape.kept
      have rest : ¬(t.seqs i).Complete := by
        intro complete
        rcases (adv.turn i listed).complete_prompt (kept.held.wf i (shape.member listed).1) complete with ended | past
        · exact live ended
        · exact past below
      rw [(adv.turn i listed).advanced rest]
      exact (short i (scheduled.order ▸ listed)).resolve_left rest

theorem Reachable.fresh (run : Reachable xxh64 config s ids) (ample : config.Ample) : Fresh s ∧ Phased s ids := by
  induction run with
  | init made =>
      obtain ⟨inv, -⟩ := Inv.init made (fun _ => [])
      refine ⟨⟨fun i waits => ?_, fun i chunk => ?_⟩, inv.phased (fun i runs => ?_)⟩
      · exact absurd (inv.waiting_mem waits).1 (Finset.notMem_empty i)
      · exact absurd (inv.chunk_mem chunk).1 (Finset.notMem_empty i)
      · exact absurd (inv.running_mem runs).1 (Finset.notMem_empty i)
  | @add s s' ids i tokenIds params seq past absent made run ih =>
      obtain ⟨cache, inv, same⟩ := past.inv
      subst same
      obtain ⟨inv', -⟩ := inv.add absent made run
      obtain ⟨-, value⟩ := add_run run
      obtain ⟨wf, first, name, tokens, -⟩ := Sequence.init_ok made
      have others (j : SeqId) (listed : j ∈ ids) : s'.seqs j = s.seqs j := by
        rw [value]
        exact s.setSeq_seqs_of_ne seq (fun same => absent (name ▸ same ▸ listed))
      have self : s'.seqs i = seq := by
        rw [value, ← name]
        exact s.setSeq_seqs_self seq.seqId seq
      have waiting : s'.waiting = s.waiting ++ [i] := by rw [value, ← name]
      have chunkedReq : s'.chunkedReq = s.chunkedReq := by
        subst value
        rfl
      have running : s'.running = s.running := by
        subst value
        rfl
      refine ⟨⟨fun j waits => ?_, fun j chunk => ?_⟩, inv'.phased (fun j runs => ?_)⟩
      · rcases List.mem_append.mp (waiting ▸ waits) with before | new
        · rw [others j (inv.waiting_mem before).1]
          exact ih.1.1 j before
        · rw [List.mem_singleton.mp new, self]
          exact first.prompt.symm
      · rw [chunkedReq] at chunk
        rw [others j (inv.chunk_mem chunk).1]
        exact ih.1.2 j chunk
      · rw [running] at runs
        rw [others j (inv.running_mem runs).1]
        exact ih.2.running j runs
  | step past step ih =>
      obtain ⟨cache, inv, same⟩ := past.inv
      have seated := past.seated
      subst same
      obtain ⟨clean, -, fresh⟩ := inv.fresh_step (inv.calm seated ample) ih.1 step
      obtain ⟨prefill, input, samples, scheduled, adv, inv', -⟩ := inv.step step
      rw [scheduled.order] at clean
      exact ⟨fresh, (adv.phased_iff scheduled.shape inv').mpr clean⟩

end Ample

section Total

open Scheduler

variable {xxh64 : XxHash} {tokenizer : Tokenizer} {forward : List Token → Token} {config : Config}
  {e e' : LLMEngine} {requests : List Request} {reports : List (SeqId × List Token)}

theorem LLMEngine.step_run {batch : List SeqId} {t w : Scheduler} {input : ModelRunner.ModelInput} {rows : List Nat}
    (scheduled : schedule e.scheduler = .ok batch t)
    (prepared : ModelRunner.prepareModelInput t.config.kvcacheBlockSize (batch.map t.seqs) t.numScheduledPrefillSeqs =
      .ok input) (needed : input.seqNeedComputeLogits = some rows)
    (processed : postprocess xxh64 batch
      (rows.filterMap (fun row => (batch.map t.seqs)[row]?.map (fun seq => forward seq.tokenIds))) rows t = .ok () w) :
    LLMEngine.step xxh64 forward e = .ok ((batch.filter (fun i => (w.seqs i).isFinished)).map
      (fun i => ((w.seqs i).seqId, (w.seqs i).completionTokenIds))) { e with scheduler := w } := by
  have plain : ModelRunner.run forward t.config.kvcacheBlockSize (batch.map t.seqs) t.numScheduledPrefillSeqs =
      .ok (rows.filterMap (fun row => (batch.map t.seqs)[row]?.map (fun seq => forward seq.tokenIds)), some rows) := by
    simp only [ModelRunner.run, prepared, except_ok_bind, needed]
    rfl
  have chosen : LLMEngine.onScheduler schedule e = .ok batch { e with scheduler := t } := zoom_ok scheduled
  have appended : LLMEngine.onScheduler (postprocess xxh64 batch
      (rows.filterMap (fun row => (batch.map t.seqs)[row]?.map (fun seq => forward seq.tokenIds))) rows)
        { e with scheduler := t } = .ok () { e with scheduler := w } := zoom_ok processed
  unfold LLMEngine.step
  rw [bind_ok chosen, run_get_bind, run_ofExcept_bind plain]
  exact bind_ok appended

end Total

end NanoVllm
