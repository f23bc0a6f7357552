import NanoVllm.Runs.Reachable

set_option autoImplicit false

namespace NanoVllm

open Python Raising

/-- The phase invariant: only the chunk may have more than one token to compute. -/
structure Phased (s : Scheduler) (ids : Finset SeqId) : Prop where
  running : ∀ i ∈ s.running, (s.seqs i).numTokens = (s.seqs i).numCachedTokens + 1
  waiting : ∀ i ∈ s.waiting,
    (s.seqs i).blockTable = [] ∧ (s.seqs i).numCachedTokens = 0 ∧ (s.seqs i).numNewTokens = 0
  chunk : ∀ i ∈ ids, (s.seqs i).status = .running → s.chunkedReq ≠ some i →
    (s.seqs i).numTokens ≤ (s.seqs i).numCachedTokens + 1

def Clean (t : Scheduler) (batch : List SeqId) : Prop :=
  ∀ i ∈ batch, (t.seqs i).numPromptTokens ≤ (t.seqs i).numContextTokens →
    (t.seqs i).numTokens ≤ (t.seqs i).numContextTokens + 1

instance (t : Scheduler) (batch : List SeqId) : Decidable (Clean t batch) :=
  inferInstanceAs (Decidable (∀ i ∈ batch, _ → _))

inductive CleanRun (xxh64 : XxHash) (config : Config) : Scheduler → Finset SeqId → Prop
  | init {s : Scheduler} (made : Scheduler.init config = .ok s) : CleanRun xxh64 config s ∅
  | add {s s' : Scheduler} {ids : Finset SeqId} {i : SeqId} {tokenIds : List Token} {params : SamplingParams}
      {seq : Sequence} (past : CleanRun xxh64 config s ids) (absent : i ∉ ids)
      (made : Sequence.init xxh64 i tokenIds params config.kvcacheBlockSize = .ok seq)
      (run : Scheduler.add seq s = .ok () s') : CleanRun xxh64 config s' (insert i ids)
  | step {s t w : Scheduler} {ids : Finset SeqId} {batch : List SeqId} (past : CleanRun xxh64 config s ids)
      (step : Step xxh64 s batch t w) (clean : Clean t batch) : CleanRun xxh64 config w ids

section Phase

open Scheduler

variable {cache : Cache} {xxh64 : XxHash} {config : Config} {s t w : Scheduler} {ids : Finset SeqId}
  {batch : List SeqId} {i : SeqId}

theorem CleanRun.reachable (run : CleanRun xxh64 config s ids) : Reachable xxh64 config s ids := by
  induction run with
  | init made => exact .init made
  | add past absent made run ih => exact ih.add absent made run
  | step past step clean ih => exact ih.step step

theorem Inv.phased (h : Inv cache s ids)
    (running : ∀ i ∈ s.running, (s.seqs i).numTokens = (s.seqs i).numCachedTokens + 1) : Phased s ids where
  running := running
  waiting i waits := ⟨(h.waiting i waits).table, (h.waiting i waits).cached, (h.waiting i waits).new⟩
  chunk i member status other := by
    have seat := (h.seated i).mpr ⟨member, by rw [status]; simp⟩
    rw [List.mem_append, List.mem_append, Option.mem_toList] at seat
    rcases seat with (waits | chunk) | runs
    · rw [(h.waiting i waits).status] at status
      cases status
    · exact absurd chunk other
    · exact (running i runs).le

theorem Inv.single (h : Inv cache s ids) (phased : Phased s ids) (t : Scheduler) :
    Scheduler.schedule s ≠ .error uncomputedIsOne t := by
  intro run
  obtain ⟨s₁, s₂, tail, plan, ranked, found, entries, phases, outcome⟩ := h.schedule
  rw [run] at outcome
  cases outcome with
  | @phase done rest i _ split decoding decoded many =>
      have preempted := phases.preempted
      have listed : i ∈ s₁.running := by simp [split]
      have order : s.running = s₁.running ++ tail := preempted.running
      have once := (List.nodup_append.mp h.seats).2.1
      rw [order] at once
      have same : s₁.seqs i = s.seqs i :=
        preempted.others i (fun later => List.disjoint_of_nodup_append once listed later)
      have single := phased.running i (by rw [order]; exact List.mem_append_left _ listed)
      rw [Sequence.uncomputed, same] at many
      omega
  | stuck none idle kind => exact absurd kind (by decide)

theorem Advanced.phased_iff {prefill : List SeqId} {samples : List (SeqId × Token)}
    (adv : Advanced xxh64 t w prefill samples) (h : Batch cache t ids prefill) {cache' : Cache}
    (inv : Inv cache' w ids) : Phased w ids ↔ Clean t (prefill ++ t.running) := by
  constructor
  · intro phased i listed past
    by_cases complete : (t.seqs i).Complete
    · have whole : (t.seqs i).numContextTokens = (t.seqs i).numTokens := complete
      omega
    · have value := (adv.turn i listed).advanced complete
      have prefills : i ∈ prefill :=
        (List.mem_append.mp listed).resolve_right (fun runs => complete (h.running i runs).1)
      have joins : w.joins i = true := by
        simp only [Scheduler.joins, decide_eq_true_eq, value]
        exact ⟨(h.member listed).2, not_lt.mpr past⟩
      have runs : i ∈ w.running := by
        rw [adv.running]
        exact List.mem_append_right _ (List.mem_filter.mpr ⟨prefills, joins⟩)
      have single := phased.running i runs
      rw [value] at single
      exact single.le
  · intro clean
    refine inv.phased (fun i runs => ?_)
    rw [adv.running, List.mem_append] at runs
    rcases runs with stays | joined
    · obtain ⟨runs, live⟩ := List.mem_filter.mp stays
      exact (adv.turn i (List.mem_append_right _ runs)).single (h.running i runs).1 (of_decide_eq_true live)
    · obtain ⟨prefills, joined⟩ := List.mem_filter.mp joined
      obtain ⟨live, past⟩ := of_decide_eq_true joined
      have listed := List.mem_append_left t.running prefills
      by_cases complete : (t.seqs i).Complete
      · exact (adv.turn i listed).single complete live
      · have value := (adv.turn i listed).advanced complete
        obtain ⟨chain, kept⟩ := h.kept
        have within : (t.seqs i).numContextTokens ≤ (t.seqs i).numTokens :=
          (kept.covered i (h.member listed).1).within
        rw [value] at past ⊢
        exact le_antisymm (clean i listed (not_lt.mp past)) (Nat.lt_of_le_of_ne within complete)

/-- In a clean run the phase invariant holds, and the first step that is not clean breaks it. -/
theorem clean_run_phased (run : CleanRun xxh64 config s ids) :
    Phased s ids ∧ (∀ t, schedule s ≠ .error uncomputedIsOne t) ∧
      ∀ batch t w, Step xxh64 s batch t w → (Phased w ids ↔ Clean t batch) := by
  have steps {s : Scheduler} {ids : Finset SeqId} (past : Reachable xxh64 config s ids) {batch : List SeqId}
      {t w : Scheduler} (step : Step xxh64 s batch t w) : Phased w ids ↔ Clean t batch := by
    obtain ⟨cache, inv, -⟩ := past.inv
    obtain ⟨prefill, input, samples, scheduled, advanced, inv', -⟩ := inv.step step
    rw [scheduled.order]
    exact advanced.phased_iff scheduled.shape inv'
  have phased : Phased s ids := by
    induction run with
    | init made =>
        obtain ⟨inv, -⟩ := Inv.init made (fun _ => [])
        exact inv.phased (fun i runs => absurd (inv.running_mem runs).1 (Finset.notMem_empty i))
    | @add s s' ids i tokenIds params seq past absent made run ih =>
        obtain ⟨cache, inv, same⟩ := past.reachable.inv
        subst same
        obtain ⟨inv', -⟩ := inv.add absent made run
        obtain ⟨-, value⟩ := add_run run
        obtain ⟨-, -, name, -⟩ := Sequence.init_ok made
        subst value
        refine inv'.phased (fun j runs => ?_)
        have other : j ≠ i := fun same => absent (same ▸ (inv.running_mem runs).1)
        rw [← name] at other
        change ((Scheduler.setSeq _ _ _).seqs j).numTokens = ((Scheduler.setSeq _ _ _).seqs j).numCachedTokens + 1
        rw [setSeq_seqs_of_ne _ _ other]
        exact ih.running j runs
    | step past step clean ih => exact (steps past.reachable step).mpr clean
  obtain ⟨cache, inv, -⟩ := run.reachable.inv
  exact ⟨phased, inv.single phased, fun batch t w step => steps run.reachable step⟩

theorem CleanRun.play (past : CleanRun xxh64 config s ids) {tokenIds : List Token}
    (run : (Event.step tokenIds).run xxh64 s = .ok () w)
    (clean : wp schedule (fun batch t => Clean t batch) (fun _ _ => True) s) : CleanRun xxh64 config w ids := by
  obtain ⟨batch, t, scheduled, run⟩ := run_bind_ok run
  have clean' := wp_returns clean scheduled
  exact past.step ⟨scheduled, tokenIds, _, Event.logits_rows t batch, run⟩ clean'

end Phase

-- A prompt of three tokens under a budget of two: the chunk is computed in two steps.
theorem clean_run_phased_chunk :
    ∃ s, CleanRun pageHash
        { maxNumBatchedTokens := 2
          maxModelLen := 8
          kvcacheBlockSize := 1
          numKvcacheBlocks := 8
          chunkedPrefill := true } s {0} ∧ s.chunkedReq = some 0 ∧ Phased s {0} ∧
      ∀ batch t w, Step pageHash s batch t w → (Phased w {0} ↔ Clean t batch) := by
  have start : Scheduler.init
      { maxNumBatchedTokens := 2
        maxModelLen := 8
        kvcacheBlockSize := 1
        numKvcacheBlocks := 8
        chunkedPrefill := true } = .ok _ := rfl
  have request : Sequence.init pageHash 0 [1, 2, 3] {} 1 = .ok _ := rfl
  have added := (@CleanRun.init pageHash _ _ start).add (by decide : 0 ∉ (∅ : Finset SeqId)) request
    (run_final (by decide +kernel))
  have chunk := @CleanRun.play _ _ _ _ _ added [] (run_final (by decide +kernel)) (by decide +kernel)
  obtain ⟨phased, -, steps⟩ := clean_run_phased chunk
  exact ⟨_, chunk, by decide +kernel, phased, steps⟩

/-- A request that was preempted with completion tokens can be prefilled past its prompt, and still have
two tokens to compute when it joins the decode requests. -/
theorem preempted_chunk_breaks_phase :
    ∃ s t, Reachable pageHash
        { maxNumBatchedTokens := 2
          maxNumSeqs := 2
          maxModelLen := 8
          kvcacheBlockSize := 1
          numKvcacheBlocks := 6
          chunkedPrefill := true } s {0, 1} ∧ ¬Phased s {0, 1} ∧
      Scheduler.schedule s = .error Scheduler.uncomputedIsOne t := by
  have start : Scheduler.init
      { maxNumBatchedTokens := 2
        maxNumSeqs := 2
        maxModelLen := 8
        kvcacheBlockSize := 1
        numKvcacheBlocks := 6
        chunkedPrefill := true } = .ok _ := rfl
  have run := Reachable.play pageHash start
    [.add 0 [1] { maxTokens := 6 }, .add 1 [2] { maxTokens := 6 }, .step [11, 21], .step [12, 22], .step [13, 23],
      .step [14], .step [15], .step [16], .step []] (by decide) (run_final (by decide +kernel))
  refine ⟨_, _, run, fun phased => ?_, run_error (by decide +kernel)⟩
  exact absurd (phased.running 1 (by decide +kernel)) (by decide +kernel)

end NanoVllm
