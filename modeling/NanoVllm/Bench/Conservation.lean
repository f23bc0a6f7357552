import NanoVllm.Bench.Measured

set_option autoImplicit false

namespace NanoVllm

open Python Raising

section Conservation

variable {cache : Cache} {xxh64 : XxHash} {config : Config} {h h' : Hooked} {ids : Finset SeqId}
  {past : List (Scheduler × List SeqId)} {batch : List SeqId} {i : SeqId} {s t w : Scheduler}

def Sequence.Prefilled (seq : Sequence) : Prop := seq.status = .finished ∨ seq.numPromptTokens ≤ seq.numCachedTokens

theorem Sequence.Prefilled.prefilled_eq {seq : Sequence} (done : seq.Prefilled) :
    seq.prefilled = seq.numPromptTokens := by
  rw [prefilled]
  split
  next => rfl
  next live => exact Nat.min_eq_right (done.resolve_left live)

theorem Audited.follows (audit : Audited h ids past) (inv : Inv cache h.scheduler ids)
    (step : Step xxh64 h.scheduler batch t w) :
    ∃ h₁ h', MeasuredStep xxh64 h batch h₁ h' ∧ h₁.scheduler = t ∧ h'.scheduler = w := by
  obtain ⟨h₁, run, rfl, recorded⟩ := Hooked.scheduleHook_ok inv audit.pending step.scheduled
  obtain ⟨tokenIds, logitsIndices, logits, sampled⟩ := step.sampled
  obtain ⟨record, left, -⟩ := recorded.record
  have left' : ({ h₁ with scheduler := w } : Hooked).metrics.pendingStep = some record := left
  exact ⟨h₁, _, ⟨run, w, tokenIds, logitsIndices, logits, sampled, Hooked.finishStep_run left'⟩, rfl, rfl⟩

/-- The totals of a summary are those of the requests and of the run, and they are equal. -/
structure Totals (h : Hooked) (past : List (Scheduler × List SeqId)) (summary : MetricSummary) : Prop where
  balanced : summary.deltaTokens = 0
  total : summary.totalPromptTokens =
    ∑ i ∈ h.metrics.observations.keys.toFinset, (h.scheduler.seqs i).numPromptTokens
  accounted : summary.accountedPromptTokens =
    ∑ i ∈ h.metrics.observations.keys.toFinset, (past.map (fun e => e.1.account e.2 i)).sum

theorem Conserved.summary (conserved : Conserved h past) (audit : Audited h ids past) (inv : Inv cache h.scheduler ids)
    (idle : h.scheduler.isFinished = true) (prefixGroups sharedPrefixLen : Nat) :
    ∃ summary, h.metrics.metricSummary prefixGroups sharedPrefixLen = .ok summary ∧ Totals h past summary := by
  have ended {i : SeqId} (member : i ∈ ids) := inv.all_ended idle member
  have found {o : RequestObservation} (listed : o ∈ h.metrics.observations.values) :
      ∃ i ∈ ids, h.metrics.observations.get? i = some o := by
    obtain ⟨e, entry, rfl⟩ := List.mem_map.mp listed
    exact ⟨e.1, audit.inside e.1 (List.mem_map_of_mem entry), Items.get?_eq_some.mpr entry⟩
  have rows : h.metrics.observations.values.mapM SchedulerMetrics.requestRow =
      .ok (h.metrics.observations.values.map (fun o => o.spec.promptTokenIds.length)) := by
    refine mapM_eq (fun o listed => ?_)
    obtain ⟨i, member, entry⟩ := found listed
    rw [SchedulerMetrics.requestRow, require_of (audit.ended i o entry (ended member))]
    rfl
  have total : (h.metrics.observations.values.map (fun o => o.spec.promptTokenIds.length)).sum =
      h.metrics.accounted := by
    rw [Items.map_values audit.spec, ← List.sum_toFinset _ (Items.nodup_keys _), conserved.total]
    refine Finset.sum_congr rfl (fun i listed => ?_)
    exact (Sequence.Prefilled.prefilled_eq (.inl (ended (audit.inside i (List.mem_toFinset.mp listed))))).symm
  have prompts : h.metrics.accounted =
      ∑ i ∈ h.metrics.observations.keys.toFinset, (h.scheduler.seqs i).numPromptTokens := by
    rw [conserved.total]
    exact Finset.sum_congr rfl (fun i listed =>
      Sequence.Prefilled.prefilled_eq (.inl (ended (audit.inside i (List.mem_toFinset.mp listed)))))
  have accounts : h.metrics.accounted =
      ∑ i ∈ h.metrics.observations.keys.toFinset, (past.map (fun e => e.1.account e.2 i)).sum := by
    rw [conserved.total]
    exact Finset.sum_congr rfl (fun i listed => (conserved.accounted i (List.mem_toFinset.mp listed)).symm)
  have balanced : h.metrics.initialPersistentHitTokens + h.metrics.sameStepHitTokens = h.metrics.claimedPrefixTokens :=
    audit.balanced
  rw [SchedulerMetrics.accounted] at total prompts accounts
  rw [SchedulerMetrics.metricSummary, rows, except_ok_bind]
  dsimp only
  rw [require_of balanced, pure_bind, require_of total.symm, pure_bind]
  refine ⟨_, rfl, ?_, total.trans prompts, accounts⟩
  dsimp only
  rw [total]
  omega

/-- What the hits and the forward passes of a phase account to a request is its prompt, unless it was preempted, and
no assertion of the collector fails. -/
theorem prompt_tokens_conserved (run : Measured xxh64 config h ids past) :
    onPart Hooked.scheduler (Hooked.scheduleHook h) = Scheduler.schedule h.scheduler ∧
    (∀ batch t w, Step xxh64 h.scheduler batch t w →
      ∃ h₁ h', MeasuredStep xxh64 h batch h₁ h' ∧ h₁.scheduler = t ∧ h'.scheduler = w) ∧
    (∀ i, h.metrics.steps.map (StepRecord.claimedBlocks · i) = past.map (fun e => e.1.hitBlocks i)) ∧
    (h.metrics.preemptions = 0 →
      (∀ i ∈ h.metrics.observations.keys, (h.scheduler.seqs i).Prefilled →
        (past.map (fun e => e.1.account e.2 i)).sum = (h.scheduler.seqs i).numPromptTokens) ∧
      (h.scheduler.isFinished = true → ∀ prefixGroups sharedPrefixLen, ∃ summary,
        h.metrics.metricSummary prefixGroups sharedPrefixLen = .ok summary ∧ Totals h past summary)) := by
  obtain ⟨reached, audit⟩ := run.audited
  obtain ⟨cache, inv, -⟩ := reached.inv
  refine ⟨Hooked.scheduleHook_watches inv audit.pending, fun batch t w step => audit.follows inv step, audit.claimed,
    fun none => ?_⟩
  have conserved := run.conserved none
  constructor
  · intro i listed done
    rw [conserved.accounted i listed, done.prefilled_eq]
  · exact fun idle => conserved.summary audit inv idle

theorem Reachable.measured (run : Reachable xxh64 config s ids) :
    ∃ h past, Measured xxh64 config h ids past ∧ h.scheduler = s ∧ ∀ i ∈ ids, i ∈ h.metrics.observations.keys := by
  induction run with
  | init made =>
      obtain ⟨manager, created, value⟩ := except_bind_ok made
      cases value
      exact ⟨_, [], .install (.init made) rfl, rfl, by simp⟩
  | @add s s' ids i tokenIds params seq before absent made added ih =>
      obtain ⟨h, past, run, rfl, all⟩ := ih
      have new : i ∉ h.metrics.observations.keys := fun listed => absent (run.audited.2.inside i listed)
      have made' : Sequence.init xxh64 i ({ name := "", promptTokenIds := tokenIds } : RequestSpec).promptTokenIds
          params config.kvcacheBlockSize = .ok seq := made
      refine ⟨_, past, run.add absent made' added, rfl, fun j member => ?_⟩
      rw [show (h.entered i _ s').metrics.observations.keys = _ from Items.keys_put new _, List.mem_append,
        List.mem_singleton]
      exact (Finset.mem_insert.mp member).symm.imp_left (all j)
  | step before step ih =>
      obtain ⟨h, past, run, rfl, all⟩ := ih
      obtain ⟨reached, audit⟩ := run.audited
      obtain ⟨cache, inv, -⟩ := reached.inv
      obtain ⟨h₁, h', measured, rfl, rfl⟩ := audit.follows inv step
      refine ⟨h', _, run.step measured, rfl, fun i member => ?_⟩
      obtain ⟨recorded, w, record, engine, rfl, -⟩ := measured.spec inv audit.pending
      rw [Hooked.keys_finished]
      exact recorded.keys ▸ all i member

end Conservation

namespace Event

-- An event of a measured phase; the batch is sampled as in `run`.
def measured (xxh64 : XxHash) : Event → Metered Unit
  | add i tokenIds params => do
      let h ← get
      let seq ← ofExcept (Sequence.init xxh64 i tokenIds params h.scheduler.config.kvcacheBlockSize)
      Hooked.onScheduler (Scheduler.add seq)
      modify (fun h => h.entered i { name := "", promptTokenIds := tokenIds } h.scheduler)
  | step tokenIds => do
      let batch ← Hooked.scheduleHook
      let h ← get
      Hooked.onScheduler (Scheduler.postprocess xxh64 batch tokenIds (rows h.scheduler batch))
      modify Hooked.observed
      Hooked.finishStep

end Event

namespace Measured

variable {xxh64 : XxHash} {config : Config} {h h' : Hooked} {ids : Finset SeqId} {past : List (Scheduler × List SeqId)}

theorem event (run : Measured xxh64 config h ids past) (e : Event) (fresh : ∀ i ∈ e.added, i ∉ ids)
    (ran : e.measured xxh64 h = .ok () h') : ∃ past', Measured xxh64 config h' (ids ∪ e.added.toFinset) past' := by
  cases e with
  | add i tokenIds params =>
      obtain ⟨cache, -, same⟩ := run.audited.1.inv
      obtain ⟨seq, made, ran⟩ := run_ofExcept_ok ran
      obtain ⟨⟨⟩, h₁, zoomed, ran⟩ := run_bind_ok ran
      obtain ⟨s', added, rfl⟩ := run_zoom_ok zoomed
      cases ran
      rw [Event.added, List.toFinset_cons, List.toFinset_nil, Finset.union_comm, Finset.insert_union,
        Finset.empty_union]
      exact ⟨past, run.add (fresh i (List.mem_singleton_self i)) (same ▸ made) added⟩
  | step tokenIds =>
      obtain ⟨batch, h₁, scheduled, ran⟩ := run_bind_ok ran
      rw [run_get_bind] at ran
      obtain ⟨⟨⟩, h₂, zoomed, ran⟩ := run_bind_ok ran
      obtain ⟨w, sampled, rfl⟩ := run_zoom_ok zoomed
      rw [run_modify_bind] at ran
      rw [Event.added, List.toFinset_nil, Finset.union_empty]
      exact ⟨_, run.step ⟨scheduled, w, tokenIds, _, Event.logits_rows h₁.scheduler batch, sampled, ran⟩⟩

theorem events (run : Measured xxh64 config h ids past) (all : List Event) (once : (all.flatMap Event.added).Nodup)
    (fresh : ∀ i ∈ all.flatMap Event.added, i ∉ ids) (ran : forEach (Event.measured xxh64) all h = .ok () h') :
    ∃ past', Measured xxh64 config h' (ids ∪ (all.flatMap Event.added).toFinset) past' := by
  induction all generalizing h ids past with
  | nil =>
      cases ran
      exact ⟨past, by simpa using run⟩
  | cons e rest ih =>
      obtain ⟨⟨⟩, h₁, first, ran⟩ := run_bind_ok ran
      rw [List.flatMap_cons] at once fresh ⊢
      obtain ⟨past₁, next⟩ := run.event e (fun i added => fresh i (List.mem_append_left _ added)) first
      have later : ∀ i ∈ rest.flatMap Event.added, i ∉ ids ∪ e.added.toFinset := by
        intro i listed
        rw [Finset.mem_union, not_or, List.mem_toFinset]
        exact ⟨fresh i (List.mem_append_right _ listed), fun added => List.disjoint_of_nodup_append once added listed⟩
      rw [List.toFinset_append, ← Finset.union_assoc]
      exact ih next (List.nodup_append.mp once).2.1 later ran

theorem play (xxh64 : XxHash) {s : Scheduler} (made : Scheduler.init config = .ok s) (all : List Event)
    (once : (all.flatMap Event.added).Nodup)
    (ran : forEach (Event.measured xxh64) all
      { scheduler := s, metrics := { observations := Items.empty } } = .ok () h') :
    ∃ past, Measured xxh64 config h' (all.flatMap Event.added).toFinset past := by
  have idle : s.isFinished = true := by
    obtain ⟨manager, created, value⟩ := except_bind_ok made
    cases value
    rfl
  have run := (@Measured.install xxh64 config s ∅ (.init made) idle).events all once (by simp) ran
  rwa [Finset.empty_union] at run

end Measured

-- Chunks of a step are small, and pages are shared.
def measuredConfig : Config :=
  { maxNumBatchedTokens := 6
    maxNumSeqs := 3
    maxModelLen := 8
    kvcacheBlockSize := 2
    numKvcacheBlocks := 9
    enableLpm := false
    chunkedPrefill := true
    kvcacheBlockSize_pos := Nat.two_pos }

-- Request 1 joins the last chunk of request 0 with two pages of it, and request 2 has a page of request 1 besides.
theorem prompt_tokens_conserved_shared :
    ∃ h past summary, Measured pageHash measuredConfig h {0, 1, 2} past ∧ h.metrics.preemptions = 0 ∧
      h.metrics.initialPersistentHitTokens = 8 ∧ h.metrics.sameStepHitTokens = 2 ∧ h.metrics.computedPromptTokens = 11 ∧
      (past.map (fun e => e.1.account e.2 2)).sum = 7 ∧ h.metrics.metricSummary 1 4 = .ok summary ∧
      Totals h past summary ∧ summary.totalPromptTokens = 21 := by
  have start : Scheduler.init measuredConfig = .ok _ := rfl
  obtain ⟨past, run⟩ := Measured.play pageHash start
    [.add 0 [1, 2, 3, 4, 5, 6, 7] { maxTokens := 1 }, .add 1 [1, 2, 3, 4, 8, 9, 1] { maxTokens := 1 },
      .add 2 [1, 2, 3, 4, 8, 9, 2] { maxTokens := 1 }, .step [], .step [9, 9, 9]] (by decide)
    (run_final (by decide +kernel))
  obtain ⟨-, -, -, conserved⟩ := prompt_tokens_conserved run
  obtain ⟨accounted, summary⟩ := conserved (by decide +kernel)
  obtain ⟨summary, returned, totals⟩ := summary (by decide +kernel) 1 4
  refine ⟨_, past, summary, run, by decide +kernel, by decide +kernel, by decide +kernel, by decide +kernel, ?_,
    returned, totals, totals.total.trans (by decide +kernel)⟩
  exact (accounted 2 (by decide +kernel) (.inl (by decide +kernel))).trans (by decide +kernel)

end NanoVllm
