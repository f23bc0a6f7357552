import NanoVllm.Bench.Record

set_option autoImplicit false

namespace NanoVllm

open Python Raising

namespace Hooked

-- The active step is new when `schedule` starts.
def started (h : Hooked) : Hooked :=
  h.onMetrics (fun m => { m with activeStep := some { step := h.metrics.steps.length } })

-- What `finish_step` leaves when the times were taken.
def finished (step : StepRecord) (h : Hooked) : Hooked :=
  h.observed.onMetrics (fun m => { m with
    steps := m.steps ++ [step]
    pendingStep := none })

def entered (i : SeqId) (spec : RequestSpec) (s : Scheduler) (h : Hooked) : Hooked :=
  { h with
    scheduler := s
    metrics := { h.metrics with observations := h.metrics.observations.put i { spec } } }

variable {cache : Cache} {h h' : Hooked} {ids : Finset SeqId} {batch : List SeqId} {i : SeqId} {step : StepRecord}

theorem finishStep_run (pending : h.metrics.pendingStep = some step) :
    finishStep h.observed = .ok () (h.finished step) := by
  have pending' : h.observed.metrics.pendingStep = some step := pending
  rw [finishStep, run_get_bind, pending']
  rfl

theorem get?_finished (step : StepRecord) (h : Hooked) (i : SeqId) :
    (h.finished step).metrics.observations.get? i = (h.metrics.observations.get? i).map (h.observe i) := by
  refine (Items.get?_foldl_modify (Items.nodup_keys _) _ _ i).trans ?_
  by_cases listed : i ∈ h.metrics.observations.keys
  · rw [if_pos listed]
  · rw [Items.get?_eq_none.mpr listed]
    rfl

theorem keys_finished (step : StepRecord) (h : Hooked) :
    (h.finished step).metrics.observations.keys = h.metrics.observations.keys := Items.keys_foldl_modify ..

section ScheduleHook

variable (inv : Inv cache h.scheduler ids) (pending : h.metrics.pendingStep = none)

include pending in
theorem scheduleHook_run : scheduleHook h = (do
    let scheduled ← scheduleActive
    let h' ← get
    let step := h'.metrics.activeStep.getD { step := h.metrics.steps.length }
    ofExcept (h'.checkClaims step)
    modify (record scheduled step)
    pure scheduled : Metered (List SeqId)) h.started := by
  rw [scheduleHook, run_get_bind, run_require_bind (by rw [pending]; rfl)]
  rfl

include inv pending in
theorem scheduleHook_ok {t : Scheduler} (run : Scheduler.schedule h.scheduler = .ok batch t) :
    ∃ h', scheduleHook h = .ok batch h' ∧ h'.scheduler = t ∧ Recorded h h' batch := by
  obtain ⟨h₁, run₁, same⟩ := schedule_watches.ok (s := h.started) run
  subst same
  obtain ⟨hits, gone, sch⟩ := schedule_scheduling (h := h.started) inv run₁
  obtain ⟨prefill, input, scheduled⟩ := inv.scheduled run
  have once : batch.Nodup := scheduled.order ▸ scheduled.shape.once
  obtain ⟨chain, kept⟩ := scheduled.shape.kept
  have left := sch.metrics_eq kept.held.size_pos rfl rfl
  have active : h₁.metrics.activeStep = some (claimedStep { step := h.metrics.steps.length } hits gone
      h₁.scheduler.blockManager.blockSize) := by rw [left]
  have recorded := sch.recorded_step once kept.held.size_pos rfl rfl rfl
  have called : scheduleActive h.started = .ok batch h₁ := by rw [scheduleActive, run₁]
  refine ⟨record batch (claimedStep { step := h.metrics.steps.length } hits gone
    h₁.scheduler.blockManager.blockSize) h₁, ?_, rfl, ?_⟩
  · rw [scheduleHook_run pending, bind_ok called, run_get_bind, active, Option.getD_some,
      run_ofExcept_bind (sch.checkClaims_ok rfl rfl), run_modify_bind]
    rfl
  · exact ⟨recorded.scheduled, recorded.record, recorded.steps, recorded.keys, recorded.credited, recorded.balanced,
      recorded.total, recorded.calm⟩

include inv pending in
theorem scheduleHook_watches : onPart Hooked.scheduler (scheduleHook h) = Scheduler.schedule h.scheduler := by
  cases run : Scheduler.schedule h.scheduler with
  | ok batch t =>
      obtain ⟨h', run', same, -⟩ := scheduleHook_ok inv pending run
      rw [run', ← same]
      rfl
  | error e t =>
      have seen := schedule_watches h.started
      rw [show Scheduler.schedule h.started.scheduler = .error e t from run] at seen
      cases run' : schedule h.started with
      | ok batch h₁ =>
          rw [run'] at seen
          cases seen
      | error e' h₁ =>
          rw [run'] at seen
          cases seen
          have called : scheduleActive h.started =
              .error e (h₁.onMetrics (fun m => { m with activeStep := none })) := by rw [scheduleActive, run']
          rw [scheduleHook_run pending, bind_error called]
          rfl

include inv pending in
theorem scheduleHook_recorded (run : scheduleHook h = .ok batch h') : Recorded h h' batch := by
  have seen := scheduleHook_watches inv pending
  rw [run] at seen
  obtain ⟨h'', run', -, recorded⟩ := scheduleHook_ok inv pending seen.symm
  cases run.symm.trans run'
  exact recorded

end ScheduleHook

end Hooked

/-- A step of the engine under the collector: `h₁` is the state between `schedule` and `postprocess`. -/
structure MeasuredStep (xxh64 : XxHash) (h : Hooked) (batch : List SeqId) (h₁ h' : Hooked) : Prop where
  scheduled : h.scheduleHook = .ok batch h₁
  sampled : ∃ w tokenIds logitsIndices, LogitsOf h₁.scheduler batch logitsIndices ∧
    Scheduler.postprocess xxh64 batch tokenIds logitsIndices h₁.scheduler = .ok () w ∧
    Hooked.finishStep ({ h₁ with scheduler := w } : Hooked).observed = .ok () h'

/-- A measured phase on an idle scheduler, whose requests are all observed; `past` are its batches, with the state
between `schedule` and `postprocess` for each. -/
inductive Measured (xxh64 : XxHash) (config : Config) : Hooked → Finset SeqId → List (Scheduler × List SeqId) → Prop
  | install {s : Scheduler} {ids : Finset SeqId} (before : Reachable xxh64 config s ids) (idle : s.isFinished = true) :
      Measured xxh64 config
        { scheduler := s
          metrics := { observations := Items.empty } } ids []
  | add {h : Hooked} {ids : Finset SeqId} {past : List (Scheduler × List SeqId)} {i : SeqId} {spec : RequestSpec}
      {params : SamplingParams} {seq : Sequence} {s' : Scheduler} (run : Measured xxh64 config h ids past)
      (absent : i ∉ ids)
      (made : Sequence.init xxh64 i spec.promptTokenIds params config.kvcacheBlockSize = .ok seq)
      (added : Scheduler.add seq h.scheduler = .ok () s') :
      Measured xxh64 config (h.entered i spec s') (insert i ids) past
  | step {h h₁ h' : Hooked} {ids : Finset SeqId} {past : List (Scheduler × List SeqId)} {batch : List SeqId}
      (run : Measured xxh64 config h ids past) (step : MeasuredStep xxh64 h batch h₁ h') :
      Measured xxh64 config h' ids (past ++ [(h₁.scheduler, batch)])

/-- What holds of the collector between the steps of a phase, with or without preemption. -/
structure Audited (h : Hooked) (ids : Finset SeqId) (past : List (Scheduler × List SeqId)) : Prop where
  pending : h.metrics.pendingStep = none
  balanced : h.metrics.Balanced
  inside : ∀ i ∈ h.metrics.observations.keys, i ∈ ids
  live : ∀ i ∈ ids, (h.scheduler.seqs i).status ≠ .finished → i ∈ h.metrics.observations.keys
  spec : ∀ i o, h.metrics.observations.get? i = some o →
    o.spec.promptTokenIds.length = (h.scheduler.seqs i).numPromptTokens
  ended : ∀ i o, h.metrics.observations.get? i = some o → (h.scheduler.seqs i).status = .finished →
    o.firstTokenAt = true ∧ o.completedAt = true
  claimed : ∀ i, h.metrics.steps.map (StepRecord.claimedBlocks · i) = past.map (fun e => e.1.hitBlocks i)
  rows : ∀ i, h.metrics.steps.map (StepRecord.accounted · i) = past.map (fun e => e.1.account e.2 i)
  outside : ∀ i, i ∉ ids → (past.map (fun e => e.1.account e.2 i)).sum = 0
  observed : ∀ i o, h.metrics.observations.get? i = some o →
    o.accounted = (past.map (fun e => e.1.account e.2 i)).sum

/-- What holds as long as nothing is preempted: the collector accounts for what is prefilled. -/
structure Conserved (h : Hooked) (past : List (Scheduler × List SeqId)) : Prop where
  fresh : ∀ i ∈ h.scheduler.waiting, (h.scheduler.seqs i).numTokens = (h.scheduler.seqs i).numPromptTokens
  accounted : ∀ i ∈ h.metrics.observations.keys,
    (past.map (fun e => e.1.account e.2 i)).sum = (h.scheduler.seqs i).prefilled
  total : h.metrics.accounted = ∑ i ∈ h.metrics.observations.keys.toFinset, (h.scheduler.seqs i).prefilled

section Measured

variable {cache : Cache} {xxh64 : XxHash} {config : Config} {h h₁ h' : Hooked} {ids : Finset SeqId}
  {past : List (Scheduler × List SeqId)} {batch : List SeqId} {i : SeqId} {s w : Scheduler}

theorem MeasuredStep.spec (step : MeasuredStep xxh64 h batch h₁ h') (inv : Inv cache h.scheduler ids)
    (pending : h.metrics.pendingStep = none) : Hooked.Recorded h h₁ batch ∧
      ∃ w record, Step xxh64 h.scheduler batch h₁.scheduler w ∧ h' = Hooked.finished record { h₁ with scheduler := w } ∧
        ∀ i, record.claimedBlocks i = h₁.scheduler.hitBlocks i ∧ record.accounted i = h₁.scheduler.account batch i := by
  have recorded := Hooked.scheduleHook_recorded inv pending step.scheduled
  obtain ⟨w, tokenIds, logitsIndices, logits, run, finished⟩ := step.sampled
  obtain ⟨record, left, counted⟩ := recorded.record
  have left' : ({ h₁ with scheduler := w } : Hooked).metrics.pendingStep = some record := left
  rw [Hooked.finishStep_run left'] at finished
  cases finished
  exact ⟨recorded, w, record, ⟨recorded.scheduled, tokenIds, logitsIndices, logits, run⟩, rfl, counted⟩

theorem Inv.all_ended (inv : Inv cache s ids) (idle : s.isFinished = true) (member : i ∈ ids) :
    (s.seqs i).status = .finished := by
  by_contra live
  have seat := (inv.seated i).mpr ⟨member, live⟩
  simp only [Scheduler.isFinished, Bool.and_eq_true, List.isEmpty_iff, Option.isNone_iff_eq_none] at idle
  rw [idle.1.1, idle.1.2, idle.2] at seat
  cases seat

theorem Audited.install (inv : Inv cache s ids) (idle : s.isFinished = true) :
    Audited { scheduler := s, metrics := { observations := Items.empty } } ids [] := by
  constructor
  case live => exact fun i member live => absurd (inv.all_ended idle member) live
  case pending => rfl
  case balanced => rfl
  case inside => exact fun i listed => by cases listed
  case spec => exact fun i o found => by cases found
  case ended => exact fun i o found => by cases found
  case claimed => exact fun i => rfl
  case rows => exact fun i => rfl
  case outside => exact fun i _ => rfl
  case observed => exact fun i o found => by cases found

/-- What an arrival changes: there is one more request, and it is observed. -/
structure Arrives (h h' : Hooked) (spec : RequestSpec) (seq : Sequence) : Prop where
  fresh : seq.Fresh
  length : spec.promptTokenIds.length = seq.numPromptTokens
  waiting : h'.scheduler.waiting = h.scheduler.waiting ++ [seq.seqId]
  keys : h'.metrics.observations.keys = h.metrics.observations.keys ++ [seq.seqId]
  self : h'.scheduler.seqs seq.seqId = seq
  elsewhere : ∀ j, j ≠ seq.seqId → h'.scheduler.seqs j = h.scheduler.seqs j
  found : ∀ j o, h'.metrics.observations.get? j = some o →
    (j = seq.seqId ∧ o = { spec }) ∨ (j ≠ seq.seqId ∧ h.metrics.observations.get? j = some o)

theorem Audited.arrives (audit : Audited h ids past) {spec : RequestSpec} {params : SamplingParams} {seq : Sequence}
    {size : Nat} (absent : i ∉ ids) (made : Sequence.init xxh64 i spec.promptTokenIds params size = .ok seq)
    (added : Scheduler.add seq h.scheduler = .ok () s) : seq.seqId = i ∧ Arrives h (h.entered i spec s) spec seq := by
  obtain ⟨wf, fresh, rfl, tokens, -⟩ := Sequence.init_ok made
  obtain ⟨-, rfl⟩ := add_run added
  have new : seq.seqId ∉ h.metrics.observations.keys := fun listed => absent (audit.inside _ listed)
  refine ⟨rfl, ?_⟩
  constructor
  case fresh => exact fresh
  case length => rw [fresh.prompt, wf.tokens, tokens]
  case waiting => rfl
  case keys => exact Items.keys_put new _
  case self => exact Scheduler.setSeq_seqs_self ..
  case elsewhere => exact fun j other => Scheduler.setSeq_seqs_of_ne _ seq other
  case found =>
    intro j o entry
    have entry' := (Items.get?_put ..).symm.trans entry
    split at entry'
    next same => exact .inl ⟨same, (Option.some.inj entry').symm⟩
    next other => exact .inr ⟨other, entry'⟩

theorem Audited.add (audit : Audited h ids past) {spec : RequestSpec} {params : SamplingParams} {seq : Sequence}
    {size : Nat} (absent : i ∉ ids) (made : Sequence.init xxh64 i spec.promptTokenIds params size = .ok seq)
    (added : Scheduler.add seq h.scheduler = .ok () s) : Audited (h.entered i spec s) (insert i ids) past := by
  obtain ⟨rfl, arrives⟩ := audit.arrives absent made added
  constructor
  case pending => exact audit.pending
  case balanced => exact audit.balanced
  case inside =>
    intro j listed
    rw [arrives.keys, List.mem_append, List.mem_singleton] at listed
    rcases listed with old | rfl
    · exact Finset.mem_insert_of_mem (audit.inside j old)
    · exact Finset.mem_insert_self ..
  case live =>
    intro j member unfinished
    rw [arrives.keys, List.mem_append, List.mem_singleton]
    by_cases same : j = seq.seqId
    · exact .inr same
    · rw [arrives.elsewhere j same] at unfinished
      exact .inl (audit.live j (Finset.mem_of_mem_insert_of_ne member same) unfinished)
  case spec =>
    intro j o entry
    rcases arrives.found j o entry with ⟨rfl, rfl⟩ | ⟨other, old⟩
    · rw [arrives.self]
      exact arrives.length
    · rw [arrives.elsewhere j other]
      exact audit.spec j o old
  case ended =>
    intro j o entry ended
    rcases arrives.found j o entry with ⟨rfl, rfl⟩ | ⟨other, old⟩
    · rw [arrives.self, arrives.fresh.status] at ended
      cases ended
    · rw [arrives.elsewhere j other] at ended
      exact audit.ended j o old ended
  case claimed => exact audit.claimed
  case rows => exact audit.rows
  case outside =>
    intro j outside
    rw [Finset.mem_insert, not_or] at outside
    exact audit.outside j outside.2
  case observed =>
    intro j o entry
    rcases arrives.found j o entry with ⟨rfl, rfl⟩ | ⟨other, old⟩
    · exact (audit.outside seq.seqId absent).symm
    · exact audit.observed j o old

theorem Audited.step (audit : Audited h ids past) (inv : Inv cache h.scheduler ids)
    (step : MeasuredStep xxh64 h batch h₁ h') : Audited h' ids (past ++ [(h₁.scheduler, batch)]) := by
  obtain ⟨recorded, w, record, engine, rfl, counted⟩ := step.spec inv audit.pending
  have keys : (Hooked.finished record { h₁ with scheduler := w }).metrics.observations.keys =
      h.metrics.observations.keys := (Hooked.keys_finished record _).trans recorded.keys
  have found (i : SeqId) (o' : RequestObservation)
      (entry : (Hooked.finished record { h₁ with scheduler := w }).metrics.observations.get? i = some o') :
      ∃ o change, h.metrics.observations.get? i = some o ∧ Hooked.Credits (h₁.scheduler.account batch i) change ∧
        o' = Hooked.observe { h₁ with scheduler := w } i (change o) := by
    obtain ⟨change, credits, changed⟩ := recorded.credited i
    rw [Hooked.get?_finished] at entry
    obtain ⟨o₁, middle, rfl⟩ := Option.map_eq_some_iff.mp entry
    obtain ⟨o, old, rfl⟩ := Option.map_eq_some_iff.mp (changed.symm.trans middle)
    exact ⟨o, change, old, credits, rfl⟩
  have member {i : SeqId} {o : RequestObservation} (entry : h.metrics.observations.get? i = some o) : i ∈ ids := by
    refine audit.inside i ?_
    by_contra outside
    cases entry.symm.trans (Items.get?_eq_none.mpr outside)
  constructor
  case pending => rfl
  case balanced => exact recorded.balanced audit.balanced
  case inside =>
    rw [keys]
    exact audit.inside
  case live =>
    rw [keys]
    intro i listed unfinished
    exact audit.live i listed (fun ended => unfinished ((inv.prompt_step engine listed).2.1 ended))
  case spec =>
    intro i o' entry
    obtain ⟨o, change, old, credits, rfl⟩ := found i o' entry
    change (change o).spec.promptTokenIds.length = (w.seqs i).numPromptTokens
    rw [credits.spec, audit.spec i o old, (inv.prompt_step engine (member old)).1]
  case ended =>
    intro i o' entry ended
    obtain ⟨o, change, old, credits, rfl⟩ := found i o' entry
    have ended' : (w.seqs i).status = .finished := ended
    change ((change o).firstTokenAt || decide ((w.seqs i).numCompletionTokens > 0)) = true ∧
      ((change o).completedAt || (w.seqs i).isFinished) = true
    rw [credits.firstTokenAt, Sequence.isFinished, ended']
    rcases (inv.prompt_step engine (member old)).2.2 ended' with before | positive
    · rw [(audit.ended i o old before).1]
      simp
    · simp [positive]
  case claimed =>
    intro i
    change (h₁.metrics.steps ++ [record]).map _ = _
    rw [recorded.steps, List.map_append, List.map_append, audit.claimed i, List.map_singleton, List.map_singleton,
      (counted i).1]
  case rows =>
    intro i
    change (h₁.metrics.steps ++ [record]).map _ = _
    rw [recorded.steps, List.map_append, List.map_append, audit.rows i, List.map_singleton, List.map_singleton,
      (counted i).2]
  case outside =>
    intro i outside
    have none : h₁.scheduler.account batch i = 0 :=
      inv.account_outside engine.scheduled (fun listed => outside (inv.batch_live engine.scheduled listed).1)
    rw [List.map_append, List.sum_append, audit.outside i outside, List.map_singleton, List.sum_singleton, none]
  case observed =>
    intro i o' entry
    obtain ⟨o, change, old, credits, rfl⟩ := found i o' entry
    change (change o).accounted = _
    rw [credits.accounted, audit.observed i o old, List.map_append, List.sum_append, List.map_singleton,
      List.sum_singleton]

theorem Conserved.install (idle : s.isFinished = true) :
    Conserved { scheduler := s, metrics := { observations := Items.empty } } [] := by
  constructor
  case fresh =>
    intro i waits
    simp only [Scheduler.isFinished, Bool.and_eq_true, List.isEmpty_iff] at idle
    rw [idle.1.1] at waits
    cases waits
  case accounted => exact fun i listed => by cases listed
  case total => rfl

theorem Conserved.add (conserved : Conserved h past) (audit : Audited h ids past) (inv : Inv cache h.scheduler ids)
    {spec : RequestSpec} {params : SamplingParams} {seq : Sequence} {size : Nat} (absent : i ∉ ids)
    (made : Sequence.init xxh64 i spec.promptTokenIds params size = .ok seq)
    (added : Scheduler.add seq h.scheduler = .ok () s) : Conserved (h.entered i spec s) past := by
  obtain ⟨rfl, arrives⟩ := audit.arrives absent made added
  have elsewhere {j : SeqId} (member : j ∈ ids) := arrives.elsewhere j (fun same => absent (same ▸ member))
  have new : seq.seqId ∉ h.metrics.observations.keys := fun listed => absent (audit.inside _ listed)
  have none : seq.prefilled = 0 := by
    rw [Sequence.prefilled, arrives.fresh.status, arrives.fresh.cached, if_neg (by decide), Nat.zero_min]
  constructor
  case fresh =>
    intro j waits
    rw [arrives.waiting, List.mem_append, List.mem_singleton] at waits
    rcases waits with old | rfl
    · rw [elsewhere (inv.waiting_mem old).1]
      exact conserved.fresh j old
    · rw [arrives.self]
      exact arrives.fresh.prompt.symm
  case accounted =>
    intro j listed
    rw [arrives.keys, List.mem_append, List.mem_singleton] at listed
    rcases listed with old | rfl
    · rw [elsewhere (audit.inside j old)]
      exact conserved.accounted j old
    · rw [arrives.self, none, audit.outside _ absent]
  case total =>
    have same : ∑ j ∈ h.metrics.observations.keys.toFinset, ((h.entered seq.seqId spec s).scheduler.seqs j).prefilled =
        ∑ j ∈ h.metrics.observations.keys.toFinset, (h.scheduler.seqs j).prefilled :=
      Finset.sum_congr rfl (fun j listed => by rw [elsewhere (audit.inside j (List.mem_toFinset.mp listed))])
    rw [arrives.keys, List.toFinset_append, List.toFinset_cons, List.toFinset_nil, Finset.union_comm,
      Finset.insert_union, Finset.empty_union, Finset.sum_insert (by rwa [List.mem_toFinset]), arrives.self, none,
      Nat.zero_add, same]
    exact conserved.total

theorem Conserved.step (conserved : Conserved h past) (audit : Audited h ids past) (inv : Inv cache h.scheduler ids)
    (step : MeasuredStep xxh64 h batch h₁ h') (calm : h'.metrics.preemptions = h.metrics.preemptions) :
    Conserved h' (past ++ [(h₁.scheduler, batch)]) := by
  obtain ⟨recorded, w, record, engine, rfl, counted⟩ := step.spec inv audit.pending
  have still := recorded.calm.2 calm
  have keys : (Hooked.finished record { h₁ with scheduler := w }).metrics.observations.keys =
      h.metrics.observations.keys := (Hooked.keys_finished record _).trans recorded.keys
  have accounts (i : SeqId) (listed : i ∈ h.metrics.observations.keys) :
      (w.seqs i).prefilled = (h.scheduler.seqs i).prefilled + h₁.scheduler.account batch i :=
    inv.accounts still engine conserved.fresh (audit.inside i listed)
  constructor
  case fresh =>
    intro i waits
    obtain ⟨before, tokens, prompt⟩ := inv.waiting_step still engine waits
    exact (tokens.trans (conserved.fresh i before)).trans prompt.symm
  case accounted =>
    rw [keys]
    intro i listed
    change _ = (w.seqs i).prefilled
    rw [accounts i listed, List.map_append, List.sum_append, conserved.accounted i listed, List.map_singleton,
      List.sum_singleton]
  case total =>
    have observed : ∀ i ∈ batch, i ∈ h.metrics.observations.keys.toFinset := by
      intro i listed
      obtain ⟨member, live⟩ := inv.batch_live engine.scheduled listed
      exact List.mem_toFinset.mpr (audit.live i member live)
    rw [keys]
    change h₁.metrics.accounted = ∑ i ∈ h.metrics.observations.keys.toFinset, (w.seqs i).prefilled
    rw [recorded.total _ observed, conserved.total, ← Finset.sum_add_distrib]
    exact Finset.sum_congr rfl (fun i listed => (accounts i (List.mem_toFinset.mp listed)).symm)

theorem Measured.audited (run : Measured xxh64 config h ids past) :
    Reachable xxh64 config h.scheduler ids ∧ Audited h ids past := by
  induction run with
  | install before idle =>
      obtain ⟨cache, inv, -⟩ := before.inv
      exact ⟨before, .install inv idle⟩
  | add run absent made added ih => exact ⟨ih.1.add absent made added, ih.2.add absent made added⟩
  | step run step ih =>
      obtain ⟨cache, inv, -⟩ := ih.1.inv
      obtain ⟨recorded, w, record, engine, rfl, counted⟩ := step.spec inv ih.2.pending
      exact ⟨ih.1.step engine, ih.2.step inv step⟩

theorem Measured.conserved (run : Measured xxh64 config h ids past) (none : h.metrics.preemptions = 0) :
    Conserved h past := by
  induction run with
  | install before idle => exact .install idle
  | add run absent made added ih =>
      obtain ⟨past, audit⟩ := run.audited
      obtain ⟨cache, inv, -⟩ := past.inv
      exact (ih none).add audit inv absent made added
  | @step h h₁ h' ids past batch run step ih =>
      obtain ⟨past, audit⟩ := run.audited
      obtain ⟨cache, inv, -⟩ := past.inv
      obtain ⟨recorded, w, record, engine, rfl, counted⟩ := step.spec inv audit.pending
      have none' : h₁.metrics.preemptions = 0 := none
      have before : h.metrics.preemptions = 0 := Nat.eq_zero_of_le_zero (none' ▸ recorded.calm.1)
      exact (ih before).step audit inv step (none.trans before.symm)

end Measured

end NanoVllm
