import Mathlib.Algebra.BigOperators.Group.List.Basic
import NanoVllm.Runs.Reachable

set_option autoImplicit false

namespace NanoVllm

open Python Raising

def Scheduler.paused (t : Scheduler) (batch : List SeqId) : List SeqId :=
  t.chunkedReq.toList.filter (fun i => decide (i ∉ batch))

/-- What the model runner may assume of a batch, when `prefill` is its first part. -/
structure BatchContract (config : Config) (t : Scheduler) (batch prefill : List SeqId) : Prop where
  order : batch = prefill ++ t.running
  counted : t.numScheduledPrefillSeqs = prefill.length
  tokens : (batch.map (fun i => (t.seqs i).numNewTokens)).sum ≤ config.maxNumBatchedTokens
  seats : batch.length + (t.paused batch).length ≤ config.maxNumSeqs
  positive : ∀ i ∈ batch, 1 ≤ (t.seqs i).numNewTokens
  decode : ∀ i ∈ t.running, (t.seqs i).numNewTokens = 1
  pages : ∀ i ∈ batch, pagesFor config.kvcacheBlockSize ((t.seqs i).numCachedTokens + (t.seqs i).numNewTokens) =
    (t.seqs i).blockTable.length
  short : (prefill.filter (fun i =>
    decide ((t.seqs i).numCachedTokens + (t.seqs i).numNewTokens < (t.seqs i).numTokens))).length ≤ 1
  positions : ∀ i ∈ batch, ∀ position ∈ List.range' (t.seqs i).numCachedTokens (t.seqs i).numNewTokens,
    position < config.maxModelLen

/-- The requests that hold a seat between two steps keep within the limits. -/
structure Seated (config : Config) (s : Scheduler) : Prop where
  seats : s.active ≤ config.maxNumSeqs
  tokens : s.running.length ≤ config.maxNumBatchedTokens

section Contract

open Scheduler

variable {cache : Cache} {xxh64 : XxHash} {config : Config} {s s₁ s₂ s₃ t w : Scheduler} {ids : Finset SeqId}
  {tail batch prefill : List SeqId} {plan : ChunkPlan} {ranked : List SeqId} {found : Dict SeqId (List BlockId)}
  {entries : List Entry} {i : SeqId}

theorem Scheduler.active_eq (s : Scheduler) : s.active = (s.chunkedReq.toList ++ s.running).length := by
  cases chunk : s.chunkedReq <;> simp [active, chunk]


theorem Scheduler.Preempted.active_le (h : Preempted s s₁ tail) : s₁.active ≤ s.active := by
  rw [active, active, h.chunkedReq, h.running, List.length_append]
  omega

theorem Batch.length_paused (h : Batch cache t ids prefill) :
    (prefill ++ t.running).length + (t.paused (prefill ++ t.running)).length =
      (t.seat prefill ++ t.running).length := by
  by_cases none : prefill = []
  · have apart : t.paused (prefill ++ t.running) = t.chunkedReq.toList := by
      refine List.filter_eq_self.mpr (fun i listed => ?_)
      exact decide_eq_true (h.chunk_apart none (Option.mem_toList.mp listed))
    rw [apart, seat, if_pos none, none, List.nil_append, List.length_append]
    omega
  · have scheduled : t.paused (prefill ++ t.running) = [] := by
      refine List.filter_eq_nil_iff.mpr (fun i listed => ?_)
      have listed' := List.mem_append_left t.running (h.chunk none i (Option.mem_toList.mp listed))
      rw [decide_eq_true_eq, not_not]
      exact listed'
    rw [scheduled, seat, if_neg none]
    rfl

theorem Scheduler.Phases.seats_le (phases : Phases cache s s₁ s₂ ids tail plan ranked found entries)
    (stage : Stage cache s₁ s₃ ids [] (plan.resumes ++ decodes s₁.running) entries)
    (seated : s₁.active ≤ s₁.config.maxNumSeqs) :
    (s₃.seat (prefillSeqs plan entries) ++ s₃.running).length ≤ s₁.config.maxNumSeqs := by
  rw [active_eq, List.length_append] at seated
  rw [List.length_append, show s₃.running = s₁.running from stage.running, seat]
  split
  next none => rwa [show s₃.chunkedReq = s₁.chunkedReq from stage.chunkedReq]
  next some' =>
    rw [prefillSeqs, phases.chunk_eq some', List.length_append, List.length_map]
    cases entries with
    | nil => exact seated
    | cons e rest =>
        have seats := phases.prefilled.fits.seats (List.cons_ne_nil e rest)
        rw [active_eq, List.length_append] at seats
        omega

theorem Stage.newTokens {origin : Scheduler} {appended : List (SeqId × Nat)}
    (stage : Stage cache origin s ids [] appended entries) :
    (∀ a ∈ appended, (s.seqs a.1).numNewTokens = a.2) ∧
      ∀ e ∈ entries, (s.seqs e.seqId).numNewTokens = e.numNewTokens := by
  constructor
  · intro a listed
    obtain ⟨-, -, table, same⟩ := stage.appends a listed
    rw [same]
  · intro e listed
    obtain ⟨-, table, same⟩ := stage.admits e listed
    rw [same]

theorem Scheduler.Phases.tokens_le (phases : Phases cache s s₁ s₂ ids tail plan ranked found entries)
    (stage : Stage cache s₁ s₃ ids [] (plan.resumes ++ decodes s₁.running) entries) :
    ((prefillSeqs plan entries ++ s₁.running).map (fun i => (s₃.seqs i).numNewTokens)).sum ≤
      s₁.config.maxNumBatchedTokens := by
  obtain ⟨appended, admitted⟩ := stage.newTokens
  have resumes : (plan.resumes.map Prod.fst).map (fun i => (s₃.seqs i).numNewTokens) =
      plan.resumes.map Prod.snd := by
    rw [List.map_map]
    exact List.map_congr_left (fun a listed => appended a (List.mem_append_left _ listed))
  have admits : (entries.map Entry.seqId).map (fun i => (s₃.seqs i).numNewTokens) =
      entries.map Entry.numNewTokens := by
    rw [List.map_map]
    exact List.map_congr_left admitted
  have runs : s₁.running.map (fun i => (s₃.seqs i).numNewTokens) = s₁.running.map (fun _ => 1) := by
    refine List.map_congr_left (fun i listed => appended (i, 1) (List.mem_append_right _ ?_))
    exact List.mem_map_of_mem listed
  have chunk : (plan.resumes.map Prod.snd).sum + plan.tokenBudget ≤
      s₁.config.maxNumBatchedTokens - s₁.running.length := by
    cases phases.decision with
    | absent chunk => simp [ChunkPlan.resumes]
    | paused chunk stuck => simp [ChunkPlan.resumes]
    | resumed chunk positive tokens fits =>
        simp only [ChunkPlan.resumes, Option.toList_some, List.map_cons, List.map_nil, List.sum_singleton]
        omega
  have fits := phases.prefilled.fits.tokens
  have decode := phases.affordable.1
  simp only [prefillSeqs, List.map_append, List.sum_append, resumes, admits, runs, List.map_const',
    List.sum_replicate_nat, Nat.mul_one]
  omega

theorem Inv.contract (h : Inv cache s ids) (seated : Seated s.config s) (run : Scheduler.schedule s = .ok batch t) :
    ∃ prefill, Batch cache t ids prefill ∧ BatchContract s.config t batch prefill := by
  obtain ⟨s₁, s₂, tail, plan, ranked, found, entries, phases, outcome⟩ := h.schedule
  rw [run] at outcome
  cases outcome with
  | batch s₃ decoding decoded some' =>
      have stage := decoded.stage
      have shape := phases.batch decoded some'
      have running : s₁.running = (s₃.counted (prefillSeqs plan entries)).running := stage.running.symm
      have config : s₃.config = s.config := stage.config.trans phases.preempted.config
      have before : s₁.config = s.config := phases.preempted.config
      have active : s₁.active ≤ s₁.config.maxNumSeqs := by
        rw [before]
        exact (Preempted.active_le phases.preempted).trans seated.seats
      have tokens := phases.tokens_le stage
      have seats := phases.seats_le stage active
      have seats := shape.length_paused.trans_le seats
      rw [before] at tokens seats
      rw [running] at tokens ⊢
      obtain ⟨chain, kept⟩ := shape.kept
      have covered (i : SeqId) (scheduled : i ∈ prefillSeqs plan entries ++ s₃.running) :=
        kept.covered i (shape.member scheduled).1
      refine ⟨_, shape, rfl, rfl, tokens, seats, ?positive, ?decode, ?pages, ?short, ?positions⟩
      case positive => exact fun i scheduled => (shape.scheduled i scheduled).2
      case decode => exact fun i runs => (shape.running i runs).2.1
      case pages =>
        intro i scheduled
        rw [← config]
        exact (congrArg (pagesFor · _) shape.size.symm).trans (covered i scheduled).length.symm
      case short =>
        refine filter_single (fun i early => ?_)
        have complete : (s₃.seqs i).numContextTokens = (s₃.seqs i).numTokens := shape.complete i early
        exact decide_eq_false complete.not_lt
      case positions =>
        intro i scheduled position listed
        have within := (covered i scheduled).within
        have limits := (shape.limits i (shape.member scheduled).1 (shape.member scheduled).2).length
        rw [← config]
        exact (List.mem_range'_1.mp listed).2.trans_le (within.trans limits.le)

theorem Advanced.active_le {samples : List (SeqId × Token)} (adv : Advanced xxh64 t w prefill samples)
    (h : Batch cache t ids prefill) : w.active ≤ (t.seat prefill ++ t.running).length := by
  rw [active_eq, (adv.queue h).length_eq]
  exact List.length_filter_le _ _

theorem Advanced.running_le {samples : List (SeqId × Token)} (adv : Advanced xxh64 t w prefill samples) :
    w.running.length ≤ (prefill ++ t.running).length := by
  have stays : (w.unfinished t.running).length ≤ t.running.length := List.length_filter_le _ _
  have joins : (prefill.filter w.joins).length ≤ prefill.length := List.length_filter_le _ _
  rw [adv.running, List.length_append, List.length_append]
  omega

theorem BatchContract.length_le (h : BatchContract config t batch prefill) :
    batch.length ≤ config.maxNumBatchedTokens := by
  have each := List.length_le_sum_of_one_le (batch.map (fun i => (t.seqs i).numNewTokens))
    (List.forall_mem_map.mpr h.positive)
  rw [List.length_map] at each
  exact each.trans h.tokens

theorem Reachable.seated (past : Reachable xxh64 config s ids) : Seated config s := by
  induction past with
  | init made =>
      obtain ⟨manager, created, made⟩ := except_bind_ok made
      cases made
      exact ⟨Nat.zero_le _, Nat.zero_le _⟩
  | add past absent made run ih =>
      obtain ⟨-, value⟩ := add_run run
      subst value
      exact ⟨ih.seats, ih.tokens⟩
  | step past step ih =>
      obtain ⟨cache, inv, same⟩ := past.inv
      subst same
      obtain ⟨prefill, shape, contract⟩ := inv.contract ih step.scheduled
      obtain ⟨prefill', input, samples, scheduled, adv, -⟩ := inv.step step
      have front : prefill' = prefill :=
        List.append_cancel_right (scheduled.order.symm.trans contract.order)
      subst front
      have seats := contract.seats
      have length := contract.length_le
      rw [contract.order] at seats length
      constructor
      · exact (adv.active_le shape).trans (shape.length_paused.symm.trans_le seats)
      · exact adv.running_le.trans length

theorem Inv.preempt_short (h : Inv cache s ids) (few : s.running.length ≤ s.config.maxNumBatchedTokens)
    {turns : Nat} {u u' : Scheduler} (before : Scheduler.preemptDecodeTailFrom turns s = .ok () u)
    (after : Scheduler.preemptDecodeTailFrom (turns + 1) s = .ok () u') (moved : u'.running ≠ u.running) :
    ∃ decodeBlocks, u.blocksToAppend u.running = .ok decodeBlocks ∧
      u.blockManager.freeBlockIds.length < decodeBlocks := by
  induction turns generalizing s with
  | zero =>
      cases before
      have decode := blocksToAppend_ok (h.sizes (fun i runs => (h.running_mem runs).1))
      refine ⟨_, decode, ?_⟩
      rcases h.preempt_turn with ⟨-, stays⟩ | ⟨s', i, -, -, poor, -⟩
      · rw [stays] at after
        cases after
        exact absurd rfl moved
      · rw [Affordable, not_and, not_le] at poor
        exact poor few
  | succ turns ih =>
      rcases h.preempt_turn with ⟨-, stays⟩ | ⟨s', i, inv, preempted, -, turn⟩
      · rw [stays] at before after
        cases before
        cases after
        exact absurd rfl moved
      · rw [turn] at before after
        refine ih inv ?_ before after
        have length := congrArg List.length preempted.running
        rw [List.length_append] at length
        rw [preempted.config]
        omega

/-- Every batch that `schedule` returns keeps the contract, the running requests never exceed the limits, and
decode requests are preempted for the lack of blocks only. -/
theorem batch_contract (past : Reachable xxh64 config s ids) :
    (∀ batch t, schedule s = .ok batch t → (∃ prefillSeqs, BatchContract config t batch prefillSeqs) ∧
      t.running.length ≤ min config.maxNumSeqs config.maxNumBatchedTokens) ∧
    s.running.length ≤ min config.maxNumSeqs config.maxNumBatchedTokens ∧
    ∀ turns u u', preemptDecodeTailFrom turns s.resetCounters = .ok () u →
      preemptDecodeTailFrom (turns + 1) s.resetCounters = .ok () u' → u'.running ≠ u.running →
      ∃ decodeBlocks, u.blocksToAppend u.running = .ok decodeBlocks ∧
        u.blockManager.freeBlockIds.length < decodeBlocks := by
  obtain ⟨cache, inv, same⟩ := past.inv
  have seated := past.seated
  subst same
  refine ⟨fun batch t run => ?_, ?_, fun turns u u' before after moved => ?_⟩
  · obtain ⟨prefill, -, contract⟩ := inv.contract seated run
    have seats := contract.seats
    have tokens := contract.length_le
    rw [contract.order, List.length_append] at seats tokens
    exact ⟨⟨prefill, contract⟩, le_min (by omega) (by omega)⟩
  · have seats := seated.seats
    rw [active] at seats
    exact le_min (by omega) seated.tokens
  · exact inv.reset.preempt_short seated.tokens before after moved

def mixedConfig : Config :=
  { maxNumBatchedTokens := 4
    maxNumSeqs := 3
    maxModelLen := 8
    kvcacheBlockSize := 1
    numKvcacheBlocks := 9
    chunkedPrefill := true
    kvcacheBlockSize_pos := Nat.one_pos }

-- The chunk of request 1 ends, request 2 is admitted in part, and request 0 decodes.
theorem batch_contract_mixed :
    ∃ s t, Reachable pageHash mixedConfig s {0, 1, 2} ∧ schedule s = .ok [1, 2, 0] t ∧
      t.numScheduledPrefillSeqs = 2 ∧ [1, 2, 0].map (fun i => (t.seqs i).numNewTokens) = [1, 2, 1] ∧
      ∃ prefillSeqs, BatchContract mixedConfig t [1, 2, 0] prefillSeqs := by
  have start : Scheduler.init mixedConfig = .ok _ := rfl
  have past := Reachable.play pageHash start
    [.add 0 [1] {}, .add 1 [2, 3, 4, 5] {}, .add 2 [2, 3, 6, 7, 8] {}, .step [11]] (by decide)
    (run_final (by decide +kernel))
  have batches := (batch_contract past).1
  refine ⟨_, _, past, run_value (by decide +kernel), by decide +kernel, by decide +kernel, ?_⟩
  exact (batches _ _ (run_value (by decide +kernel))).1

end Contract

end NanoVllm
