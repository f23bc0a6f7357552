import Mathlib.Algebra.BigOperators.Ring.Finset
import NanoVllm.Bench.Accounts
import NanoVllm.Bench.Claims

set_option autoImplicit false

namespace NanoVllm

open Python Raising

def RequestObservation.accounted (o : RequestObservation) : Nat :=
  o.initialPersistentHitTokens + o.sameStepHitTokens + o.computedPromptTokens

def ScheduledRow.accounted (row : ScheduledRow) : Nat :=
  row.initialPersistentHitTokens + row.sameStepHitTokens + row.computedPromptTokens

def StepRecord.accounted (step : StepRecord) (i : SeqId) : Nat :=
  ((step.scheduled.filter (fun row => decide (row.seqId = i))).map ScheduledRow.accounted).sum

-- The blocks of a request that the hook saw claimed.
def StepRecord.claimedBlocks (step : StepRecord) (i : SeqId) : Nat :=
  ((step.prefixClaims.filter (fun claim => decide (claim.seqId = i))).map PrefixClaim.blockCount).sum

namespace SchedulerMetrics

def accounted (m : SchedulerMetrics) : Nat :=
  m.initialPersistentHitTokens + m.sameStepHitTokens + m.computedPromptTokens

-- The hits that the scheduler recorded are what the hook of the block manager counted.
def Balanced (m : SchedulerMetrics) : Prop := m.initialPersistentHitTokens + m.sameStepHitTokens = m.claimedPrefixTokens

variable {m : SchedulerMetrics} {step : StepRecord} {hits : List Hit} {blockSize : Nat}

theorem foldl_preempted (active : m.activeStep = some step) (gone : List SeqId) :
    gone.foldl (fun m i => m.preempted i) m = { m with
      preemptions := m.preemptions + gone.length
      activeStep := some { step with preemptions := step.preemptions ++ gone } } := by
  induction gone generalizing m step with
  | nil =>
      rw [List.append_nil, ← active]
      rfl
  | cons i rest ih =>
      have active' : (m.preempted i).activeStep = some { step with preemptions := step.preemptions ++ [i] } := by
        rw [preempted, active]
        rfl
      rw [List.foldl_cons, ih active', List.length_cons, List.append_assoc, List.singleton_append]
      dsimp only [preempted]
      rw [Nat.add_assoc, Nat.add_comm 1]

theorem foldl_claimed (positive : 0 < blockSize) (active : m.activeStep = some step)
    (once : (hits.map Hit.seqId).Nodup) (fresh : ∀ i ∈ hits.map Hit.seqId, i ∉ step.claimedPrefixBlocksBySeq.keys) :
    hits.foldl (fun m e => m.claimed blockSize e.seqId e.latestBlocks) m = { m with
      claimedPrefixTokens := m.claimedPrefixTokens + (hits.map Hit.latestBlocks).sum * blockSize
      activeStep := some { step with
        prefixClaims := step.prefixClaims ++ (hits.filter (fun e => decide (e.latestBlocks ≠ 0))).map
          (fun e => ⟨e.seqId, e.latestBlocks, e.latestBlocks * blockSize⟩)
        claimedPrefixBlocksBySeq := Items.tally (hits.map Hit.claim) step.claimedPrefixBlocksBySeq
        claimedPrefixTokens := step.claimedPrefixTokens + (hits.map Hit.latestBlocks).sum * blockSize } } := by
  induction hits generalizing m step with
  | nil =>
      simp [Items.tally, ← active]
  | cons e rest ih =>
      obtain ⟨apart, once⟩ := List.nodup_cons.mp once
      obtain ⟨new, later⟩ := List.forall_mem_cons.mp fresh
      rw [List.foldl_cons]
      by_cases zero : e.latestBlocks = 0
      · have active' : (m.claimed blockSize e.seqId e.latestBlocks).activeStep = some step := by
          simp [claimed, zero, active]
        rw [ih active' once later]
        simp [claimed, zero, Hit.claim, Items.tally]
      · have some' : e.latestBlocks * blockSize ≠ 0 := Nat.mul_ne_zero zero positive.ne'
        have active' : (m.claimed blockSize e.seqId e.latestBlocks).activeStep =
            some (step.claimed blockSize e.seqId e.latestBlocks) := by
          rw [claimed, active]
          exact if_pos some'
        have items : (step.claimed blockSize e.seqId e.latestBlocks).claimedPrefixBlocksBySeq =
            step.claimedPrefixBlocksBySeq.put e.seqId e.latestBlocks := by
          rw [StepRecord.claimed, Items.getD_of_notMem new, Nat.zero_add]
        have counted : Items.tally (e.claim :: rest.map Hit.claim) step.claimedPrefixBlocksBySeq =
            Items.tally (rest.map Hit.claim) (step.claimedPrefixBlocksBySeq.put e.seqId e.latestBlocks) := by
          rw [Items.tally, List.foldl_cons, Hit.claim, if_pos zero]
          rfl
        have fresh' : ∀ i ∈ rest.map Hit.seqId,
            i ∉ (step.claimed blockSize e.seqId e.latestBlocks).claimedPrefixBlocksBySeq.keys := by
          intro i listed old
          rw [items, Items.keys_put new, List.mem_append] at old
          rcases old with old | self
          · exact later i listed old
          · exact apart (List.mem_singleton.mp self ▸ listed)
        rw [ih active' once fresh', items]
        simp only [claimed, StepRecord.claimed, List.map_cons, List.sum_cons, Nat.add_mul, Nat.add_assoc,
          List.filter_cons, zero, not_false_eq_true, decide_true, if_true, List.append_assoc,
          List.singleton_append, ne_eq]
        rw [counted]

end SchedulerMetrics

namespace Hooked

variable {cache : Cache} {ids : Finset SeqId} {h h' : Hooked} {batch : List SeqId} {hits : List Hit} {gone : List SeqId}
  {i : SeqId}

theorem map_fst (hits : List Hit) (f : Hit → SeqId × Nat) (name : ∀ e, (f e).1 = e.seqId) :
    (hits.map f).map Prod.fst = hits.map Hit.seqId := by
  rw [List.map_map]
  exact List.map_congr_left (fun e _ => name e)

namespace Scheduling

variable (sch : Scheduling h h' batch hits gone)

include sch in
theorem initial_once : ((hits.map Hit.initial).map Prod.fst).Nodup := by
  rw [map_fst hits Hit.initial (fun _ => rfl)]
  exact sch.once

include sch in
theorem sameStep_once : ((hits.map Hit.sameStep).map Prod.fst).Nodup := by
  rw [map_fst hits Hit.sameStep (fun _ => rfl)]
  exact sch.once

include sch in
theorem claim_once : ((hits.map Hit.claim).map Prod.fst).Nodup := by
  rw [map_fst hits Hit.claim (fun _ => rfl)]
  exact sch.once

include sch in
theorem recorded {e : Hit} (listed : e ∈ hits) :
    h'.initialItems.getD e.seqId 0 + h'.sameStepItems.getD e.seqId 0 = e.latestBlocks := by
  have initial := Items.getD_tally sch.initial_once (List.mem_map_of_mem (f := Hit.initial) listed)
  have sameStep := Items.getD_tally sch.sameStep_once (List.mem_map_of_mem (f := Hit.sameStep) listed)
  rw [sch.initialItems, sch.sameStepItems, initial, sameStep]
  omega

include sch in
theorem unrecorded (outside : i ∉ hits.map Hit.seqId) :
    h'.initialItems.getD i 0 = 0 ∧ h'.sameStepItems.getD i 0 = 0 := by
  rw [sch.initialItems, sch.sameStepItems]
  constructor
  · exact Items.getD_tally_of_notMem sch.initial_once (map_fst hits Hit.initial (fun _ => rfl) ▸ outside)
  · exact Items.getD_tally_of_notMem sch.sameStep_once (map_fst hits Hit.sameStep (fun _ => rfl) ▸ outside)

include sch in
theorem sum_values : h'.initialItems.values.sum + h'.sameStepItems.values.sum = (hits.map Hit.latestBlocks).sum := by
  rw [sch.initialItems, sch.sameStepItems, Items.sum_values_tally sch.initial_once,
    Items.sum_values_tally sch.sameStep_once, List.map_map, List.map_map, ← List.sum_map_add]
  refine congrArg List.sum (List.map_congr_left (fun e _ => ?_))
  change min e.initialBlocks e.latestBlocks + (e.latestBlocks - e.initialBlocks) = e.latestBlocks
  omega

include sch in
theorem hitBlocks_eq : h'.scheduler.hitBlocks i = h'.initialItems.getD i 0 + h'.sameStepItems.getD i 0 := by
  rw [Scheduler.hitBlocks, ← sch.agrees.initial, ← sch.agrees.sameStep]
  rfl

include sch in
theorem hitBlocks_hit {e : Hit} (listed : e ∈ hits) : h'.scheduler.hitBlocks e.seqId = e.latestBlocks :=
  sch.hitBlocks_eq.trans (sch.recorded listed)

include sch in
theorem hitBlocks_none (outside : i ∉ hits.map Hit.seqId) : h'.scheduler.hitBlocks i = 0 := by
  obtain ⟨initial, sameStep⟩ := sch.unrecorded outside
  rw [sch.hitBlocks_eq, initial, sameStep]

-- The two dicts together have the keys of the claims.
include sch in
theorem mem_classified : i ∈ h'.classifiedSeqIds ↔ i ∈ (Items.tally (hits.map Hit.claim) Items.empty).keys := by
  rw [classifiedSeqIds, List.mem_dedup, List.mem_append, sch.initialItems, sch.sameStepItems,
    Items.mem_keys_tally sch.initial_once, Items.mem_keys_tally sch.sameStep_once, Items.mem_keys_tally sch.claim_once]
  simp only [List.mem_map, Hit.initial, Hit.sameStep, Hit.claim, Prod.mk.injEq]
  constructor
  · rintro (⟨n, ⟨e, listed, rfl, rfl⟩, some'⟩ | ⟨n, ⟨e, listed, rfl, rfl⟩, some'⟩)
    · exact ⟨_, ⟨e, listed, rfl, rfl⟩, by omega⟩
    · exact ⟨_, ⟨e, listed, rfl, rfl⟩, by omega⟩
  · rintro ⟨n, ⟨e, listed, rfl, rfl⟩, some'⟩
    by_cases initial : min e.initialBlocks e.latestBlocks = 0
    · exact .inr ⟨_, ⟨e, listed, rfl, rfl⟩, by omega⟩
    · exact .inl ⟨_, ⟨e, listed, rfl, rfl⟩, initial⟩

end Scheduling

def claimedStep (fresh : StepRecord) (hits : List Hit) (gone : List SeqId) (blockSize : Nat) : StepRecord :=
  { fresh with
    preemptions := fresh.preemptions ++ gone
    prefixClaims := fresh.prefixClaims ++ (hits.filter (fun e => decide (e.latestBlocks ≠ 0))).map
      (fun e => ⟨e.seqId, e.latestBlocks, e.latestBlocks * blockSize⟩)
    claimedPrefixBlocksBySeq := Items.tally (hits.map Hit.claim) fresh.claimedPrefixBlocksBySeq
    claimedPrefixTokens := fresh.claimedPrefixTokens + (hits.map Hit.latestBlocks).sum * blockSize }

namespace Scheduling

variable (sch : Scheduling h h' batch hits gone)

include sch in
theorem metrics_eq {fresh : StepRecord} (positive : 0 < h'.scheduler.blockManager.blockSize)
    (active : h.metrics.activeStep = some fresh) (unclaimed : fresh.claimedPrefixBlocksBySeq.keys = []) :
    h'.metrics = { h.metrics with
      preemptions := h.metrics.preemptions + gone.length
      claimedPrefixTokens := h.metrics.claimedPrefixTokens +
        (hits.map Hit.latestBlocks).sum * h'.scheduler.blockManager.blockSize
      activeStep := some (claimedStep fresh hits gone h'.scheduler.blockManager.blockSize) } := by
  rw [sch.metrics, SchedulerMetrics.foldl_preempted active,
    SchedulerMetrics.foldl_claimed positive rfl sch.once (fun i _ => by
      dsimp only
      rw [unclaimed]
      exact List.not_mem_nil)]
  rfl

-- No assertion of the hook fails.
include sch in
theorem checkClaims_ok {fresh : StepRecord} (items : fresh.claimedPrefixBlocksBySeq = Items.empty)
    (tokens : fresh.claimedPrefixTokens = 0) :
    h'.checkClaims (claimedStep fresh hits gone h'.scheduler.blockManager.blockSize) = .ok () := by
  have claims : (claimedStep fresh hits gone h'.scheduler.blockManager.blockSize).claimedPrefixBlocksBySeq =
      Items.tally (hits.map Hit.claim) Items.empty := by
    rw [claimedStep, items]
  rw [checkClaims, claims]
  rw [require_of (Finset.ext fun i => ?_), pure_bind]
  · rw [forM_ok, except_ok_bind]
    · exact (except_require_ok _ _ _).mpr (by
        rw [← Nat.add_mul, sch.sum_values, claimedStep, tokens, Nat.zero_add])
    · rintro ⟨k, n⟩ listed
      rw [Items.entries_tally sch.claim_once] at listed
      obtain ⟨e, inside, same⟩ := List.mem_map.mp (List.mem_of_mem_filter listed)
      obtain ⟨rfl, rfl⟩ := Prod.mk.inj same
      exact (except_require_ok _ _ _).mpr (sch.recorded inside)
  · rw [List.mem_toFinset, List.mem_toFinset]
    exact sch.mem_classified

include sch in
theorem claimedBlocks_eq {fresh : StepRecord} (none : fresh.prefixClaims = []) {blockSize : Nat} :
    (claimedStep fresh hits gone blockSize).claimedBlocks i = h'.scheduler.hitBlocks i := by
  have once : ((hits.filter (fun e => decide (e.latestBlocks ≠ 0))).map Hit.seqId).Nodup :=
    sch.once.sublist (List.Sublist.map _ List.filter_sublist)
  have counted : (claimedStep fresh hits gone blockSize).claimedBlocks i =
      (((hits.filter (fun e => decide (e.latestBlocks ≠ 0))).filter (fun e => decide (e.seqId = i))).map
        Hit.latestBlocks).sum := by
    rw [StepRecord.claimedBlocks, claimedStep, none, List.nil_append, List.filter_map, List.map_map]
    rfl
  rw [counted]
  by_cases listed : i ∈ (hits.filter (fun e => decide (e.latestBlocks ≠ 0))).map Hit.seqId
  · obtain ⟨e, inside, rfl⟩ := List.mem_map.mp listed
    rw [Items.filter_key once inside, sch.hitBlocks_hit (List.mem_of_mem_filter inside)]
    exact List.sum_singleton
  · have empty : (hits.filter (fun e => decide (e.latestBlocks ≠ 0))).filter (fun e => decide (e.seqId = i)) = [] :=
      List.filter_eq_nil_iff.mpr (fun e inside same => listed (List.mem_map.mpr ⟨e, inside, of_decide_eq_true same⟩))
    rw [empty]
    by_cases hit : i ∈ hits.map Hit.seqId
    · obtain ⟨e, inside, rfl⟩ := List.mem_map.mp hit
      rw [sch.hitBlocks_hit inside]
      by_contra some'
      exact listed (List.mem_map_of_mem (List.mem_filter.mpr ⟨inside, decide_eq_true (Ne.symm some')⟩))
    · exact (sch.hitBlocks_none hit).symm

end Scheduling

/-- A change of an observation that accounts `n` more tokens to its request. -/
structure Credits (n : Nat) (change : RequestObservation → RequestObservation) : Prop where
  accounted : ∀ o, (change o).accounted = o.accounted + n
  spec : ∀ o, (change o).spec = o.spec
  firstTokenAt : ∀ o, (change o).firstTokenAt = o.firstTokenAt
  completedAt : ∀ o, (change o).completedAt = o.completedAt

namespace Credits

variable {n k : Nat} {change change' : RequestObservation → RequestObservation}

theorem id' : Credits 0 id := ⟨fun _ => rfl, fun _ => rfl, fun _ => rfl, fun _ => rfl⟩

theorem ite (p : Prop) [Decidable p] (credits : Credits n change) :
    Credits (if p then n else 0) (if p then change else id) := by
  split
  · exact credits
  · exact id'

theorem comp (second : Credits k change') (first : Credits n change) : Credits (n + k) (change' ∘ change) where
  accounted o := by
    rw [Function.comp_apply, second.accounted, first.accounted, Nat.add_assoc]
  spec o := (second.spec _).trans (first.spec o)
  firstTokenAt o := (second.firstTokenAt _).trans (first.firstTokenAt o)
  completedAt o := (second.completedAt _).trans (first.completedAt o)

theorem classify (sch : Scheduling h h' batch hits gone) (i : SeqId) :
    Credits (h'.scheduler.hitBlocks i * h'.scheduler.blockManager.blockSize) (h'.classify i) where
  accounted o := by
    rw [sch.hitBlocks_eq, Nat.add_mul]
    simp only [Hooked.classify, RequestObservation.accounted]
    omega
  spec _ := rfl
  firstTokenAt _ := rfl
  completedAt _ := rfl

theorem compute (h : Hooked) (i : SeqId) :
    Credits (SchedulerMetrics.computedPrompt (h.scheduler.seqs i)) (h.compute i) :=
  ⟨fun _ => (Nat.add_assoc _ _ _).symm, fun _ => rfl, fun _ => rfl, fun _ => rfl⟩

end Credits

/-- What the hook of a step leaves: the record, what it adds to the observations, and to the totals. -/
structure Recorded (h h' : Hooked) (batch : List SeqId) : Prop where
  scheduled : Scheduler.schedule h.scheduler = .ok batch h'.scheduler
  record : ∃ step, h'.metrics.pendingStep = some step ∧ ∀ i, step.claimedBlocks i = h'.scheduler.hitBlocks i ∧
    step.accounted i = h'.scheduler.account batch i
  steps : h'.metrics.steps = h.metrics.steps
  keys : h'.metrics.observations.keys = h.metrics.observations.keys
  credited : ∀ i, ∃ change, Credits (h'.scheduler.account batch i) change ∧
    h'.metrics.observations.get? i = (h.metrics.observations.get? i).map change
  balanced : h.metrics.Balanced → h'.metrics.Balanced
  total : ∀ all : Finset SeqId, (∀ i ∈ batch, i ∈ all) →
    h'.metrics.accounted = h.metrics.accounted + ∑ i ∈ all, h'.scheduler.account batch i
  calm : h.metrics.preemptions ≤ h'.metrics.preemptions ∧ (h'.metrics.preemptions = h.metrics.preemptions →
    Scheduler.preemptDecodeTail h.scheduler.resetCounters = .ok () h.scheduler.resetCounters)

theorem sum_listed {all : Finset SeqId} {listed : List SeqId} {f : SeqId → Nat} (once : listed.Nodup)
    (inside : ∀ i ∈ listed, i ∈ all) (none : ∀ i, i ∉ listed → f i = 0) : ∑ i ∈ all, f i = (listed.map f).sum := by
  rw [← List.sum_toFinset f once]
  refine (Finset.sum_subset (fun i member => inside i (List.mem_toFinset.mp member)) ?_).symm
  exact fun i _ outside => none i (fun member => outside (List.mem_toFinset.mpr member))

namespace Scheduling

variable (sch : Scheduling h h' batch hits gone) {fresh : StepRecord}

include sch in
theorem sum_account (once : batch.Nodup) {all : Finset SeqId} (inside : ∀ i ∈ batch, i ∈ all) :
    ∑ i ∈ all, h'.scheduler.account batch i =
      (hits.map Hit.latestBlocks).sum * h'.scheduler.blockManager.blockSize +
        (batch.map (fun i => SchedulerMetrics.computedPrompt (h'.scheduler.seqs i))).sum := by
  have claimed : ∑ i ∈ all, h'.scheduler.hitBlocks i = (hits.map Hit.latestBlocks).sum := by
    rw [sum_listed sch.once (fun i listed => inside i (sch.inside i listed)) (fun i => sch.hitBlocks_none),
      List.map_map]
    exact congrArg List.sum (List.map_congr_left (fun e listed => sch.hitBlocks_hit listed))
  have computed : ∑ i ∈ all, (if i ∈ batch then SchedulerMetrics.computedPrompt (h'.scheduler.seqs i) else 0) =
      (batch.map (fun i => SchedulerMetrics.computedPrompt (h'.scheduler.seqs i))).sum := by
    rw [sum_listed once inside (fun i outside => if_neg outside)]
    exact congrArg List.sum (List.map_congr_left (fun i listed => if_pos listed))
  simp only [Scheduler.account]
  rw [Finset.sum_add_distrib, ← Finset.sum_mul, claimed, computed]

include sch in
theorem accounted_eq (once : batch.Nodup) (step : StepRecord) (rows : step.scheduled = batch.map h'.row) :
    step.accounted i = h'.scheduler.account batch i := by
  rw [StepRecord.accounted, rows, List.filter_map, List.map_map]
  change ((batch.filter (fun j => decide (j = i))).map (fun j => (h'.row j).accounted)).sum = _
  by_cases listed : i ∈ batch
  · have once' : (batch.map (fun j => j)).Nodup := by simpa using once
    have single : batch.filter (fun j => decide (j = i)) = [i] := Items.filter_key once' listed
    rw [single, List.map_singleton, List.sum_singleton, Scheduler.account, if_pos listed, sch.hitBlocks_eq, Nat.add_mul]
    rfl
  · have empty : batch.filter (fun j => decide (j = i)) = [] :=
      List.filter_eq_nil_iff.mpr (fun j inside same => listed (of_decide_eq_true same ▸ inside))
    rw [empty, Scheduler.account, if_neg listed, sch.hitBlocks_none (fun hit => listed (sch.inside i hit)),
      Nat.zero_mul]
    rfl

include sch in
theorem credits (i : SeqId) : Credits (h'.scheduler.account batch i)
    ((if i ∈ batch then h'.compute i else id) ∘ (if i ∈ h'.classifiedSeqIds then h'.classify i else id)) := by
  have hits' : (if i ∈ h'.classifiedSeqIds then h'.scheduler.hitBlocks i * h'.scheduler.blockManager.blockSize else 0) =
      h'.scheduler.hitBlocks i * h'.scheduler.blockManager.blockSize := by
    split
    next => rfl
    next outside =>
      rw [classifiedSeqIds, List.mem_dedup, List.mem_append, not_or] at outside
      rw [sch.hitBlocks_eq, Items.getD_of_notMem outside.1, Items.getD_of_notMem outside.2, Nat.zero_mul]
  rw [Scheduler.account, ← hits']
  exact ((Credits.compute h' i).ite _).comp ((Credits.classify sch i).ite _)

end Scheduling

theorem Scheduling.recorded_step (sch : Scheduling h h' batch hits gone) {fresh : StepRecord} (once : batch.Nodup)
    (positive : 0 < h'.scheduler.blockManager.blockSize) (active : h.metrics.activeStep = some fresh)
    (items : fresh.claimedPrefixBlocksBySeq = Items.empty) (none : fresh.prefixClaims = []) :
    Recorded h (record batch (claimedStep fresh hits gone h'.scheduler.blockManager.blockSize) h') batch := by
  have left := sch.metrics_eq positive active (by rw [items]; rfl)
  have observations : h'.metrics.observations = h.metrics.observations := by rw [left]
  constructor
  case scheduled => exact sch.scheduled
  case record => exact ⟨_, rfl, fun i => ⟨sch.claimedBlocks_eq none, sch.accounted_eq once _ rfl⟩⟩
  case steps =>
    change h'.metrics.steps = _
    rw [left]
  case keys =>
    rw [← observations]
    exact (Items.keys_foldl_modify ..).trans (Items.keys_foldl_modify ..)
  case credited =>
    intro i
    refine ⟨_, sch.credits i, ?_⟩
    rw [← observations]
    refine (Items.get?_foldl_modify once _ _ i).trans ?_
    rw [Items.get?_foldl_modify (show h'.classifiedSeqIds.Nodup from List.nodup_dedup _), Option.map_map]
  case balanced =>
    intro before
    change h'.metrics.initialPersistentHitTokens + h'.initialItems.values.sum * h'.scheduler.blockManager.blockSize +
      (h'.metrics.sameStepHitTokens + h'.sameStepItems.values.sum * h'.scheduler.blockManager.blockSize) =
      h'.metrics.claimedPrefixTokens
    rw [SchedulerMetrics.Balanced] at before
    rw [left, ← sch.sum_values, ← before]
    dsimp only
    rw [Nat.add_mul]
    omega
  case total =>
    intro all inside
    change h'.metrics.initialPersistentHitTokens + h'.initialItems.values.sum * h'.scheduler.blockManager.blockSize +
      (h'.metrics.sameStepHitTokens + h'.sameStepItems.values.sum * h'.scheduler.blockManager.blockSize) +
      (h'.metrics.computedPromptTokens + ((batch.map h'.row).map ScheduledRow.computedPromptTokens).sum) =
      h.metrics.accounted + ∑ i ∈ all, h'.scheduler.account batch i
    rw [sch.sum_account once inside, ← sch.sum_values, Nat.add_mul, List.map_map, left, SchedulerMetrics.accounted]
    dsimp only [Function.comp_def, row]
    omega
  case calm =>
    have preemptions : h'.metrics.preemptions = h.metrics.preemptions + gone.length := by rw [left]
    change h.metrics.preemptions ≤ h'.metrics.preemptions ∧ (h'.metrics.preemptions = h.metrics.preemptions → _)
    refine ⟨by omega, fun same => sch.calm (List.eq_nil_of_length_eq_zero (by omega))⟩

end Hooked

end NanoVllm
