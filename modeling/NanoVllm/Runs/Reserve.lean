import NanoVllm.Runs.Reachable

set_option autoImplicit false

namespace NanoVllm

open Python Raising

/-- A run of `schedule`, phase by phase, with the calls that give pages to its batch. Decode requests get
theirs last, from the `decodeBlocks` that were reserved for them first. -/
structure Reserved (s s₁ s₂ s₃ : Scheduler) (decodeBlocks : Nat) (plan : Scheduler.ChunkPlan) (ranked : List SeqId)
    (found : Dict SeqId (List BlockId)) (entries : List Entry) (done : List SeqId) : Prop where
  preempting : Scheduler.preemptDecodeTail s.resetCounters = .ok () s₁
  reserving : s₁.blocksToAppend s₁.running = .ok decodeBlocks
  tokens : s₁.running.length ≤ s₁.config.maxNumBatchedTokens
  free : decodeBlocks ≤ s₁.blockManager.freeBlockIds.length
  planning : s₁.planChunk (s₁.config.maxNumBatchedTokens - s₁.running.length)
    (s₁.blockManager.freeBlockIds.length - decodeBlocks) = .ok plan
  ranking : s₁.rankedWaiting plan = .ok (ranked, found)
  prefilling : (if s₁.config.enableSameStepPrefixReuse then
      Scheduler.admitSameStep plan ranked found decodeBlocks s₁.active
    else Scheduler.admitFrozen plan ranked found s₁.active) s₁ = .ok (Scheduler.prefillSeqs plan entries) s₂
  prefills : Traced s₁ (prefillCalls s₁.config.enableSameStepPrefixReuse plan.resumes entries) s₂
  kept : decodeBlocks ≤ s₂.blockManager.freeBlockIds.length
  decoding : (done = s₁.running ∧ forEach Scheduler.appendDecode s₁.running s₂ = .ok () s₃) ∨
    forEach Scheduler.appendDecode s₁.running s₂ = .error Scheduler.uncomputedIsOne s₃
  decoded : Traced s₂ (Call.appends (decodes done)) s₃

section Reserve

open Scheduler

variable {cache : Cache} {xxh64 : XxHash} {config : Config} {s s₁ s₂ : Scheduler} {ids : Finset SeqId}
  {tail : List SeqId} {plan : ChunkPlan} {ranked : List SeqId} {found : Dict SeqId (List BlockId)}
  {entries : List Entry}

theorem Scheduler.Phases.reserved (phases : Phases cache s s₁ s₂ ids tail plan ranked found entries)
    {s₃ : Scheduler} {done : List SeqId} (decoded : Decoded cache s₁ s₂ s₃ ids plan.resumes entries done)
    (decoding : (done = s₁.running ∧ forEach appendDecode s₁.running s₂ = .ok () s₃) ∨
      forEach appendDecode s₁.running s₂ = .error uncomputedIsOne s₃) :
    Reserved s s₁ s₂ s₃ (s₁.reserve s₁.running) plan ranked found entries done where
  preempting := phases.preempting
  reserving := blocksToAppend_ok (phases.inv.sizes (fun _ runs => (phases.inv.running_mem runs).1))
  tokens := phases.affordable.1
  free := phases.affordable.2
  planning := phases.planning
  ranking := phases.ranking
  prefilling := phases.prefilling
  prefills := phases.prefilled.traced
  kept := phases.prefilled.room
  decoding := decoding
  decoded := decoded.traced

theorem Scheduler.Phases.reserves (phases : Phases cache s s₁ s₂ ids tail plan ranked found entries)
    {result : EStateM.Result PyError Scheduler (List SeqId)}
    (outcome : Outcome cache s₁ s₂ ids plan ranked entries result) :
    ∃ s₃ done, Reserved s s₁ s₂ s₃ (s₁.reserve s₁.running) plan ranked found entries done := by
  cases outcome with
  | batch s₃ decoding decoded some' => exact ⟨s₃, _, phases.reserved decoded (Or.inl ⟨rfl, decoding⟩)⟩
  | phase s₃ split decoding decoded many => exact ⟨s₃, _, phases.reserved decoded (Or.inr decoding)⟩
  | stuck none idle kind =>
      have decoded : Decoded cache s₁ s₂ s₂ ids plan.resumes entries [] :=
        ⟨by simpa [decodes] using phases.prefilled.stage, Traced.nil s₂, by simp⟩
      exact ⟨s₂, [], phases.reserved decoded (Or.inl ⟨idle.symm, by rw [idle]; rfl⟩)⟩

theorem Scheduler.Outcome.raises {e : PyError} {t : Scheduler}
    (outcome : Outcome cache s₁ s₂ ids plan ranked entries (.error e t)) :
    e = uncomputedIsOne ∨ prefillSeqs plan entries = [] ∧ s₁.running = [] ∧
      (e = uncachedExceedsBudget ∨ e = cannotMakeProgress) := by
  cases outcome with
  | phase s₃ split decoding decoded many => exact Or.inl rfl
  | stuck none idle kind => exact Or.inr ⟨none, idle, kind⟩

/-- Inside `schedule` no call of the block manager fails, and each takes the blocks planned for it. -/
theorem schedule_reserved (run : Reachable xxh64 config s ids) :
    (∃ s₁ s₂ s₃ decodeBlocks plan ranked found entries done,
      Reserved s s₁ s₂ s₃ decodeBlocks plan ranked found entries done) ∧
    ∀ e t, schedule s = .error e t →
      e = uncomputedIsOne ∨ e = uncachedExceedsBudget ∨ e = cannotMakeProgress := by
  obtain ⟨cache, inv, -⟩ := run.inv
  obtain ⟨s₁, s₂, tail, plan, ranked, found, entries, phases, outcome⟩ := inv.schedule
  obtain ⟨s₃, done, reserved⟩ := phases.reserves outcome
  refine ⟨⟨s₁, s₂, s₃, _, plan, ranked, found, entries, done, reserved⟩, fun e t raised => ?_⟩
  rw [raised] at outcome
  exact outcome.raises.imp_right (fun stuck => stuck.2.2)

-- Request 0 decodes, request 1 resumes its chunk, and request 2 waits for the pages they leave.
theorem schedule_reserved_mixed :
    ∃ s, Reachable pageHash
        { maxNumBatchedTokens := 3
          maxModelLen := 8
          kvcacheBlockSize := 1
          numKvcacheBlocks := 6
          chunkedPrefill := true } s {0, 1, 2} ∧
      s.running = [0] ∧ s.chunkedReq = some 1 ∧ s.waiting = [2] ∧
      ∃ s₁ s₂ s₃ decodeBlocks plan ranked found entries done,
        Reserved s s₁ s₂ s₃ decodeBlocks plan ranked found entries done := by
  have start : Scheduler.init
      { maxNumBatchedTokens := 3
        maxModelLen := 8
        kvcacheBlockSize := 1
        numKvcacheBlocks := 6
        chunkedPrefill := true } = .ok _ := rfl
  have run := Reachable.play pageHash start
    [.add 0 [1] {}, .add 1 [2, 3, 4, 5] {}, .add 2 [2, 3, 6] {}, .step [11]] (by decide) (run_final (by decide +kernel))
  exact ⟨_, run, by decide +kernel, by decide +kernel, by decide +kernel, (schedule_reserved run).1⟩

structure Untouched (s t : Scheduler) : Prop where
  blockManager : t.blockManager = s.blockManager
  seqs : t.seqs = s.seqs
  waiting : t.waiting = s.waiting
  running : t.running = s.running
  chunkedReq : t.chunkedReq = s.chunkedReq

/-- A `schedule` that raises `ValueError` or `RuntimeError` has done no more than preempt decode requests. -/
theorem schedule_atomic (past : Reachable xxh64 config s ids) {e : PyError} {t : Scheduler}
    (raised : schedule s = .error e t) (kind : (∃ text, e = .valueError text) ∨ ∃ text, e = .runtimeError text) :
    ∃ s₁, preemptDecodeTail s.resetCounters = .ok () s₁ ∧ Untouched s₁ t ∧
      (s₁.running = s.running → Untouched s t) := by
  obtain ⟨cache, inv, -⟩ := past.inv
  obtain ⟨s₁, s₂, tail, plan, ranked, found, entries, phases, outcome⟩ := inv.schedule
  rw [raised] at outcome
  cases outcome with
  | phase s₃ split decoding decoded many => simp [uncomputedIsOne, Scheduler.raised] at kind
  | stuck none idle kind' =>
      refine ⟨t, phases.preempting, ⟨rfl, rfl, rfl, rfl, rfl⟩, fun same => ?_⟩
      obtain rfl := inv.reset.preempt_none phases.preempting same
      exact ⟨rfl, rfl, rfl, rfl, rfl⟩

-- The only request is preempted, and its next token does not fit.
theorem schedule_atomic_preempted :
    ∃ s t, Reachable pageHash
        { maxModelLen := 8
          kvcacheBlockSize := 1
          numKvcacheBlocks := 3 } s {0} ∧
      s.running = [0] ∧ schedule s = .error cannotMakeProgress t ∧ t.waiting = [0] ∧
      ∃ s₁, preemptDecodeTail s.resetCounters = .ok () s₁ ∧ Untouched s₁ t ∧
        (s₁.running = s.running → Untouched s t) := by
  have start : Scheduler.init
      { maxModelLen := 8
        kvcacheBlockSize := 1
        numKvcacheBlocks := 3 } = .ok _ := rfl
  have past := Reachable.play pageHash start [.add 0 [1, 2] {}, .step [11], .step [12]] (by decide)
    (run_final (by decide +kernel))
  refine ⟨_, _, past, by decide +kernel, run_error (by decide +kernel), by decide +kernel, ?_⟩
  exact schedule_atomic past (run_error (e := cannotMakeProgress) (by decide +kernel)) (Or.inr ⟨_, rfl⟩)

end Reserve

end NanoVllm
