import NanoVllm.Runs.Reachable

set_option autoImplicit false

namespace NanoVllm

open Python Raising

namespace Scheduler

-- The requests that hold pages between two steps.
def live (s : Scheduler) : List SeqId := s.chunkedReq.toList ++ s.running

end Scheduler

/-- Who holds which block: the accounts of the block manager against the block tables. -/
structure Accounted (config : Config) (s : Scheduler) (ids : Finset SeqId) : Prop where
  free_nodup : s.blockManager.freeBlockIds.Nodup
  all : ∀ b : BlockId, b ∈ s.blockManager.freeBlockIds ∨ b ∈ s.blockManager.usedBlockIds ↔ b < config.numKvcacheBlocks
  apart : ∀ b ∈ s.blockManager.freeBlockIds, b ∉ s.blockManager.usedBlockIds
  refs : ∀ b < config.numKvcacheBlocks,
    (s.blockManager.blocks b).refCount = (s.live.countP (fun i => decide (b ∈ (s.seqs i).blockTable)) : Nat)
  table_nodup : ∀ i ∈ ids, (s.seqs i).blockTable.Nodup
  table_length : ∀ i ∈ ids,
    (s.seqs i).blockTable.length = pagesFor config.kvcacheBlockSize (s.seqs i).numCachedTokens
  owner : ∀ b ∈ s.blockManager.usedBlockIds, (s.blockManager.blocks b).hash = -1 →
    ∃! i, i ∈ ids ∧ b ∈ (s.seqs i).blockTable
  indexed : ∀ h b, s.blockManager.hashToBlockId h = some b →
    (s.blockManager.blocks b).hash = h ∧ (s.blockManager.blocks b).tokenIds.length = config.kvcacheBlockSize
  finished : s.isFinished = true → ∀ b < config.numKvcacheBlocks,
    b ∈ s.blockManager.freeBlockIds ∧ (s.blockManager.blocks b).refCount = 0

structure Located (s : Scheduler) (ids : Finset SeqId) : Prop where
  once : ∀ i ∈ ids, s.waiting.count i + s.chunkedReq.toList.count i + s.running.count i +
    (if (s.seqs i).status = .finished then 1 else 0) = 1
  known : ∀ i ∈ s.waiting ++ s.chunkedReq.toList ++ s.running, i ∈ ids
  waiting : ∀ i ∈ s.waiting, (s.seqs i).status = .waiting
  live : ∀ i ∈ s.live, (s.seqs i).status = .running

section Safety

open Scheduler

variable {cache : Cache} {xxh64 : XxHash} {config : Config} {s t : Scheduler} {ids : Finset SeqId}
  {batch : List SeqId} {i : SeqId}

namespace Inv

theorem live_nodup (h : Inv cache s ids) : s.live.Nodup := by
  have seats := h.seats
  rw [List.append_assoc] at seats
  exact (List.nodup_append.mp seats).2.1

theorem mem_live (h : Inv cache s ids) {b : BlockId} :
    i ∈ ids ∧ b ∈ (s.seqs i).blockTable ↔ i ∈ s.live ∧ b ∈ (s.seqs i).blockTable := by
  refine and_congr_left (fun held => ⟨fun member => ?_, fun listed => ?_⟩)
  · have live : (s.seqs i).status ≠ .finished := fun ended => by
      rw [(h.ended i member ended).table] at held
      cases held
    have seat := (h.seated i).mpr ⟨member, live⟩
    rw [List.append_assoc] at seat
    refine (List.mem_append.mp seat).resolve_left (fun waits => ?_)
    rw [(h.waiting i waits).table] at held
    cases held
  · refine ((h.seated i).mp ?_).1
    rw [List.append_assoc]
    exact List.mem_append_right _ listed

theorem holders_eq (h : Inv cache s ids) (b : BlockId) :
    holders s.seqs ids b = (s.live.filter (fun i => decide (b ∈ (s.seqs i).blockTable))).toFinset := by
  ext i
  rw [mem_holders, List.mem_toFinset, List.mem_filter, decide_eq_true_eq]
  exact h.mem_live

theorem table_length (h : Inv cache s ids) (member : i ∈ ids) :
    (s.seqs i).blockTable.length = pagesFor s.blockManager.blockSize (s.seqs i).numCachedTokens := by
  have length := (h.covered i member).length
  rwa [Kept.context_idle (h.idle member)] at length

theorem accounted (h : Inv cache s ids) : Accounted s.config s ids := by
  obtain ⟨chain, held, settled⟩ := h.pool
  have accounting := held.accounting
  have count : s.pool.manager.numBlocks = s.config.numKvcacheBlocks := h.count
  have size : s.pool.manager.blockSize = s.config.kvcacheBlockSize := h.size
  have refs (b : BlockId) (bound : b < s.config.numKvcacheBlocks) : (s.blockManager.blocks b).refCount =
      (s.live.countP (fun i => decide (b ∈ (s.seqs i).blockTable)) : Nat) := by
    rw [List.countP_eq_length_filter, ← List.toFinset_card_of_nodup (h.live_nodup.filter _), ← h.holders_eq]
    exact accounting.refs b (count ▸ bound)
  constructor
  case free_nodup => exact accounting.free_nodup
  case all =>
    intro b
    rw [← count]
    change _ ∨ b ∈ s.pool.manager.usedBlockIds ↔ _
    rw [accounting.used_iff]
    constructor
    · rintro (free | ⟨bound, -⟩)
      · exact accounting.free_lt b free
      · exact bound
    · intro bound
      by_cases free : b ∈ s.pool.manager.freeBlockIds
      · exact Or.inl free
      · exact Or.inr ⟨bound, free⟩
  case apart =>
    intro b free used
    exact ((accounting.used_iff b).mp used).2 free
  case refs => exact refs
  case table_nodup => exact accounting.table_nodup
  case table_length =>
    intro i member
    rw [h.table_length member, h.size]
  case owner =>
    intro b used blank
    obtain ⟨bound, busy⟩ := (accounting.used_iff b).mp used
    rw [accounting.free_iff b bound, ← ne_eq, ← Finset.nonempty_iff_ne_empty] at busy
    obtain ⟨i, holds⟩ := busy
    rw [mem_holders] at holds
    refine ⟨i, holds, fun j other => ?_⟩
    exact held.tables.owner j other.1 i holds.1 b other.2 holds.2 (fun published => published blank)
  case indexed =>
    intro hash b found
    obtain ⟨bound, named, published⟩ := held.index.indexed hash b found
    refine ⟨named, ?_⟩
    rw [← size]
    exact held.index.whole b bound published
  case finished =>
    intro done b bound
    have none : s.live = [] := by
      simp only [isFinished, Bool.and_eq_true, List.isEmpty_iff, Option.isNone_iff_eq_none] at done
      rw [live, done.1.2, done.2]
      rfl
    constructor
    · refine (accounting.free_iff b (count ▸ bound)).mpr ?_
      change holders s.seqs ids b = ∅
      rw [h.holders_eq, none]
      rfl
    · rw [refs b bound, none]
      rfl

theorem located (h : Inv cache s ids) : Located s ids := by
  have seats := h.seats
  constructor
  case once =>
    intro i member
    rw [← List.count_append, ← List.count_append]
    by_cases ended : (s.seqs i).status = .finished
    · have outside : i ∉ s.waiting ++ s.chunkedReq.toList ++ s.running :=
        fun seat => ((h.seated i).mp seat).2 ended
      rw [List.count_eq_zero_of_not_mem outside, if_pos ended]
    · rw [List.count_eq_one_of_mem seats ((h.seated i).mpr ⟨member, ended⟩), if_neg ended]
  case known => exact fun i seat => ((h.seated i).mp seat).1
  case waiting => exact fun i waits => (h.waiting i waits).status
  case live =>
    intro i listed
    rcases List.mem_append.mp listed with chunk | runs
    · exact (h.chunk i (Option.mem_toList.mp chunk)).status
    · exact (h.running i runs).status

end Inv

/-- The block manager accounts for every block in every reachable state. -/
theorem blocks_accounted (run : Reachable xxh64 config s ids) : Accounted config s ids := by
  obtain ⟨cache, inv, same⟩ := run.inv
  subst same
  exact inv.accounted

-- Two prompts that share their first page.
theorem blocks_accounted_shared :
    ∃ s, Reachable pageHash
        { maxModelLen := 8
          kvcacheBlockSize := 1
          numKvcacheBlocks := 8 } s {0, 1} ∧ (s.blockManager.blocks 0).refCount = 2 ∧
      Accounted
        { maxModelLen := 8
          kvcacheBlockSize := 1
          numKvcacheBlocks := 8 } s {0, 1} := by
  have start : Scheduler.init
      { maxModelLen := 8
        kvcacheBlockSize := 1
        numKvcacheBlocks := 8 } = .ok _ := rfl
  have run := Reachable.play pageHash start [.add 0 [1, 2] {}, .add 1 [1, 3] {}, .step [4, 5]] (by decide)
    (run_final (by decide +kernel))
  exact ⟨_, run, by decide +kernel, blocks_accounted run⟩

/-- No request is lost or duplicated, and the chunk slot is kept while its request is paused. -/
theorem requests_located (run : Reachable xxh64 config s ids) :
    Located s ids ∧ ∀ batch t, schedule s = .ok batch t → batch.Nodup ∧ (∀ i ∈ batch, i ∈ ids) ∧
      ∀ tokenIds logitsIndices, LogitsOf t batch logitsIndices → tokenIds.length = logitsIndices.length →
        ∃ w, postprocess xxh64 batch tokenIds logitsIndices t = .ok () w ∧
          ∀ c, s.chunkedReq = some c → c ∉ batch → w.chunkedReq = some c := by
  obtain ⟨cache, inv, -⟩ := run.inv
  refine ⟨inv.located, fun batch t run => ?_⟩
  obtain ⟨prefill, input, scheduled⟩ := inv.scheduled run
  have shape := scheduled.shape
  have whole := scheduled.order
  subst whole
  refine ⟨shape.once, fun i listed => (shape.member listed).1, fun tokenIds logitsIndices logits count => ?_⟩
  obtain ⟨w, run', advanced, -⟩ := @Batch.postprocess _ xxh64 _ _ _ shape _ scheduled.resident _ _ logits count
  refine ⟨w, run', fun c chunk paused => ?_⟩
  rw [← scheduled.chunkedReq] at chunk
  have none : prefill = [] := by
    by_contra some'
    exact paused (List.mem_append_left _ (shape.chunk some' c chunk))
  rw [advanced.chunk, if_pos none, chunk]

-- A chunk that is paused: one of the two free blocks is reserved for request 0.
theorem requests_located_paused :
    ∃ s t, Reachable pageHash
        { maxNumBatchedTokens := 3
          maxModelLen := 8
          kvcacheBlockSize := 1
          numKvcacheBlocks := 5
          chunkedPrefill := true } s {0, 1} ∧ Located s {0, 1} ∧ s.running = [0] ∧ s.chunkedReq = some 1 ∧
      schedule s = .ok [0] t ∧ ∀ tokenIds logitsIndices, LogitsOf t [0] logitsIndices →
        tokenIds.length = logitsIndices.length →
          ∃ w, postprocess pageHash [0] tokenIds logitsIndices t = .ok () w ∧ w.chunkedReq = some 1 := by
  have start : Scheduler.init
      { maxNumBatchedTokens := 3
        maxModelLen := 8
        kvcacheBlockSize := 1
        numKvcacheBlocks := 5
        chunkedPrefill := true } = .ok _ := rfl
  have run := Reachable.play pageHash start [.add 0 [1] {}, .add 1 [2, 3, 4, 5, 6] {}, .step [11]] (by decide)
    (run_final (by decide +kernel))
  obtain ⟨s, run, decodes, chunk, next⟩ : ∃ s, Reachable pageHash _ s {0, 1} ∧ s.running = [0] ∧
      s.chunkedReq = some 1 ∧ wp schedule (fun batch _ => batch = [0]) (fun _ _ => False) s :=
    ⟨_, run, by decide +kernel, by decide +kernel, by decide +kernel⟩
  obtain ⟨batch, t, scheduled, rfl⟩ := wp_total next
  obtain ⟨located, steps⟩ := requests_located run
  obtain ⟨-, -, finishes⟩ := steps [0] t scheduled
  refine ⟨s, t, run, located, decodes, chunk, scheduled, fun tokenIds logitsIndices logits count => ?_⟩
  obtain ⟨w, done, paused⟩ := finishes tokenIds logitsIndices logits count
  exact ⟨w, done, paused 1 chunk (by decide)⟩

/-- After the writes of a batch each scheduled sequence finds its own prefixes in its pages. -/
theorem batch_context (run : Served xxh64 config cache s ids) (scheduled : schedule s = .ok batch t) :
    ∃ input, ModelRunner.prepareModelInput config.kvcacheBlockSize (batch.map t.seqs) t.numScheduledPrefillSeqs =
        .ok input ∧
      ∀ i ∈ batch, ∀ p < (t.seqs i).numContextTokens,
        ∃ b, (t.seqs i).blockTable[p / config.kvcacheBlockSize]? = some b ∧
          execute cache input (batch.map t.seqs)
              (b * config.kvcacheBlockSize + p % config.kvcacheBlockSize : Nat) =
            (t.seqs i).tokenIds.take (p + 1) := by
  obtain ⟨inv, same⟩ := run.inv
  subst same
  obtain ⟨prefill, input, scheduled⟩ := inv.scheduled scheduled
  have shape := scheduled.shape
  have whole := scheduled.order
  subst whole
  refine ⟨input, scheduled.prepared, fun i listed p below => ?_⟩
  have member := (shape.member listed).1
  have resident := scheduled.resident
  obtain ⟨chain, held, settled⟩ := resident.pool
  obtain ⟨b, entry, value⟩ := settled.context held member (resident.covered i member) below
  rw [pool_manager, shape.size, scheduled.config] at entry value
  exact ⟨b, entry, value⟩

-- The second prompt reads the first page of the first one, which is written in the same step.
theorem batch_context_shared :
    ∃ cache s batch t input, Served pageHash
        { maxModelLen := 8
          kvcacheBlockSize := 1
          numKvcacheBlocks := 8 } cache s {0, 1} ∧ schedule s = .ok batch t ∧
      (t.seqs 0).blockTable = [0, 1] ∧ (t.seqs 1).blockTable = [0, 2] ∧
      ModelRunner.prepareModelInput 1 (batch.map t.seqs) t.numScheduledPrefillSeqs = .ok input ∧
      ∀ i ∈ batch, ∀ p < (t.seqs i).numContextTokens, ∃ b, (t.seqs i).blockTable[p / 1]? = some b ∧
        execute cache input (batch.map t.seqs) (b * 1 + p % 1 : Nat) = (t.seqs i).tokenIds.take (p + 1) := by
  have start : Scheduler.init
      { maxModelLen := 8
        kvcacheBlockSize := 1
        numKvcacheBlocks := 8 } = .ok _ := rfl
  have run := Reachable.play pageHash start [.add 0 [1, 2] {}, .add 1 [1, 3] {}] (by decide)
    (run_final (by decide +kernel))
  obtain ⟨s, run, next⟩ : ∃ s, Reachable pageHash _ s {0, 1} ∧
      wp schedule (fun _ t => (t.seqs 0).blockTable = [0, 1] ∧ (t.seqs 1).blockTable = [0, 2])
        (fun _ _ => False) s := ⟨_, run, by decide +kernel⟩
  obtain ⟨cache, served⟩ := run.served
  obtain ⟨batch, t, scheduled, first, second⟩ := wp_total next
  obtain ⟨input, prepared, holds⟩ := batch_context served scheduled
  exact ⟨cache, s, batch, t, input, served, scheduled, first, second, prepared, holds⟩

end Safety

end NanoVllm
