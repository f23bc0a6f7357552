import NanoVllm.Model.Memory
import NanoVllm.Runs.Reachable

set_option autoImplicit false

namespace NanoVllm

open Python Raising

def Addressed (worldSize : Nat) (blocks : Nat → Nat) (s : Scheduler) (ids : Finset SeqId) : Prop :=
  ∀ rank < worldSize, ∀ i ∈ ids, ∀ b ∈ (s.seqs i).blockTable, b < blocks rank

-- Every slot to write lies in the KV cache of every rank.
def SlotsAddressed (worldSize : Nat) (blocks : Nat → Nat) (size : Nat) (slots : List Int) : Prop :=
  ∀ rank < worldSize, ∀ slot ∈ slots, 0 ≤ slot → slot < (blocks rank * size : Nat)

section Ranks

open Scheduler

variable {cache : Cache} {xxh64 : XxHash} {config : Config} {s t : Scheduler} {ids : Finset SeqId}
  {batch prefill : List SeqId} {worldSize : Nat} {blocks : Nat → Nat}

theorem Accounting.addressed (h : Accounting t.pool ids)
    (enough : ∀ rank < worldSize, t.blockManager.numBlocks ≤ blocks rank) : Addressed worldSize blocks t ids :=
  fun rank below i member b listed => (h.table_lt i member b listed).trans_le (enough rank below)

theorem Inv.schedule_accounting (h : Inv cache s ids) :
    wp Scheduler.schedule (fun _ t => Accounting t.pool ids ∧ t.blockManager.numBlocks = s.blockManager.numBlocks)
      (fun _ t => Accounting t.pool ids ∧ t.blockManager.numBlocks = s.blockManager.numBlocks) s := by
  obtain ⟨s₁, s₂, tail, plan, ranked, found, entries, phases, outcome⟩ := h.schedule
  have before : s₁.blockManager.numBlocks = s.blockManager.numBlocks := by
    rw [phases.inv.count, h.count, phases.preempted.config]
    rfl
  unfold wp
  generalize Scheduler.schedule s = result at outcome ⊢
  cases outcome with
  | batch s₃ decoding decoded some' =>
      obtain ⟨chain, kept⟩ := decoded.stage.kept
      exact ⟨kept.held.accounting, decoded.stage.count.trans before⟩
  | phase s₃ split decoding decoded many =>
      obtain ⟨chain, kept⟩ := decoded.stage.kept
      exact ⟨kept.held.accounting, decoded.stage.count.trans before⟩
  | stuck none idle kind =>
      obtain ⟨chain, held, settled⟩ := phases.inv.pool
      exact ⟨held.accounting, before⟩

theorem slotAt_lt {size : Nat} {seq : Sequence} {position count : Nat} (positive : 0 < size)
    (table : ∀ b ∈ seq.blockTable, b < count) :
    ModelRunner.slotAt size seq position < (count * size : Nat) := by
  unfold ModelRunner.slotAt
  split
  next b entry =>
    have whole : (b + 1) * size ≤ count * size :=
      Nat.mul_le_mul_right size (table b (List.mem_of_getElem? entry))
    rw [Nat.add_mul, Nat.one_mul] at whole
    have inside := Nat.add_lt_add_left (Nat.mod_lt position positive) (b * size)
    exact Nat.cast_lt.mpr (inside.trans_le whole)
  next => exact Int.lt_of_lt_of_le (by decide) (Int.natCast_nonneg _)

theorem Batch.slots_addressed (h : Batch cache t ids prefill) (addressed : Addressed worldSize blocks t ids)
    {input : ModelRunner.ModelInput} (slots : input.slotMapping =
      ((prefill ++ t.running).map t.seqs).flatMap (ModelRunner.seqSlots t.blockManager.blockSize)) :
    SlotsAddressed worldSize blocks t.blockManager.blockSize input.slotMapping := by
  obtain ⟨chain, kept⟩ := h.kept
  intro rank below slot listed _
  rw [slots, List.flatMap_map, List.mem_flatMap] at listed
  obtain ⟨i, scheduled, listed⟩ := listed
  rw [h.seqSlots scheduled] at listed
  obtain ⟨position, -, rfl⟩ := List.mem_map.mp listed
  exact slotAt_lt kept.size_pos (addressed rank below i (h.member scheduled).1)

/-- When no rank has fewer blocks than rank 0, every page and every slot that the scheduler can send to the
workers lies in the KV cache of each of them. -/
theorem ranks_addressed {runner : RunnerConfig} {memory : Nat → MemoryReadings} {captureReserveBytes : Nat → Int}
    (started : LLMEngine.Started runner memory captureReserveBytes blocks config)
    (least : ∀ rank < runner.tensorParallelSize, blocks 0 ≤ blocks rank) (past : Reachable xxh64 config s ids) :
    Addressed runner.tensorParallelSize blocks s ids ∧
    wp schedule (fun batch t => Addressed runner.tensorParallelSize blocks t ids ∧
        ∀ input, ModelRunner.prepareModelInput config.kvcacheBlockSize (batch.map t.seqs)
          t.numScheduledPrefillSeqs = .ok input →
          SlotsAddressed runner.tensorParallelSize blocks config.kvcacheBlockSize input.slotMapping)
      (fun _ t => Addressed runner.tensorParallelSize blocks t ids) s := by
  obtain ⟨cache, inv, same⟩ := past.inv
  have count : s.blockManager.numBlocks = blocks 0 := by
    rw [inv.count, same, started.shared]
  have enough (t : Scheduler) (kept : t.blockManager.numBlocks = s.blockManager.numBlocks) :
      ∀ rank < runner.tensorParallelSize, t.blockManager.numBlocks ≤ blocks rank := fun rank below =>
    (kept.trans count).le.trans (least rank below)
  constructor
  · obtain ⟨chain, held, settled⟩ := inv.pool
    exact Accounting.addressed held.accounting (enough s rfl)
  · have left := inv.schedule_accounting
    unfold wp at left ⊢
    cases run : schedule s with
    | error e t =>
        rw [run] at left
        exact Accounting.addressed left.1 (enough t left.2)
    | ok batch t =>
        rw [run] at left
        have addressed := Accounting.addressed left.1 (enough t left.2)
        refine ⟨addressed, fun input prepared => ?_⟩
        obtain ⟨prefill, input', scheduled⟩ := inv.scheduled run
        have size : t.blockManager.blockSize = config.kvcacheBlockSize := by
          rw [scheduled.shape.size, scheduled.config, same]
        obtain ⟨input'', logitsIndices, packed, slots, -⟩ := scheduled.shape.prepare
        rw [← scheduled.order, size, prepared] at packed
        cases packed
        rw [← size]
        exact scheduled.shape.slots_addressed addressed slots

-- Two ranks, pages of 917504 bytes, and half of 8 GiB to use.
def twoRanks : RunnerConfig :=
  { config :=
      { numKvcacheBlocks := 0
        kvcacheBlockSize_pos := Nat.zero_lt_succ 15 }
    gpuMemoryUtilization := 1 / 2
    tensorParallelSize := 2
    numHiddenLayers := 28
    numKeyValueHeads := 8
    headDim := 128
    itemsize := 2
    tensorParallelSize_bounds := by decide }

def readings (used : Nat → Nat) (rank : Nat) : MemoryReadings :=
  { free := 8589934592 - used rank
    total := 8589934592
    peak := 0
    current := 0 }

-- The blocks that the readings leave to each rank.
def blocksOf (runner : RunnerConfig) (memory : Nat → MemoryReadings) (rank : Nat) : Nat :=
  match ModelRunner.allocateKvCache runner (memory rank) 0 with
  | .ok blocks => blocks
  | .error _ => 0

def sharedConfig (runner : RunnerConfig) (memory : Nat → MemoryReadings) : Config :=
  { runner.config with numKvcacheBlocks := blocksOf runner memory 0 }

def laterBusier : Nat → MemoryReadings := readings (fun rank => 4292214784 + rank * 917504)

def earlierBusier : Nat → MemoryReadings := readings (fun rank => 4292214784 - rank * 917504)

theorem ranks_addressed_least :
    ∃ s, LLMEngine.Started twoRanks earlierBusier (fun _ => 0) (blocksOf twoRanks earlierBusier)
        (sharedConfig twoRanks earlierBusier) ∧ blocksOf twoRanks earlierBusier 0 < blocksOf twoRanks earlierBusier 1 ∧
      Reachable pageHash (sharedConfig twoRanks earlierBusier) s {0, 1, 2} ∧
      Addressed 2 (blocksOf twoRanks earlierBusier) s {0, 1, 2} := by
  have started : LLMEngine.Started twoRanks earlierBusier (fun _ => 0) (blocksOf twoRanks earlierBusier)
      (sharedConfig twoRanks earlierBusier) := ⟨by decide +kernel, rfl⟩
  have least : ∀ rank < 2, blocksOf twoRanks earlierBusier 0 ≤ blocksOf twoRanks earlierBusier rank := by
    decide +kernel
  have start : Scheduler.init (sharedConfig twoRanks earlierBusier) = .ok _ := rfl
  have past := Reachable.play pageHash start [.add 0 [1] {}, .add 1 [2] {}, .add 2 [3] {}, .step [4, 5, 6]] (by decide)
    (run_final (by decide +kernel))
  exact ⟨_, started, by decide +kernel, past, (ranks_addressed started least past).1⟩

/-- A page that rank 0 has and rank 1 does not have. -/
theorem rank_without_page :
    ∃ s t, LLMEngine.Started twoRanks laterBusier (fun _ => 0) (blocksOf twoRanks laterBusier)
        (sharedConfig twoRanks laterBusier) ∧
      blocksOf twoRanks laterBusier 0 = 3 ∧ blocksOf twoRanks laterBusier 1 = 2 ∧
      Reachable pageHash (sharedConfig twoRanks laterBusier) s {0, 1, 2} ∧ schedule s = .ok [0, 1, 2] t ∧
      (t.seqs 2).blockTable = [2] ∧
      ((ModelRunner.prepareModelInput 16 ([0, 1, 2].map t.seqs) t.numScheduledPrefillSeqs).toOption.map
        ModelRunner.ModelInput.slotMapping) = some [0, 16, 32] ∧
      ¬Addressed 2 (blocksOf twoRanks laterBusier) t {0, 1, 2} ∧
      ¬SlotsAddressed 2 (blocksOf twoRanks laterBusier) 16 [0, 16, 32] := by
  have start : Scheduler.init (sharedConfig twoRanks laterBusier) = .ok _ := rfl
  have past := Reachable.play pageHash start [.add 0 [1] {}, .add 1 [2] {}, .add 2 [3] {}] (by decide)
    (run_final (by decide +kernel))
  refine ⟨_, _, ⟨by decide +kernel, rfl⟩, by decide +kernel, by decide +kernel, past,
    run_value (by decide +kernel), by decide +kernel, by decide +kernel, ?_, ?_⟩
  · intro addressed
    have below := addressed 1 (by decide) 2 (by decide) 2 (by decide +kernel)
    exact absurd below (by decide +kernel)
  · intro addressed
    have below := addressed 1 (by decide) 32 (by decide) (by decide)
    exact absurd below (by decide +kernel)

end Ranks

end NanoVllm
