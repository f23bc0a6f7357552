import NanoVllm.Model.Scheduler
import NanoVllm.Blocks.Settled

set_option autoImplicit false

namespace NanoVllm

open Python Raising

-- What stays of a sequence when its scheduling state is forgotten.
def Sequence.request (seq : Sequence) : Sequence :=
  { seq with
    status := .waiting
    numCachedTokens := 0
    numNewTokens := 0
    blockTable := [] }

namespace Scheduler

def pool (s : Scheduler) : Pool := ⟨s.blockManager, s.seqs⟩

def withPool (s : Scheduler) (p : Pool) : Scheduler := { s with blockManager := p.manager, seqs := p.seqs }

section Pool

variable (s : Scheduler) (p : Pool)

@[simp] theorem withPool_pool : (s.withPool p).pool = p := rfl
@[simp] theorem withPool_config : (s.withPool p).config = s.config := rfl
@[simp] theorem withPool_waiting : (s.withPool p).waiting = s.waiting := rfl
@[simp] theorem withPool_chunkedReq : (s.withPool p).chunkedReq = s.chunkedReq := rfl
@[simp] theorem withPool_running : (s.withPool p).running = s.running := rfl
@[simp] theorem withPool_blockManager : (s.withPool p).blockManager = p.manager := rfl
@[simp] theorem withPool_seqs : (s.withPool p).seqs = p.seqs := rfl
@[simp] theorem pool_manager : s.pool.manager = s.blockManager := rfl
@[simp] theorem pool_seqs : s.pool.seqs = s.seqs := rfl

theorem setSeq_eq (i : SeqId) (seq : Sequence) :
    s.setSeq i seq = s.withPool (s.pool.store i ⟨s.blockManager, seq⟩) := rfl

variable {s p}

theorem onSeq_run {α : Type} {i : SeqId} {x : Method α} {a : α} (run : x (s.pool.frame i) = .ok a (p.frame i))
    (store : s.pool.store i (p.frame i) = p) : onSeq i x s = .ok a (s.withPool p) := by
  have done : onSeq i x s = .ok a (s.store i (p.frame i)) := zoom_ok run
  rw [done]
  conv_rhs => rw [← store]
  rfl

end Pool

theorem onSeq_ok {s t : Scheduler} {α : Type} {i : SeqId} {x : Method α} {a : α} (run : onSeq i x s = .ok a t) :
    ∃ f, x (s.pool.frame i) = .ok a f ∧ t = s.store i f := by
  obtain ⟨f, run, same⟩ := run_zoom_ok run
  exact ⟨f, run, same.symm⟩

@[simp] theorem setSeq_seqs_self (s : Scheduler) (i : SeqId) (seq : Sequence) : (s.setSeq i seq).seqs i = seq := by
  simp [setSeq]

theorem setSeq_seqs_of_ne (s : Scheduler) {i j : SeqId} (seq : Sequence) (other : j ≠ i) :
    (s.setSeq i seq).seqs j = s.seqs j := by
  simp [setSeq, other]

theorem run_modifySeq_bind {s : Scheduler} {α : Type} (i : SeqId) (change : Sequence → Sequence)
    (next : Unit → Sched α) :
    (modifySeq i change >>= next) s = next () (s.setSeq i (change (s.seqs i))) := rfl

end Scheduler

structure Idle (seq : Sequence) : Prop where
  status : seq.status = .waiting
  cached : seq.numCachedTokens = 0
  new : seq.numNewTokens = 0
  table : seq.blockTable = []

/-- A request whose prompt is only computed in part, between two steps. -/
structure Chunk (seq : Sequence) : Prop where
  status : seq.status = .running
  new : seq.numNewTokens = 0
  cached : seq.numCachedTokens < seq.numPromptTokens

structure Decoding (seq : Sequence) : Prop where
  status : seq.status = .running
  new : seq.numNewTokens = 0
  prompt : seq.numPromptTokens ≤ seq.numCachedTokens
  cached : seq.numCachedTokens < seq.numTokens

structure Ended (seq : Sequence) : Prop where
  status : seq.status = .finished
  cached : seq.numCachedTokens = 0
  new : seq.numNewTokens = 0
  table : seq.blockTable = []

structure Limits (config : Config) (seq : Sequence) : Prop where
  length : seq.numTokens < config.maxModelLen
  completion : seq.numCompletionTokens < seq.maxTokens

structure Inv (cache : Cache) (s : Scheduler) (ids : Finset SeqId) : Prop where
  pool : ∃ chain, Held s.pool ids chain ∧ Settled cache s.pool ids chain
  covered : ∀ i ∈ ids, Covered s.blockManager (s.seqs i)
  size : s.blockManager.blockSize = s.config.kvcacheBlockSize
  count : s.blockManager.numBlocks = s.config.numKvcacheBlocks
  seats : (s.waiting ++ s.chunkedReq.toList ++ s.running).Nodup
  seated : ∀ i, i ∈ s.waiting ++ s.chunkedReq.toList ++ s.running ↔ i ∈ ids ∧ (s.seqs i).status ≠ .finished
  waiting : ∀ i ∈ s.waiting, Idle (s.seqs i)
  chunk : ∀ i, s.chunkedReq = some i → Chunk (s.seqs i)
  running : ∀ i ∈ s.running, Decoding (s.seqs i)
  ended : ∀ i ∈ ids, (s.seqs i).status = .finished → Ended (s.seqs i)
  limits : ∀ i ∈ ids, (s.seqs i).status ≠ .finished → Limits s.config (s.seqs i)
  named : ∀ i ∈ ids, (s.seqs i).seqId = i
  whole : s.config.chunkedPrefill = false → s.chunkedReq = none

namespace Inv

variable {cache : Cache} {s : Scheduler} {ids : Finset SeqId} {i : SeqId}

theorem waiting_mem (h : Inv cache s ids) (member : i ∈ s.waiting) :
    i ∈ ids ∧ (s.seqs i).status ≠ .finished := (h.seated i).mp (by simp [member])

theorem chunk_mem (h : Inv cache s ids) (chunked : s.chunkedReq = some i) :
    i ∈ ids ∧ (s.seqs i).status ≠ .finished := (h.seated i).mp (by simp [chunked])

theorem running_mem (h : Inv cache s ids) (member : i ∈ s.running) :
    i ∈ ids ∧ (s.seqs i).status ≠ .finished := (h.seated i).mp (by simp [member])

theorem idle (h : Inv cache s ids) (member : i ∈ ids) : (s.seqs i).numNewTokens = 0 := by
  by_cases ended : (s.seqs i).status = .finished
  · exact (h.ended i member ended).new
  · have seat := (h.seated i).mpr ⟨member, ended⟩
    rw [List.mem_append, List.mem_append, Option.mem_toList] at seat
    rcases seat with (waits | chunked) | runs
    · exact (h.waiting i waits).new
    · exact (h.chunk i chunked).new
    · exact (h.running i runs).new

theorem kept (h : Inv cache s ids) : ∃ chain, Kept cache s.pool ids chain := by
  obtain ⟨chain, held, settled⟩ := h.pool
  exact ⟨chain, held, h.covered, settled.stored⟩

theorem reset (h : Inv cache s ids) : Inv cache s.resetCounters ids := ⟨h.pool, h.covered, h.size, h.count,
  h.seats, h.seated, h.waiting, h.chunk, h.running, h.ended, h.limits, h.named, h.whole⟩

end Inv

end NanoVllm
