import NanoVllm.Steps.Preempt

set_option autoImplicit false

namespace NanoVllm

open Python Raising

/-- The calls by which `schedule` gives pages to the requests of a batch. An admission is a claim of
its matched blocks and an allocation for its new tokens. -/
inductive Call where
  | claim (i : SeqId) (blockIds : List BlockId) (numNewTokens : Nat)
  | allocate (i : SeqId) (numNewTokens : Nat)
  | append (i : SeqId) (numNewTokens : Nat)
  deriving DecidableEq, Repr

namespace Call

def seqId : Call → SeqId
  | claim i _ _ => i
  | allocate i _ => i
  | append i _ => i

def run : Call → Sched Unit
  | claim i blockIds _ => Scheduler.onSeq i (BlockManager.claimPrefix blockIds)
  | allocate i numNewTokens => do
      Scheduler.modifySeq i (fun seq => { seq with numNewTokens })
      Scheduler.onSeq i BlockManager.allocateNew
  | append i numNewTokens => do
      Scheduler.modifySeq i (fun seq => { seq with numNewTokens })
      Scheduler.onSeq i BlockManager.mayAppend

-- The blocks that the call takes from the free queue, by the functions that plan it: the claim and
-- the allocation of an admission take `num_blocks_required_for_admission` together.
def Takes (s : Scheduler) (taken : Nat) : Call → Prop
  | claim _ blockIds numNewTokens =>
      s.blockManager.numBlocksRequiredForAdmission blockIds numNewTokens =
        .ok (taken + pagesFor s.blockManager.blockSize numNewTokens)
  | allocate _ numNewTokens => taken = pagesFor s.blockManager.blockSize numNewTokens
  | append i numNewTokens => s.blockManager.numBlocksToAppend (s.seqs i) numNewTokens = .ok taken

def Exact (call : Call) (s s' : Scheduler) : Prop :=
  call.run s = .ok () s' ∧ ∃ taken, call.Takes s taken ∧
    s'.blockManager.freeBlockIds.length + taken = s.blockManager.freeBlockIds.length

end Call

structure Entry where
  seqId : SeqId
  blockIds : List BlockId
  numNewTokens : Nat

def Entry.claim (e : Entry) : Call := .claim e.seqId e.blockIds e.numNewTokens

def Entry.allocate (e : Entry) : Call := .allocate e.seqId e.numNewTokens

/-- A sequence of exact calls, with bookkeeping that touches no page between them. -/
inductive Traced : Scheduler → List Call → Scheduler → Prop
  | nil (s : Scheduler) : Traced s [] s
  | call {s t u : Scheduler} {calls : List Call} (past : Traced s calls t) (call : Call)
      (exact' : call.Exact t u) : Traced s (calls ++ [call]) u
  | book {s t u : Scheduler} {calls : List Call} (past : Traced s calls t)
      (manager : u.blockManager = t.blockManager)
      (seqs : ∀ i, { u.seqs i with status := (t.seqs i).status } = t.seqs i) : Traced s calls u

theorem Traced.trans {s t u : Scheduler} {calls calls' : List Call} (first : Traced s calls t)
    (rest : Traced t calls' u) : Traced s (calls ++ calls') u := by
  induction rest with
  | nil => simpa using first
  | call past call exact' ih =>
      rw [← List.append_assoc]
      exact ih.call call exact'
  | book past manager seqs ih => exact ih.book manager seqs

namespace Scheduler

variable {cache : Cache} {s : Scheduler} {ids : Finset SeqId} {chain : Chain} {i : SeqId}

theorem scheduled_eq (s : Scheduler) (i : SeqId) (n : Nat) :
    s.setSeq i { s.seqs i with numNewTokens := n } = s.withPool (Kept.scheduled s.pool i n) := rfl

theorem scheduled_store {p p' : Pool} {n : Nat} {fresh : List BlockId} (done : Extended cache p p' ids i n fresh) :
    (Kept.scheduled p i n).store i (p'.frame i) = p' := by
  refine @Pool.store_of_seqs _ _ i { p.seqs i with
    numNewTokens := n
    blockTable := (p.seqs i).blockTable ++ fresh } ?_
  rw [done.seqs]
  simp [Kept.scheduled, Pool.store]

theorem append_call (kept : Kept cache s.pool ids chain) (member : i ∈ ids) (idle : (s.seqs i).numNewTokens = 0)
    {n : Nat} (within : (s.seqs i).numCachedTokens + n ≤ (s.seqs i).numTokens)
    (room : s.blockManager.need (s.seqs i) n ≤ s.blockManager.freeBlockIds.length) :
    ∃ p fresh, (Call.append i n).Exact s (s.withPool p) ∧ Extended cache s.pool p ids i n fresh ∧
      fresh.length = s.blockManager.need (s.seqs i) n := by
  have covered := kept.covered i member
  have enough : pagesFor s.blockManager.blockSize ((s.seqs i).numCachedTokens + n) ≤
      (s.seqs i).blockTable.length + s.blockManager.freeBlockIds.length := by
    unfold BlockManager.need at room
    omega
  obtain ⟨p, fresh, run, done⟩ := kept.mayAppend_run member idle within enough
  have needed : (s.seqs i).blockTable.length + fresh.length =
      pagesFor s.blockManager.blockSize ((s.seqs i).numCachedTokens + n) := done.needed
  have length : fresh.length = s.blockManager.need (s.seqs i) n := by
    unfold BlockManager.need
    omega
  have free : s.blockManager.freeBlockIds.length = fresh.length + p.manager.freeBlockIds.length := by
    rw [← List.length_append, ← done.free]
    rfl
  refine ⟨p, fresh, ⟨?_, _, numBlocksToAppend_ok (kept.held.wf i member).block n, ?_⟩, done, length⟩
  · have called := onSeq_run (s := s.withPool (Kept.scheduled s.pool i n)) run (scheduled_store done)
    simp only [Call.run, modifySeq, run_modify_bind, scheduled_eq]
    exact called
  · rw [withPool_blockManager, free, length, Nat.add_comm]
    rfl

theorem allocate_call (kept : Kept cache s.pool ids chain) (member : i ∈ ids)
    (idle : (s.seqs i).numNewTokens = 0) (valid : Held.Validated s.pool i) {n : Nat}
    (within : (s.seqs i).numCachedTokens + n ≤ (s.seqs i).numTokens)
    (room : pagesFor s.blockManager.blockSize n ≤ s.blockManager.freeBlockIds.length) :
    ∃ p fresh, (Call.allocate i n).Exact s (s.withPool p) ∧ Extended cache s.pool p ids i n fresh ∧
      fresh.length = pagesFor s.blockManager.blockSize n := by
  obtain ⟨p, fresh, run, done, length⟩ := kept.allocateNew_run member idle valid within room
  have length' : fresh.length = pagesFor s.blockManager.blockSize n := length
  have free : s.blockManager.freeBlockIds.length = fresh.length + p.manager.freeBlockIds.length := by
    rw [← List.length_append, ← done.free]
    rfl
  refine ⟨p, fresh, ⟨?_, _, rfl, ?_⟩, done, length⟩
  · have called := onSeq_run (s := s.withPool (Kept.scheduled s.pool i n)) run (scheduled_store done)
    simp only [Call.run, modifySeq, run_modify_bind, scheduled_eq]
    exact called
  · rw [withPool_blockManager, free, length', Nat.add_comm]

theorem numBlocksRequired_ok {m : BlockManager} {blocks : List BlockId} (nodup : blocks.Nodup) (n : Nat) :
    m.numBlocksRequiredForAdmission blocks n =
      .ok (blocks.countP (fun b => decide (b ∈ m.freeBlockIds)) + pagesFor m.blockSize n) := by
  simp only [BlockManager.numBlocksRequiredForAdmission,
    require_of (List.toFinset_card_of_nodup nodup), pure_bind]
  rfl

theorem claim_call (kept : Kept cache s.pool ids chain) (member : i ∈ ids) (idle : Idle (s.seqs i))
    {blocks : List BlockId} (plan : Plan s.blockManager (s.seqs i) 0 noLineage blocks)
    (short : blocks.length * s.blockManager.blockSize < (s.seqs i).numTokens) (n : Nat) :
    ∃ p, (Call.claim i blocks n).Exact s (s.withPool p) ∧ Kept cache p ids chain ∧
      Claims s.pool p ids chain i blocks := by
  have wf := kept.held.wf i member
  have valid : Held.Validated s.pool i := by
    simp [Held.Validated, idle.cached, idle.table]
  have plan' : Plan s.pool.manager (s.pool.seqs i) (s.pool.seqs i).blockTable.length
      (s.pool.manager.lineageBefore (s.pool.seqs i).blockTable (s.pool.seqs i).blockTable.length) blocks := by
    simpa [idle.table, BlockManager.lineageBefore] using plan
  have few : blocks = [] ∨
      (s.pool.seqs i).blockTable.length + blocks.length ≤ (s.pool.seqs i).numBlocks - 1 := by
    have below := (wf.lt_numBlocks (k := blocks.length)).mpr short
    right
    simp only [pool_seqs, idle.table, List.length_nil] at below ⊢
    omega
  obtain ⟨p, run, claims⟩ := kept.held.claimPrefix_run member valid plan' few
  refine ⟨p, ⟨onSeq_run run claims.store, _, numBlocksRequired_ok plan.nodup n, claims.taken⟩, ?_, claims⟩
  refine kept.claim member idle.new valid ?_ claims (fun b listed => ?_)
  · simp only [pool_seqs, idle.table, List.length_nil, Nat.zero_add, pool_manager]
    exact short.le
  · obtain ⟨j, entry⟩ := List.mem_iff_getElem?.mp listed
    obtain ⟨_, page⟩ := plan.matched.page entry
    exact page.published

end Scheduler

end NanoVllm
