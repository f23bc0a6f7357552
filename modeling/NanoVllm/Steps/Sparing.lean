import NanoVllm.Blocks.Sole
import NanoVllm.Steps.Postprocess

set_option autoImplicit false

namespace NanoVllm

open Python Raising

namespace Call

/-- No page that the call takes leaves the index without a prefix that another page still holds. -/
def Spared (s : Scheduler) : Call → Prop
  | claim _ _ _ => True
  | allocate i numNewTokens =>
      let seq := { s.seqs i with numNewTokens }
      BlockManager.Spared (BlockManager.allocateNewPage seq.numContextTokens)
        (range seq.numCachedTokens seq.numContextTokens s.blockManager.blockSize) ⟨s.blockManager, seq⟩
  | append i numNewTokens =>
      let seq := { s.seqs i with numNewTokens }
      BlockManager.Spared BlockManager.mayAppendPage
        (range (seq.numCachedBlocks * s.blockManager.blockSize) seq.numContextTokens s.blockManager.blockSize)
        ⟨s.blockManager, seq⟩

end Call

/-- Calls for the requests of a batch that all spare the index, with bookkeeping that touches no page between
them. -/
inductive Sparing (batch : List SeqId) : Scheduler → Scheduler → Prop
  | refl (s : Scheduler) : Sparing batch s s
  | call {s t u : Scheduler} (past : Sparing batch s t) (call : Call) (scheduled : call.seqId ∈ batch)
      (run : call.run t = .ok () u) (spared : call.Spared t) : Sparing batch s u
  | book {s t u : Scheduler} (past : Sparing batch s t) (manager : u.blockManager = t.blockManager)
      (seqs : ∀ i, { u.seqs i with status := (t.seqs i).status } = t.seqs i) : Sparing batch s u

section Cached

open Scheduler

variable {xxh64 : XxHash} {s s' t u : Scheduler} {ids : Finset SeqId} {batch : List SeqId} {i : SeqId}

theorem Cached.wf (h : Cached xxh64 s.pool ids) (member : i ∈ ids) : (s.seqs i).Wf s.blockManager.blockSize := by
  obtain ⟨chain, held, -⟩ := h
  exact held.wf i member

theorem Cached.setSeq (h : Cached xxh64 s.pool ids) (member : i ∈ ids) (seq : Sequence)
    (same : seq.request = (s.seqs i).request) (table : seq.blockTable = (s.seqs i).blockTable) :
    Cached.Follows xxh64 s.pool (s.setSeq i seq).pool ids := by
  obtain ⟨-, count, prompt, -, tokens, -⟩ := Sequence.request_eq same
  have block : seq.request.blockSize = (s.seqs i).request.blockSize := by rw [same]
  have hashes : seq.request.blockHashes = (s.seqs i).request.blockHashes := by rw [same]
  exact h.relabel_same member ((h.wf member).relabel block tokens count hashes prompt) table block tokens hashes

theorem Cached.book (h : Cached xxh64 s.pool ids) (manager : u.blockManager = s.blockManager)
    (seqs : ∀ i, { u.seqs i with status := (s.seqs i).status } = s.seqs i) :
    Cached.Follows xxh64 s.pool u.pool ids := by
  have same : u.pool = ⟨s.pool.manager, fun i => { s.pool.seqs i with status := (u.seqs i).status }⟩ := by
    simp only [pool, manager, Pool.mk.injEq, true_and]
    funext i
    rw [← seqs i]
  rw [same]
  exact h.restatus _

theorem Call.follows {call : Call} (h : Cached xxh64 s.pool ids) (member : call.seqId ∈ ids)
    (distinct : Distinct xxh64 s.blockManager.blockSize s.seqs ids) (spared : call.Spared s)
    (run : call.run s = .ok () t) : Cached.Follows xxh64 s.pool t.pool ids := by
  have self (i : SeqId) (seq : Sequence) : (s.setSeq i seq).pool.seqs i = seq := s.setSeq_seqs_self i seq
  cases call with
  | claim i blockIds n =>
      obtain ⟨f, inner, rfl⟩ := onSeq_ok run
      exact h.claimPrefix member inner
  | allocate i n =>
      change i ∈ ids at member
      simp only [Call.run, run_modifySeq_bind] at run
      obtain ⟨f, inner, rfl⟩ := onSeq_ok run
      have first := h.setSeq member { s.seqs i with numNewTokens := n } rfl rfl
      refine first.trans (first.cached.allocateNew member (first.distinct distinct) ?_ inner)
      rw [Pool.frame, self]
      exact spared
  | append i n =>
      change i ∈ ids at member
      simp only [Call.run, run_modifySeq_bind] at run
      obtain ⟨f, inner, rfl⟩ := onSeq_ok run
      have first := h.setSeq member { s.seqs i with numNewTokens := n } rfl rfl
      refine first.trans (first.cached.mayAppend member (first.distinct distinct) ?_ inner)
      rw [Pool.frame, self]
      exact spared

theorem Call.sole {call : Call} (h : Cached xxh64 s.pool ids) (member : call.seqId ∈ ids)
    (distinct : Distinct xxh64 s.blockManager.blockSize s.seqs ids) (sole : s.blockManager.Sole)
    (run : call.run s = .ok () t) : call.Spared s ∧ t.blockManager.Sole := by
  have self (i : SeqId) (seq : Sequence) : (s.setSeq i seq).pool.seqs i = seq := s.setSeq_seqs_self i seq
  cases call with
  | claim i blockIds n =>
      obtain ⟨f, inner, rfl⟩ := onSeq_ok run
      exact ⟨trivial, h.claimPrefix_sole member sole inner⟩
  | allocate i n =>
      change i ∈ ids at member
      simp only [Call.run, run_modifySeq_bind] at run
      obtain ⟨f, inner, rfl⟩ := onSeq_ok run
      have first := h.setSeq member { s.seqs i with numNewTokens := n } rfl rfl
      obtain ⟨spared, kept⟩ := first.cached.allocateNew_sole member (first.distinct distinct) sole inner
      rw [Pool.frame, self] at spared
      exact ⟨spared, kept⟩
  | append i n =>
      change i ∈ ids at member
      simp only [Call.run, run_modifySeq_bind] at run
      obtain ⟨f, inner, rfl⟩ := onSeq_ok run
      have first := h.setSeq member { s.seqs i with numNewTokens := n } rfl rfl
      obtain ⟨spared, kept⟩ := first.cached.mayAppend_sole member (first.distinct distinct) sole inner
      rw [Pool.frame, self] at spared
      exact ⟨spared, kept⟩

theorem Sparing.follows (sparing : Sparing batch s t) (h : Cached xxh64 s.pool ids) (members : ∀ i ∈ batch, i ∈ ids)
    (distinct : Distinct xxh64 s.blockManager.blockSize s.seqs ids) : Cached.Follows xxh64 s.pool t.pool ids := by
  induction sparing with
  | refl => exact ⟨h, rfl, fun _ => rfl⟩
  | call past call scheduled run spared ih =>
      exact ih.trans (call.follows ih.cached (members _ scheduled) (ih.distinct distinct) spared run)
  | book past manager seqs ih => exact ih.trans (ih.cached.book manager seqs)

theorem Traced.sparing {calls : List Call} (traced : Traced s calls t) (h : Cached xxh64 s.pool ids)
    (scheduled : ∀ call ∈ calls, call.seqId ∈ batch) (members : ∀ i ∈ batch, i ∈ ids)
    (distinct : Distinct xxh64 s.blockManager.blockSize s.seqs ids) (sole : s.blockManager.Sole) :
    Sparing batch s t ∧ t.blockManager.Sole := by
  induction traced with
  | nil => exact ⟨.refl s, sole⟩
  | @call t u calls past call exact' ih =>
      obtain ⟨sparing, sole'⟩ := ih (fun c listed => scheduled c (List.mem_append_left _ listed))
      have listed := scheduled call (by simp)
      have follows := sparing.follows h members distinct
      obtain ⟨spared, kept⟩ := call.sole follows.cached (members _ listed) (follows.distinct distinct) sole' exact'.1
      exact ⟨sparing.call call listed exact'.1 spared, kept⟩
  | book past manager seqs ih =>
      obtain ⟨sparing, sole'⟩ := ih scheduled
      exact ⟨sparing.book manager seqs, manager ▸ sole'⟩

theorem Cached.vacate (h : Cached xxh64 s.pool ids) (member : i ∈ ids) (status : SequenceStatus)
    (run : onSeq i BlockManager.deallocate (s.setSeq i { s.seqs i with status }) = .ok () t) :
    Cached xxh64 t.pool ids ∧ t.running = s.running := by
  have marked := h.setSeq member { s.seqs i with status } rfl rfl
  obtain ⟨f, inner, rfl⟩ := onSeq_ok run
  exact ⟨marked.cached.deallocate member inner, rfl⟩

theorem Cached.preemptDecodeTailFrom (h : Cached xxh64 s.pool ids) (members : ∀ i ∈ s.running, i ∈ ids) {fuel : Nat}
    (run : Scheduler.preemptDecodeTailFrom fuel s = .ok () t) : Cached xxh64 t.pool ids := by
  induction fuel generalizing s with
  | zero =>
      cases run
      exact h
  | succ fuel ih =>
      simp only [Scheduler.preemptDecodeTailFrom, run_get_bind] at run
      cases last : s.running.getLast? with
      | none =>
          simp only [last] at run
          cases run
          exact h
      | some tail =>
          simp only [last] at run
          obtain ⟨blocks, -, run⟩ := run_ofExcept_ok run
          split at run
          next =>
            cases run
            exact h
          next =>
            have member := members tail (List.mem_of_getLast? last)
            rw [run_modify_bind] at run
            obtain ⟨⟨⟩, u, first, run⟩ := run_bind_ok run
            simp only [preempt, run_modifySeq_bind] at first
            obtain ⟨⟨⟩, v, freed, first⟩ := run_bind_ok first
            cases first
            obtain ⟨cached, running⟩ := Cached.vacate (s := { s with running := s.running.dropLast }) h member .waiting
              freed
            refine @ih { v with waiting := tail :: v.waiting } cached (fun j listed => members j ?_) run
            have listed : j ∈ v.running := listed
            rw [running] at listed
            exact List.dropLast_subset _ listed

theorem Cached.appendSampled (h : Cached xxh64 s.pool ids) (members : ∀ i ∈ batch, i ∈ ids) {sampled : Nat × Token}
    (run : Scheduler.appendSampled xxh64 batch sampled s = .ok () t) : Cached xxh64 t.pool ids := by
  simp only [Scheduler.appendSampled] at run
  cases entry : batch[sampled.1]? with
  | none =>
      simp only [entry] at run
      cases run
  | some i =>
      have member := members i (List.mem_of_getElem? entry)
      have wf := h.wf member
      simp only [entry] at run
      obtain ⟨⟨⟩, u, first, run⟩ := run_bind_ok run
      obtain ⟨seq, inner, rfl⟩ := run_zoom_ok first
      cases inner.symm.trans (Sequence.appendToken_run xxh64 wf sampled.2)
      have hashed : (s.seqs i).Hashed xxh64 := by
        obtain ⟨chain, held, find⟩ := h
        exact find.hashed i member
      have appended : Cached xxh64 (s.setSeq i ((s.seqs i).appended xxh64 sampled.2)).pool ids :=
        h.relabel member (wf.appended xxh64 sampled.2) rfl (Sequence.appended_tokens xxh64 _ sampled.2)
          (Sequence.appended_hashes xxh64 _ sampled.2) (hashed.appended wf sampled.2)
      rw [run_get_bind] at run
      split at run
      next =>
        simp only [finish, run_modifySeq_bind] at run
        obtain ⟨⟨⟩, v, freed, run⟩ := run_bind_ok run
        cases run
        exact (appended.vacate member .finished freed).1
      next =>
        cases run
        exact appended

theorem Cached.advance (h : Cached xxh64 s.pool ids) (member : i ∈ ids)
    (run : Scheduler.advance i s = .ok () t) : Cached xxh64 t.pool ids := by
  rw [advance_run] at run
  cases run
  unfold Sequence.settled
  split
  · exact (h.setSeq member (s.seqs i).advanced rfl rfl).cached
  · exact (h.setSeq member (s.seqs i) rfl rfl).cached

theorem Scheduler.settlePrefills_pool {prefill before result : List SeqId}
    (run : settlePrefills prefill before s = .ok result t) : t.pool = s.pool := by
  induction prefill generalizing s before with
  | nil =>
      cases run
      rfl
  | cons i rest ih =>
      simp only [settlePrefills, run_get_bind] at run
      split at run
      next => exact ih run
      next =>
        split at run
        next => exact ih run
        next =>
          split at run
          next => exact @ih { s with running := s.running ++ [i] } before run
          next => exact ih run

theorem Cached.postprocess (h : Cached xxh64 s.pool ids) (members : ∀ i ∈ batch, i ∈ ids) {tokenIds : List Token}
    {logitsIndices : List Nat} (run : Scheduler.postprocess xxh64 batch tokenIds logitsIndices s = .ok () t) :
    Cached xxh64 t.pool ids := by
  obtain ⟨-, run⟩ := run_require_ok run
  obtain ⟨⟨⟩, u, first, run⟩ := run_bind_ok run
  obtain ⟨⟨⟩, v, second, run⟩ := run_bind_ok run
  have sampled : Cached xxh64 u.pool ids := by
    refine forEach_keeps (I := fun s => Cached xxh64 s.pool ids) (fun e _ _ kept turn => ?_) h first
    exact kept.appendSampled members turn
  have advanced : Cached xxh64 v.pool ids := by
    refine forEach_keeps (I := fun s => Cached xxh64 s.pool ids) (fun e listed _ kept turn => ?_) sampled second
    exact kept.advance (members _ (fst_mem_of_mem_turns listed)) turn
  rw [run_get_bind] at run
  obtain ⟨partials, w, third, run⟩ := run_bind_ok run
  obtain ⟨-, run⟩ := run_require_ok run
  have settled : Cached xxh64 w.pool ids := by
    rw [settlePrefills_pool third]
    exact advanced
  split at run
  next =>
    cases run
    exact settled
  next =>
    cases run
    exact settled

end Cached

end NanoVllm
