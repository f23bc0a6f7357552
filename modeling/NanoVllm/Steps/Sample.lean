import NanoVllm.Steps.Batch

set_option autoImplicit false

namespace NanoVllm

open Python Raising

def Sequence.finished (seq : Sequence) : Sequence :=
  { seq with
    status := .finished
    numCachedTokens := 0
    numNewTokens := 0
    blockTable := [] }

def Sequence.sampled (xxh64 : XxHash) (config : Config) (seq : Sequence) (tokenId : Token) : Sequence :=
  if Scheduler.stops config (seq.appended xxh64 tokenId) tokenId then (seq.appended xxh64 tokenId).finished
  else seq.appended xxh64 tokenId

def Sequence.advanced (seq : Sequence) : Sequence :=
  { seq with
    numCachedTokens := seq.numCachedTokens + seq.numNewTokens
    numNewTokens := 0 }

namespace Scheduler

def unfinished (s : Scheduler) (seqs : List SeqId) : List SeqId :=
  seqs.filter (fun i => decide ((s.seqs i).status ≠ .finished))

end Scheduler

/-- What the first loop of `postprocess` did from `t`, for the requests in `done`. -/
structure Sampled (cache : Cache) (xxh64 : XxHash) (t u : Scheduler) (ids : Finset SeqId)
    (done : List (SeqId × Token)) : Prop where
  resident : Resident cache u.pool ids
  size : u.blockManager.blockSize = t.blockManager.blockSize
  count : u.blockManager.numBlocks = t.blockManager.numBlocks
  config : u.config = t.config
  waiting : u.waiting = t.waiting
  counted : u.numScheduledPrefillSeqs = t.numScheduledPrefillSeqs
  running : u.running = u.unfinished t.running
  chunk : u.chunkedReq.toList = u.unfinished t.chunkedReq.toList
  rest : ∀ i, i ∉ done.map Prod.fst → u.seqs i = t.seqs i
  sampled : ∀ d ∈ done, u.seqs d.1 = (t.seqs d.1).sampled xxh64 t.config d.2

theorem Scheduler.finish_run {cache : Cache} {s : Scheduler} {ids : Finset SeqId} {i : SeqId}
    (resident : Resident cache s.pool ids) (member : i ∈ ids) :
    ∃ p, finish i s = .ok () { s.withPool p with
        chunkedReq := if s.chunkedReq = some i then none else s.chunkedReq
        running := s.running.erase i } ∧
      Resident cache p ids ∧ p.seqs i = (s.seqs i).finished ∧ (∀ j, j ≠ i → p.seqs j = s.seqs j) ∧
      p.manager.blockSize = s.blockManager.blockSize ∧ p.manager.numBlocks = s.blockManager.numBlocks := by
  have ending : Resident cache (s.setSeq i { s.seqs i with status := .finished }).pool ids :=
    resident.relabel member ((resident.wf member).relabel rfl rfl rfl rfl rfl) rfl List.prefix_rfl List.prefix_rfl rfl
  obtain ⟨p, chain, run, vacated, resident'⟩ := ending.vacate member
  refine ⟨p, ?_, resident', ?_, fun j other => ?_, vacated.size, vacated.count⟩
  · have called := onSeq_run run vacated.store
    simp only [finish, run_modifySeq_bind]
    rw [bind_ok called]
    rfl
  · rw [vacated.seqs, Function.update_self, pool_seqs, setSeq_seqs_self]
    rfl
  · rw [vacated.seqs, Function.update_of_ne other, pool_seqs, setSeq_seqs_of_ne s _ other]

namespace Sampled

open Scheduler

variable {cache : Cache} {xxh64 : XxHash} {t u : Scheduler} {ids : Finset SeqId} {done : List (SeqId × Token)}
  {i : SeqId} {tokenId : Token}

theorem sampled_other (h : Sampled cache xxh64 t u ids done) {u' : Scheduler} (fresh : i ∉ done.map Prod.fst)
    (others : ∀ j, j ≠ i → u'.seqs j = u.seqs j) (self : u'.seqs i = (t.seqs i).sampled xxh64 t.config tokenId) :
    (∀ j, j ∉ (done ++ [(i, tokenId)]).map Prod.fst → u'.seqs j = t.seqs j) ∧
      ∀ d ∈ done ++ [(i, tokenId)], u'.seqs d.1 = (t.seqs d.1).sampled xxh64 t.config d.2 := by
  constructor
  · intro j outside
    simp only [List.map_append, List.map_cons, List.map_nil, List.mem_append, List.mem_singleton, not_or]
      at outside
    rw [others j outside.2]
    exact h.rest j outside.1
  · intro d listed
    rcases List.mem_append.mp listed with old | new
    · have other : d.1 ≠ i := fun same => fresh (same ▸ List.mem_map_of_mem old)
      rw [others d.1 other]
      exact h.sampled d old
    · rw [List.mem_singleton.mp new]
      exact self

theorem filter_of_eq {seqs : List SeqId} {s s' : Scheduler} (same : ∀ i ∈ seqs, (s'.seqs i).status = (s.seqs i).status) :
    s'.unfinished seqs = s.unfinished seqs := by
  refine List.filter_congr (fun i listed => ?_)
  rw [same i listed]

theorem erase_unfinished {seqs : List SeqId} {s s' : Scheduler} (once : seqs.Nodup)
    (others : ∀ j, j ≠ i → s'.seqs j = s.seqs j) (ended : (s'.seqs i).status = .finished) :
    (s.unfinished seqs).erase i = s'.unfinished seqs := by
  rw [unfinished, unfinished, (once.filter _).erase_eq_filter, List.filter_filter]
  refine List.filter_congr (fun j _ => ?_)
  by_cases self : j = i
  · subst self
    simp [ended]
  · simp [others j self, self]

theorem sample (h : Sampled cache xxh64 t u ids done) (member : i ∈ ids) (fresh : i ∉ done.map Prod.fst)
    (once : t.running.Nodup) (live : (t.seqs i).status ≠ .finished) {seqs : List SeqId} {k : Nat}
    (entry : seqs[k]? = some i) :
    ∃ u', appendSampled xxh64 seqs (k, tokenId) u = .ok () u' ∧
      Sampled cache xxh64 t u' ids (done ++ [(i, tokenId)]) := by
  have same : u.seqs i = t.seqs i := h.rest i fresh
  have wf : (u.seqs i).Wf u.blockManager.blockSize := h.resident.wf member
  have run : Sequence.appendToken xxh64 tokenId (u.seqs i) = .ok () ((u.seqs i).appended xxh64 tokenId) :=
    Sequence.appendToken_run xxh64 wf tokenId
  let appended := u.setSeq i ((u.seqs i).appended xxh64 tokenId)
  have zoomed : zoom (fun s => Scheduler.seqs s i) (fun s seq => s.setSeq i seq)
      (Sequence.appendToken xxh64 tokenId) u = .ok () appended := zoom_ok run
  have resident : Resident cache appended.pool ids :=
    h.resident.relabel member (wf.appended xxh64 tokenId) rfl (Sequence.appended_tokens xxh64 _ tokenId)
      (Sequence.appended_hashes xxh64 _ tokenId) rfl
  have others (j : SeqId) (other : j ≠ i) : appended.seqs j = u.seqs j := u.setSeq_seqs_of_ne _ other
  have self : appended.seqs i = (t.seqs i).appended xxh64 tokenId := by
    rw [← same]
    exact u.setSeq_seqs_self i _
  have statuses (j : SeqId) : (appended.seqs j).status = (u.seqs j).status := by
    by_cases other : j = i
    · subst other
      rw [self, same]
      rfl
    · rw [others j other]
  simp only [appendSampled, entry]
  rw [bind_ok zoomed, run_get_bind, self, show appended.config = t.config from h.config]
  by_cases stop : stops t.config ((t.seqs i).appended xxh64 tokenId) tokenId
  · rw [if_pos stop]
    obtain ⟨p, run', resident', ended, others', size, count⟩ := finish_run resident member
    have others'' (j : SeqId) (other : j ≠ i) : p.seqs j = u.seqs j :=
      (others' j other).trans (others j other)
    rw [self] at ended
    obtain ⟨rest, sampled⟩ := @h.sampled_other _ _ _ _ _ _ i tokenId (u.withPool p) fresh others'' (by
      rw [Sequence.sampled, if_pos stop]
      exact ended)
    refine ⟨_, run', ?_⟩
    exact
      { resident := resident'
        size := size.trans h.size
        count := count.trans h.count
        config := h.config
        waiting := h.waiting
        counted := h.counted
        running := by
          change u.running.erase i = _
          rw [h.running]
          exact erase_unfinished once others'' (congrArg Sequence.status ended)
        chunk := by
          have single : t.chunkedReq.toList.Nodup := by cases t.chunkedReq <;> simp
          have erased : (if u.chunkedReq = some i then none else u.chunkedReq).toList =
              u.chunkedReq.toList.erase i := by
            cases u.chunkedReq with
            | none => simp
            | some c => by_cases self : c = i <;> simp [self]
          change (if u.chunkedReq = some i then none else u.chunkedReq).toList = _
          rw [erased, h.chunk]
          exact erase_unfinished single others'' (congrArg Sequence.status ended)
        rest := rest
        sampled := sampled }
  · rw [if_neg stop]
    refine ⟨appended, rfl, ?_⟩
    obtain ⟨rest, sampled⟩ := @h.sampled_other _ _ _ _ _ _ i tokenId appended fresh others (by
      rw [self, Sequence.sampled, if_neg stop])
    exact
      { resident := resident
        size := h.size
        count := h.count
        config := h.config
        waiting := h.waiting
        counted := h.counted
        running := h.running.trans (filter_of_eq (fun j _ => statuses j)).symm
        chunk := h.chunk.trans (filter_of_eq (fun j _ => statuses j)).symm
        rest := rest
        sampled := sampled }

theorem sampleAll (h : Sampled cache xxh64 t u ids done) (running : t.running.Nodup) {seqs : List SeqId}
    {todo : List (Nat × SeqId × Token)} (entries : ∀ e ∈ todo, seqs[e.1]? = some e.2.1)
    (members : ∀ e ∈ todo, e.2.1 ∈ ids ∧ (t.seqs e.2.1).status ≠ .finished)
    (once : (done.map Prod.fst ++ todo.map (fun e => e.2.1)).Nodup) :
    ∃ u', forEach (appendSampled xxh64 seqs) (todo.map (fun e => (e.1, e.2.2))) u = .ok () u' ∧
      Sampled cache xxh64 t u' ids (done ++ todo.map Prod.snd) := by
  induction todo generalizing u done with
  | nil => exact ⟨u, rfl, by simpa using h⟩
  | cons e rest ih =>
      have first := List.mem_cons_self (a := e) (l := rest)
      have fresh : e.2.1 ∉ done.map Prod.fst := fun old =>
        List.disjoint_of_nodup_append once old (by simp)
      obtain ⟨u', run, sampled⟩ := @h.sample _ _ _ _ _ _ e.2.1 e.2.2 (members e first).1 fresh running
        (members e first).2 seqs e.1 (entries e first)
      obtain ⟨u'', run', sampled'⟩ := ih sampled (fun e' later => entries e' (List.mem_cons_of_mem e later))
        (fun e' later => members e' (List.mem_cons_of_mem e later)) (by simpa using once)
      refine ⟨u'', ?_, by simpa using sampled'⟩
      simp only [List.map_cons, forEach]
      rw [bind_ok run]
      exact run'

end Sampled

end NanoVllm
