import NanoVllm.Steps.Seats

set_option autoImplicit false

namespace NanoVllm

open Python Raising

-- The blocks that `n` more tokens of a sequence need.
def BlockManager.need (m : BlockManager) (seq : Sequence) (n : Nat) : Nat :=
  pagesFor m.blockSize (seq.numCachedTokens + n) - seq.blockTable.length

namespace Scheduler

variable {s s' : Scheduler}

theorem numBlocksToAppend_ok {m : BlockManager} {seq : Sequence} (size : seq.blockSize = m.blockSize) (n : Nat) :
    m.numBlocksToAppend seq n = .ok (m.need seq n) := by
  simp only [BlockManager.numBlocksToAppend, BlockManager.assertBlockSize, require_of size, pure_bind]
  rfl

-- The blocks that are reserved for one token of each of the sequences.
def reserve (s : Scheduler) (seqs : List SeqId) : Nat :=
  (seqs.map (fun i => s.blockManager.need (s.seqs i) 1)).sum

theorem blocksToAppend_ok {seqs : List SeqId}
    (sizes : ∀ i ∈ seqs, (s.seqs i).blockSize = s.blockManager.blockSize) :
    s.blocksToAppend seqs = .ok (s.reserve seqs) := by
  induction seqs with
  | nil => rfl
  | cons i rest ih =>
      have later := ih (fun j member => sizes j (List.mem_cons_of_mem i member))
      have first := numBlocksToAppend_ok (sizes i (List.mem_cons_self ..)) 1
      simp only [blocksToAppend, first, later, except_ok_bind]
      rfl

/-- What decode preemption did: the tail of `running` is in front of `waiting`. -/
structure Preempted (s s' : Scheduler) (tail : List SeqId) : Prop where
  config : s'.config = s.config
  chunkedReq : s'.chunkedReq = s.chunkedReq
  running : s.running = s'.running ++ tail
  waiting : s'.waiting = tail ++ s.waiting
  request : ∀ i, (s'.seqs i).request = (s.seqs i).request
  others : ∀ i, i ∉ tail → s'.seqs i = s.seqs i
  free : s.blockManager.freeBlockIds <+: s'.blockManager.freeBlockIds

theorem Preempted.refl (s : Scheduler) : Preempted s s [] where
  config := rfl
  chunkedReq := rfl
  running := (List.append_nil _).symm
  waiting := rfl
  request _ := rfl
  others _ _ := rfl
  free := List.prefix_rfl

theorem Preempted.trans {s'' : Scheduler} {tail tail' : List SeqId} (h : Preempted s s' tail)
    (h' : Preempted s' s'' tail') : Preempted s s'' (tail' ++ tail) where
  config := h'.config.trans h.config
  chunkedReq := h'.chunkedReq.trans h.chunkedReq
  running := by rw [h.running, h'.running, List.append_assoc]
  waiting := by rw [h'.waiting, h.waiting, List.append_assoc]
  request i := (h'.request i).trans (h.request i)
  others i outside := by
    rw [List.mem_append, not_or] at outside
    exact (h'.others i outside.1).trans (h.others i outside.2)
  free := h.free.trans h'.free

end Scheduler

section Preempt

variable {cache : Cache} {s : Scheduler} {ids : Finset SeqId}

open Scheduler

structure Evicts (cache : Cache) (s s' : Scheduler) (ids : Finset SeqId) (front : List SeqId) (i : SeqId) : Prop where
  pool : ∃ chain, Held s'.pool ids chain ∧ Settled cache s'.pool ids chain
  size : s'.blockManager.blockSize = s.blockManager.blockSize
  count : s'.blockManager.numBlocks = s.blockManager.numBlocks
  published : ∀ b, (s'.blockManager.blocks b).published ↔ (s.blockManager.blocks b).published
  free : s.blockManager.freeBlockIds <+: s'.blockManager.freeBlockIds
  self : s'.seqs i = (s.seqs i).request
  others : ∀ j, j ≠ i → s'.seqs j = s.seqs j
  config : s'.config = s.config
  waiting : s'.waiting = i :: s.waiting
  chunkedReq : s'.chunkedReq = s.chunkedReq
  running : s'.running = front

theorem Inv.preempt_run (h : Inv cache s ids) {front : List SeqId} {i : SeqId} (last : s.running = front ++ [i]) :
    ∃ s', Scheduler.preempt i { s with running := front } = .ok () s' ∧ Evicts cache s s' ids front i := by
  obtain ⟨chain, held, settled⟩ := h.pool
  obtain ⟨member, -⟩ := h.running_mem (show i ∈ s.running by simp [last])
  have wf := held.wf i member
  let waits : Sequence := { s.seqs i with status := .waiting }
  have held' : Held (s.pool.store i ⟨s.blockManager, waits⟩) ids chain :=
    held.relabel member (wf.relabel rfl rfl rfl rfl rfl) rfl List.prefix_rfl List.prefix_rfl
  have settled' : Settled cache (s.pool.store i ⟨s.blockManager, waits⟩) ids chain :=
    settled.relabel rfl List.prefix_rfl rfl ((h.covered i member).within.trans_eq wf.tokens)
  obtain ⟨p, run, vacated⟩ := held'.deallocate_run member
  have called : onSeq i BlockManager.deallocate
      ({ s with running := front }.withPool (s.pool.store i ⟨s.blockManager, waits⟩)) =
      .ok () ({ s with running := front }.withPool p) := onSeq_run run vacated.store
  refine ⟨{ s with
    blockManager := p.manager
    seqs := p.seqs
    running := front
    waiting := i :: s.waiting }, ?_, ?_⟩
  · simp only [Scheduler.preempt, modifySeq, run_modify_bind, setSeq_eq]
    exact (bind_ok called).trans rfl
  · constructor
    case pool => exact ⟨chain, vacated.held, settled'.vacate vacated⟩
    case size => exact vacated.size
    case count => exact vacated.count
    case published =>
      intro b
      change (p.manager.blocks b).published ↔ _
      rw [Block.published, Block.published, (Block.content_eq (vacated.content b)).2.1]
      rfl
    case free => exact vacated.free
    case self =>
      change p.seqs i = _
      simp [vacated.seqs, waits, Sequence.request]
    case others =>
      intro j other
      change p.seqs j = _
      rw [vacated.seqs, Function.update_of_ne other, Pool.store_seqs_of_ne _ _ other]
      rfl
    all_goals rfl

namespace Evicts

variable {s' : Scheduler} {front : List SeqId} {i : SeqId}

theorem inv (e : Evicts cache s s' ids front i) (h : Inv cache s ids) (last : s.running = front ++ [i]) :
    Inv cache s' ids := by
  obtain ⟨member, live⟩ := h.running_mem (show i ∈ s.running by simp [last])
  have nodup := h.seats
  rw [last] at nodup
  have apart (j : SeqId) (seat : j ∈ s.waiting ++ s.chunkedReq.toList) : j ≠ i := by
    rintro rfl
    exact List.disjoint_of_nodup_append nodup seat (List.mem_append_right front (List.mem_singleton_self j))
  have apart' (j : SeqId) (runs : j ∈ front) : j ≠ i := by
    rintro rfl
    exact List.disjoint_of_nodup_append (List.nodup_append.mp nodup).2.1 runs (List.mem_singleton_self j)
  have moved : (i :: s.waiting ++ s.chunkedReq.toList ++ front).Perm
      (s.waiting ++ s.chunkedReq.toList ++ (front ++ [i])) := by
    rw [← List.append_assoc, List.cons_append, List.cons_append]
    exact (List.perm_append_singleton i _).symm
  constructor
  all_goals try rw [e.config]
  case pool => exact e.pool
  case covered =>
    intro j memberJ
    by_cases self : j = i
    · subst self
      obtain ⟨chain, held, -⟩ := e.pool
      rw [e.self]
      exact Covered.idle held.size_pos rfl rfl
    · exact (h.covered j memberJ).congr e.size (by rw [e.others j self]) (by rw [e.others j self])
        (by rw [e.others j self]) (fun b _ => e.published b)
  case size => exact e.size.trans h.size
  case count => exact e.count.trans h.count
  case seats =>
    rw [e.waiting, e.chunkedReq, e.running]
    exact moved.nodup_iff.mpr nodup
  case seated =>
    intro j
    have seated := h.seated j
    rw [last] at seated
    rw [e.waiting, e.chunkedReq, e.running, moved.mem_iff, seated]
    by_cases self : j = i
    · subst self
      simp [e.self, Sequence.request, live]
    · rw [e.others j self]
  case waiting =>
    intro j waits
    rw [e.waiting, List.mem_cons] at waits
    rcases waits with rfl | old
    · rw [e.self]
      exact ⟨rfl, rfl, rfl, rfl⟩
    · rw [e.others j (apart j (List.mem_append_left _ old))]
      exact h.waiting j old
  case chunk =>
    intro j chunked
    rw [e.chunkedReq] at chunked
    rw [e.others j (apart j (by simp [chunked]))]
    exact h.chunk j chunked
  case running =>
    intro j runs
    rw [e.running] at runs
    rw [e.others j (apart' j runs)]
    exact h.running j (by rw [last]; exact List.mem_append_left _ runs)
  case ended =>
    intro j memberJ ended
    by_cases self : j = i
    · subst self
      rw [e.self] at ended
      cases ended
    · rw [e.others j self] at ended ⊢
      exact h.ended j memberJ ended
  case limits =>
    intro j memberJ unfinished
    by_cases self : j = i
    · subst self
      rw [e.self]
      exact ⟨(h.limits j member live).length, (h.limits j member live).completion⟩
    · rw [e.others j self] at unfinished ⊢
      exact h.limits j memberJ unfinished
  case named =>
    intro j memberJ
    by_cases self : j = i
    · subst self
      rw [e.self]
      exact h.named j member
    · rw [e.others j self]
      exact h.named j memberJ
  case whole =>
    rw [e.chunkedReq]
    exact h.whole

theorem preempted (e : Evicts cache s s' ids front i) (last : s.running = front ++ [i]) : Preempted s s' [i] := by
  constructor
  case config => exact e.config
  case chunkedReq => exact e.chunkedReq
  case running => rw [last, e.running]
  case waiting => exact e.waiting
  case request =>
    intro j
    by_cases self : j = i
    · subst self
      rw [e.self]
      rfl
    · rw [e.others j self]
  case others => exact fun j outside => e.others j (by simpa using outside)
  case free => exact e.free

end Evicts

theorem Inv.preempt (h : Inv cache s ids) {front : List SeqId} {i : SeqId} (last : s.running = front ++ [i]) :
    ∃ s', Scheduler.preempt i { s with running := front } = .ok () s' ∧ Inv cache s' ids ∧
      s'.running = front ∧ Preempted s s' [i] := by
  obtain ⟨s', run, evicts⟩ := h.preempt_run last
  exact ⟨s', run, evicts.inv h last, evicts.running, evicts.preempted last⟩

theorem Inv.sizes (h : Inv cache s ids) {seqs : List SeqId} (within : ∀ i ∈ seqs, i ∈ ids) :
    ∀ i ∈ seqs, (s.seqs i).blockSize = s.blockManager.blockSize := by
  obtain ⟨chain, held, -⟩ := h.pool
  exact fun i member => (held.wf i (within i member)).block

def Scheduler.Affordable (s : Scheduler) : Prop :=
  s.running.length ≤ s.config.maxNumBatchedTokens ∧
    s.reserve s.running ≤ s.blockManager.freeBlockIds.length

-- The state before the last preemption could not pay for its decode requests.
def Scheduler.Pressed (cache : Cache) (ids : Finset SeqId) (s s' : Scheduler) (tail : List SeqId) : Prop :=
  ∀ i rest, tail = i :: rest →
    ∃ u, Inv cache u ids ∧ Preempted s u rest ∧ u.running = s'.running ++ [i] ∧ ¬u.Affordable

theorem Inv.preempt_turn (h : Inv cache s ids) :
    (s.Affordable ∧ ∀ fuel, Scheduler.preemptDecodeTailFrom (fuel + 1) s = .ok () s) ∨
    ∃ s' i, Inv cache s' ids ∧ Preempted s s' [i] ∧ ¬s.Affordable ∧
      ∀ fuel, Scheduler.preemptDecodeTailFrom (fuel + 1) s = Scheduler.preemptDecodeTailFrom fuel s' := by
  rcases List.eq_nil_or_concat s.running with none | ⟨front, i, last⟩
  · exact Or.inl ⟨by simp [Affordable, none, reserve], by simp [Scheduler.preemptDecodeTailFrom, none]⟩
  rw [List.concat_eq_append] at last
  have decode := blocksToAppend_ok (h.sizes (fun j member => (h.running_mem member).1))
  have tail : s.running.getLast? = some i := by simp [last]
  have dropped : s.running.dropLast = front := by simp [last]
  by_cases stop : s.Affordable
  · refine Or.inl ⟨stop, fun fuel => ?_⟩
    unfold Affordable at stop
    simp only [Scheduler.preemptDecodeTailFrom, run_get_bind, tail]
    rw [run_ofExcept_bind decode]
    simp [stop]
  · obtain ⟨s', run, inv, running, preempted⟩ := h.preempt last
    refine Or.inr ⟨s', i, inv, preempted, stop, fun fuel => ?_⟩
    unfold Affordable at stop
    simp only [Scheduler.preemptDecodeTailFrom, run_get_bind, tail]
    rw [run_ofExcept_bind decode]
    simp only [stop, if_false, run_modify_bind, dropped]
    exact bind_ok run

theorem Inv.preemptDecodeTailFrom (h : Inv cache s ids) (fuel : Nat) (enough : s.running.length ≤ fuel) :
    ∃ s' tail, Scheduler.preemptDecodeTailFrom fuel s = .ok () s' ∧ Inv cache s' ids ∧
      Preempted s s' tail ∧ Pressed cache ids s s' tail ∧ s'.Affordable := by
  induction fuel generalizing s with
  | zero =>
      have none : s.running = [] := List.length_eq_zero_iff.mp (by omega)
      refine ⟨s, [], rfl, h, Preempted.refl s, by simp [Pressed], ?_⟩
      simp [Affordable, none, reserve]
  | succ fuel ih =>
      rcases h.preempt_turn with ⟨stop, run⟩ | ⟨s', i, inv, first, poor, run⟩
      · exact ⟨s, [], run fuel, h, Preempted.refl s, by simp [Pressed], stop⟩
      · have last := first.running
        have shorter : s'.running.length ≤ fuel := by
          have length := congrArg List.length last
          rw [List.length_append, List.length_singleton] at length
          omega
        obtain ⟨s'', more, run', inv', rest, pressed, done⟩ := ih inv shorter
        refine ⟨s'', more ++ [i], (run fuel).trans run', inv', first.trans rest, ?_, done⟩
        intro j others same
        cases more with
        | nil =>
            rw [List.nil_append, List.cons.injEq] at same
            obtain ⟨rfl, rfl⟩ := same
            have queue := rest.running
            rw [List.append_nil] at queue
            exact ⟨s, h, Preempted.refl s, by rw [last, ← queue], poor⟩
        | cons k more =>
            rw [List.cons_append, List.cons.injEq] at same
            obtain ⟨rfl, rfl⟩ := same
            obtain ⟨u, invU, until', queue, poor⟩ := pressed k more rfl
            exact ⟨u, invU, first.trans until', queue, poor⟩

theorem Inv.preemptDecodeTail (h : Inv cache s ids) :
    ∃ s' tail, Scheduler.preemptDecodeTail s = .ok () s' ∧ Inv cache s' ids ∧
      Preempted s s' tail ∧ Pressed cache ids s s' tail ∧ s'.Affordable :=
  h.preemptDecodeTailFrom s.running.length (Nat.le_refl _)

theorem Inv.preempt_none (h : Inv cache s ids) {s' : Scheduler} (run : Scheduler.preemptDecodeTail s = .ok () s')
    (same : s'.running = s.running) : s' = s := by
  have run : Scheduler.preemptDecodeTailFrom s.running.length s = .ok () s' := run
  generalize count : s.running.length = fuel at run
  cases fuel with
  | zero =>
      cases run
      rfl
  | succ fuel =>
      rcases h.preempt_turn with ⟨-, stays⟩ | ⟨u, i, inv, first, -, turn⟩
      · rw [stays] at run
        cases run
        rfl
      · have length := congrArg List.length first.running
        rw [List.length_append, List.length_singleton] at length
        obtain ⟨u', tail, run', -, rest, -⟩ := inv.preemptDecodeTailFrom fuel (by omega)
        rw [turn, run'] at run
        cases run
        have length' := congrArg List.length rest.running
        rw [List.length_append, same] at length'
        omega

end Preempt

end NanoVllm
