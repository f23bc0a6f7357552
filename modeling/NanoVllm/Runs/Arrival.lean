import NanoVllm.Runs.Priority

set_option autoImplicit false

namespace NanoVllm

open Python Raising

/-- The runs in which requests are numbered by their arrival, and in which every step from `s` meets a condition with
the state `u` after its decode preemption. -/
inductive ArrivalRun (xxh64 : XxHash) (config : Config) (meets : Scheduler → Scheduler → Prop) :
    Scheduler → Finset SeqId → Prop
  | init {s : Scheduler} (made : Scheduler.init config = .ok s) : ArrivalRun xxh64 config meets s ∅
  | add {s s' : Scheduler} {ids : Finset SeqId} {i : SeqId} {tokenIds : List Token} {params : SamplingParams}
      {seq : Sequence} (past : ArrivalRun xxh64 config meets s ids) (later : ∀ j ∈ ids, j < i)
      (made : Sequence.init xxh64 i tokenIds params config.kvcacheBlockSize = .ok seq)
      (run : Scheduler.add seq s = .ok () s') : ArrivalRun xxh64 config meets s' (insert i ids)
  | step {s u t w : Scheduler} {ids : Finset SeqId} {batch : List SeqId} (past : ArrivalRun xxh64 config meets s ids)
      (step : Step xxh64 s batch t w) (preempted : Scheduler.preemptDecodeTail s.resetCounters = .ok () u)
      (met : meets s u) : ArrivalRun xxh64 config meets w ids

-- The decode requests that preemption takes from the tail of `running`.
def Scheduler.preemptedTail (s u : Scheduler) : List SeqId := s.running.drop u.running.length

/-- The preempted requests stand in `running` by arrival, and every request of the queue arrived after them. -/
def Orderly (s u : Scheduler) : Prop :=
  (s.preemptedTail u).Pairwise (· < ·) ∧ ∀ i ∈ s.preemptedTail u, ∀ j ∈ s.waiting, i < j

def FirstCome (u t : Scheduler) (batch : List SeqId) : Prop := (u.admitted batch ++ t.waiting).Pairwise (· < ·)

section Arrival

open Scheduler

variable {cache : Cache} {xxh64 : XxHash} {config : Config} {meets : Scheduler → Scheduler → Prop}
  {s t u w : Scheduler} {ids : Finset SeqId} {batch tail : List SeqId}

theorem ArrivalRun.reachable (run : ArrivalRun xxh64 config meets s ids) : Reachable xxh64 config s ids := by
  induction run with
  | init made => exact .init made
  | add past later made run ih => exact ih.add (fun listed => Nat.lt_irrefl _ (later _ listed)) made run
  | step past step preempted met ih => exact ih.step step

theorem Scheduler.Preempted.tail_eq (h : Preempted s.resetCounters u tail) : s.preemptedTail u = tail := by
  have running : s.running = u.running ++ tail := h.running
  rw [preemptedTail, running, List.drop_left]

theorem StrictPriority.queue_eq (h : StrictPriority u t batch) (once : u.waiting.Nodup)
    (fcfs : u.config.enableLpm = false) : u.waiting = u.admitted batch ++ t.waiting := by
  obtain ⟨ranking, ⟨rest, front⟩, same⟩ := h.ranked
  rw [fcfs] at same
  simp only [Bool.false_eq_true, if_false] at same
  rw [same] at front
  have left : rest = u.waiting.filter (fun i => decide (i ∉ u.admitted batch)) := by
    refine filter_of_sublist (List.Perm.of_eq front) ?_ once
    rw [← front]
    exact List.sublist_append_right _ _
  rw [h.queue, ← left]
  exact front.symm

theorem firstCome_iff (inv : Inv cache s ids) (preempted : preemptDecodeTail s.resetCounters = .ok () u)
    (priority : StrictPriority u t batch) (fcfs : s.config.enableLpm = false)
    (sorted : s.waiting.Pairwise (· < ·)) : FirstCome u t batch ↔ Orderly s u := by
  obtain ⟨u', tail, run', inv', moved, -⟩ := Inv.preemptDecodeTail inv.reset
  cases preempted.symm.trans run'
  have config : u.config = s.config := moved.config
  have queue := priority.queue_eq inv'.waiting_nodup (config ▸ fcfs)
  have waiting : u.waiting = tail ++ s.waiting := moved.waiting
  rw [FirstCome, ← queue, waiting, List.pairwise_append, Orderly, moved.tail_eq]
  exact ⟨fun ⟨own, _, apart⟩ => ⟨own, apart⟩, fun ⟨own, apart⟩ => ⟨own, sorted, apart⟩⟩

theorem Advanced.seats_sublist {prefill : List SeqId} {samples : List (SeqId × Token)}
    (adv : Advanced xxh64 t w prefill samples) (shape : Batch cache t ids prefill) (some' : prefill ≠ []) :
    (w.running ++ w.chunkedReq.toList).Sublist (t.running ++ prefill) := by
  have early := shape.early_whole adv.turn
  rw [adv.running, adv.chunk, if_neg some', List.append_assoc]
  refine List.Sublist.append List.filter_sublist ?_
  obtain ⟨front, last, rfl⟩ := List.eq_nil_or_concat' prefill |>.resolve_left some'
  rw [List.dropLast_concat] at early
  have none : front.filter w.isPartial = [] := List.filter_eq_nil_iff.mpr (fun i listed => by simp [early i listed])
  rw [List.filter_append, List.filter_append, none, List.nil_append, List.append_assoc]
  refine List.Sublist.append List.filter_sublist ?_
  by_cases part : w.isPartial last = true
  · have apart : w.joins last = false := by
      simp only [isPartial, decide_eq_true_eq] at part
      simp [joins, part]
    simp [part, apart]
  · have alone : [last].filter w.isPartial = [] := by simpa using part
    rw [alone, List.head?_nil, Option.toList_none, List.append_nil]
    exact List.filter_sublist

theorem Inv.prefill_eq (h : Inv cache s ids) (preempted : Scheduler.preemptDecodeTail s.resetCounters = .ok () u)
    (run : Scheduler.schedule s = .ok batch t) {prefill : List SeqId} (order : batch = prefill ++ t.running) :
    t.running = u.running ∧ t.chunkedReq = u.chunkedReq ∧
      (prefill = [] ∧ u.admitted batch = [] ∨ prefill ≠ [] ∧ prefill = u.chunkedReq.toList ++ u.admitted batch) := by
  obtain ⟨s₁, s₂, tail, plan, ranked, found, entries, phases, outcome⟩ := h.schedule
  cases preempted.symm.trans phases.preempting
  rw [run] at outcome
  cases outcome with
  | batch s₃ decoding decoded some' =>
      have running : s₃.running = u.running := decoded.stage.running
      have front : prefillSeqs plan entries = prefill := by
        rw [← running] at order
        exact List.append_cancel_right order
      subst front
      refine ⟨running, decoded.stage.chunkedReq, ?_⟩
      rw [phases.admitted_eq]
      by_cases none : prefillSeqs plan entries = []
      · exact .inl ⟨none, (List.append_eq_nil_iff.mp none).2⟩
      · exact .inr ⟨none, by rw [prefillSeqs, phases.chunk_eq none]⟩

-- The requests in the order in which they would give their pages back.
def Scheduler.line (s : Scheduler) : List SeqId := s.running ++ s.chunkedReq.toList ++ s.waiting

-- No decode request is preempted while a chunk is in flight.
def Unbroken (s u : Scheduler) : Prop := s.chunkedReq = none ∨ u.running = s.running

theorem Inv.line_step (h : Inv cache s ids) (preempted : Scheduler.preemptDecodeTail s.resetCounters = .ok () u)
    (step : Step xxh64 s batch t w) (fcfs : s.config.enableLpm = false) (unbroken : Unbroken s u) :
    w.line.Sublist s.line := by
  obtain ⟨u', tail, run', inv', moved, -⟩ := Inv.preemptDecodeTail h.reset
  cases preempted.symm.trans run'
  obtain ⟨prefill, input, samples, scheduled, adv, -⟩ := h.step step
  obtain ⟨-, priority⟩ := h.priority preempted step.scheduled
  obtain ⟨running, chunkedReq, prefills⟩ := h.prefill_eq preempted step.scheduled scheduled.order
  have config : u.config = s.config := moved.config
  have queue := priority.queue_eq inv'.waiting_nodup (config ▸ fcfs)
  have same : u.line = s.line := by
    have front : s.running = u.running ++ tail := moved.running
    have waiting : u.waiting = tail ++ s.waiting := moved.waiting
    have chunk : u.chunkedReq = s.chunkedReq := moved.chunkedReq
    rw [line, line, waiting, chunk, front]
    rcases unbroken with none | still
    · simp [none]
    · have none : tail = [] := by simpa [still] using front
      simp [none]
  rw [← same, line, line, adv.waiting]
  rcases prefills with ⟨none, left⟩ | ⟨some', all⟩
  · have stays : w.running.Sublist u.running := by
      rw [adv.running, none, running, List.filter_nil, List.append_nil]
      exact List.filter_sublist
    rw [queue, left, List.nil_append, adv.chunk, if_pos none, chunkedReq]
    exact (stays.append_right _).append_right _
  · have seats := adv.seats_sublist scheduled.shape some'
    rw [running, all] at seats
    rw [queue, ← List.append_assoc]
    simpa only [List.append_assoc] using seats.append_right t.waiting

theorem ArrivalRun.orderly (run : ArrivalRun xxh64 config Unbroken s ids) (fcfs : config.enableLpm = false) :
    ArrivalRun xxh64 config Orderly s ids ∧ s.line.Pairwise (· < ·) := by
  induction run with
  | init made =>
      refine ⟨.init made, ?_⟩
      obtain ⟨manager, created, made⟩ := except_bind_ok made
      cases made
      exact List.Pairwise.nil
  | @add s s' ids i tokenIds params seq past later made run ih =>
      refine ⟨ih.1.add later made run, ?_⟩
      obtain ⟨cache, inv, -⟩ := past.reachable.inv
      obtain ⟨-, -, name, -⟩ := Sequence.init_ok made
      obtain ⟨-, value⟩ := add_run run
      subst value
      have grown : (s.line ++ [seq.seqId]).Pairwise (· < ·) := by
        refine List.pairwise_append.mpr ⟨ih.2, List.pairwise_singleton _ _, fun j listed k new => ?_⟩
        rw [List.mem_singleton.mp new, name]
        refine later j ((inv.seated j).mp ?_).1
        simp only [line, List.mem_append] at listed ⊢
        tauto
      have moved : ({ s.setSeq seq.seqId seq with waiting := s.waiting ++ [seq.seqId] } : Scheduler).line =
          s.line ++ [seq.seqId] := (List.append_assoc _ _ _).symm
      exact moved ▸ grown
  | @step s u t w ids batch past step preempted unbroken ih =>
      obtain ⟨cache, inv, same⟩ := past.reachable.inv
      obtain ⟨u', tail, run', inv', moved, -⟩ := Inv.preemptDecodeTail inv.reset
      cases preempted.symm.trans run'
      refine ⟨ih.1.step step preempted ?_, ih.2.sublist (inv.line_step preempted step (same ▸ fcfs) unbroken)⟩
      have front : s.running = u.running ++ tail := moved.running
      have sorted := ih.2
      rw [line, front, List.append_assoc, List.append_assoc, List.pairwise_append, List.pairwise_append] at sorted
      rw [Orderly, moved.tail_eq]
      exact ⟨sorted.2.1.1, fun i listed j waits => sorted.2.1.2.2 i listed j (List.mem_append_right _ waits)⟩

/-- Without LPM the queue stands by arrival in every run whose steps preempt by arrival, and only a step that does not
can admit a request before one that arrived earlier. The steps of a run do so if they preempt nothing while a chunk is in
flight. -/
theorem waiting_first_come (run : ArrivalRun xxh64 config Orderly s ids) (fcfs : config.enableLpm = false) :
    s.waiting.Pairwise (· < ·) ∧ (∀ u batch t, preemptDecodeTail s.resetCounters = .ok () u →
      schedule s = .ok batch t → (FirstCome u t batch ↔ Orderly s u)) ∧
      ∀ s' ids', ArrivalRun xxh64 config Unbroken s' ids' →
        ArrivalRun xxh64 config Orderly s' ids' ∧ s'.line.Pairwise (· < ·) := by
  have sorted : s.waiting.Pairwise (· < ·) := by
    induction run with
    | init made =>
        obtain ⟨manager, created, made⟩ := except_bind_ok made
        cases made
        exact List.Pairwise.nil
    | @add s s' ids i tokenIds params seq past later made run ih =>
        obtain ⟨cache, inv, -⟩ := past.reachable.inv
        obtain ⟨-, -, name, -⟩ := Sequence.init_ok made
        obtain ⟨-, value⟩ := add_run run
        subst value
        refine List.pairwise_append.mpr ⟨ih, List.pairwise_singleton _ _, fun j waits k listed => ?_⟩
        rw [List.mem_singleton.mp listed, name]
        exact later j (inv.waiting_mem waits).1
    | @step s u t w ids batch past step preempted met ih =>
        obtain ⟨cache, inv, same⟩ := past.reachable.inv
        obtain ⟨-, priority⟩ := inv.priority preempted step.scheduled
        obtain ⟨prefill, input, samples, -, advanced, -⟩ := inv.step step
        have first := (firstCome_iff inv preempted priority (same ▸ fcfs) ih).mpr met
        rw [advanced.waiting]
        exact (List.pairwise_append.mp first).2.1
  obtain ⟨cache, inv, same⟩ := run.reachable.inv
  refine ⟨sorted, fun u batch t preempted scheduled => ?_, fun s' ids' unbroken => unbroken.orderly fcfs⟩
  obtain ⟨-, priority⟩ := inv.priority preempted scheduled
  exact firstCome_iff inv preempted priority (same ▸ fcfs) sorted

theorem ArrivalRun.events (past : ArrivalRun xxh64 config meets s ids) (all : List Event)
    (ordered : (all.flatMap Event.added).Pairwise (· < ·)) (later : ∀ i ∈ all.flatMap Event.added, ∀ j ∈ ids, j < i)
    (met : ∀ e ∈ turns (Event.run xxh64) all s, e.1.added = [] →
      meets e.2 (final (preemptDecodeTail e.2.resetCounters)))
    (run : forEach (Event.run xxh64) all s = .ok () w) :
    ArrivalRun xxh64 config meets w (ids ∪ (all.flatMap Event.added).toFinset) := by
  induction all generalizing s ids with
  | nil =>
      cases run
      simpa using past
  | cons e rest ih =>
      obtain ⟨⟨⟩, s', first, run⟩ := run_bind_ok run
      rw [turns_ok first, List.forall_mem_cons] at met
      rw [List.flatMap_cons, List.pairwise_append] at ordered
      rw [List.flatMap_cons] at later ⊢
      have next : ArrivalRun xxh64 config meets s' (ids ∪ e.added.toFinset) := by
        obtain ⟨cache, inv, same⟩ := past.reachable.inv
        cases e with
        | add i tokenIds params =>
            obtain ⟨seq, made, first⟩ := run_ofExcept_ok first
            rw [Event.added, List.toFinset_cons, List.toFinset_nil, Finset.union_comm]
            exact past.add (later i (by simp [Event.added])) (same ▸ made) first
        | step tokenIds =>
            obtain ⟨u, tail, preempted, -⟩ := Inv.preemptDecodeTail inv.reset
            obtain ⟨batch, t, step⟩ := Event.step_run first
            rw [Event.added, List.toFinset_nil, Finset.union_empty]
            refine past.step step preempted ?_
            simpa [preempted, final] using met.1 rfl
      have after := ih next ordered.2.1 (fun i listed j member => ?_) met.2 run
      · rwa [List.toFinset_append, ← Finset.union_assoc]
      · rcases Finset.mem_union.mp member with old | new
        · exact later i (List.mem_append_right _ listed) j old
        · exact ordered.2.2 j (List.mem_toFinset.mp new) i listed

theorem ArrivalRun.play (xxh64 : XxHash) (made : Scheduler.init config = .ok s) (all : List Event)
    (ordered : (all.flatMap Event.added).Pairwise (· < ·))
    (met : ∀ e ∈ turns (Event.run xxh64) all s, e.1.added = [] →
      meets e.2 (final (preemptDecodeTail e.2.resetCounters)))
    (run : forEach (Event.run xxh64) all s = .ok () w) :
    ArrivalRun xxh64 config meets w (all.flatMap Event.added).toFinset := by
  have past := (@ArrivalRun.init xxh64 config meets s made).events all ordered (by simp) met run
  rwa [Finset.empty_union] at past

instance (s u : Scheduler) : Decidable (Orderly s u) := inferInstanceAs (Decidable (_ ∧ _))

instance (s u : Scheduler) : Decidable (Unbroken s u) := inferInstanceAs (Decidable (_ ∨ _))

def arrivalConfig (numKvcacheBlocks : Nat) : Config :=
  { maxNumBatchedTokens := 4
    maxNumSeqs := 4
    maxModelLen := 16
    kvcacheBlockSize := 1
    numKvcacheBlocks
    chunkedPrefill := true
    enableLpm := false
    kvcacheBlockSize_pos := Nat.one_pos }

-- Request 1 is preempted with no chunk in flight.
theorem waiting_first_come_preempted :
    ∃ s t u, ArrivalRun pageHash (arrivalConfig 5) Orderly s {0, 1} ∧ schedule s = .ok [0] t ∧ u.waiting = [1] ∧
      s.waiting.Pairwise (· < ·) ∧ FirstCome u t [0] ∧ s.line.Pairwise (· < ·) := by
  have start : Scheduler.init (arrivalConfig 5) = .ok _ := rfl
  have past : ArrivalRun pageHash (arrivalConfig 5) Orderly _ _ := ArrivalRun.play pageHash start
    [.add 0 [1, 2] {}, .add 1 [3, 4] {}, .step [5, 6]] (by decide) (by decide +kernel) (run_final (by decide +kernel))
  have unbroken : ArrivalRun pageHash (arrivalConfig 5) Unbroken _ _ := ArrivalRun.play pageHash start
    [.add 0 [1, 2] {}, .add 1 [3, 4] {}, .step [5, 6]] (by decide) (by decide +kernel) (run_final (by decide +kernel))
  obtain ⟨sorted, first, orderly⟩ := waiting_first_come past rfl
  have came := (first _ _ _ (run_final (by decide +kernel)) (run_value (a := [0]) (by decide +kernel))).mpr
    (by decide +kernel)
  exact ⟨_, _, _, past, run_value (by decide +kernel), by decide +kernel, sorted, came, (orderly _ _ unbroken).2⟩

/-- Request 1 is preempted while the chunk of request 2 is in flight, and stays in the queue when request 2 is
preempted in its turn. -/
theorem preempted_chunk_overtakes :
    ∃ s, ArrivalRun pageHash (arrivalConfig 9) (fun _ _ => True) s {0, 1, 2} ∧ (arrivalConfig 9).enableLpm = false ∧
      s.waiting = [2, 1] ∧ ¬s.waiting.Pairwise (· < ·) := by
  have start : Scheduler.init (arrivalConfig 9) = .ok _ := rfl
  have past : ArrivalRun pageHash (arrivalConfig 9) (fun _ _ => True) _ _ := ArrivalRun.play pageHash start
    [.add 0 [10, 11] { maxTokens := 4 }, .add 1 [20, 21] { maxTokens := 3 }, .add 2 [30, 31, 32, 33] { maxTokens := 7 },
      .step [1, 2], .step [3, 4], .step [5, 6], .step [7]] (by decide) (fun _ _ _ => trivial)
    (run_final (by decide +kernel))
  exact ⟨_, past, rfl, by decide +kernel, by decide +kernel⟩

end Arrival

end NanoVllm
