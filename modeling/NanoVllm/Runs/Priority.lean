import NanoVllm.Runs.Reachable
import NanoVllm.Shared.Stable

set_option autoImplicit false

namespace NanoVllm

open Python Raising

namespace Scheduler

-- The match of a request in the index of this state.
def initialMatch (s : Scheduler) (i : SeqId) : List BlockId :=
  ((s.blockManager.matchPrefix (s.seqs i)).toOption).getD []

-- The requests of a batch that were waiting in this state.
def admitted (s : Scheduler) (batch : List SeqId) : List SeqId := batch.filter (fun i => decide (i ∈ s.waiting))

end Scheduler

/-- Admission from the state `u` after decode preemption to the state `t` of the batch: by descending initial match,
without a gap, and behind the chunk. -/
structure StrictPriority (u t : Scheduler) (batch : List SeqId) : Prop where
  matched : ∀ i ∈ u.waiting, u.blockManager.matchPrefix (u.seqs i) = .ok (u.initialMatch i)
  ranked : ∃ ranking, u.admitted batch <+: ranking ∧
    if u.config.enableLpm then StablySorted (fun i => -((u.initialMatch i).length : Int)) u.waiting ranking
    else ranking = u.waiting
  full : ∀ i ∈ (u.admitted batch).dropLast, (t.seqs i).Complete
  queue : t.waiting = u.waiting.filter (fun i => decide (i ∉ u.admitted batch))
  gate : u.admitted batch ≠ [] → ∀ c, u.chunkedReq = some c → c ∈ batch ∧ (t.seqs c).Complete

section Priority

open Scheduler

variable {cache : Cache} {xxh64 : XxHash} {config : Config} {s s₁ s₂ s₃ t u : Scheduler} {ids : Finset SeqId}
  {tail batch ranked : List SeqId} {plan : ChunkPlan} {found : Dict SeqId (List BlockId)} {entries : List Entry}

theorem filter_of_sublist {α : Type} [DecidableEq α] {gone left queue : List α} (all : (gone ++ left).Perm queue)
    (order : left.Sublist queue) (once : queue.Nodup) : left = queue.filter (fun x => decide (x ∉ gone)) := by
  have apart := List.disjoint_of_nodup_append (all.nodup_iff.mpr once)
  have kept := order.filter (fun x => decide (x ∉ gone))
  have stays : left.filter (fun x => decide (x ∉ gone)) = left := by
    refine List.filter_eq_self.mpr (fun x listed => decide_eq_true (fun went => apart went listed))
  have goes : gone.filter (fun x => decide (x ∉ gone)) = [] := by
    refine List.filter_eq_nil_iff.mpr (fun x listed => ?_)
    simpa using listed
  rw [stays] at kept
  refine kept.eq_of_length ?_
  rw [← (all.filter _).length_eq, List.filter_append, stays, goes, List.nil_append]

theorem Inv.initialMatch (h : Inv cache s ids) {i : SeqId} (waits : i ∈ s.waiting) :
    s.blockManager.matchPrefix (s.seqs i) = .ok (s.initialMatch i) := by
  obtain ⟨blocks, matched, -⟩ := h.matchPrefix waits
  rw [Scheduler.initialMatch, matched]
  rfl

theorem Scheduler.Phases.admitted_eq (phases : Phases cache s s₁ s₂ ids tail plan ranked found entries) :
    s₁.admitted (prefillSeqs plan entries ++ s₁.running) = entries.map Entry.seqId := by
  have inv := phases.inv
  have waits := phases.prefilled.stage.waiting
  have none : (plan.resumes.map Prod.fst).filter (fun i => decide (i ∈ s₁.waiting)) = [] := by
    refine List.filter_eq_nil_iff.mpr (fun i listed => ?_)
    obtain ⟨a, entry, rfl⟩ := List.mem_map.mp listed
    simpa using (phases.prefilled.stage.appends a entry).1
  have none' : s₁.running.filter (fun i => decide (i ∈ s₁.waiting)) = [] := by
    refine List.filter_eq_nil_iff.mpr (fun i listed => ?_)
    simpa using Stage.seat_apart inv (.inr listed)
  have all : (entries.map Entry.seqId).filter (fun i => decide (i ∈ s₁.waiting)) = entries.map Entry.seqId := by
    refine List.filter_eq_self.mpr (fun i listed => decide_eq_true ?_)
    exact waits.mem_iff.mp (List.mem_append_left _ listed)
  rw [admitted, prefillSeqs, List.filter_append, List.filter_append, none, none', all, List.append_nil, List.nil_append]

theorem Scheduler.rankWaiting_congr {found' : Dict SeqId (List BlockId)} {waiting : List SeqId}
    (agree : ∀ i ∈ waiting, found i = found' i) : s.rankWaiting waiting found = s.rankWaiting waiting found' := by
  have moved := @List.map_insertionSort SeqId SeqId (fun i j => s.rankKey found i ≤ s.rankKey found j)
    (fun i j => s.rankKey found' i ≤ s.rankKey found' j) _ _ id waiting (fun i waits j waits' => by
      simp only [rankKey, agree i waits, agree j waits', id])
  rwa [List.map_id, List.map_id] at moved

theorem Scheduler.rankWaiting_spec (s : Scheduler) (waiting : List SeqId) :
    if s.config.enableLpm then
      StablySorted (fun i => -((s.initialMatch i).length : Int)) waiting
        (s.rankWaiting waiting (fun i => some (s.initialMatch i)))
    else s.rankWaiting waiting (fun i => some (s.initialMatch i)) = waiting := by
  have sorted := stablySorted_insertionSort (s.rankKey (fun i => some (s.initialMatch i))) waiting
  split
  next lpm =>
    have key : s.rankKey (fun i => some (s.initialMatch i)) = fun i => -((s.initialMatch i).length : Int) := by
      funext i
      rw [rankKey, if_pos lpm]
      rfl
    rw [key] at sorted
    rw [rankWaiting, key]
    exact sorted
  next off =>
    refine sorted.unsorted (k := 0) (fun i => ?_)
    rw [rankKey, if_neg off]

theorem Scheduler.Phases.priority (phases : Phases cache s s₁ s₂ ids tail plan ranked found entries)
    (decoded : Decoded cache s₁ s₂ s₃ ids plan.resumes entries s₁.running) :
    StrictPriority s₁ (s₃.counted (prefillSeqs plan entries)) (prefillSeqs plan entries ++ s₁.running) := by
  have inv := phases.inv
  have stage := decoded.stage
  have ranks := phases.ranks
  have order := phases.prefilled.order
  have complete (e : Entry) (listed : e ∈ entries) (whole : e.Whole s₁) : (s₃.seqs e.seqId).Complete := by
    obtain ⟨-, table, same⟩ := stage.admits e listed
    rw [Sequence.Complete, same]
    exact whole
  constructor
  case matched => exact fun i waits => inv.initialMatch waits
  case ranked =>
    refine ⟨_, ?_, s₁.rankWaiting_spec s₁.waiting⟩
    rw [phases.admitted_eq]
    by_cases tries : plan.allowWaiting ∧ s₁.waiting ≠ [] ∧ plan.tokenBudget > 0
    · have value := ranks.value
      rw [if_pos tries] at value
      have known : ∀ i ∈ s₁.waiting, found i = some (s₁.initialMatch i) := by
        intro i waits
        have listed : i ∈ ranked := value ▸ (s₁.rankWaiting_perm s₁.waiting found).mem_iff.mpr waits
        obtain ⟨blocks, known, matched⟩ := ranks.known i listed
        rw [known, Scheduler.initialMatch, matched]
        rfl
      rwa [value, rankWaiting_congr known] at order
    · rw [ranks.value, if_neg tries, List.prefix_nil] at order
      rw [order]
      exact List.nil_prefix
  case full =>
    rw [phases.admitted_eq]
    intro i listed
    rw [← List.map_dropLast] at listed
    obtain ⟨e, front, rfl⟩ := List.mem_map.mp listed
    exact complete e (List.dropLast_subset _ front) (phases.prefilled.fits.full e front)
  case queue =>
    rw [phases.admitted_eq]
    exact filter_of_sublist stage.waiting stage.order inv.waiting_nodup
  case gate =>
    rw [phases.admitted_eq]
    intro some' c chunk
    have entered : entries ≠ [] := fun none => some' (by rw [none]; rfl)
    obtain ⟨resumed, whole⟩ := phases.chunk_complete decoded entered chunk
    exact ⟨List.mem_append_left _ (List.mem_append_left _ resumed), whole⟩

theorem Inv.priority (h : Inv cache s ids) (preempted : Scheduler.preemptDecodeTail s.resetCounters = .ok () u)
    (run : Scheduler.schedule s = .ok batch t) : u.config = s.config ∧ StrictPriority u t batch := by
  obtain ⟨s₁, s₂, tail, plan, ranked, found, entries, phases, outcome⟩ := h.schedule
  cases preempted.symm.trans phases.preempting
  rw [run] at outcome
  cases outcome with
  | batch s₃ decoding decoded some' => exact ⟨phases.preempted.config, phases.priority decoded⟩

/-- Waiting requests are admitted by their initial matches, in both modes, whatever the step itself publishes. -/
theorem strict_priority (past : Reachable xxh64 config s ids)
    (preempted : preemptDecodeTail s.resetCounters = .ok () u) (run : schedule s = .ok batch t) :
    u.config = config ∧ StrictPriority u t batch := by
  obtain ⟨cache, inv, same⟩ := past.inv
  exact same ▸ inv.priority preempted run

def rankedConfig : Config :=
  { maxNumBatchedTokens := 8
    maxNumSeqs := 3
    maxModelLen := 8
    kvcacheBlockSize := 1
    numKvcacheBlocks := 9
    kvcacheBlockSize_pos := Nat.one_pos }

-- Request 2 has a cached page and goes first; request 3 shares a page with request 1 and stays behind it.
theorem strict_priority_shared :
    ∃ s t u, Reachable pageHash rankedConfig s {0, 1, 2, 3} ∧ schedule s = .ok [2, 1, 3] t ∧ s.waiting = [1, 2, 3] ∧
      [1, 2, 3].map (fun i => (u.initialMatch i).length) = [0, 1, 0] ∧
      [1, 2, 3].map (fun i => (t.seqs i).numCachedTokens) = [0, 1, 1] ∧ StrictPriority u t [2, 1, 3] := by
  have start : Scheduler.init rankedConfig = .ok _ := rfl
  have past := Reachable.play pageHash start
    [.add 0 [1] { maxTokens := 1 }, .step [5], .add 1 [2, 3] {}, .add 2 [1, 4] {}, .add 3 [2, 6] {}] (by decide)
    (run_final (by decide +kernel))
  have priority := (strict_priority past (run_final (by decide +kernel))
    (run_value (a := [2, 1, 3]) (by decide +kernel))).2
  exact ⟨_, _, _, past, run_value (by decide +kernel), by decide +kernel, by decide +kernel, by decide +kernel, priority⟩

end Priority

end NanoVllm
