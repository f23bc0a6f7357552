import NanoVllm.Runs.KvCache

set_option autoImplicit false

namespace NanoVllm

open Python Raising

/-- A successful step of the engine: `t` is the state between `schedule` and `postprocess`. The sampled
tokens are arbitrary. -/
structure Step (xxh64 : XxHash) (s : Scheduler) (batch : List SeqId) (t w : Scheduler) : Prop where
  scheduled : Scheduler.schedule s = .ok batch t
  sampled : ∃ tokenIds logitsIndices, LogitsOf t batch logitsIndices ∧
    Scheduler.postprocess xxh64 batch tokenIds logitsIndices t = .ok () w

/-- The states of the scheduler between steps; `ids` are the requests that were ever added. -/
inductive Reachable (xxh64 : XxHash) (config : Config) : Scheduler → Finset SeqId → Prop
  | init {s : Scheduler} (made : Scheduler.init config = .ok s) : Reachable xxh64 config s ∅
  | add {s s' : Scheduler} {ids : Finset SeqId} {i : SeqId} {tokenIds : List Token} {params : SamplingParams}
      {seq : Sequence} (past : Reachable xxh64 config s ids) (absent : i ∉ ids)
      (made : Sequence.init xxh64 i tokenIds params config.kvcacheBlockSize = .ok seq)
      (run : Scheduler.add seq s = .ok () s') : Reachable xxh64 config s' (insert i ids)
  | step {s t w : Scheduler} {ids : Finset SeqId} {batch : List SeqId} (past : Reachable xxh64 config s ids)
      (step : Step xxh64 s batch t w) : Reachable xxh64 config w ids

inductive Served (xxh64 : XxHash) (config : Config) : Cache → Scheduler → Finset SeqId → Prop
  | init {s : Scheduler} (cache : Cache) (made : Scheduler.init config = .ok s) : Served xxh64 config cache s ∅
  | add {cache : Cache} {s s' : Scheduler} {ids : Finset SeqId} {i : SeqId} {tokenIds : List Token}
      {params : SamplingParams} {seq : Sequence} (past : Served xxh64 config cache s ids) (absent : i ∉ ids)
      (made : Sequence.init xxh64 i tokenIds params config.kvcacheBlockSize = .ok seq)
      (run : Scheduler.add seq s = .ok () s') : Served xxh64 config cache s' (insert i ids)
  | step {cache : Cache} {s t w : Scheduler} {ids : Finset SeqId} {batch : List SeqId}
      {input : ModelRunner.ModelInput} (past : Served xxh64 config cache s ids) (step : Step xxh64 s batch t w)
      (prepared : ModelRunner.prepareModelInput config.kvcacheBlockSize (batch.map t.seqs)
        t.numScheduledPrefillSeqs = .ok input) :
      Served xxh64 config (execute cache input (batch.map t.seqs)) w ids

/-- What `schedule` leaves for the forward pass, and what the forward pass leaves in the KV cache. -/
structure Scheduled (cache : Cache) (s t : Scheduler) (ids : Finset SeqId) (batch prefill : List SeqId)
    (input : ModelRunner.ModelInput) : Prop where
  order : batch = prefill ++ t.running
  shape : Batch cache t ids prefill
  config : t.config = s.config
  chunkedReq : t.chunkedReq = s.chunkedReq
  request : ∀ i, (t.seqs i).request = (s.seqs i).request
  ended : ∀ i, (t.seqs i).status = .finished ↔ (s.seqs i).status = .finished
  chunk : ∀ i, s.chunkedReq = some i → (t.seqs i).numCachedTokens = (s.seqs i).numCachedTokens
  prepared : ModelRunner.prepareModelInput s.config.kvcacheBlockSize (batch.map t.seqs)
    t.numScheduledPrefillSeqs = .ok input
  logits : ∃ logitsIndices, input.seqNeedComputeLogits = some logitsIndices ∧ LogitsOf t batch logitsIndices
  resident : Resident (execute cache input (batch.map t.seqs)) t.pool ids

section Run

open Scheduler

variable {cache : Cache} {xxh64 : XxHash} {config : Config} {s s' t w : Scheduler} {ids : Finset SeqId}
  {batch : List SeqId} {i : SeqId}

theorem Inv.init (made : Scheduler.init config = .ok s) (cache : Cache) : Inv cache s ∅ ∧ s.config = config := by
  obtain ⟨manager, created, made⟩ := except_bind_ok made
  have held := Held.init created (fun _ => default)
  obtain ⟨_, -, value⟩ := except_bind_ok created
  rw [except_pure_ok] at made value
  subst made
  subst value
  refine ⟨?_, rfl⟩
  constructor
  case pool =>
    refine ⟨_, held, fun b _ published => ?_, by simp⟩
    simp [Block.published, Block.init] at published
  case size => rfl
  case count => rfl
  all_goals simp

theorem add_run {seq : Sequence} (run : Scheduler.add seq s = .ok () s') :
    seq.numTokens < s.config.maxModelLen ∧
      s' = { s.setSeq seq.seqId seq with waiting := s.waiting ++ [seq.seqId] } := by
  obtain ⟨short, run⟩ := run_require_ok run
  cases run
  exact ⟨by omega, rfl⟩

theorem Inv.add (h : Inv cache s ids) (absent : i ∉ ids) {tokenIds : List Token} {params : SamplingParams}
    {seq : Sequence} (made : Sequence.init xxh64 i tokenIds params s.config.kvcacheBlockSize = .ok seq)
    (run : Scheduler.add seq s = .ok () s') : Inv cache s' (insert i ids) ∧ s'.config = s.config := by
  obtain ⟨wf, fresh, name, tokens, most, -⟩ := Sequence.init_ok made
  obtain ⟨short, value⟩ := add_run run
  subst name
  subst value
  have apart {j : SeqId} (member : j ∈ ids) : j ≠ seq.seqId := fun same => absent (same ▸ member)
  have elsewhere {j : SeqId} (other : j ≠ seq.seqId) : (s.setSeq seq.seqId seq).seqs j = s.seqs j :=
    s.setSeq_seqs_of_ne seq other
  have self : (s.setSeq seq.seqId seq).seqs seq.seqId = seq := s.setSeq_seqs_self seq.seqId seq
  have waits : seq.seqId ∉ s.waiting ++ s.chunkedReq.toList ++ s.running :=
    fun seat => absent ((h.seated _).mp seat).1
  have outside (seats : List SeqId) (sub : seats ⊆ s.waiting ++ s.chunkedReq.toList ++ s.running) {j : SeqId}
      (listed : j ∈ seats) : j ≠ seq.seqId := fun same => waits (same ▸ sub listed)
  have moved : (s.waiting ++ [seq.seqId] ++ s.chunkedReq.toList ++ s.running).Perm
      (seq.seqId :: (s.waiting ++ s.chunkedReq.toList ++ s.running)) := by
    rw [List.append_assoc, List.append_assoc, List.singleton_append, List.append_assoc]
    exact List.perm_middle
  refine ⟨?_, rfl⟩
  constructor
  all_goals try dsimp only
  case pool =>
    obtain ⟨chain, held, settled⟩ := h.pool
    exact ⟨chain, held.enter absent (by rw [pool_manager, h.size]; exact wf) fresh.table,
      settled.enter absent fresh.table⟩
  case covered =>
    intro j member
    rcases Finset.mem_insert.mp member with rfl | old
    · rw [self]
      obtain ⟨chain, held, -⟩ := h.pool
      refine Covered.idle held.size_pos fresh.table ?_
      rw [Sequence.numContextTokens, fresh.cached, fresh.new]
    · rw [elsewhere (apart old)]
      exact h.covered j old
  case size => exact h.size
  case count => exact h.count
  case seats => exact moved.nodup_iff.mpr (List.nodup_cons.mpr ⟨waits, h.seats⟩)
  case seated =>
    intro j
    refine moved.mem_iff.trans ?_
    rw [List.mem_cons, Finset.mem_insert]
    by_cases same : j = seq.seqId
    · subst same
      rw [self, fresh.status]
      simp
    · rw [elsewhere same, h.seated j]
      simp [same]
  case waiting =>
    intro j listed
    rcases List.mem_append.mp listed with old | new
    · rw [elsewhere (outside s.waiting (by simp) old)]
      exact h.waiting j old
    · rw [List.mem_singleton.mp new, self]
      exact ⟨fresh.status, fresh.cached, fresh.new, fresh.table⟩
  case chunk =>
    intro j chunk
    rw [elsewhere (outside s.chunkedReq.toList (by simp) (Option.mem_toList.mpr chunk))]
    exact h.chunk j chunk
  case running =>
    intro j listed
    rw [elsewhere (outside s.running (by simp) listed)]
    exact h.running j listed
  case ended =>
    intro j member ended
    rcases Finset.mem_insert.mp member with rfl | old
    · rw [self, fresh.status] at ended
      cases ended
    · rw [elsewhere (apart old)] at ended ⊢
      exact h.ended j old ended
  case limits =>
    intro j member live
    rcases Finset.mem_insert.mp member with rfl | old
    · rw [self]
      refine ⟨short, ?_⟩
      rw [Sequence.numCompletionTokens, fresh.prompt, most, Nat.sub_self]
      exact params.maxTokens_pos
    · rw [elsewhere (apart old)] at live ⊢
      exact h.limits j old live
  case named =>
    intro j member
    rcases Finset.mem_insert.mp member with rfl | old
    · rw [self]
    · rw [elsewhere (apart old)]
      exact h.named j old
  case whole => exact h.whole

theorem Scheduler.Phases.finished_iff {s₁ s₂ : Scheduler} {tail : List SeqId} {plan : ChunkPlan}
    {ranked : List SeqId} {found : Dict SeqId (List BlockId)} {entries : List Entry}
    (phases : Phases cache s s₁ s₂ ids tail plan ranked found entries) (inv : Inv cache s ids) (i : SeqId) :
    (s₁.seqs i).status = .finished ↔ (s.seqs i).status = .finished := by
  by_cases preempted : i ∈ tail
  · have before : i ∈ s.running := by
      rw [show s.running = s₁.running ++ tail from phases.preempted.running]
      exact List.mem_append_right _ preempted
    have after : i ∈ s₁.waiting := by
      rw [phases.preempted.waiting]
      exact List.mem_append_left _ preempted
    rw [(phases.inv.waiting i after).status, (inv.running i before).status]
    simp
  · rw [show s₁.seqs i = s.seqs i from phases.preempted.others i preempted]

theorem Scheduler.Phases.chunk_cached {s₁ s₂ s₃ : Scheduler} {tail : List SeqId} {plan : ChunkPlan}
    {ranked : List SeqId} {found : Dict SeqId (List BlockId)} {entries : List Entry}
    (phases : Phases cache s s₁ s₂ ids tail plan ranked found entries) (inv : Inv cache s ids)
    (decoded : Decoded cache s₁ s₂ s₃ ids plan.resumes entries s₁.running) (chunk : s.chunkedReq = some i) :
    (s₃.seqs i).numCachedTokens = (s.seqs i).numCachedTokens := by
  have stage := decoded.stage
  have chunk' : s₁.chunkedReq = some i := phases.preempted.chunkedReq.trans chunk
  have kept : s₁.seqs i = s.seqs i := by
    refine phases.preempted.others i (fun preempted => ?_)
    have before : i ∈ s.running := by
      rw [show s.running = s₁.running ++ tail from phases.preempted.running]
      exact List.mem_append_right _ preempted
    exact List.disjoint_of_nodup_append inv.seats (List.mem_append_right _ (Option.mem_toList.mpr chunk)) before
  have outside : i ∉ entries.map Entry.seqId := fun listed =>
    Stage.seat_apart phases.inv (Or.inl chunk') (stage.waiting.mem_iff.mp (List.mem_append_left _ listed))
  rw [← kept]
  by_cases appended : i ∈ (plan.resumes ++ decodes s₁.running).map Prod.fst
  · obtain ⟨a, listed, self⟩ := List.mem_map.mp appended
    subst self
    obtain ⟨-, -, table, same⟩ := stage.appends a listed
    rw [same]
  · rw [stage.rest i (by simp) appended outside]

theorem Inv.scheduled (h : Inv cache s ids) (run : Scheduler.schedule s = .ok batch t) :
    ∃ prefill input, Scheduled cache s t ids batch prefill input := by
  obtain ⟨s₁, s₂, tail, plan, ranked, found, entries, phases, outcome⟩ := h.schedule
  rw [run] at outcome
  cases outcome with
  | batch s₃ decoding decoded some' =>
      have stage := decoded.stage
      have shape := phases.batch decoded some'
      have running : (s₃.counted (prefillSeqs plan entries)).running = s₁.running := stage.running
      have config : (s₃.counted (prefillSeqs plan entries)).config = s.config :=
        stage.config.trans phases.preempted.config
      obtain ⟨input, logitsIndices, prepared, slots, rows, logits⟩ := shape.prepare
      rw [← running]
      refine ⟨_, input, rfl, shape, config, stage.chunkedReq.trans phases.preempted.chunkedReq,
        fun i => (stage.request i).trans (phases.preempted.request i),
        fun i => (stage.finished_iff phases.inv).trans (phases.finished_iff h i),
        fun i chunk => show (s₃.seqs i).numCachedTokens = _ from phases.chunk_cached h decoded chunk, ?_,
    ⟨logitsIndices, rows, logits⟩, ?_⟩
      · rw [← config, ← shape.size]
        exact prepared
      · obtain ⟨chain, kept⟩ := shape.kept
        refine ⟨⟨chain, kept.held, ?_⟩, kept.covered⟩
        refine kept.settle (fun i listed => (shape.member listed).1) (fun i member new => ?_) (shape.written slots)
        by_contra outside
        exact absurd (shape.rest i member outside) new.ne'

theorem Scheduled.postprocess {input : ModelRunner.ModelInput} {prefill : List SeqId} {tokenIds : List Token}
    {logitsIndices : List Nat} (h : Scheduled cache s t ids batch prefill input)
    (logits : LogitsOf t batch logitsIndices)
    (run : Scheduler.postprocess xxh64 batch tokenIds logitsIndices t = .ok () w) :
    Advanced xxh64 t w prefill (samplesOf batch logitsIndices tokenIds) ∧
      Inv (execute cache input (batch.map t.seqs)) w ids ∧ w.config = s.config := by
  have shape := h.shape
  have whole := h.order
  subst whole
  obtain ⟨count, -⟩ := run_require_ok run
  obtain ⟨w', run', advanced, resident, size, blocks⟩ :=
    @Batch.postprocess _ xxh64 _ _ _ shape _ h.resident _ _ logits count
  rw [run] at run'
  cases run'
  exact ⟨advanced, advanced.inv shape resident size blocks, advanced.config.trans h.config⟩

theorem Inv.step (h : Inv cache s ids) (step : Step xxh64 s batch t w) :
    ∃ prefill input samples, Scheduled cache s t ids batch prefill input ∧ Advanced xxh64 t w prefill samples ∧
      Inv (execute cache input (batch.map t.seqs)) w ids ∧ w.config = s.config := by
  obtain ⟨prefill, input, scheduled⟩ := h.scheduled step.scheduled
  obtain ⟨tokenIds, logitsIndices, logits, run⟩ := step.sampled
  exact ⟨prefill, input, _, scheduled, scheduled.postprocess logits run⟩

theorem Served.inv (run : Served xxh64 config cache s ids) : Inv cache s ids ∧ s.config = config := by
  induction run with
  | init cache made => exact Inv.init made cache
  | add past absent made run ih =>
      obtain ⟨inv, same⟩ := ih
      subst same
      exact inv.add absent made run
  | step past step prepared ih =>
      obtain ⟨inv, same⟩ := ih
      subst same
      obtain ⟨prefill, input, samples, scheduled, -, inv', config⟩ := inv.step step
      rw [scheduled.prepared] at prepared
      cases prepared
      exact ⟨inv', config⟩

theorem Reachable.served (run : Reachable xxh64 config s ids) : ∃ cache, Served xxh64 config cache s ids := by
  induction run with
  | init made => exact ⟨fun _ => [], .init _ made⟩
  | add past absent made run ih =>
      obtain ⟨cache, served⟩ := ih
      exact ⟨cache, served.add absent made run⟩
  | step past step ih =>
      obtain ⟨cache, served⟩ := ih
      obtain ⟨inv, same⟩ := served.inv
      subst same
      obtain ⟨prefill, input, scheduled⟩ := inv.scheduled step.scheduled
      exact ⟨_, served.step step scheduled.prepared⟩

theorem Served.reachable (run : Served xxh64 config cache s ids) : Reachable xxh64 config s ids := by
  induction run with
  | init cache made => exact .init made
  | add past absent made run ih => exact ih.add absent made run
  | step past step prepared ih => exact ih.step step

theorem Reachable.inv (run : Reachable xxh64 config s ids) : ∃ cache, Inv cache s ids ∧ s.config = config := by
  obtain ⟨cache, served⟩ := run.served
  exact ⟨cache, served.inv⟩

end Run

-- A digest without collisions on short pages of small tokens.
def pageHash : XxHash := fun tokenIds parentHash =>
  UInt64.ofNat (tokenIds.foldl (fun digest token => 131 * digest + token.toNat + 1) (parentHash + 1).toNat)

inductive Event where
  | add (i : SeqId) (tokenIds : List Token) (params : SamplingParams)
  | step (tokenIds : List Token)

namespace Event

-- The rows of the batch to sample, as `prepare_model_input` finds them.
def rows (s : Scheduler) (batch : List SeqId) : List Nat :=
  (batch.zipIdx.filter (fun e => decide (s.seqs e.1).Complete)).map Prod.snd

def run (xxh64 : XxHash) : Event → Sched Unit
  | add i tokenIds params => do
      let s ← get
      let seq ← ofExcept (Sequence.init xxh64 i tokenIds params s.config.kvcacheBlockSize)
      Scheduler.add seq
  | step tokenIds => do
      let batch ← Scheduler.schedule
      let s ← get
      Scheduler.postprocess xxh64 batch tokenIds (rows s batch)

def added : Event → List SeqId
  | add i _ _ => [i]
  | step _ => []

theorem logits_rows (s : Scheduler) (batch : List SeqId) : LogitsOf s batch (rows s batch) where
  once := by
    refine List.Nodup.sublist (List.Sublist.map Prod.snd List.filter_sublist) ?_
    rw [List.zipIdx_map_snd]
    exact List.nodup_range' ..
  exact' k := by
    simp [rows, List.mem_zipIdx_iff_getElem?]

theorem step_run {xxh64 : XxHash} {s w : Scheduler} {tokenIds : List Token}
    (run : (Event.step tokenIds).run xxh64 s = .ok () w) : ∃ batch t, Step xxh64 s batch t w := by
  obtain ⟨batch, t, scheduled, run⟩ := run_bind_ok run
  exact ⟨batch, t, scheduled, tokenIds, _, Event.logits_rows t batch, run⟩

end Event

namespace Reachable

variable {xxh64 : XxHash} {config : Config} {s w : Scheduler} {ids : Finset SeqId}

theorem event (past : Reachable xxh64 config s ids) (e : Event) (fresh : ∀ i ∈ e.added, i ∉ ids)
    (run : e.run xxh64 s = .ok () w) : Reachable xxh64 config w (ids ∪ e.added.toFinset) := by
  cases e with
  | add i tokenIds params =>
      obtain ⟨cache, -, same⟩ := past.inv
      obtain ⟨seq, made, run⟩ := run_ofExcept_ok run
      rw [Event.added, List.toFinset_cons, List.toFinset_nil, Finset.union_comm]
      exact past.add (fresh i (List.mem_singleton_self i)) (same ▸ made) run
  | step tokenIds =>
      obtain ⟨batch, t, step⟩ := Event.step_run run
      rw [Event.added, List.toFinset_nil, Finset.union_empty]
      exact past.step step

theorem events (past : Reachable xxh64 config s ids) (all : List Event) (once : (all.flatMap Event.added).Nodup)
    (fresh : ∀ i ∈ all.flatMap Event.added, i ∉ ids) (run : forEach (Event.run xxh64) all s = .ok () w) :
    Reachable xxh64 config w (ids ∪ (all.flatMap Event.added).toFinset) := by
  induction all generalizing s ids with
  | nil =>
      cases run
      simpa using past
  | cons e rest ih =>
      obtain ⟨_, s', first, run⟩ := run_bind_ok run
      rw [List.flatMap_cons] at once fresh ⊢
      have next := past.event e (fun i added => fresh i (List.mem_append_left _ added)) first
      have rest' := ih next (List.nodup_append.mp once).2.1 (fun i later => ?_) run
      · rwa [List.toFinset_append, ← Finset.union_assoc]
      · rw [Finset.mem_union, not_or, List.mem_toFinset]
        exact ⟨fresh i (List.mem_append_right _ later), fun added => List.disjoint_of_nodup_append once added later⟩

theorem play (xxh64 : XxHash) (made : Scheduler.init config = .ok s) (all : List Event)
    (once : (all.flatMap Event.added).Nodup) (run : forEach (Event.run xxh64) all s = .ok () w) :
    Reachable xxh64 config w (all.flatMap Event.added).toFinset := by
  have past := (@Reachable.init xxh64 config s made).events all once (by simp) run
  rwa [Finset.empty_union] at past

end Reachable

end NanoVllm
