import NanoVllm.Steps.Outcome

set_option autoImplicit false

namespace NanoVllm

open Python Raising

-- All tokens of the sequence are computed by the batch.
def Sequence.Complete (seq : Sequence) : Prop := seq.numContextTokens = seq.numTokens

instance (seq : Sequence) : Decidable seq.Complete := inferInstanceAs (Decidable (_ = _))

namespace Scheduler

-- The requests that are neither waiting nor running: the prefills, or a paused chunk.
def seat (s : Scheduler) (prefill : List SeqId) : List SeqId :=
  if prefill = [] then s.chunkedReq.toList else prefill

end Scheduler

/-- The scheduler between `schedule` and `postprocess`, when `prefill ++ s.running` is the batch. -/
structure Batch (cache : Cache) (s : Scheduler) (ids : Finset SeqId) (prefill : List SeqId) : Prop where
  kept : ∃ chain, Kept cache s.pool ids chain
  size : s.blockManager.blockSize = s.config.kvcacheBlockSize
  count : s.blockManager.numBlocks = s.config.numKvcacheBlocks
  counted : s.numScheduledPrefillSeqs = prefill.length
  some' : prefill ++ s.running ≠ []
  seats : (s.waiting ++ s.seat prefill ++ s.running).Nodup
  seated : ∀ i, i ∈ s.waiting ++ s.seat prefill ++ s.running ↔ i ∈ ids ∧ (s.seqs i).status ≠ .finished
  waiting : ∀ i ∈ s.waiting, Idle (s.seqs i)
  scheduled : ∀ i ∈ prefill ++ s.running, (s.seqs i).status = .running ∧ 0 < (s.seqs i).numNewTokens
  rest : ∀ i ∈ ids, i ∉ prefill ++ s.running → (s.seqs i).numNewTokens = 0
  paused : prefill = [] → ∀ i, s.chunkedReq = some i → Chunk (s.seqs i)
  chunk : prefill ≠ [] → ∀ i, s.chunkedReq = some i → i ∈ prefill
  complete : ∀ i ∈ prefill.dropLast, (s.seqs i).Complete
  running : ∀ i ∈ s.running, (s.seqs i).Complete ∧ (s.seqs i).numNewTokens = 1 ∧
    (s.seqs i).numPromptTokens ≤ (s.seqs i).numCachedTokens
  ended : ∀ i ∈ ids, (s.seqs i).status = .finished → Ended (s.seqs i)
  limits : ∀ i ∈ ids, (s.seqs i).status ≠ .finished → Limits s.config (s.seqs i)
  named : ∀ i ∈ ids, (s.seqs i).seqId = i
  whole : s.config.chunkedPrefill = false → s.chunkedReq = none ∧ ∀ i ∈ prefill, (s.seqs i).Complete

theorem Sequence.request_eq {seq seq' : Sequence} (same : seq'.request = seq.request) :
    seq'.seqId = seq.seqId ∧ seq'.numTokens = seq.numTokens ∧ seq'.numPromptTokens = seq.numPromptTokens ∧
      seq'.maxTokens = seq.maxTokens ∧ seq'.tokenIds = seq.tokenIds ∧ seq'.ignoreEos = seq.ignoreEos := by
  simp only [Sequence.request, Sequence.mk.injEq] at same
  simp only [same, and_self]

theorem Limits.congr {config config' : Config} {seq seq' : Sequence} (h : Limits config seq)
    (same : seq'.request = seq.request) (config_eq : config' = config) : Limits config' seq' := by
  obtain ⟨-, tokens, prompt, most, -⟩ := Sequence.request_eq same
  subst config_eq
  constructor
  · rw [tokens]
    exact h.length
  · rw [Sequence.numCompletionTokens, tokens, prompt, most]
    exact h.completion

namespace Stage

variable {cache : Cache} {origin s : Scheduler} {ids : Finset SeqId} {appended : List (SeqId × Nat)}
  {entries : List Entry} {i : SeqId}

theorem finished_iff (h : Stage cache origin s ids [] appended entries) (inv : Inv cache origin ids) :
    (s.seqs i).status = .finished ↔ (origin.seqs i).status = .finished := by
  by_cases admitted : i ∈ entries.map Entry.seqId
  · obtain ⟨e, listed, self⟩ := List.mem_map.mp admitted
    subst self
    obtain ⟨-, table, same⟩ := h.admits e listed
    have waits : e.seqId ∈ origin.waiting := h.waiting.mem_iff.mp (List.mem_append_left _ admitted)
    rw [same, (inv.waiting _ waits).status]
    simp
  · by_cases isAppended : i ∈ appended.map Prod.fst
    · obtain ⟨a, listed, self⟩ := List.mem_map.mp isAppended
      subst self
      obtain ⟨-, -, table, same⟩ := h.appends a listed
      rw [same]
    · rw [h.rest i (by simp) isAppended admitted]

end Stage

section Batch

open Scheduler

variable {cache : Cache} {s s₁ s₂ s₃ : Scheduler} {ids : Finset SeqId} {tail : List SeqId} {plan : ChunkPlan}
  {ranked : List SeqId} {found : Dict SeqId (List BlockId)} {entries : List Entry} {i : SeqId}

theorem Scheduler.Phases.chunk_eq (phases : Phases cache s s₁ s₂ ids tail plan ranked found entries)
    (some' : prefillSeqs plan entries ≠ []) : plan.resumes.map Prod.fst = s₁.chunkedReq.toList := by
  have order := phases.prefilled.order
  have ranks := phases.ranks
  unfold prefillSeqs at some'
  cases phases.decision with
  | absent chunk => simp [ChunkPlan.resumes, chunk]
  | paused chunk stuck =>
      rw [ranks.closed rfl, List.prefix_nil] at order
      simp [ChunkPlan.resumes, order] at some'
  | resumed chunk positive tokens fits => simp [ChunkPlan.resumes, chunk]

theorem Scheduler.Phases.chunk_complete (phases : Phases cache s s₁ s₂ ids tail plan ranked found entries)
    (decoded : Decoded cache s₁ s₂ s₃ ids plan.resumes entries s₁.running) (some' : entries ≠ [])
    (chunk : s₁.chunkedReq = some i) : i ∈ plan.resumes.map Prod.fst ∧ (s₃.seqs i).Complete := by
  have order := phases.prefilled.order
  have ranks := phases.ranks
  have appends := decoded.stage.appends
  have admits : entries.map Entry.seqId ≠ [] := fun none => some' (List.map_eq_nil_iff.mp none)
  cases phases.decision with
  | absent none =>
      rw [chunk] at none
      cases none
  | paused chunk' stuck =>
      rw [ranks.closed rfl, List.prefix_nil] at order
      exact absurd order admits
  | @resumed c n chunk' positive tokens fits =>
      cases chunk'.symm.trans chunk
      have all : ¬n < (s₁.seqs i).numTokens - (s₁.seqs i).numCachedTokens := by
        intro part
        rw [ranks.closed (by simp [part]), List.prefix_nil] at order
        exact admits order
      have within := (phases.inv.covered i (phases.inv.chunk_mem chunk).1).within
      rw [Sequence.numContextTokens] at within
      obtain ⟨-, -, table, same⟩ := appends (i, n) (by simp [ChunkPlan.resumes])
      refine ⟨by simp [ChunkPlan.resumes], ?_⟩
      rw [Sequence.Complete, same]
      change (s₁.seqs i).numCachedTokens + n = (s₁.seqs i).numTokens
      omega

theorem Scheduler.Phases.complete (phases : Phases cache s s₁ s₂ ids tail plan ranked found entries)
    (decoded : Decoded cache s₁ s₂ s₃ ids plan.resumes entries s₁.running) :
    ∀ i ∈ (prefillSeqs plan entries).dropLast, (s₃.seqs i).Complete := by
  have stage := decoded.stage
  have complete (e : Entry) (listed : e ∈ entries) (whole : e.Whole s₁) : (s₃.seqs e.seqId).Complete := by
    obtain ⟨-, table, same⟩ := stage.admits e listed
    rw [Sequence.Complete, same]
    exact whole
  have later : ∀ i ∈ (entries.map Entry.seqId).dropLast, (s₃.seqs i).Complete := by
    intro i listed
    rw [← List.map_dropLast] at listed
    obtain ⟨e, front, self⟩ := List.mem_map.mp listed
    subst self
    exact complete e (List.dropLast_subset _ front) (phases.prefilled.fits.full e front)
  intro i listed
  unfold prefillSeqs at listed
  by_cases none : plan.resumes = []
  · rw [none] at listed
    exact later i listed
  · have chunk : plan.resumes.map Prod.fst = s₁.chunkedReq.toList := phases.chunk_eq (by simp [prefillSeqs, none])
    cases entries with
    | nil =>
        rw [chunk, List.map_nil, List.append_nil] at listed
        cases seat : s₁.chunkedReq <;> simp [seat] at listed
    | cons e rest =>
        rw [List.map_cons, List.dropLast_append_of_ne_nil (List.cons_ne_nil _ _)] at listed
        rcases List.mem_append.mp listed with first | after
        · rw [chunk, Option.mem_toList] at first
          exact (phases.chunk_complete decoded (List.cons_ne_nil e rest) first).2
        · exact later i after

section

variable (phases : Phases cache s s₁ s₂ ids tail plan ranked found entries)
  (decoded : Decoded cache s₁ s₂ s₃ ids plan.resumes entries s₁.running)

include phases decoded

omit phases in
theorem Scheduler.Phases.runs (runs : i ∈ s₁.running) : (s₁.seqs i).Appended (s₃.seqs i) 1 :=
  (decoded.stage.appends (i, 1) (by simp [decodes, runs])).2.2

theorem Scheduler.Phases.resumed (listed : i ∈ plan.resumes.map Prod.fst) : s₁.chunkedReq = some i ∧
    ∃ n, 0 < n ∧ (s₁.seqs i).Appended (s₃.seqs i) n := by
  obtain ⟨a, entry, self⟩ := List.mem_map.mp listed
  subst self
  have chunk : a.1 ∈ s₁.chunkedReq.toList := by
    rw [← phases.chunk_eq (by simp [prefillSeqs, List.ne_nil_of_mem entry])]
    exact listed
  obtain ⟨-, positive, appended⟩ := decoded.stage.appends a (List.mem_append_left _ entry)
  exact ⟨Option.mem_toList.mp chunk, a.2, positive, appended⟩

omit phases in
theorem Scheduler.Phases.unscheduled (outside : i ∉ prefillSeqs plan entries ++ s₁.running) :
    s₃.seqs i = s₁.seqs i := by
  simp only [prefillSeqs, List.mem_append, not_or] at outside
  refine decoded.stage.rest i (by simp) ?_ outside.1.2
  simp only [List.map_append, List.mem_append, not_or]
  exact ⟨outside.1.1, by simpa [decodes] using outside.2⟩

theorem Scheduler.Phases.scheduled (listed : i ∈ prefillSeqs plan entries ++ s₁.running) :
    (s₃.seqs i).status = .running ∧ 0 < (s₃.seqs i).numNewTokens := by
  have inv := phases.inv
  rw [prefillSeqs, List.mem_append, List.mem_append] at listed
  rcases listed with (resumed | admitted) | runs
  · obtain ⟨chunk, n, positive, table, same⟩ := phases.resumed decoded resumed
    rw [same]
    exact ⟨(inv.chunk i chunk).status, positive⟩
  · obtain ⟨e, entry, self⟩ := List.mem_map.mp admitted
    subst self
    obtain ⟨positive, table, same⟩ := decoded.stage.admits e entry
    rw [same]
    exact ⟨rfl, positive⟩
  · obtain ⟨table, same⟩ := Phases.runs decoded runs
    rw [same]
    exact ⟨(inv.running i runs).status, Nat.one_pos⟩

theorem Scheduler.Phases.queue : (s₃.waiting ++ s₃.seat (prefillSeqs plan entries) ++ s₃.running).Perm
    (s₁.waiting ++ s₁.chunkedReq.toList ++ s₁.running) := by
  have stage := decoded.stage
  have waits := stage.waiting
  have running : s₃.running = s₁.running := stage.running
  rw [running]
  refine List.Perm.append_right _ ?_
  unfold seat
  split
  next none =>
    obtain ⟨-, admitted⟩ := List.append_eq_nil_iff.mp none
    rw [admitted, List.nil_append] at waits
    rw [stage.chunkedReq]
    exact waits.append_right _
  next prefills =>
    rw [prefillSeqs, phases.chunk_eq prefills]
    have moved : (s₃.waiting ++ (s₁.chunkedReq.toList ++ entries.map Entry.seqId)).Perm
        (entries.map Entry.seqId ++ s₃.waiting ++ s₁.chunkedReq.toList) := by
      rw [List.append_assoc, ← List.append_assoc]
      exact List.perm_append_comm
    exact moved.trans (waits.append_right _)

end

theorem Scheduler.Phases.batch (phases : Phases cache s s₁ s₂ ids tail plan ranked found entries)
    (decoded : Decoded cache s₁ s₂ s₃ ids plan.resumes entries s₁.running)
    (some' : prefillSeqs plan entries ++ s₁.running ≠ []) :
    Batch cache (s₃.counted (prefillSeqs plan entries)) ids (prefillSeqs plan entries) := by
  have inv := phases.inv
  have stage := decoded.stage
  have running : s₃.running = s₁.running := stage.running
  have chunkedReq : s₃.chunkedReq = s₁.chunkedReq := stage.chunkedReq
  constructor
  case kept => exact stage.kept
  case size => exact (stage.size.trans inv.size).trans (by rw [← stage.config]; rfl)
  case count => exact (stage.count.trans inv.count).trans (by rw [← stage.config]; rfl)
  case counted => rfl
  case some' => rwa [show (s₃.counted (prefillSeqs plan entries)).running = s₁.running from running]
  case seats => exact (phases.queue decoded).nodup_iff.mpr inv.seats
  case seated =>
    intro i
    refine (phases.queue decoded).mem_iff.trans ((inv.seated i).trans ?_)
    rw [ne_eq, ne_eq, ← stage.finished_iff inv]
    rfl
  case waiting =>
    intro i waits
    have old : i ∈ s₁.waiting := stage.order.subset waits
    obtain ⟨same, idle, -⟩ := stage.idle inv waits (by simp)
    exact idle
  case scheduled =>
    intro i listed
    change (s₃.seqs i).status = .running ∧ 0 < (s₃.seqs i).numNewTokens
    exact phases.scheduled decoded (by rw [← running]; exact listed)
  case rest =>
    intro i member outside
    change (s₃.seqs i).numNewTokens = 0
    rw [Phases.unscheduled decoded (by rw [← running]; exact outside)]
    exact inv.idle member
  case paused =>
    intro none i chunk
    change Chunk (s₃.seqs i)
    have chunk' : s₁.chunkedReq = some i := chunkedReq ▸ chunk
    have apart : i ∉ s₁.running := by
      have seats := inv.seats
      rw [List.nodup_append] at seats
      exact fun runs => seats.2.2 i (List.mem_append_right _ (Option.mem_toList.mpr chunk')) i runs rfl
    rw [Phases.unscheduled decoded (by simp [none, apart])]
    exact inv.chunk i chunk'
  case chunk =>
    intro prefills i chunk
    have chunk' : s₁.chunkedReq = some i := chunkedReq ▸ chunk
    refine List.mem_append_left _ ?_
    rw [phases.chunk_eq prefills]
    exact Option.mem_toList.mpr chunk'
  case complete => exact fun i listed => phases.complete decoded i listed
  case running =>
    intro i runs
    have runs' : i ∈ s₁.running := running ▸ runs
    change (s₃.seqs i).Complete ∧ (s₃.seqs i).numNewTokens = 1 ∧ (s₃.seqs i).numPromptTokens ≤ (s₃.seqs i).numCachedTokens
    obtain ⟨table, same⟩ := Phases.runs decoded runs'
    have single := decoded.single i runs'
    have decoding := inv.running i runs'
    rw [Sequence.Complete, same]
    refine ⟨?_, rfl, decoding.prompt⟩
    have cached := decoding.cached
    rw [Sequence.uncomputed] at single
    change (s₁.seqs i).numCachedTokens + 1 = (s₁.seqs i).numTokens
    omega
  case ended =>
    intro i member ended
    change Ended (s₃.seqs i)
    have ended' : (s₁.seqs i).status = .finished := (stage.finished_iff inv).mp ended
    have outside : i ∉ prefillSeqs plan entries ++ s₁.running := by
      intro listed
      have live := (phases.scheduled decoded listed).1
      rw [stage.finished_iff inv |>.mpr ended'] at live
      cases live
    rw [Phases.unscheduled decoded outside]
    exact inv.ended i member ended'
  case limits =>
    intro i member unfinished
    have unfinished' : (s₁.seqs i).status ≠ .finished :=
      fun ended => unfinished ((stage.finished_iff inv).mpr ended)
    exact (inv.limits i member unfinished').congr (stage.request i) stage.config
  case named =>
    intro i member
    exact (Sequence.request_eq (stage.request i)).1.trans (inv.named i member)
  case whole =>
    intro plain
    have plain' : s₁.config.chunkedPrefill = false := stage.config ▸ plain
    have none := inv.whole plain'
    refine ⟨chunkedReq.trans none, fun i listed => ?_⟩
    rw [prefillSeqs, List.mem_append] at listed
    rcases listed with resumed | admitted
    · obtain ⟨chunk, -⟩ := phases.resumed decoded resumed
      rw [none] at chunk
      cases chunk
    · obtain ⟨e, entry, self⟩ := List.mem_map.mp admitted
      subst self
      obtain ⟨-, table, same⟩ := stage.admits e entry
      change (s₃.seqs e.seqId).Complete
      rw [Sequence.Complete, same]
      exact phases.prefilled.fits.whole plain' e entry

end Batch

end NanoVllm
