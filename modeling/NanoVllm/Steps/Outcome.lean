import NanoVllm.Steps.Schedule

set_option autoImplicit false

namespace NanoVllm

open Python Raising

-- The tokens of a sequence that are not computed yet.
def Sequence.uncomputed (seq : Sequence) : Nat := seq.numTokens - seq.numCachedTokens

def decodes (seqs : List SeqId) : List (SeqId × Nat) := seqs.map (fun i => (i, 1))

/-- What the decode loop did from the state `t` after the prefill phase. -/
structure Decoded (cache : Cache) (origin t s : Scheduler) (ids : Finset SeqId) (resumed : List (SeqId × Nat))
    (entries : List Entry) (done : List SeqId) : Prop where
  stage : Stage cache origin s ids [] (resumed ++ decodes done) entries
  traced : Traced t (Call.appends (decodes done)) s
  single : ∀ i ∈ done, (origin.seqs i).uncomputed = 1

namespace Stage

open Scheduler

variable {cache : Cache} {origin s : Scheduler} {ids : Finset SeqId} {entries : List Entry}
  {appended : List (SeqId × Nat)}

theorem decode (h : Stage cache origin s ids [] appended entries) (inv : Inv cache origin ids)
    {todo : List SeqId} (once : todo.Nodup) (runs : ∀ i ∈ todo, i ∈ origin.running)
    (fresh : ∀ i ∈ todo, i ∉ appended.map Prod.fst)
    (room : origin.reserve todo ≤ s.blockManager.freeBlockIds.length) :
    ∃ done s', Decoded cache origin s s' ids appended entries done ∧
      ((done = todo ∧ forEach appendDecode todo s = .ok () s') ∨
        ∃ i rest, todo = done ++ i :: rest ∧ (origin.seqs i).uncomputed ≠ 1 ∧
          forEach appendDecode todo s = .error uncomputedIsOne s') := by
  induction todo generalizing s appended with
  | nil => exact ⟨[], s, ⟨by simpa [decodes] using h, Traced.nil s, by simp⟩, Or.inl ⟨rfl, rfl⟩⟩
  | cons i rest ih =>
      rw [List.nodup_cons] at once
      have first : i ∈ i :: rest := List.mem_cons_self ..
      have outside := seat_apart inv (Or.inr (runs i first))
      have notAdmitted : i ∉ entries.map Entry.seqId :=
        fun listed => outside (h.waiting.mem_iff.mp (List.mem_append_left _ listed))
      have same : s.seqs i = origin.seqs i := h.rest i (by simp) (fresh i first) notAdmitted
      have cost : origin.reserve (i :: rest) =
          origin.blockManager.need (origin.seqs i) 1 + origin.reserve rest := by
        simp [reserve]
      by_cases single : (origin.seqs i).uncomputed = 1
      · obtain ⟨p, exact', stage, taken⟩ := h.append inv (inv.running_mem (runs i first)).1 outside
          (fresh i first) Nat.one_pos (by
            rw [Sequence.uncomputed] at single
            omega) (by omega)
        have turn : appendDecode i s = .ok () (s.withPool p) := by
          have called := exact'.1
          simp only [Call.run, run_modifySeq_bind] at called
          have one : (s.seqs i).numTokens - (s.seqs i).numCachedTokens = 1 := by rw [same]; exact single
          simp only [appendDecode, run_get_bind]
          rw [run_require_bind one, run_modifySeq_bind]
          exact called
        have fresh' : ∀ j ∈ rest, j ∉ (appended ++ [(i, 1)]).map Prod.fst := by
          intro j later listed
          rw [List.map_append, List.mem_append] at listed
          rcases listed with old | self
          · exact fresh j (List.mem_cons_of_mem i later) old
          · have self' : j = i := by simpa using self
            exact once.1 (self' ▸ later)
        obtain ⟨done, s', ⟨stage', traced, all⟩, ended⟩ := ih stage once.2
          (fun j later => runs j (List.mem_cons_of_mem i later)) fresh' (by
            rw [withPool_blockManager]
            omega)
        refine ⟨i :: done, s', ⟨by simpa [decodes] using stage', ?_, ?_⟩, ?_⟩
        · exact ((Traced.nil s).call _ exact').trans traced
        · intro j listed
          rcases List.mem_cons.mp listed with rfl | later
          · exact single
          · exact all j later
        · simp only [forEach]
          rw [bind_ok turn]
          rcases ended with ⟨whole, run⟩ | ⟨j, more, split, stuck, run⟩
          · exact Or.inl ⟨by rw [whole], run⟩
          · exact Or.inr ⟨j, more, by rw [split, List.cons_append], stuck, run⟩
      · refine ⟨[], s, ⟨by simpa [decodes] using h, Traced.nil s, by simp⟩, Or.inr ⟨i, rest, rfl, single, ?_⟩⟩
        have many : ¬(s.seqs i).numTokens - (s.seqs i).numCachedTokens = 1 := by rw [same]; exact single
        have turn : appendDecode i s = .error uncomputedIsOne s := by
          simp only [appendDecode, run_get_bind, require, if_neg many]
          rfl
        simp only [forEach]
        exact bind_error turn

end Stage

namespace Scheduler

-- The requests that hold a seat before a step admits more.
def active (s : Scheduler) : Nat := s.running.length + (if s.chunkedReq.isSome then 1 else 0)

def prefillSeqs (plan : ChunkPlan) (entries : List Entry) : List SeqId :=
  plan.resumes.map Prod.fst ++ entries.map Entry.seqId

def counted (s : Scheduler) (prefillSeqs : List SeqId) : Scheduler :=
  { s with
    numScheduledPrefillSeqs := prefillSeqs.length
    numScheduledPrefillTokens := (prefillSeqs.map (fun i => (s.seqs i).numNewTokens)).sum }

/-- The phases of a step before its decode appends: preemption leaves `s₁`, prefill leaves `s₂`. -/
structure Phases (cache : Cache) (s s₁ s₂ : Scheduler) (ids : Finset SeqId) (tail : List SeqId) (plan : ChunkPlan)
    (ranked : List SeqId) (found : Dict SeqId (List BlockId)) (entries : List Entry) : Prop where
  inv : Inv cache s₁ ids
  preempting : preemptDecodeTail s.resetCounters = .ok () s₁
  preempted : Preempted s.resetCounters s₁ tail
  pressed : Pressed cache ids s.resetCounters s₁ tail
  affordable : s₁.Affordable
  planning : s₁.planChunk (s₁.config.maxNumBatchedTokens - s₁.running.length)
    (s₁.blockManager.freeBlockIds.length - s₁.reserve s₁.running) = .ok plan
  decision : Decision s₁ (s₁.config.maxNumBatchedTokens - s₁.running.length)
    (s₁.blockManager.freeBlockIds.length - s₁.reserve s₁.running) plan
  ranking : s₁.rankedWaiting plan = .ok (ranked, found)
  ranks : Ranked s₁ plan ranked found
  prefilling : (if s₁.config.enableSameStepPrefixReuse then
      admitSameStep plan ranked found (s₁.reserve s₁.running) s₁.active
    else admitFrozen plan ranked found s₁.active) s₁ = .ok (prefillSeqs plan entries) s₂
  prefilled : Prefilled cache s₁ s₂ ids plan ranked (s₁.reserve s₁.running) s₁.active entries

inductive Outcome (cache : Cache) (s₁ s₂ : Scheduler) (ids : Finset SeqId) (plan : ChunkPlan) (ranked : List SeqId)
    (entries : List Entry) : EStateM.Result PyError Scheduler (List SeqId) → Prop
  | batch (s₃ : Scheduler) (decoding : forEach appendDecode s₁.running s₂ = .ok () s₃)
      (decoded : Decoded cache s₁ s₂ s₃ ids plan.resumes entries s₁.running)
      (some' : prefillSeqs plan entries ++ s₁.running ≠ []) :
      Outcome cache s₁ s₂ ids plan ranked entries
        (.ok (prefillSeqs plan entries ++ s₁.running) (s₃.counted (prefillSeqs plan entries)))
  | phase {done rest : List SeqId} {i : SeqId} (s₃ : Scheduler) (split : s₁.running = done ++ i :: rest)
      (decoding : forEach appendDecode s₁.running s₂ = .error uncomputedIsOne s₃)
      (decoded : Decoded cache s₁ s₂ s₃ ids plan.resumes entries done) (many : (s₁.seqs i).uncomputed ≠ 1) :
      Outcome cache s₁ s₂ ids plan ranked entries (.error uncomputedIsOne s₃)
  | stuck {e : PyError} (none : prefillSeqs plan entries = []) (idle : s₁.running = [])
      (kind : e = uncachedExceedsBudget ∨ e = cannotMakeProgress) :
      Outcome cache s₁ s₂ ids plan ranked entries (.error e s₁)

end Scheduler

section Schedule

open Scheduler

variable {cache : Cache} {s : Scheduler} {ids : Finset SeqId}

theorem Inv.prefill {s₁ : Scheduler} {plan : ChunkPlan} {ranked : List SeqId} {found : Dict SeqId (List BlockId)}
    (inv : Inv cache s₁ ids) {tokenBudget freeBudget reserved : Nat} (decision : Decision s₁ tokenBudget freeBudget plan)
    (ranks : Ranked s₁ plan ranked found)
    (free : s₁.blockManager.freeBlockIds.length = reserved + freeBudget) (active : Nat) :
    ∃ s₂ entries, (if s₁.config.enableSameStepPrefixReuse then
        Scheduler.admitSameStep plan ranked found reserved active
      else Scheduler.admitFrozen plan ranked found active) s₁ = .ok (prefillSeqs plan entries) s₂ ∧
      Prefilled cache s₁ s₂ ids plan ranked reserved active entries := by
  cases mode : s₁.config.enableSameStepPrefixReuse with
  | true => exact inv.admitSameStep decision ranks mode free active
  | false =>
      obtain ⟨s₂, entries, run, prefilled, -⟩ := inv.admitFrozen decision ranks mode free active
      exact ⟨s₂, entries, run, prefilled⟩

theorem Scheduler.Ranked.raiseNoProgress {s₁ : Scheduler} {plan : ChunkPlan} {ranked : List SeqId}
    {found : Dict SeqId (List BlockId)} (ranks : Ranked s₁ plan ranked found) :
    ∃ e, Scheduler.raiseNoProgress ranked found s₁ = .error e s₁ ∧
      (e = uncachedExceedsBudget ∨ e = cannotMakeProgress) := by
  cases ranked with
  | nil => exact ⟨cannotMakeProgress, rfl, Or.inr rfl⟩
  | cons i rest =>
      obtain ⟨blocks, known, matched⟩ := ranks.known i (List.mem_cons_self ..)
      have initial : prefixesOf found i = .ok blocks := by rw [prefixesOf, known]
      have value : (if s₁.config.enableSameStepPrefixReuse then s₁.blockManager.matchPrefix (s₁.seqs i)
          else prefixesOf found i) = .ok blocks := by
        split
        · exact matched
        · exact initial
      simp only [Scheduler.raiseNoProgress, run_get_bind]
      by_cases plain : ¬s₁.config.chunkedPrefill
      · rw [if_pos plain, run_ofExcept_bind value]
        split
        · exact ⟨uncachedExceedsBudget, rfl, Or.inl rfl⟩
        · exact ⟨cannotMakeProgress, rfl, Or.inr rfl⟩
      · rw [if_neg plain]
        exact ⟨cannotMakeProgress, rfl, Or.inr rfl⟩

theorem Scheduler.Phases.finish {s₁ s₂ : Scheduler} {tail : List SeqId} {plan : ChunkPlan} {ranked : List SeqId}
    {found : Dict SeqId (List BlockId)} {entries : List Entry}
    (phases : Phases cache s s₁ s₂ ids tail plan ranked found entries) {prefill : Sched (List SeqId)}
    (run : prefill s₁ = .ok (prefillSeqs plan entries) s₂) :
    Outcome cache s₁ s₂ ids plan ranked entries ((do
      let prefillSeqs ← prefill
      forEach appendDecode s₁.running
      let scheduled := prefillSeqs ++ s₁.running
      if scheduled = [] then
        Scheduler.raiseNoProgress ranked found
      modify (fun s : Scheduler => s.counted prefillSeqs)
      pure scheduled) s₁) := by
  have inv := phases.inv
  have seats := inv.seats
  rw [List.nodup_append] at seats
  have fresh : ∀ i ∈ s₁.running, i ∉ plan.resumes.map Prod.fst := by
    intro i runs listed
    have chunk : i ∈ s₁.chunkedReq.toList := by
      cases phases.decision with
      | absent chunk => simp [ChunkPlan.resumes] at listed
      | paused chunk stuck => simp [ChunkPlan.resumes] at listed
      | resumed chunk positive tokens fits => simpa [ChunkPlan.resumes, chunk] using listed
    exact seats.2.2 i (List.mem_append_right _ chunk) i runs rfl
  obtain ⟨done, s₃, decoded, ended⟩ := phases.prefilled.stage.decode inv seats.2.1 (fun i runs => runs) fresh
    phases.prefilled.room
  rw [bind_ok run]
  rcases ended with ⟨whole, run'⟩ | ⟨i, rest, split, many, run'⟩
  · subst whole
    rw [bind_ok run']
    by_cases none : prefillSeqs plan entries ++ s₁.running = []
    · obtain ⟨first, idle⟩ := List.append_eq_nil_iff.mp none
      obtain ⟨resumed, admitted⟩ := List.append_eq_nil_iff.mp first
      obtain ⟨unchanged, -⟩ := phases.prefilled.stopped (List.map_eq_nil_iff.mp resumed)
        (List.map_eq_nil_iff.mp admitted)
      have same : s₃ = s₁ := by
        rw [idle] at run'
        cases run'
        exact unchanged
      obtain ⟨e, raised, kind⟩ := phases.ranks.raiseNoProgress
      subst same
      simp only [none, if_true]
      rw [bind_error raised]
      exact .stuck first idle kind
    · simp only [none, if_false]
      exact .batch s₃ run' decoded none
  · rw [bind_error run']
    exact .phase s₃ split run' decoded many

theorem Inv.schedule (h : Inv cache s ids) : ∃ s₁ s₂ tail plan ranked found entries,
    Phases cache s s₁ s₂ ids tail plan ranked found entries ∧
      Outcome cache s₁ s₂ ids plan ranked entries (Scheduler.schedule s) := by
  obtain ⟨s₁, tail, preempt, inv, preempted, pressed, affordable⟩ := h.reset.preemptDecodeTail
  have decode := blocksToAppend_ok (inv.sizes (fun i runs => (inv.running_mem runs).1))
  obtain ⟨plan, planned, decision⟩ := inv.planChunk (s₁.config.maxNumBatchedTokens - s₁.running.length)
    (s₁.blockManager.freeBlockIds.length - s₁.reserve s₁.running)
  obtain ⟨ranked, found, ranking, ranks⟩ := inv.rankedWaiting plan
  have free : s₁.blockManager.freeBlockIds.length =
      s₁.reserve s₁.running + (s₁.blockManager.freeBlockIds.length - s₁.reserve s₁.running) := by
    have := affordable.2
    omega
  obtain ⟨s₂, entries, prefilling, prefilled⟩ := inv.prefill decision ranks free s₁.active
  have phases : Phases cache s s₁ s₂ ids tail plan ranked found entries :=
    ⟨inv, preempt, preempted, pressed, affordable, planned, decision, ranking, ranks, prefilling, prefilled⟩
  refine ⟨s₁, s₂, tail, plan, ranked, found, entries, phases, ?_⟩
  have affordable' : s₁.running.length ≤ s₁.config.maxNumBatchedTokens ∧
      s₁.reserve s₁.running ≤ s₁.blockManager.freeBlockIds.length := affordable
  simp only [Scheduler.schedule, run_modify_bind]
  rw [bind_ok preempt, run_get_bind, run_ofExcept_bind decode, run_require_bind affordable',
    run_ofExcept_bind planned, run_ofExcept_bind ranking]
  split at prefilling
  next mode =>
    rw [if_pos mode]
    exact phases.finish prefilling
  next mode =>
    rw [if_neg mode]
    exact phases.finish prefilling

theorem Call.appends_seqId {appended : List (SeqId × Nat)} {call : Call} (listed : call ∈ Call.appends appended) :
    call.seqId ∈ appended.map Prod.fst := by
  obtain ⟨a, entry, rfl⟩ := List.mem_map.mp listed
  exact List.mem_map_of_mem entry

theorem prefillCalls_seqId {sameStep : Bool} {plan : ChunkPlan} {entries : List Entry} {call : Call}
    (listed : call ∈ prefillCalls sameStep plan.resumes entries) : call.seqId ∈ prefillSeqs plan entries := by
  have admitted {e : Entry} (listed : e ∈ entries) : e.seqId ∈ prefillSeqs plan entries :=
    List.mem_append_right _ (List.mem_map_of_mem listed)
  have resumed (listed : call ∈ Call.appends plan.resumes) : call.seqId ∈ prefillSeqs plan entries :=
    List.mem_append_left _ (Call.appends_seqId listed)
  unfold prefillCalls at listed
  split at listed
  next =>
    rcases List.mem_append.mp listed with first | later
    · exact resumed first
    · obtain ⟨e, entry, pair⟩ := List.mem_flatMap.mp later
      simp only [List.mem_cons, List.not_mem_nil, or_false] at pair
      rcases pair with rfl | rfl
      · exact admitted entry
      · exact admitted entry
  next =>
    rcases List.mem_append.mp listed with first | later
    · rcases List.mem_append.mp first with claimed | first
      · obtain ⟨e, entry, rfl⟩ := List.mem_map.mp claimed
        exact admitted entry
      · exact resumed first
    · obtain ⟨e, entry, rfl⟩ := List.mem_map.mp later
      exact admitted entry

theorem Inv.schedule_traced (h : Inv cache s ids) {t : Scheduler} {batch : List SeqId}
    (run : Scheduler.schedule s = .ok batch t) :
    ∃ u calls, Scheduler.preemptDecodeTail s.resetCounters = .ok () u ∧ Inv cache u ids ∧ Traced u calls t ∧
      ∀ call ∈ calls, call.seqId ∈ batch := by
  obtain ⟨s₁, s₂, tail, plan, ranked, found, entries, phases, outcome⟩ := h.schedule
  rw [run] at outcome
  cases outcome with
  | batch s₃ decoding decoded some' =>
      have paged := phases.prefilled.traced.trans decoded.traced
      have traced := @Traced.book _ _ (s₃.counted (prefillSeqs plan entries)) _ paged rfl (fun _ => rfl)
      refine ⟨s₁, _, phases.preempting, phases.inv, traced, fun call listed => ?_⟩
      rcases List.mem_append.mp listed with first | later
      · exact List.mem_append_left _ (prefillCalls_seqId first)
      · have runs := Call.appends_seqId later
        rw [decodes, List.map_map] at runs
        exact List.mem_append_right _ (by simpa [Function.comp_def] using runs)

end Schedule

end NanoVllm
