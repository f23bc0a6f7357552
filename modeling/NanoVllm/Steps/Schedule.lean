import NanoVllm.Steps.Frozen

set_option autoImplicit false

namespace NanoVllm

open Python Raising

namespace Scheduler

-- The chunk that a plan resumes, with the tokens it gives to it.
def ChunkPlan.resumes (plan : ChunkPlan) : List (SeqId × Nat) :=
  plan.scheduledChunked.toList.map (fun c => (c, plan.chunkedTokens))

end Scheduler

def Call.appends (appended : List (SeqId × Nat)) : List Call := appended.map (fun a => .append a.1 a.2)

/-- The calls by which a step gives pages to its prefills: the frozen plans are all claimed first. -/
def prefillCalls (sameStep : Bool) (resumed : List (SeqId × Nat)) (entries : List Entry) : List Call :=
  if sameStep then Call.appends resumed ++ Entry.commits entries
  else entries.map Entry.claim ++ Call.appends resumed ++ entries.map Entry.allocate

structure Prefilled (cache : Cache) (origin s : Scheduler) (ids : Finset SeqId) (plan : Scheduler.ChunkPlan)
    (ranked : List SeqId) (reserved active : Nat) (entries : List Entry) : Prop where
  stage : Stage cache origin s ids [] plan.resumes entries
  traced : Traced origin (prefillCalls origin.config.enableSameStepPrefixReuse plan.resumes entries) s
  room : reserved ≤ s.blockManager.freeBlockIds.length
  order : entries.map Entry.seqId <+: ranked
  fits : Fits origin plan.tokenBudget active entries
  first : plan.resumes = [] → ∀ e rest, entries = e :: rest →
    origin.blockManager.matchPrefix (origin.seqs e.seqId) = .ok e.blockIds
  stopped : plan.resumes = [] → entries = [] → s = origin ∧ ∀ i rest, ranked = i :: rest →
    ∃ blocks, origin.blockManager.matchPrefix (origin.seqs i) = .ok blocks ∧
      origin.Refuses i blocks plan.tokenBudget plan.freeBudget active

namespace Stage

open Scheduler

variable {cache : Cache} {origin s : Scheduler} {ids : Finset SeqId} {claimed admitted : List Entry}
  {tokenBudget freeBudget reserved active : Nat} {plan : ChunkPlan} {ranked : List SeqId}
  {found : Dict SeqId (List BlockId)}

theorem seat_apart (inv : Inv cache origin ids) {i : SeqId}
    (seat : origin.chunkedReq = some i ∨ i ∈ origin.running) : i ∉ origin.waiting := by
  intro waits
  have seats := inv.seats
  rw [List.append_assoc] at seats
  refine List.disjoint_of_nodup_append seats waits ?_
  rcases seat with chunked | runs
  · simp [chunked]
  · exact List.mem_append_right _ runs

theorem resume (h : Stage cache origin s ids claimed [] admitted) (inv : Inv cache origin ids)
    (decision : Decision origin tokenBudget freeBudget plan)
    (room : freeBudget ≤ s.blockManager.freeBlockIds.length + plan.freeBudget) :
    ∃ s', appendChunk plan s = .ok (plan.resumes.map Prod.fst) s' ∧
      Stage cache origin s' ids claimed plan.resumes admitted ∧ Traced s (Call.appends plan.resumes) s' ∧
      s'.blockManager.freeBlockIds.length + freeBudget =
        s.blockManager.freeBlockIds.length + plan.freeBudget ∧ (plan.resumes = [] → s' = s) := by
  cases decision with
  | absent chunk => exact ⟨s, rfl, h, Traced.nil s, rfl, fun _ => rfl⟩
  | paused chunk stuck => exact ⟨s, rfl, h, Traced.nil s, rfl, fun _ => rfl⟩
  | @resumed c n chunk positive tokens fits =>
      have member := (inv.chunk_mem chunk).1
      have outside := seat_apart inv (Or.inl chunk)
      dsimp only at room
      obtain ⟨p, exact', stage, taken⟩ := @Stage.append _ _ _ _ _ _ _ c n h inv member outside (by simp) positive
        (by omega) (by omega)
      refine ⟨s.withPool p, ?_, stage, (Traced.nil s).call _ exact', ?_, by simp [ChunkPlan.resumes]⟩
      · have called := exact'.1
        simp only [Call.run, run_modifySeq_bind] at called
        simp only [appendChunk, ChunkPlan.resumes, run_modifySeq_bind]
        exact (bind_ok called).trans rfl
      · change p.manager.freeBlockIds.length + freeBudget = _
        dsimp only
        omega

end Stage

section Prefill

open Scheduler

variable {cache : Cache} {origin : Scheduler} {ids : Finset SeqId} {tokenBudget freeBudget reserved : Nat}
  {plan : ChunkPlan} {ranked : List SeqId} {found : Dict SeqId (List BlockId)}

theorem Scheduler.Decision.free_le (decision : Decision origin tokenBudget freeBudget plan) :
    plan.freeBudget ≤ freeBudget := by
  cases decision with
  | absent chunk => exact Nat.le_refl _
  | paused chunk stuck => exact Nat.le_refl _
  | resumed chunk positive tokens fits => exact Nat.sub_le _ _

theorem Inv.admitSameStep (inv : Inv cache origin ids) (decision : Decision origin tokenBudget freeBudget plan)
    (ranks : Ranked origin plan ranked found) (mode : origin.config.enableSameStepPrefixReuse = true)
    (free : origin.blockManager.freeBlockIds.length = reserved + freeBudget) (active : Nat) :
    ∃ s entries, admitSameStep plan ranked found reserved active origin =
        .ok (plan.resumes.map Prod.fst ++ entries.map Entry.seqId) s ∧
      Prefilled cache origin s ids plan ranked reserved active entries := by
  have le := decision.free_le
  obtain ⟨s₁, run, stage, traced, taken, same⟩ := (Stage.start inv).resume inv decision (by omega)
  have waits : ∀ i ∈ ranked, i ∈ s₁.waiting := by
    intro i listed
    have perm := stage.waiting
    rw [List.map_nil, List.nil_append] at perm
    exact perm.mem_iff.mpr (ranks.waits i listed)
  obtain ⟨s, entries, run', stage', traced', left, order, fits, first, stopped⟩ :=
    @Stage.commit _ _ _ _ _ [] reserved active plan.tokenBudget found stage inv (by omega) ranked
      (ranks.nodup inv.waiting_nodup) waits (fun i listed => by
        obtain ⟨blocks, known, -⟩ := ranks.known i listed
        exact ⟨blocks, known⟩)
  refine ⟨s, entries, ?_, stage', ?_, left, order, fits, fun none => same none ▸ first, ?_⟩
  · simp only [Scheduler.admitSameStep]
    rw [bind_ok run]
    exact (bind_ok run').trans rfl
  · simp only [prefillCalls, mode, if_true]
    exact traced.trans traced'
  · intro none none'
    have unmoved := same none
    subst unmoved
    obtain ⟨unchanged, refused⟩ := stopped none'
    refine ⟨unchanged, fun i rest first => ?_⟩
    obtain ⟨blocks, matched, why⟩ := refused i rest first
    have budget : s₁.blockManager.freeBlockIds.length - reserved = plan.freeBudget := by omega
    rw [budget] at why
    exact ⟨blocks, matched, why⟩

theorem Inv.admitFrozen (inv : Inv cache origin ids) (decision : Decision origin tokenBudget freeBudget plan)
    (ranks : Ranked origin plan ranked found) (mode : origin.config.enableSameStepPrefixReuse = false)
    (free : origin.blockManager.freeBlockIds.length = reserved + freeBudget) (active : Nat) :
    ∃ s entries, admitFrozen plan ranked found active origin =
        .ok (plan.resumes.map Prod.fst ++ entries.map Entry.seqId) s ∧
      Prefilled cache origin s ids plan ranked reserved active entries ∧
      Budgeted origin.blockManager ∅ plan.freeBudget entries ∧ Greedy origin plan.tokenBudget entries ∧
      ∀ e ∈ entries, found e.seqId = some e.blockIds ∧ 0 < e.numNewTokens := by
  have le := decision.free_le
  have matches' (i : SeqId) (listed : i ∈ ranked) {blocks : List BlockId} (known : found i = some blocks) :
      Plan origin.blockManager (origin.seqs i) 0 noLineage blocks ∧
        blocks.length * origin.blockManager.blockSize < (origin.seqs i).numTokens := by
    obtain ⟨blocks', known', matched⟩ := ranks.known i listed
    obtain ⟨blocks'', matched', plan, short⟩ := inv.matchPrefix (ranks.waits i listed)
    have same : blocks' = blocks'' := by simpa [matched] using matched'
    have same' : blocks = blocks' := by simpa [known] using known'
    subst same
    subst same'
    exact ⟨plan, short⟩
  have each : ∀ i ∈ ranked, ∃ blocks, Plannable origin found i blocks := by
    intro i listed
    obtain ⟨blocks, known, -⟩ := ranks.known i listed
    obtain ⟨plan, short⟩ := matches' i listed known
    exact ⟨blocks, known, (inv.waiting i (ranks.waits i listed)).cached, plan.nodup, short⟩
  obtain ⟨entries, run, order, fits, budget, greedy, all, refused⟩ := @planFrozenFrom_ok origin found active
    plan.tokenBudget plan.freeBudget ∅ [] ranked each
  have listed (e : Entry) (entry : e ∈ entries) : e.seqId ∈ ranked :=
    order.subset (List.mem_map_of_mem entry)
  have once : (entries.map Entry.seqId).Nodup := order.sublist.nodup (ranks.nodup inv.waiting_nodup)
  obtain ⟨s₁, claimed, stage, traced, left⟩ := @Stage.claimAll _ _ _ _ [] entries
    (reserved + (freeBudget - plan.freeBudget)) plan.freeBudget ∅ (Stage.start inv) inv once (by simp)
    (fun e entry => ranks.waits _ (listed e entry))
    (fun e entry => (matches' _ (listed e entry) (all e entry).1).1)
    (fun e entry => (matches' _ (listed e entry) (all e entry).1).2) (by simp) budget (by omega)
  rw [List.nil_append] at stage
  obtain ⟨s₂, resumed, stage', traced', taken, same⟩ := stage.resume inv decision (by omega)
  obtain ⟨s, allocated, stage'', traced'', left'⟩ := @Stage.allocateAll _ _ _ _ [] entries _ reserved stage' inv
    (fun e entry => (all e entry).2.1) (fun e entry => (all e entry).2.2) (by omega)
  refine ⟨s, entries, ?_, ⟨stage'', ?_, left', order, fits, fun _ e rest whole => ?_, ?_⟩, budget, greedy,
    fun e entry => ⟨(all e entry).1, (all e entry).2.1⟩⟩
  · simp only [Scheduler.admitFrozen, run_get_bind]
    rw [run_ofExcept_bind (show origin.planFrozen ranked found plan.tokenBudget plan.freeBudget active = _ from run),
      List.nil_append, bind_ok claimed, bind_ok resumed, bind_ok allocated, List.map_map]
    rfl
  · simp only [prefillCalls, mode, Bool.false_eq_true, if_false]
    exact (traced.trans traced').trans traced''
  · have entry : e ∈ entries := by rw [whole]; exact List.mem_cons_self ..
    obtain ⟨blocks, known, matched⟩ := ranks.known e.seqId (listed e entry)
    rw [(all e entry).1, Option.some.injEq] at known
    exact known ▸ matched
  · intro none none'
    subst none'
    cases claimed
    cases allocated
    refine ⟨same none, fun i rest first => ?_⟩
    obtain ⟨blocks, known, why⟩ := refused rfl rfl i rest first
    obtain ⟨blocks', known', matched⟩ := ranks.known i (by rw [first]; exact List.mem_cons_self ..)
    have same' : blocks = blocks' := by simpa [known] using known'
    exact ⟨blocks, same' ▸ matched, why⟩

end Prefill

end NanoVllm
