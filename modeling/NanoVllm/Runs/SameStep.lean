import NanoVllm.Runs.Hits
import NanoVllm.Steps.Lockstep

set_option autoImplicit false

namespace NanoVllm

open Python Raising

namespace Scheduler

-- The same state under the other value of `enable_same_step_prefix_reuse`.
def withSameStep (s : Scheduler) (enable : Bool) : Scheduler :=
  { s with config := { s.config with enableSameStepPrefixReuse := enable } }

-- In its turn the request is matched with at least as many pages as in the initial snapshot.
def findsInitial (u : Scheduler) (i : SeqId) : Bool :=
  match u.atTurn i with
  | .ok v => decide ((u.initialMatch i).length ≤ (v.initialMatch i).length)
  | .error _ => false

section WithSameStep

variable {s t : Scheduler} (enable : Bool)

@[simp] theorem withSameStep_running : (s.withSameStep enable).running = s.running := rfl
@[simp] theorem withSameStep_waiting : (s.withSameStep enable).waiting = s.waiting := rfl
@[simp] theorem withSameStep_blockManager : (s.withSameStep enable).blockManager = s.blockManager := rfl
@[simp] theorem withSameStep_seqs : (s.withSameStep enable).seqs = s.seqs := rfl

@[simp] theorem withSameStep_blocksToAppend (seqs : List SeqId) :
    (s.withSameStep enable).blocksToAppend seqs = s.blocksToAppend seqs := by
  induction seqs with
  | nil => rfl
  | cons i rest ih => simp only [blocksToAppend, ih, withSameStep_blockManager, withSameStep_seqs]

@[simp] theorem withSameStep_matchWaitingFrom (seqs : List SeqId) (before : Dict SeqId (List BlockId)) :
    (s.withSameStep enable).matchWaitingFrom seqs before = s.matchWaitingFrom seqs before := by
  induction seqs generalizing before with
  | nil => rfl
  | cons i rest ih => simp only [matchWaitingFrom, ih, withSameStep_blockManager, withSameStep_seqs]

@[simp] theorem withSameStep_rankedWaiting (plan : ChunkPlan) :
    (s.withSameStep enable).rankedWaiting plan = s.rankedWaiting plan := by
  simp only [rankedWaiting, matchWaiting, withSameStep_waiting, withSameStep_matchWaitingFrom]
  rfl

theorem onSeq_withSameStep {α : Type} {i : SeqId} {x : Method α} {a : α} (run : onSeq i x s = .ok a t) :
    onSeq i x (s.withSameStep enable) = .ok a (t.withSameStep enable) := by
  obtain ⟨f, inner, rfl⟩ := onSeq_ok run
  exact @zoom_ok _ _ _ _ (s.withSameStep enable) (fun s => s.frame i) (fun s f => s.store i f) x a f inner

theorem preemptDecodeTail_withSameStep (run : preemptDecodeTail s = .ok () t) :
    preemptDecodeTail (s.withSameStep enable) = .ok () (t.withSameStep enable) := by
  have turns (fuel : Nat) (s : Scheduler) (run : preemptDecodeTailFrom fuel s = .ok () t) :
      preemptDecodeTailFrom fuel (s.withSameStep enable) = .ok () (t.withSameStep enable) := by
    induction fuel generalizing s with
    | zero =>
        cases run
        rfl
    | succ fuel ih =>
        simp only [preemptDecodeTailFrom, run_get_bind, withSameStep_running] at run ⊢
        cases last : s.running.getLast? with
        | none =>
            simp only [last] at run
            cases run
            rfl
        | some tail =>
            simp only [last] at run
            obtain ⟨decodeBlocks, value, run⟩ := run_ofExcept_ok run
            simp only [withSameStep_blocksToAppend, run_ofExcept_bind value]
            split at run
            next fits =>
              cases run
              exact congrFun (if_pos fits) _
            next tight =>
              refine (congrFun (if_neg tight) _).trans ?_
              rw [run_modify_bind] at run ⊢
              obtain ⟨⟨⟩, u, preempted, run⟩ := run_bind_ok run
              simp only [preempt, run_modifySeq_bind] at preempted
              obtain ⟨⟨⟩, v, released, preempted⟩ := run_bind_ok preempted
              cases preempted
              refine (bind_ok (?_ : preempt tail _ = .ok () _)).trans (ih _ run)
              simp only [preempt, run_modifySeq_bind]
              exact (bind_ok (onSeq_withSameStep enable released)).trans rfl
  simp only [preemptDecodeTail, run_get_bind] at run ⊢
  exact turns _ s run

end WithSameStep

end Scheduler

theorem Inv.withSameStep {cache : Cache} {s : Scheduler} {ids : Finset SeqId} (h : Inv cache s ids) (enable : Bool) :
    Inv cache (s.withSameStep enable) ids := ⟨h.pool, h.covered, h.size, h.count,
  h.seats, h.seated, h.waiting, h.chunk, h.running, h.ended,
  fun i member ended => ⟨(h.limits i member ended).length, (h.limits i member ended).completion⟩, h.named, h.whole⟩

theorem Greedy.withSameStep {s : Scheduler} {tokenBudget : Nat} {entries : List Entry}
    (h : Greedy s tokenBudget entries) (enable : Bool) : Greedy (s.withSameStep enable) tokenBudget entries := by
  induction entries generalizing tokenBudget with
  | nil => trivial
  | cons e rest ih => exact ⟨h.1, ih h.2⟩

section SameStep

open Scheduler

variable {cache : Cache} {xxh64 : XxHash} {config : Config} {s s₂ s₃ t u w : Scheduler} {ids : Finset SeqId}
  {tail ranked batch : List SeqId} {plan : ChunkPlan} {found : Dict SeqId (List BlockId)} {entries others : List Entry}
  {e : Entry}

theorem Scheduler.Decision.free_eq {tokenBudget freeBudget : Nat} (decision : Decision s tokenBudget freeBudget plan)
    (none : plan.resumes = []) : plan.freeBudget = freeBudget := by
  cases decision with
  | absent chunk => rfl
  | paused chunk stuck => rfl
  | resumed chunk positive tokens fits => simp [ChunkPlan.resumes] at none

theorem Scheduler.Phases.lockstep (phases : Phases cache s u s₂ ids tail plan ranked found entries) :
    ∃ u₁, appendChunk plan u = .ok (plan.resumes.map Prod.fst) u₁ ∧
      Lockstep cache u u₁ ids plan.resumes [] (u.reserve u.running) ∅ plan.tokenBudget plan.freeBudget
        plan.tokenBudget 0 ∧ (plan.resumes = [] → u₁ = u) := by
  have inv := phases.inv
  have affordable := phases.affordable.2
  have le := phases.decision.free_le
  obtain ⟨u₁, resumed, stage, -, left, same⟩ := (Stage.start inv).resume inv phases.decision (by omega)
  have keeps := Keeps.appendChunk inv.exclusive phases.chunk_mem resumed 0
  refine ⟨u₁, resumed, ⟨stage, keeps.exclusive, keeps.evolves, by simp, ?_, by simp⟩, same⟩
  omega

theorem Scheduler.Phases.given (phases : Phases cache s u s₂ ids tail plan ranked found entries)
    (decoded : Decoded cache u s₂ s₃ ids plan.resumes entries u.running)
    (stage : Stage cache u s₂ ids [] plan.resumes others) (listed : e ∈ others)
    (admitted : e.seqId ∈ entries.map Entry.seqId) :
    (s₃.seqs e.seqId).numCachedTokens = e.blockIds.length * u.blockManager.blockSize ∧
      (s₃.seqs e.seqId).numNewTokens = e.numNewTokens ∧ (s₃.seqs e.seqId).numTokens = (u.seqs e.seqId).numTokens := by
  obtain ⟨e', listed', same⟩ := List.mem_map.mp admitted
  obtain ⟨-, table, seq⟩ := stage.admits e listed
  obtain ⟨-, table', seq'⟩ := phases.prefilled.stage.admits e' listed'
  obtain ⟨-, table'', seq''⟩ := decoded.stage.admits e' listed'
  rw [same] at seq' seq''
  have cached := congrArg Sequence.numCachedTokens (seq.symm.trans seq')
  have new := congrArg Sequence.numNewTokens (seq.symm.trans seq')
  rw [seq'']
  exact ⟨cached.symm, new.symm, rfl⟩

theorem Scheduler.Phases.planned (phases : Phases cache s u s₂ ids tail plan ranked found entries)
    (mode : u.config.enableSameStepPrefixReuse = false) :
    ∃ admitted, entries.map Entry.seqId = admitted.map Entry.seqId ∧
      Stage cache u s₂ ids [] plan.resumes admitted ∧
      Planned (u.withSameStep true) ∅ plan.tokenBudget plan.freeBudget u.active admitted := by
  have inv := phases.inv
  have affordable := phases.affordable.2
  have le := phases.decision.free_le
  have free : u.blockManager.freeBlockIds.length =
      u.reserve u.running + (u.blockManager.freeBlockIds.length - u.reserve u.running) := by omega
  obtain ⟨w, admitted, run, prefilled, budget, greedy, known⟩ :=
    inv.admitFrozen phases.decision phases.ranks mode free u.active
  have ran := phases.prefilling
  rw [mode, if_neg (by simp), run, EStateM.Result.ok.injEq] at ran
  obtain ⟨whole, rfl⟩ := ran
  refine ⟨admitted, (List.append_cancel_left whole).symm, prefilled.stage, ?_, budget, greedy.withSameStep true,
    fun e listed => (known e listed).2, fun e listed => ?_⟩
  · exact ⟨prefilled.fits.full, prefilled.fits.whole, prefilled.fits.tokens, prefilled.fits.seats⟩
  · have inside := prefilled.order.subset (List.mem_map_of_mem listed)
    obtain ⟨blocks, initial, matched⟩ := phases.ranks.known e.seqId inside
    rw [(known e listed).1, Option.some.injEq] at initial
    exact initial ▸ matched

theorem Scheduler.Phases.admits_planned (phases : Phases cache s u s₂ ids tail plan ranked found entries)
    (mode : u.config.enableSameStepPrefixReuse = true) {admitted : List Entry}
    (planned : Planned u ∅ plan.tokenBudget plan.freeBudget u.active admitted)
    (order : admitted.map Entry.seqId <+: ranked) {front : List SeqId} {i : SeqId}
    (upto : front ++ [i] <+: admitted.map Entry.seqId) (finds : ∀ j ∈ front ++ [i], u.findsInitial j) :
    ∃ e e' others, e ∈ admitted ∧ e.seqId = i ∧ e.Outdoes u e' ∧ e' ∈ others ∧
      Stage cache u s₂ ids [] plan.resumes others ∧ entries.map Entry.seqId = others.map Entry.seqId := by
  have inv := phases.inv
  obtain ⟨u₁, resumed, lockstep, -⟩ := phases.lockstep
  obtain ⟨more, split⟩ := upto
  obtain ⟨rest, split'⟩ := order
  rw [List.append_assoc, List.singleton_append] at split
  obtain ⟨before, after, rfl, rfl, moved⟩ := List.map_eq_append_iff.mp split.symm
  obtain ⟨e, after, rfl, rfl, rfl⟩ := List.map_eq_cons_iff.mp moved
  rw [List.map_append, List.map_cons, List.append_assoc, List.cons_append] at split'
  have once := phases.ranks.nodup inv.waiting_nodup
  have waits (j : SeqId) (listed : j ∈ ranked) : j ∈ u₁.waiting := by
    have perm := lockstep.stage.waiting
    rw [List.map_nil, List.nil_append] at perm
    exact perm.mem_iff.mpr (phases.ranks.waits j listed)
  have found' (a : Entry) (inside : a ∈ before ++ [e]) : u.initialMatch a.seqId = a.blockIds := by
    have listed : a ∈ before ++ e :: after := by
      rcases List.mem_append.mp inside with earlier | self
      · exact List.mem_append_left _ earlier
      · rw [List.mem_singleton.mp self]
        simp
    rw [initialMatch, planned.initial a listed]
    rfl
  obtain ⟨e', others, w, outdoes, listed, stage, looped⟩ := @Lockstep.admits _ _ _ _ _ [] _ _ u.active _ _ _ _ e
    lockstep inv found before after (after.map Entry.seqId ++ rest) planned (split' ▸ once) (split' ▸ waits)
    (fun j listed => by
      obtain ⟨blocks, known, -⟩ := phases.ranks.known j (split' ▸ listed)
      exact ⟨blocks, known⟩) (by
    intro front' a rest' whole w latest looped matched
    have inside : a ∈ before ++ [e] := whole ▸ (by simp)
    have cut : ranked = front'.map Entry.seqId ++
        a.seqId :: (rest'.map Entry.seqId ++ (after.map Entry.seqId ++ rest)) := by
      have ids := congrArg (List.map Entry.seqId) whole
      simp only [List.map_append, List.map_cons, List.map_nil] at ids
      rw [← split', ← List.singleton_append (x := e.seqId), ← List.append_assoc, ids]
      simp
    have apart : a.seqId ∉ front'.map Entry.seqId := by
      rw [cut, List.nodup_middle, List.nodup_cons] at once
      exact fun listed => once.1 (List.mem_append_left _ listed)
    obtain ⟨reached, -⟩ := phases.atTurn_eq mode cut apart resumed looped
    have finds := finds a.seqId (by
      have listed := List.mem_map_of_mem (f := Entry.seqId) inside
      simpa using listed)
    rw [findsInitial, reached, decide_eq_true_iff, found' a inside] at finds
    rwa [initialMatch, matched] at finds)
  have run := phases.prefilling
  rw [if_pos mode, admitSameStep, bind_ok resumed] at run
  rw [split'] at looped
  have looped' : commitWaitingSameStep ranked found plan.tokenBudget (u.reserve u.running) u.active u₁ =
      .ok (others.map Entry.seqId) w := looped
  rw [bind_ok looped', run_pure, EStateM.Result.ok.injEq] at run
  obtain ⟨whole, rfl⟩ := run
  exact ⟨e, e', others, by simp, rfl, outdoes, listed, stage, (List.append_cancel_left whole).symm⟩

/-- Two steps from the same state, with same-step reuse switched on and off: what the frozen plan admits up to `front`
and `i`, the loop admits too, as long as it finds the initial matches again. -/
theorem Inv.same_step (h : Inv cache s ids)
    (preempted : Scheduler.preemptDecodeTail (s.withSameStep true).resetCounters = .ok () u)
    (off : Scheduler.schedule (s.withSameStep false) = .ok batch t) :
    ∃ batch' t', Scheduler.schedule (s.withSameStep true) = .ok batch' t' ∧
      ∀ front i, front ++ [i] <+: u.admitted batch → (∀ j ∈ front ++ [i], u.findsInitial j) →
        i ∈ u.admitted batch' ∧ (t.seqs i).numContextTokens ≤ (t'.seqs i).numContextTokens ∧
          ((t.seqs i).Complete → (t'.seqs i).numNewTokens ≤ (t.seqs i).numNewTokens) := by
  obtain ⟨s₁, s₂, tail, plan, ranked, found, entries, phases, outcome⟩ := (h.withSameStep false).schedule
  obtain ⟨u', s₂', tail', plan', ranked', found', entries', phases', outcome'⟩ := (h.withSameStep true).schedule
  -- The two steps are the same up to the admission.
  have preempted' := preemptDecodeTail_withSameStep true phases.preempting
  cases phases'.preempting.symm.trans preempted'
  cases preempted.symm.trans preempted'
  have planning : s₁.planChunk (s₁.config.maxNumBatchedTokens - s₁.running.length)
      (s₁.blockManager.freeBlockIds.length - s₁.reserve s₁.running) = .ok plan' := phases'.planning
  cases phases.planning.symm.trans planning
  have ranking := phases'.ranking
  rw [withSameStep_rankedWaiting] at ranking
  cases phases.ranking.symm.trans ranking
  have mode : s₁.config.enableSameStepPrefixReuse = false := by
    rw [phases.preempted.config]
    rfl
  obtain ⟨admitted, same, stage, planned⟩ := phases.planned mode
  have order : admitted.map Entry.seqId <+: ranked := same ▸ phases.prefilled.order
  rw [off] at outcome
  cases outcome with
  | batch s₃ decoding decoded some' =>
      have listed := phases.admitted_eq
      generalize on : Scheduler.schedule (s.withSameStep true) = result at outcome'
      cases outcome' with
      | batch s₃' decoding' decoded' some'' =>
          have listed' := phases'.admitted_eq
          refine ⟨_, _, rfl, fun front i upto finds => ?_⟩
          have upto' : front ++ [i] <+: admitted.map Entry.seqId := same ▸ listed ▸ upto
          obtain ⟨e, e', others, member, rfl, outdoes, member', stage', same'⟩ :=
            phases'.admits_planned rfl planned order upto' finds
          have inside' : e'.seqId ∈ entries'.map Entry.seqId := same' ▸ List.mem_map_of_mem member'
          obtain ⟨cached, new, length⟩ := phases.given decoded stage member (same ▸ List.mem_map_of_mem member)
          obtain ⟨cached', new', length'⟩ := phases'.given decoded' stage' member' inside'
          rw [outdoes.seqId] at inside' cached' new' length'
          refine ⟨listed' ▸ inside', ?_, fun complete => ?_⟩
          · have reaches := outdoes.reaches
            simp only [Sequence.numContextTokens, counted, cached, new, cached', new']
            exact reaches
          · have computes := outdoes.computes
            simp only [Sequence.Complete, Sequence.numContextTokens, counted, cached, new, length] at complete
            simp only [counted, new, new']
            exact computes complete
      | phase s₃' split decoding' decoded' many =>
          refine absurd (decoded.single _ ?_) many
          have runs : s₁.running = _ := split
          rw [runs]
          simp
      | stuck none idle kind =>
          obtain ⟨first, later⟩ := List.append_eq_nil_iff.mp none
          rw [List.map_eq_nil_iff] at first later
          obtain ⟨u₁, -, lockstep, unmoved⟩ := phases'.lockstep
          cases unmoved first
          obtain ⟨-, refused⟩ := phases'.prefilled.stopped first later
          have idle' : s₁.running = [] := idle
          have entered : entries ≠ [] := by
            rintro rfl
            exact some' (by rw [prefillSeqs, first, idle']; rfl)
          cases admitted with
          | nil => exact absurd (List.map_eq_nil_iff.mp same) entered
          | cons e rest =>
              obtain ⟨more, split⟩ := order
              obtain ⟨blocks, matched, why⟩ := refused e.seqId _ split.symm
              have initial := planned.initial e (List.mem_cons_self ..)
              cases initial.symm.trans matched
              have waits := phases'.ranks.waits e.seqId (split ▸ by simp)
              rw [phases'.decision.free_eq first] at why
              exact absurd why (lockstep.affords phases'.inv waits planned matched (Nat.le_refl _))

/-- Same-step reuse admits what the frozen plan admits, as long as each turn finds the initial match again. -/
theorem same_step_admission (past : Reachable xxh64 config s ids)
    (preempted : preemptDecodeTail (s.withSameStep true).resetCounters = .ok () u)
    (off : schedule (s.withSameStep false) = .ok batch t) :
    ∃ batch' t', schedule (s.withSameStep true) = .ok batch' t' ∧
      ∀ front i, front ++ [i] <+: u.admitted batch → (∀ j ∈ front ++ [i], u.findsInitial j) →
        i ∈ u.admitted batch' ∧ (t.seqs i).numContextTokens ≤ (t'.seqs i).numContextTokens ∧
          ((t.seqs i).Complete → (t'.seqs i).numNewTokens ≤ (t.seqs i).numNewTokens) := by
  obtain ⟨cache, inv, -⟩ := past.inv
  exact inv.same_step preempted off

def reuseConfig : Config :=
  { maxNumBatchedTokens := 6
    maxNumSeqs := 4
    maxModelLen := 8
    kvcacheBlockSize := 1
    numKvcacheBlocks := 9
    enableLpm := false
    kvcacheBlockSize_pos := Nat.one_pos }

-- Request 1 shares two pages with request 0, which leaves tokens for request 2.
theorem same_step_admission_shared :
    ∃ s t t' u : Scheduler, Reachable pageHash reuseConfig s {0, 1, 2} ∧ schedule (s.withSameStep false) = .ok [0, 1] t ∧
      schedule (s.withSameStep true) = .ok [0, 1, 2] t' ∧ 1 ∈ u.admitted [0, 1, 2] ∧
      (t.seqs 1).numContextTokens ≤ (t'.seqs 1).numContextTokens ∧
      (t'.seqs 1).numNewTokens ≤ (t.seqs 1).numNewTokens ∧ (t.seqs 1).numNewTokens = 3 ∧
      (t'.seqs 1).numNewTokens = 1 := by
  have start : Scheduler.init reuseConfig = .ok _ := rfl
  have past := Reachable.play pageHash start [.add 0 [1, 2, 3] {}, .add 1 [1, 2, 4] {}, .add 2 [5, 6] {}] (by decide)
    (run_final (by decide +kernel))
  obtain ⟨batch', t', on, all⟩ := same_step_admission past (run_final (by decide +kernel))
    (run_value (a := [0, 1]) (by decide +kernel))
  cases on.symm.trans (run_value (a := [0, 1, 2]) (by decide +kernel))
  obtain ⟨admitted, reaches, computes⟩ := all [0] 1 (by decide +kernel) (by decide +kernel)
  exact ⟨_, _, _, _, past, run_value (by decide +kernel), on, admitted, reaches, computes (by decide +kernel),
    by decide +kernel, by decide +kernel⟩

def recycledConfig : Config :=
  { reuseConfig with
    maxNumBatchedTokens := 2
    numKvcacheBlocks := 4 }

def partialConfig : Config :=
  { reuseConfig with
    maxNumBatchedTokens := 8
    chunkedPrefill := true }

/-- Request 2 takes a page that was cached for request 3, which is not admitted then; and a partial request may compute
the tokens that its predecessors save. -/
theorem same_step_refuses :
    (∃ s t t', Reachable pageHash recycledConfig s {0, 1, 2, 3} ∧ 3 ∈ s.waiting ∧
      schedule (s.withSameStep false) = .ok [2, 3] t ∧ schedule (s.withSameStep true) = .ok [2] t') ∧
    ∃ s t t', Reachable pageHash partialConfig s {0, 1, 2} ∧
      schedule (s.withSameStep false) = .ok [0, 1, 2] t ∧ schedule (s.withSameStep true) = .ok [0, 1, 2] t' ∧
      (t.seqs 2).numNewTokens = 2 ∧ (t'.seqs 2).numNewTokens = 4 := by
  constructor
  · have start : Scheduler.init recycledConfig = .ok _ := rfl
    have past := Reachable.play pageHash start
      [.add 0 [1, 2] { maxTokens := 1 }, .step [9], .add 1 [7, 8] { maxTokens := 1 }, .step [9], .add 2 [5] {},
        .add 3 [1, 2, 3] {}] (by decide) (run_final (by decide +kernel))
    exact ⟨_, _, _, past, by decide +kernel, run_value (by decide +kernel), run_value (by decide +kernel)⟩
  · have start : Scheduler.init partialConfig = .ok _ := rfl
    have past := Reachable.play pageHash start
      [.add 0 [1, 2, 3] {}, .add 1 [1, 2, 4] {}, .add 2 [5, 6, 7, 8] {}] (by decide) (run_final (by decide +kernel))
    exact ⟨_, _, _, past, run_value (by decide +kernel), run_value (by decide +kernel), by decide +kernel,
      by decide +kernel⟩

end SameStep

end NanoVllm
