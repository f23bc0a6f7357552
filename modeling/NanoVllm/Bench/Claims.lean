import NanoVllm.Bench.Hooks
import NanoVllm.Runs.Hits

set_option autoImplicit false

namespace NanoVllm

open Python Raising

/-- An admission, with the lengths that `_record_prefix_hits` compares. -/
structure Hit where
  seqId : SeqId
  initialBlocks : Nat
  latestBlocks : Nat

namespace Hit

def initial (e : Hit) : SeqId × Nat := (e.seqId, min e.initialBlocks e.latestBlocks)

def sameStep (e : Hit) : SeqId × Nat := (e.seqId, e.latestBlocks - e.initialBlocks)

def claim (e : Hit) : SeqId × Nat := (e.seqId, e.latestBlocks)

end Hit

theorem Call.hits {call : Call} {s t : Scheduler} (run : call.run s = .ok () t) : t.hits = s.hits := by
  cases call with
  | claim i blockIds n => exact Scheduler.onSeq_hits run
  | allocate i n =>
      simp only [Call.run, Scheduler.run_modifySeq_bind] at run
      exact (Scheduler.onSeq_hits run).trans rfl
  | append i n =>
      simp only [Call.run, Scheduler.run_modifySeq_bind] at run
      exact (Scheduler.onSeq_hits run).trans rfl

namespace Hooked

structure Agrees (h : Hooked) : Prop where
  initial : ∀ i, h.initialItems.get? i = h.scheduler.initialPersistentHitBlocksBySeq i
  sameStep : ∀ i, h.sameStepItems.get? i = h.scheduler.sameStepHitBlocksBySeq i

theorem Agrees.congr {h h' : Hooked} (agrees : h.Agrees) (initialItems : h'.initialItems = h.initialItems)
    (sameStepItems : h'.sameStepItems = h.sameStepItems) (hits : h'.scheduler.hits = h.scheduler.hits) : h'.Agrees where
  initial i := by
    rw [initialItems, agrees.initial]
    exact (congrArg Prod.fst (congrFun hits i)).symm
  sameStep i := by
    rw [sameStepItems, agrees.sameStep]
    exact (congrArg Prod.snd (congrFun hits i)).symm

theorem Agrees.entered {h : Hooked} (agrees : h.Agrees) (i : SeqId) (initialBlocks latestBlocks : Nat) :
    Agrees { h.recorded i initialBlocks latestBlocks with
      scheduler := h.scheduler.entered i initialBlocks latestBlocks } where
  initial j := by
    change (if min initialBlocks latestBlocks ≠ 0 then h.initialItems.put i (min initialBlocks latestBlocks)
      else h.initialItems).get? j = (if min initialBlocks latestBlocks ≠ 0 then
        h.scheduler.initialPersistentHitBlocksBySeq.insert i (min initialBlocks latestBlocks)
      else h.scheduler.initialPersistentHitBlocksBySeq) j
    split
    · rw [Items.get?_put, agrees.initial]
      exact (Function.update_apply _ _ _ _).symm
    · exact agrees.initial j
  sameStep j := by
    change (if latestBlocks - initialBlocks ≠ 0 then h.sameStepItems.put i (latestBlocks - initialBlocks)
      else h.sameStepItems).get? j = (if latestBlocks - initialBlocks ≠ 0 then
        h.scheduler.sameStepHitBlocksBySeq.insert i (latestBlocks - initialBlocks)
      else h.scheduler.sameStepHitBlocksBySeq) j
    split
    · rw [Items.get?_put, agrees.sameStep]
      exact (Function.update_apply _ _ _ _).symm
    · exact agrees.sameStep j

/-- What a part of a step logged: `claims` by the hook, and `records` by the scheduler. -/
structure Logged (ids : Finset SeqId) (claims records : List Hit) (h h' : Hooked) : Prop where
  exclusive : Exclusive h'.scheduler.pool ids
  size : h'.scheduler.blockManager.blockSize = h.scheduler.blockManager.blockSize
  agrees : h.Agrees → h'.Agrees
  initialItems : h'.initialItems = Items.tally (records.map Hit.initial) h.initialItems
  sameStepItems : h'.sameStepItems = Items.tally (records.map Hit.sameStep) h.sameStepItems
  metrics : h'.metrics = claims.foldl
    (fun m e => m.claimed h.scheduler.blockManager.blockSize e.seqId e.latestBlocks) h.metrics

namespace Logged

variable {ids : Finset SeqId} {h h' h'' : Hooked} {claims records claims' records' : List Hit} {i : SeqId}

theorem refl (exclusive : Exclusive h.scheduler.pool ids) : Logged ids [] [] h h :=
  ⟨exclusive, rfl, id, rfl, rfl, rfl⟩

theorem trans (first : Logged ids claims records h h') (rest : Logged ids claims' records' h' h'') :
    Logged ids (claims ++ claims') (records ++ records') h h'' where
  exclusive := rest.exclusive
  size := rest.size.trans first.size
  agrees := fun before => rest.agrees (first.agrees before)
  initialItems := by rw [rest.initialItems, first.initialItems, List.map_append, Items.tally_append]
  sameStepItems := by rw [rest.sameStepItems, first.sameStepItems, List.map_append, Items.tally_append]
  metrics := by rw [rest.metrics, first.metrics, first.size, List.foldl_append]

theorem quiet {α : Type} {x : Sched α} {a : α} (run : onScheduler x h = .ok a h')
    (keeps : ∀ s, x h.scheduler = .ok a s → Exclusive s.pool ids ∧
      s.blockManager.blockSize = h.scheduler.blockManager.blockSize ∧ s.hits = h.scheduler.hits) :
    Logged ids [] [] h h' := by
  obtain ⟨s, inner, rfl⟩ := run_zoom_ok run
  obtain ⟨exclusive, size, hits⟩ := keeps s inner
  exact ⟨exclusive, size, fun before => before.congr rfl rfl hits, rfl, rfl, rfl⟩

theorem call (call : Call) (exclusive : Exclusive h.scheduler.pool ids) (member : call.seqId ∈ ids)
    (run : onScheduler call.run h = .ok () h') : Logged ids [] [] h h' :=
  quiet run (fun _ inner =>
    ⟨call.exclusive exclusive member inner, (call.evolves exclusive member inner).size, call.hits inner⟩)

theorem claim (exclusive : Exclusive h.scheduler.pool ids) (member : i ∈ ids) {blockIds : List BlockId}
    (run : claimPrefixHook i blockIds h = .ok () h') (initialBlocks : Nat) :
    Logged ids [⟨i, initialBlocks, blockIds.length⟩] [] h h' := by
  obtain ⟨⟨⟩, h₁, claimed, run⟩ := run_bind_ok run
  have first := call (.claim i blockIds 0) exclusive member claimed
  cases run
  refine ⟨first.exclusive, first.size, fun before => (first.agrees before).congr rfl rfl rfl, first.initialItems,
    first.sameStepItems, ?_⟩
  change h₁.metrics.claimed _ _ _ = _
  rw [first.size, first.metrics]
  rfl

theorem allocate {h₁ : Hooked} {mark : Sequence → Sequence} (exclusive : Exclusive h.scheduler.pool ids)
    (member : i ∈ ids) {n : Nat} (new : mark (h.scheduler.seqs i) = { h.scheduler.seqs i with numNewTokens := n })
    (marked : onScheduler (Scheduler.modifySeq i mark) h = .ok () h₁)
    (allocated : onScheduler (Scheduler.onSeq i BlockManager.allocateNew) h₁ = .ok () h') : Logged ids [] [] h h' := by
  obtain ⟨s₁, inner₁, rfl⟩ := run_zoom_ok marked
  obtain ⟨s₂, inner₂, rfl⟩ := run_zoom_ok allocated
  cases inner₁
  dsimp only at inner₂
  rw [new] at inner₂
  have run : (Call.allocate i n).run h.scheduler = .ok () s₂ := inner₂
  have single : (Call.allocate i n).seqId ∈ ids := member
  exact ⟨Call.exclusive exclusive single run, (Call.evolves exclusive single run).size,
    fun before => before.congr rfl rfl (Call.hits run), rfl, rfl, rfl⟩

theorem enter {h₁ h₂ : Hooked} {initialBlocks latestBlocks : Nat} (exclusive : Exclusive h.scheduler.pool ids)
    (recorded : recordPrefixHits i initialBlocks latestBlocks h = .ok () h₁)
    (started : onScheduler (Scheduler.modifySeq i (fun seq => { seq with status := .running })) h₁ = .ok () h₂)
    (removed : onScheduler (Scheduler.removeWaiting i) h₂ = .ok () h') :
    Logged ids [] [⟨i, initialBlocks, latestBlocks⟩] h h' := by
  obtain ⟨⟨⟩, u, kept, written⟩ := run_bind_ok recorded
  obtain ⟨s₁, inner, rfl⟩ := run_zoom_ok kept
  cases written
  obtain ⟨s₂, inner₂, rfl⟩ := run_zoom_ok started
  obtain ⟨s₃, inner₃, rfl⟩ := run_zoom_ok removed
  have run : (do
      Scheduler.recordPrefixHits i initialBlocks latestBlocks
      Scheduler.modifySeq i (fun seq => { seq with status := .running })
      Scheduler.removeWaiting i) h.scheduler = .ok () s₃ := (bind_ok inner).trans ((bind_ok inner₂).trans inner₃)
  have waits : i ∈ h.scheduler.waiting := by
    rw [Scheduler.recordPrefixHits_run] at inner
    cases inner
    cases inner₂
    exact (run_require_ok inner₃).1
  cases run.symm.trans (Scheduler.enter_run waits _ _)
  exact ⟨exclusive.entered i _ _, rfl, fun before => before.entered i _ _, rfl, rfl, rfl⟩

theorem commitWaiting {found : Dict SeqId (List BlockId)} {reserved active tokenBudget : Nat}
    {ranked committed result : List SeqId} (exclusive : Exclusive h.scheduler.pool ids)
    (members : ∀ j ∈ ranked, j ∈ ids)
    (run : commitWaitingSameStepFrom found reserved active ranked tokenBudget committed h = .ok result h') :
    ∃ hits, Logged ids hits hits h h' ∧ result = committed ++ hits.map Hit.seqId := by
  induction ranked generalizing h tokenBudget committed with
  | nil =>
      cases run
      exact ⟨[], refl exclusive, (List.append_nil _).symm⟩
  | cons i rest ih =>
      obtain ⟨member, members⟩ := List.forall_mem_cons.mp members
      have ends (same : (pure committed : Metered (List SeqId)) h = .ok result h') :
          ∃ hits, Logged ids hits hits h h' ∧ result = committed ++ hits.map Hit.seqId := by
        cases same
        exact ⟨[], refl exclusive, (List.append_nil _).symm⟩
      simp only [commitWaitingSameStepFrom, run_get_bind] at run
      split at run
      next => exact ends run
      next =>
        obtain ⟨blocks, -, run⟩ := run_ofExcept_ok run
        obtain ⟨-, run⟩ := run_require_ok run
        split at run
        next => exact ends run
        next =>
          split at run
          next => exact ends run
          next =>
            obtain ⟨required, -, run⟩ := run_ofExcept_ok run
            obtain ⟨-, run⟩ := run_require_ok run
            split at run
            next => exact ends run
            next =>
              obtain ⟨⟨⟩, h₁, claimed, run⟩ := run_bind_ok run
              obtain ⟨⟨⟩, h₂, marked, run⟩ := run_bind_ok run
              obtain ⟨⟨⟩, h₃, allocated, run⟩ := run_bind_ok run
              obtain ⟨initial, -, run⟩ := run_ofExcept_ok run
              obtain ⟨⟨⟩, h₄, recorded, run⟩ := run_bind_ok run
              obtain ⟨⟨⟩, h₅, started, run⟩ := run_bind_ok run
              obtain ⟨⟨⟩, h₆, removed, run⟩ := run_bind_ok run
              have first := claim exclusive member claimed initial.length
              have second := allocate first.exclusive member rfl marked allocated
              have third := enter second.exclusive recorded started removed
              have one := (first.trans second).trans third
              split at run
              next =>
                cases run
                exact ⟨_, one, rfl⟩
              next =>
                obtain ⟨hits, later, whole⟩ := ih one.exclusive members run
                exact ⟨_, one.trans later, whole.trans (List.append_assoc ..)⟩

theorem claimAdmitted {admitted : List Scheduler.Admission} (exclusive : Exclusive h.scheduler.pool ids)
    (members : ∀ a ∈ admitted, a.seqId ∈ ids) (run : forEach Hooked.claimAdmitted admitted h = .ok () h') :
    Logged ids (admitted.map (fun a => ⟨a.seqId, a.initialBlocks.length, a.initialBlocks.length⟩)) [] h h' := by
  induction admitted generalizing h with
  | nil =>
      cases run
      exact refl exclusive
  | cons a rest ih =>
      obtain ⟨member, members⟩ := List.forall_mem_cons.mp members
      obtain ⟨⟨⟩, h₁, claimed, run⟩ := run_bind_ok run
      have first := claim exclusive member claimed a.initialBlocks.length
      exact first.trans (ih first.exclusive members run)

theorem allocateAdmitted {admitted : List Scheduler.Admission} (exclusive : Exclusive h.scheduler.pool ids)
    (members : ∀ a ∈ admitted, a.seqId ∈ ids) (run : forEach Hooked.allocateAdmitted admitted h = .ok () h') :
    Logged ids [] (admitted.map (fun a => ⟨a.seqId, a.initialBlocks.length, a.initialBlocks.length⟩)) h h' := by
  induction admitted generalizing h with
  | nil =>
      cases run
      exact refl exclusive
  | cons a rest ih =>
      obtain ⟨member, members⟩ := List.forall_mem_cons.mp members
      obtain ⟨⟨⟩, h₁, turn, run⟩ := run_bind_ok run
      obtain ⟨⟨⟩, h₂, marked, turn⟩ := run_bind_ok turn
      rw [run_get_bind] at turn
      obtain ⟨-, turn⟩ := run_require_ok turn
      obtain ⟨⟨⟩, h₃, allocated, turn⟩ := run_bind_ok turn
      obtain ⟨⟨⟩, h₄, recorded, turn⟩ := run_bind_ok turn
      obtain ⟨⟨⟩, h₅, started, removed⟩ := run_bind_ok turn
      have first := allocate exclusive member rfl marked allocated
      have second := enter first.exclusive recorded started removed
      exact (first.trans second).trans (ih second.exclusive members run)

theorem appendChunk {plan : Scheduler.ChunkPlan} {chunk : List SeqId} (exclusive : Exclusive h.scheduler.pool ids)
    (member : ∀ c, plan.scheduledChunked = some c → c ∈ ids)
    (run : onScheduler (Scheduler.appendChunk plan) h = .ok chunk h') : Logged ids [] [] h h' :=
  quiet run (fun _ inner => by
    have keeps := Keeps.appendChunk exclusive member inner 0
    refine ⟨keeps.exclusive, keeps.evolves.size, ?_⟩
    rcases (Scheduler.appendChunk_ok inner).2 with same | ⟨c, -, called⟩
    · rw [same]
    · exact Call.hits called)

end Logged

/-- What preemption did: the hook counts the requests, and nothing else is logged. -/
structure Preempts (h h' : Hooked) (tail : List SeqId) : Prop where
  initialItems : h'.initialItems = h.initialItems
  sameStepItems : h'.sameStepItems = h.sameStepItems
  metrics : h'.metrics = tail.foldl (fun m i => m.preempted i) h.metrics
  none : tail = [] → h' = h

theorem preemptDecodeTailFrom_ok {h h' : Hooked} {fuel : Nat} (run : preemptDecodeTailFrom fuel h = .ok () h') :
    ∃ tail, Preempts h h' tail := by
  induction fuel generalizing h with
  | zero =>
      cases run
      exact ⟨[], rfl, rfl, rfl, fun _ => rfl⟩
  | succ fuel ih =>
      simp only [preemptDecodeTailFrom, run_get_bind] at run
      cases last : h.scheduler.running.getLast? with
      | none =>
          rw [last] at run
          cases run
          exact ⟨[], rfl, rfl, rfl, fun _ => rfl⟩
      | some tail =>
          simp only [last] at run
          obtain ⟨decodeBlocks, -, run⟩ := run_ofExcept_ok run
          split at run
          next =>
            cases run
            exact ⟨[], rfl, rfl, rfl, fun _ => rfl⟩
          next =>
            obtain ⟨⟨⟩, h₁, popped, run⟩ := run_bind_ok run
            obtain ⟨⟨⟩, h₂, hooked, run⟩ := run_bind_ok run
            obtain ⟨⟨⟩, h₃, preempted, hooked⟩ := run_bind_ok hooked
            obtain ⟨s₁, -, rfl⟩ := run_zoom_ok popped
            obtain ⟨s₂, -, rfl⟩ := run_zoom_ok preempted
            cases hooked
            obtain ⟨more, later⟩ := ih run
            exact ⟨tail :: more, later.initialItems, later.sameStepItems, later.metrics, nofun⟩

theorem onScheduler_silent {α : Type} {x : Sched α} {a : α} {h h' : Hooked} (run : onScheduler x h = .ok a h') :
    h' = { h with scheduler := h'.scheduler } := by
  obtain ⟨s, -, rfl⟩ := run_zoom_ok run
  rfl

theorem forEach_silent {ι : Type} {body : ι → Sched Unit} {xs : List ι} {h h' : Hooked}
    (run : forEach (fun x => onScheduler (body x)) xs h = .ok () h') : h' = { h with scheduler := h'.scheduler } := by
  induction xs generalizing h with
  | nil =>
      cases run
      rfl
  | cons x xs ih =>
      obtain ⟨⟨⟩, h₁, first, run⟩ := run_bind_ok run
      rw [ih run, onScheduler_silent first]

theorem ending_silent {decodeSeqs prefillSeqs ranked batch : List SeqId} {found : Dict SeqId (List BlockId)}
    {h h' : Hooked}
    (run : (do
      forEach (fun i => onScheduler (Scheduler.appendDecode i)) decodeSeqs
      let scheduled := prefillSeqs ++ decodeSeqs
      if scheduled = [] then
        onScheduler (Scheduler.raiseNoProgress ranked found)
      onScheduler (modify (fun s : Scheduler => s.counted prefillSeqs))
      pure scheduled) h = .ok batch h') : h' = { h with scheduler := h'.scheduler } := by
  obtain ⟨⟨⟩, h₁, decoding, run⟩ := run_bind_ok run
  dsimp only at run
  split at run
  next =>
    obtain ⟨⟨⟩, h₂, raised, run⟩ := run_bind_ok run
    obtain ⟨⟨⟩, h₃, counted, run⟩ := run_bind_ok run
    cases run
    rw [onScheduler_silent counted, onScheduler_silent raised, forEach_silent decoding]
  next =>
    obtain ⟨⟨⟩, h₃, counted, run⟩ := run_bind_ok run
    cases run
    rw [onScheduler_silent counted, forEach_silent decoding]

section Schedule

variable {cache : Cache} {s u s₂ : Scheduler} {ids : Finset SeqId} {tail ranked result batch : List SeqId}
  {plan : Scheduler.ChunkPlan} {found : Dict SeqId (List BlockId)} {entries : List Entry} {h h' : Hooked}

theorem admitted_logged (phases : Scheduler.Phases cache s h.scheduler s₂ ids tail plan ranked found entries)
    (run : (if h.scheduler.config.enableSameStepPrefixReuse then
        admitSameStep plan ranked found (h.scheduler.reserve h.scheduler.running) h.scheduler.active
      else admitFrozen plan ranked found h.scheduler.active) h = .ok result h') :
    h'.scheduler = s₂ ∧ result = Scheduler.prefillSeqs plan entries ∧
      ∃ hits, Logged ids hits hits h h' ∧ hits.map Hit.seqId = entries.map Entry.seqId := by
  have inv := phases.inv
  have seen := Watches.returns (Watches.ite _ (admitSameStep_watches _ _ _ _ _) (admitFrozen_watches _ _ _ _)) run
  rw [phases.prefilling, EStateM.Result.ok.injEq] at seen
  obtain ⟨whole, same⟩ := seen
  refine ⟨same.symm, whole.symm, ?_⟩
  have members (j : SeqId) (listed : j ∈ ranked) : j ∈ ids := (inv.waiting_mem (phases.ranks.waits j listed)).1
  split at run
  next =>
    obtain ⟨chunk, h₁, resumed, run⟩ := run_bind_ok run
    obtain ⟨committed, h₂, looped, run⟩ := run_bind_ok run
    cases run
    have first := Logged.appendChunk inv.exclusive phases.chunk_mem resumed
    obtain ⟨hits, logged, all⟩ := Logged.commitWaiting first.exclusive members looped
    rw [(Scheduler.appendChunk_ok ((onScheduler_watches _).returns resumed)).1] at whole
    exact ⟨hits, first.trans logged, all.symm.trans (Scheduler.committed_eq whole.symm)⟩
  next =>
    rw [admitFrozen, run_get_bind] at run
    obtain ⟨admitted, planned, run⟩ := run_ofExcept_ok run
    obtain ⟨⟨⟩, h₁, claimed, run⟩ := run_bind_ok run
    obtain ⟨chunk, h₂, resumed, run⟩ := run_bind_ok run
    obtain ⟨⟨⟩, h₃, allocated, run⟩ := run_bind_ok run
    cases run
    rw [(Scheduler.appendChunk_ok ((onScheduler_watches _).returns resumed)).1] at whole
    have all := Scheduler.committed_eq whole.symm
    have inside : ∀ a ∈ admitted, a.seqId ∈ ids := fun a listed =>
      members a.seqId (phases.prefilled.order.subset (all ▸ List.mem_map_of_mem listed))
    have first := Logged.claimAdmitted inv.exclusive inside claimed
    have second := Logged.appendChunk first.exclusive phases.chunk_mem resumed
    have logged := (first.trans second).trans (Logged.allocateAdmitted second.exclusive inside allocated)
    rw [List.append_nil, List.append_nil, List.nil_append, List.nil_append] at logged
    refine ⟨_, logged, ?_⟩
    rw [List.map_map]
    exact all

/-- What a step logged: `hits` are its admissions, and `gone` the requests that it preempted. -/
structure Scheduling (h h' : Hooked) (batch : List SeqId) (hits : List Hit) (gone : List SeqId) : Prop where
  scheduled : Scheduler.schedule h.scheduler = .ok batch h'.scheduler
  agrees : h'.Agrees
  initialItems : h'.initialItems = Items.tally (hits.map Hit.initial) Items.empty
  sameStepItems : h'.sameStepItems = Items.tally (hits.map Hit.sameStep) Items.empty
  metrics : h'.metrics = hits.foldl
    (fun m e => m.claimed h'.scheduler.blockManager.blockSize e.seqId e.latestBlocks)
    (gone.foldl (fun m i => m.preempted i) h.metrics)
  once : (hits.map Hit.seqId).Nodup
  inside : ∀ i ∈ hits.map Hit.seqId, i ∈ batch
  calm : gone = [] → Scheduler.preemptDecodeTail h.scheduler.resetCounters = .ok () h.scheduler.resetCounters

theorem schedule_phases (phases : Scheduler.Phases cache h.scheduler u s₂ ids tail plan ranked found entries)
    (run : schedule h = .ok batch h') : ∃ h₁ h₂ gone prefillSeqs, h₁.scheduler = u ∧ Preempts h.resetCounters h₁ gone ∧
      (if u.config.enableSameStepPrefixReuse then admitSameStep plan ranked found (u.reserve u.running) u.active
        else admitFrozen plan ranked found u.active) h₁ = .ok prefillSeqs h₂ ∧
      h' = { h₂ with scheduler := h'.scheduler } := by
  simp only [schedule, run_modify_bind] at run
  obtain ⟨⟨⟩, h₁, preempted, run⟩ := run_bind_ok run
  cases phases.preempting.symm.trans (preemptDecodeTail_watches.returns preempted)
  rw [preemptDecodeTail, run_get_bind] at preempted
  obtain ⟨gone, preempts⟩ := preemptDecodeTailFrom_ok preempted
  rw [run_get_bind] at run
  obtain ⟨decodeBlocks, blocks, run⟩ := run_ofExcept_ok run
  obtain ⟨-, run⟩ := run_require_ok run
  obtain ⟨plan', planning, run⟩ := run_ofExcept_ok run
  obtain ⟨⟨ranked', found'⟩, ranking, run⟩ := run_ofExcept_ok run
  have reserved := Scheduler.blocksToAppend_ok (phases.inv.sizes (fun i runs => (phases.inv.running_mem runs).1))
  cases reserved.symm.trans blocks
  cases phases.planning.symm.trans planning
  cases phases.ranking.symm.trans ranking
  dsimp only at run
  split at run
  next mode =>
    rw [if_pos mode]
    obtain ⟨prefillSeqs, h₂, admitting, run⟩ := run_bind_ok run
    exact ⟨h₁, h₂, gone, prefillSeqs, rfl, preempts, admitting, ending_silent run⟩
  next mode =>
    rw [if_neg mode]
    obtain ⟨prefillSeqs, h₂, admitting, run⟩ := run_bind_ok run
    exact ⟨h₁, h₂, gone, prefillSeqs, rfl, preempts, admitting, ending_silent run⟩

theorem schedule_scheduling (inv : Inv cache h.scheduler ids) (run : schedule h = .ok batch h') :
    ∃ hits gone, Scheduling h h' batch hits gone := by
  have scheduled := schedule_watches.returns run
  obtain ⟨s₁, s₂, tail, plan, ranked, found, entries, phases, outcome⟩ := inv.schedule
  rw [scheduled] at outcome
  obtain ⟨h₁, h₂, gone, prefillSeqs, rfl, preempts, admitting, silent⟩ := schedule_phases phases run
  obtain ⟨same, -, hits, logged, ids'⟩ := admitted_logged phases admitting
  generalize result : EStateM.Result.ok batch h'.scheduler = ended at outcome
  cases outcome with
  | phase s₃ split decoding decoded many => cases result
  | stuck none idle kind => cases result
  | batch s₃ decoding decoded some' =>
      rw [EStateM.Result.ok.injEq] at result
      obtain ⟨whole, last⟩ := result
      have shape := phases.batch decoded some'
      have running : (s₃.counted (Scheduler.prefillSeqs plan entries)).running = h₁.scheduler.running :=
        decoded.stage.running
      have once := shape.once
      rw [running] at once
      have listed : (hits.map Hit.seqId).Sublist batch := by
        rw [ids', whole]
        exact (List.sublist_append_right _ _).trans (List.sublist_append_left _ _)
      refine ⟨hits, gone, ?_⟩
      constructor
      case scheduled => exact scheduled
      case agrees =>
        have empty : (resetCounters h).Agrees := ⟨fun _ => rfl, fun _ => rfl⟩
        have before := empty.congr preempts.initialItems preempts.sameStepItems
          (Scheduler.preemptDecodeTail_hits phases.preempting)
        refine (logged.agrees before).congr (by rw [silent]) (by rw [silent]) (funext fun i => ?_)
        rw [last, same]
        exact (phases.decodes_keep (same ▸ logged.exclusive) decoding i).hits
      case initialItems =>
        rw [silent, logged.initialItems, preempts.initialItems]
        rfl
      case sameStepItems =>
        rw [silent, logged.sameStepItems, preempts.sameStepItems]
        rfl
      case metrics =>
        have size : h'.scheduler.blockManager.blockSize = h₁.scheduler.blockManager.blockSize := by
          rw [last]
          exact decoded.stage.size
        rw [size, silent, logged.metrics, preempts.metrics]
        rfl
      case once => exact listed.nodup (whole ▸ once)
      case inside => exact listed.subset
      case calm =>
        intro none
        have still := phases.preempting
        rw [preempts.none none] at still
        exact still

end Schedule

end Hooked

end NanoVllm
