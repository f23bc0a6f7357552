import NanoVllm.Steps.Evolves

set_option autoImplicit false

namespace NanoVllm

open Python Raising

namespace Scheduler

-- The entries of the hit counters for a request.
def hits (s : Scheduler) (i : SeqId) : Option Nat × Option Nat :=
  (s.initialPersistentHitBlocksBySeq i, s.sameStepHitBlocksBySeq i)

variable {s t v : Scheduler} {i j : SeqId} {found : Dict SeqId (List BlockId)}
  {reserved active tokenBudget : Nat} {ranked rest front committed result : List SeqId}

theorem onSeq_hits {α : Type} {x : Method α} {a : α} (run : onSeq i x s = .ok a t) : t.hits = s.hits := by
  obtain ⟨f, -, rfl⟩ := onSeq_ok run
  rfl

theorem preemptDecodeTail_hits (run : preemptDecodeTail s = .ok () t) : t.hits = s.hits := by
  have turns (fuel : Nat) (s : Scheduler) (run : preemptDecodeTailFrom fuel s = .ok () t) : t.hits = s.hits := by
    induction fuel generalizing s with
    | zero =>
        cases run
        rfl
    | succ fuel ih =>
        simp only [preemptDecodeTailFrom, run_get_bind] at run
        cases last : s.running.getLast? with
        | none =>
            simp only [last] at run
            cases run
            rfl
        | some tail =>
            simp only [last] at run
            obtain ⟨decodeBlocks, -, run⟩ := run_ofExcept_ok run
            split at run
            next =>
              cases run
              rfl
            next =>
              rw [run_modify_bind] at run
              obtain ⟨⟨⟩, u, preempted, run⟩ := run_bind_ok run
              simp only [preempt, run_modifySeq_bind] at preempted
              obtain ⟨⟨⟩, v, released, preempted⟩ := run_bind_ok preempted
              cases preempted
              have kept : v.hits = s.hits := (onSeq_hits released).trans rfl
              exact (ih _ run).trans kept
  simp only [preemptDecodeTail, run_get_bind] at run
  exact turns _ s run

theorem entered_hits_of_ne (other : j ≠ i) (initialBlocks latestBlocks : Nat) :
    (s.entered i initialBlocks latestBlocks).hits j = s.hits j := by
  simp only [hits, entered, recorded, setSeq, Dict.insert]
  split <;> split <;> simp [other]

theorem entered_hits_self (fresh : s.hits i = (none, none)) (initialBlocks latestBlocks : Nat) :
    ((s.entered i initialBlocks latestBlocks).hits i).1.getD 0 = min initialBlocks latestBlocks ∧
      ((s.entered i initialBlocks latestBlocks).hits i).2.getD 0 = latestBlocks - initialBlocks := by
  obtain ⟨left, right⟩ := Prod.mk.inj fresh
  simp only [hits, entered, recorded, setSeq, Dict.insert]
  constructor
  · split
    next => simp
    next zero => simpa [left] using (not_not.mp zero).symm
  · split
    next => simp
    next zero => simpa [right] using (not_not.mp zero).symm

/-- What an admission does between its lookup and its place in the batch. -/
structure Commits (found : Dict SeqId (List BlockId)) (s s' : Scheduler) (i : SeqId) (blocks : List BlockId) (n : Nat) :
    Prop where
  matched : s.blockManager.matchPrefix (s.seqs i) = .ok blocks
  calls : ∃ s₁ s₂ initial, (Call.claim i blocks n).run s = .ok () s₁ ∧ (Call.allocate i n).run s₁ = .ok () s₂ ∧
    prefixesOf found i = .ok initial ∧ s' = s₂.entered i initial.length blocks.length

theorem commit_cases
    (run : commitWaitingSameStepFrom found reserved active (i :: rest) tokenBudget committed s = .ok result t) :
    (result = committed ∧ t = s) ∨ ∃ s' blocks n, Commits found s s' i blocks n ∧
      ((∀ rest, commitWaitingSameStepFrom found reserved active (i :: rest) tokenBudget committed s =
        .ok (committed ++ [i]) s') ∨
      ∀ rest, commitWaitingSameStepFrom found reserved active (i :: rest) tokenBudget committed s =
        commitWaitingSameStepFrom found reserved active rest (tokenBudget - n) (committed ++ [i]) s') := by
  simp only [commitWaitingSameStepFrom, run_get_bind] at run ⊢
  by_cases seat : active + committed.length ≥ s.config.maxNumSeqs
  · rw [if_pos seat] at run
    cases run
    exact .inl ⟨rfl, rfl⟩
  simp only [if_neg seat] at run ⊢
  obtain ⟨blocks, matched, run⟩ := run_ofExcept_ok run
  obtain ⟨remaining, run⟩ := run_require_ok run
  simp only [run_ofExcept_bind matched, run_require_bind remaining]
  split at run
  next =>
    cases run
    exact .inl ⟨rfl, rfl⟩
  next small =>
    split at run
    next =>
      cases run
      exact .inl ⟨rfl, rfl⟩
    next some' =>
      simp only [if_neg small, if_neg some']
      obtain ⟨required, cost, run⟩ := run_ofExcept_ok run
      obtain ⟨room, run⟩ := run_require_ok run
      simp only [run_ofExcept_bind cost, run_require_bind room]
      split at run
      next =>
        cases run
        exact .inl ⟨rfl, rfl⟩
      next fits =>
        simp only [if_neg fits]
        obtain ⟨⟨⟩, s₁, claimed, run⟩ := run_bind_ok run
        rw [run_modifySeq_bind] at run
        obtain ⟨⟨⟩, s₂, allocated, run⟩ := run_bind_ok run
        obtain ⟨initial, known, run⟩ := run_ofExcept_ok run
        have waits : i ∈ s₂.waiting := by
          rw [bind_ok (recordPrefixHits_run s₂ i initial.length blocks.length), run_modifySeq_bind] at run
          obtain ⟨⟨⟩, s₃, removed, -⟩ := run_bind_ok run
          simp only [removeWaiting, run_get_bind] at removed
          exact (run_require_ok removed).1
        refine .inr ⟨s₂.entered i initial.length blocks.length, blocks,
          min ((s.seqs i).numTokens - ((s.seqs i).numCachedTokens + blocks.length * s.blockManager.blockSize))
            tokenBudget, ⟨matched, s₁, s₂, initial, claimed, ?_, known, rfl⟩, ?_⟩
        · simp only [Call.run, run_modifySeq_bind]
          exact allocated
        · by_cases part : min ((s.seqs i).numTokens -
                ((s.seqs i).numCachedTokens + blocks.length * s.blockManager.blockSize)) tokenBudget <
              (s.seqs i).numTokens - ((s.seqs i).numCachedTokens + blocks.length * s.blockManager.blockSize)
          · left
            intro rest
            rw [bind_ok claimed, run_modifySeq_bind, bind_ok allocated, run_ofExcept_bind known, entered_run waits,
              if_pos part]
            rfl
          · right
            intro rest
            rw [bind_ok claimed, run_modifySeq_bind, bind_ok allocated, run_ofExcept_bind known, entered_run waits,
              if_neg part]

theorem commit_split
    (run : commitWaitingSameStepFrom found reserved active (front ++ i :: rest) tokenBudget committed s = .ok result t)
    (admitted : i ∈ result) (fresh : i ∉ committed) (apart : i ∉ front) :
    ∃ v left,
      commitWaitingSameStepFrom found reserved active front tokenBudget committed s = .ok (committed ++ front) v ∧
      commitWaitingSameStepFrom found reserved active (i :: rest) left (committed ++ front) v = .ok result t := by
  induction front generalizing s tokenBudget committed with
  | nil => exact ⟨s, tokenBudget, by rw [List.append_nil]; rfl, by rwa [List.append_nil]⟩
  | cons j front ih =>
      rw [List.mem_cons, not_or] at apart
      have fresh' : i ∉ committed ++ [j] := by
        rw [List.mem_append, List.mem_singleton, not_or]
        exact ⟨fresh, apart.1⟩
      rcases commit_cases run with ⟨rfl, -⟩ | ⟨s', blocks, n, -, turn | turn⟩
      · exact absurd admitted fresh
      · cases run.symm.trans (turn (front ++ i :: rest))
        exact absurd admitted fresh'
      · rw [List.cons_append, turn (front ++ i :: rest)] at run
        obtain ⟨v, left, run', later⟩ := ih run fresh' apart.2
        rw [List.append_assoc, List.singleton_append] at run' later
        exact ⟨v, left, (turn front).trans run', later⟩

theorem commit_grows
    (run : commitWaitingSameStepFrom found reserved active ranked tokenBudget committed s = .ok result t) :
    committed <+: result := by
  induction ranked generalizing s tokenBudget committed with
  | nil =>
      cases run
      exact List.prefix_rfl
  | cons j rest ih =>
      rcases commit_cases run with ⟨rfl, -⟩ | ⟨s', blocks, n, -, turn | turn⟩
      · exact List.prefix_rfl
      · cases run.symm.trans (turn rest)
        exact List.prefix_append _ _
      · rw [turn rest] at run
        exact (List.prefix_append committed [j]).trans (ih run)

theorem appendChunk_ok {plan : ChunkPlan} {chunk : List SeqId} (run : appendChunk plan s = .ok chunk t) :
    chunk = plan.scheduledChunked.toList ∧ (t = s ∨ ∃ c, plan.scheduledChunked = some c ∧
      (Call.append c plan.chunkedTokens).run s = .ok () t) := by
  simp only [appendChunk] at run
  cases resumed : plan.scheduledChunked with
  | none =>
      simp only [resumed] at run
      cases run
      exact ⟨rfl, .inl rfl⟩
  | some c =>
      simp only [resumed, run_modifySeq_bind] at run
      obtain ⟨⟨⟩, u, appended, run⟩ := run_bind_ok run
      cases run
      refine ⟨rfl, .inr ⟨c, rfl, ?_⟩⟩
      simp only [Call.run, run_modifySeq_bind]
      exact appended

theorem allocateAdmitted_ok {a : Admission} (run : allocateAdmitted a s = .ok () t) :
    ∃ v n, (Call.allocate a.seqId n).run s = .ok () v ∧
      t = v.entered a.seqId a.initialBlocks.length a.initialBlocks.length := by
  simp only [allocateAdmitted, run_modifySeq_bind, run_get_bind] at run
  obtain ⟨-, run⟩ := run_require_ok run
  obtain ⟨⟨⟩, v, allocated, run⟩ := run_bind_ok run
  have waits : a.seqId ∈ v.waiting := by
    rw [bind_ok (recordPrefixHits_run v a.seqId _ _), run_modifySeq_bind] at run
    simp only [removeWaiting, run_get_bind] at run
    exact (run_require_ok run).1
  refine ⟨v, a.contextEnd - (s.seqs a.seqId).numCachedTokens, ?_, ?_⟩
  · simp only [Call.run, run_modifySeq_bind]
    exact allocated
  · cases run.symm.trans (enter_run waits _ _)
    rfl

theorem planFrozenFrom_initial {freeBudget : Nat} {protectedFreeIds : Finset BlockId} {before admitted : List Admission}
    (known : ∀ a ∈ before, prefixesOf found a.seqId = .ok a.initialBlocks)
    (planned : s.planFrozenFrom found active ranked tokenBudget freeBudget protectedFreeIds before = .ok admitted) :
    ∀ a ∈ admitted, prefixesOf found a.seqId = .ok a.initialBlocks := by
  induction ranked generalizing tokenBudget freeBudget protectedFreeIds before with
  | nil =>
      cases planned
      exact known
  | cons i rest ih =>
      simp only [planFrozenFrom] at planned
      split at planned
      next =>
        cases planned
        exact known
      next =>
        obtain ⟨initial, own, planned⟩ := except_bind_ok planned
        obtain ⟨_, -, planned⟩ := except_bind_ok planned
        have grown (contextEnd : Nat) :
            ∀ a ∈ before ++ [⟨i, initial, contextEnd⟩], prefixesOf found a.seqId = .ok a.initialBlocks := by
          intro a listed
          rcases List.mem_append.mp listed with earlier | self
          · exact known a earlier
          · rw [List.mem_singleton.mp self]
            exact own
        split at planned
        next =>
          cases planned
          exact known
        next =>
          split at planned
          next =>
            cases planned
            exact known
          next =>
            split at planned
            next =>
              cases planned
              exact known
            next =>
              split at planned
              next =>
                cases planned
                exact grown _
              next => exact ih (grown _) planned

end Scheduler

open Scheduler

theorem Exclusive.entered {ids : Finset SeqId} {s : Scheduler} (h : Exclusive s.pool ids) (i : SeqId)
    (initialBlocks latestBlocks : Nat) : Exclusive (s.entered i initialBlocks latestBlocks).pool ids := by
  refine h.congr rfl rfl (fun k => ?_) (fun k => ?_)
  all_goals
    by_cases self : k = i
    · subst self
      simp [Scheduler.entered, setSeq]
    · simp [Scheduler.entered, setSeq, Function.update_of_ne self, recorded]

/-- Pages are taken and published for a batch, but request `i` keeps the pages that it claimed, and its counters. -/
structure Keeps (ids : Finset SeqId) (s t : Scheduler) (i : SeqId) : Prop where
  exclusive : Exclusive t.pool ids
  evolves : Evolves s.blockManager t.blockManager
  table : (s.seqs i).blockTable <+: (t.seqs i).blockTable
  cached : (t.seqs i).numCachedTokens = (s.seqs i).numCachedTokens
  hits : t.hits i = s.hits i

namespace Keeps

variable {ids : Finset SeqId} {s t u : Scheduler} {i j : SeqId} {found : Dict SeqId (List BlockId)}
  {reserved active tokenBudget : Nat} {ranked committed result : List SeqId}

theorem refl (h : Exclusive s.pool ids) (i : SeqId) : Keeps ids s s i := ⟨h, Evolves.refl, List.prefix_rfl, rfl, rfl⟩

theorem trans (h : Keeps ids s t i) (h' : Keeps ids t u i) : Keeps ids s u i where
  exclusive := h'.exclusive
  evolves := h.evolves.trans h'.evolves
  table := h.table.trans h'.table
  cached := h'.cached.trans h.cached
  hits := h'.hits.trans h.hits

theorem call (call : Call) (h : Exclusive s.pool ids) (member : call.seqId ∈ ids) (run : call.run s = .ok () t)
    (apart : ∀ blockIds n, call ≠ .claim i blockIds n) : Keeps ids s t i := by
  suffices kept : (s.seqs i).blockTable <+: (t.seqs i).blockTable ∧
      (t.seqs i).numCachedTokens = (s.seqs i).numCachedTokens ∧ t.hits i = s.hits i from
    ⟨call.exclusive h member run, call.evolves h member run, kept.1, kept.2.1, kept.2.2⟩
  -- The one sequence that a call changes.
  have grown {j : SeqId} {n : Nat} {f : Frame}
      (frame : ((s.setSeq j { s.seqs j with numNewTokens := n }).pool.frame j).Grown f) :
      (s.seqs i).blockTable <+: (((s.setSeq j { s.seqs j with numNewTokens := n }).store j f).seqs i).blockTable ∧
        (((s.setSeq j { s.seqs j with numNewTokens := n }).store j f).seqs i).numCachedTokens =
          (s.seqs i).numCachedTokens := by
    obtain ⟨fresh, seq, -⟩ := frame
    rw [Pool.frame, pool_seqs, setSeq_seqs_self] at seq
    by_cases self : i = j
    · subst self
      simp [Scheduler.store, seq]
    · simp [Scheduler.store, Function.update_of_ne self, setSeq_seqs_of_ne s _ self]
  cases call with
  | claim j blockIds n =>
      have other : i ≠ j := by
        rintro rfl
        exact apart blockIds n rfl
      obtain ⟨f, -, rfl⟩ := onSeq_ok run
      have same : (s.store j f).seqs i = s.seqs i := Function.update_of_ne other _ _
      rw [same]
      exact ⟨List.prefix_rfl, rfl, rfl⟩
  | allocate j n =>
      simp only [Call.run, run_modifySeq_bind] at run
      obtain ⟨f, inner, rfl⟩ := onSeq_ok run
      obtain ⟨table, cached⟩ := grown (BlockManager.allocateNew_grown inner)
      exact ⟨table, cached, rfl⟩
  | append j n =>
      simp only [Call.run, run_modifySeq_bind] at run
      obtain ⟨f, inner, rfl⟩ := onSeq_ok run
      obtain ⟨table, cached⟩ := grown (BlockManager.mayAppend_grown inner)
      exact ⟨table, cached, rfl⟩

theorem entered (h : Exclusive s.pool ids) (other : i ≠ j) (initialBlocks latestBlocks : Nat) :
    Keeps ids s (s.entered j initialBlocks latestBlocks) i where
  exclusive := h.entered j _ _
  evolves := Evolves.refl
  table := by simp [Scheduler.entered, setSeq, Function.update_of_ne other, recorded]
  cached := by simp [Scheduler.entered, setSeq, Function.update_of_ne other, recorded]
  hits := entered_hits_of_ne other _ _

theorem forEach {ι : Type} {body : ι → Sched Unit} {xs : List ι} (h : Exclusive s.pool ids)
    (turn : ∀ x ∈ xs, ∀ s t, Exclusive s.pool ids → body x s = .ok () t → Keeps ids s t i)
    (run : Raising.forEach body xs s = .ok () t) : Keeps ids s t i :=
  forEach_keeps (I := fun u => Keeps ids s u i)
    (fun e listed _ before called => before.trans (turn e.1 (fst_mem_of_mem_turns listed) _ _ before.exclusive called))
    (refl h i) run

theorem commits {blocks : List BlockId} {n : Nat} (h : Exclusive s.pool ids) (member : j ∈ ids)
    (commits : Commits found s t j blocks n) (other : i ≠ j) : Keeps ids s t i := by
  obtain ⟨s₁, s₂, initial, claimed, allocated, -, rfl⟩ := commits.calls
  have claim := Keeps.call (i := i) (.claim j blocks n) h member claimed
    (fun blockIds m same => other (congrArg Call.seqId same).symm)
  have allocate := Keeps.call (i := i) (.allocate j n) claim.exclusive member allocated (by simp)
  exact (claim.trans allocate).trans (entered allocate.exclusive other _ _)

theorem commitWaiting (h : Exclusive s.pool ids) (members : ∀ j ∈ ranked, j ∈ ids)
    (run : commitWaitingSameStepFrom found reserved active ranked tokenBudget committed s = .ok result t)
    (apart : ∀ j ∈ ranked, j ∈ result → i ≠ j) : Keeps ids s t i := by
  induction ranked generalizing s tokenBudget committed with
  | nil =>
      cases run
      exact refl h i
  | cons j rest ih =>
      rw [List.forall_mem_cons] at members apart
      rcases commit_cases run with ⟨-, rfl⟩ | ⟨s', blocks, n, one, turn | turn⟩
      · exact refl h i
      · cases run.symm.trans (turn rest)
        exact commits h members.1 one (apart.1 (by simp))
      · rw [turn rest] at run
        have first := commits h members.1 one (apart.1 ((commit_grows run).subset (by simp)))
        exact first.trans (ih first.exclusive members.2 run apart.2)

theorem claimAdmitted {a : Admission} (h : Exclusive s.pool ids) (member : a.seqId ∈ ids) (other : i ≠ a.seqId)
    (run : Scheduler.claimAdmitted a s = .ok () t) : Keeps ids s t i :=
  Keeps.call (.claim a.seqId a.initialBlocks 0) h member run
    (fun _ _ same => other (congrArg Call.seqId same).symm)

theorem allocateAdmitted {a : Admission} (h : Exclusive s.pool ids) (member : a.seqId ∈ ids) (other : i ≠ a.seqId)
    (run : Scheduler.allocateAdmitted a s = .ok () t) : Keeps ids s t i := by
  obtain ⟨v, n, allocated, rfl⟩ := allocateAdmitted_ok run
  have allocate := Keeps.call (i := i) (.allocate a.seqId n) h member allocated (by simp)
  exact allocate.trans (entered allocate.exclusive other _ _)

theorem appendChunk {plan : ChunkPlan} {chunk : List SeqId} (h : Exclusive s.pool ids)
    (member : ∀ c, plan.scheduledChunked = some c → c ∈ ids) (run : Scheduler.appendChunk plan s = .ok chunk t)
    (i : SeqId) : Keeps ids s t i := by
  rcases (appendChunk_ok run).2 with rfl | ⟨c, resumed, called⟩
  · exact refl h i
  · exact Keeps.call (.append c plan.chunkedTokens) h (member c resumed) called (by simp)

theorem appendDecodes {decodes : List SeqId} (h : Exclusive s.pool ids) (members : ∀ j ∈ decodes, j ∈ ids)
    (run : Raising.forEach appendDecode decodes s = .ok () t) (i : SeqId) : Keeps ids s t i := by
  refine forEach h (fun j listed s t h turn => ?_) run
  simp only [appendDecode, run_get_bind] at turn
  obtain ⟨-, turn⟩ := run_require_ok turn
  exact Keeps.call (.append j 1) h (members j listed) turn (by simp)

end Keeps

/-- Request `i` claims `blocks` in `s`, before anything takes them, and has them in `t`. -/
structure Holds (ids : Finset SeqId) (s t : Scheduler) (i : SeqId) (blocks : List BlockId) : Prop where
  exclusive : Exclusive t.pool ids
  claimed : ∃ m, Recounted s.blockManager m ∧ (∀ b ∈ blocks, b ∉ m.freeBlockIds) ∧ Evolves m t.blockManager
  table : blocks <+: (t.seqs i).blockTable
  cached : (t.seqs i).numCachedTokens = blocks.length * s.blockManager.blockSize

namespace Holds

variable {ids : Finset SeqId} {s t u : Scheduler} {i : SeqId} {blocks : List BlockId} {n : Nat}

theorem claim (h : Exclusive s.pool ids) (member : i ∈ ids) (idle : Idle (s.seqs i))
    (run : (Call.claim i blocks n).run s = .ok () t) : Holds ids s t i blocks := by
  have exclusive := (Call.claim i blocks n).exclusive h member run
  obtain ⟨f, inner, rfl⟩ := onSeq_ok run
  obtain ⟨-, shared, gone⟩ := BlockManager.claimPrefix_shared h.nodup inner
  have seq : (s.store i f).seqs i = f.seq := Function.update_self _ _ _
  refine ⟨exclusive, ⟨f.manager, BlockManager.claimPrefix_recounted inner, gone, Evolves.refl⟩, ?_, ?_⟩
  · rw [seq, shared.seq, Pool.frame, pool_seqs, idle.table]
    exact List.prefix_rfl
  · rw [seq, shared.seq, Pool.frame, pool_seqs, idle.cached]
    exact Nat.zero_add _

theorem trans (h : Holds ids s t i blocks) (later : Keeps ids t u i) : Holds ids s u i blocks where
  exclusive := later.exclusive
  claimed := by
    obtain ⟨m, recounted, gone, evolves⟩ := h.claimed
    exact ⟨m, recounted, gone, evolves.trans later.evolves⟩
  table := h.table.trans later.table
  cached := later.cached.trans h.cached

theorem before (h : Holds ids s t i blocks) (recounted : Recounted u.blockManager s.blockManager) :
    Holds ids u t i blocks where
  exclusive := h.exclusive
  claimed := by
    obtain ⟨m, recounted', gone, evolves⟩ := h.claimed
    exact ⟨m, recounted.trans recounted', gone, evolves⟩
  table := h.table
  cached := by rw [← recounted.size]; exact h.cached

theorem entered (h : Holds ids s t i blocks) (initialBlocks latestBlocks : Nat) :
    Holds ids s (t.entered i initialBlocks latestBlocks) i blocks where
  exclusive := h.exclusive.entered i _ _
  claimed := h.claimed
  table := by
    have table := h.table
    simpa [Scheduler.entered, setSeq] using table
  cached := by
    have cached := h.cached
    simpa [Scheduler.entered, setSeq] using cached

theorem content (h : Holds ids s t i blocks) {chain : Chain} (held : Held s.pool ids chain) {b : BlockId}
    (listed : b ∈ blocks) (published : (s.blockManager.blocks b).published) :
    (t.blockManager.blocks b).content = (s.blockManager.blocks b).content := by
  obtain ⟨m, recounted, gone, evolves⟩ := h.claimed
  have same := recounted.content b
  have identity (b : BlockId) := (congrArg Block.blockId (recounted.content b)).trans (held.accounting.identity b)
  have since := evolves.since identity (held.accounting.free_nodup.sublist recounted.free)
  have live : (m.blocks b).published := by
    rw [Block.published, (Block.content_eq same).2.1]
    exact published
  exact (since.kept b ⟨live, since.busy b (gone b listed)⟩).trans same

theorem commits {found : Dict SeqId (List BlockId)} (h : Exclusive s.pool ids) (member : i ∈ ids)
    (idle : Idle (s.seqs i)) (fresh : s.hits i = (none, none)) (commits : Commits found s t i blocks n) :
    Holds ids s t i blocks ∧ ∃ initial, prefixesOf found i = .ok initial ∧
      (t.hits i).1.getD 0 = min initial.length blocks.length ∧ (t.hits i).2.getD 0 = blocks.length - initial.length := by
  obtain ⟨s₁, s₂, initial, claimed, allocated, known, rfl⟩ := commits.calls
  have holds := Holds.claim h member idle claimed
  have allocate := Keeps.call (i := i) (.allocate i n) holds.exclusive member allocated (by simp)
  have none : s₂.hits i = (none, none) := by
    rw [allocate.hits, onSeq_hits claimed]
    exact fresh
  exact ⟨(holds.trans allocate).entered _ _, initial, known, entered_hits_self none _ _⟩

theorem claimAdmitted {admitted : List Admission} {a : Admission} (h : Exclusive s.pool ids)
    (members : ∀ a ∈ admitted, a.seqId ∈ ids) (once : (admitted.map Admission.seqId).Nodup) (listed : a ∈ admitted)
    (idle : Idle (s.seqs a.seqId)) (run : Raising.forEach Scheduler.claimAdmitted admitted s = .ok () t) :
    Holds ids s t a.seqId a.initialBlocks ∧ t.hits a.seqId = s.hits a.seqId := by
  obtain ⟨front, rest, rfl⟩ := List.append_of_mem listed
  rw [List.map_append, List.map_cons, List.nodup_middle, List.nodup_cons, ← List.map_append] at once
  have other (c : Admission) (inside : c ∈ front ++ rest) : a.seqId ≠ c.seqId :=
    (ne_of_mem_of_not_mem (List.mem_map_of_mem inside) once.1).symm
  obtain ⟨v, first, later⟩ := forEach_append_ok run
  obtain ⟨⟨⟩, w, own, later⟩ := run_bind_ok later
  have front' := Keeps.forEach h (fun c inside _ _ h => Keeps.claimAdmitted h
    (members c (List.mem_append_left _ inside)) (other c (List.mem_append_left _ inside))) first
  have recounted : Recounted s.blockManager v.blockManager ∧ v.seqs a.seqId = s.seqs a.seqId := by
    refine forEach_keeps (I := fun u => Recounted s.blockManager u.blockManager ∧ u.seqs a.seqId = s.seqs a.seqId)
      (fun e inside u past turn => ?_) ⟨Recounted.refl _, rfl⟩ first
    have apart := other e.1 (List.mem_append_left _ (fst_mem_of_mem_turns inside))
    obtain ⟨f, inner, rfl⟩ := onSeq_ok turn
    exact ⟨past.1.trans (BlockManager.claimPrefix_recounted inner), (Function.update_of_ne apart _ _).trans past.2⟩
  have holds := Holds.claim (n := 0) front'.exclusive (members a (by simp)) (recounted.2 ▸ idle) own
  have rest' := Keeps.forEach holds.exclusive (fun c inside _ _ h => Keeps.claimAdmitted h
    (members c (by simp [inside])) (other c (List.mem_append_right _ inside))) later
  refine ⟨(holds.trans rest').before recounted.1, ?_⟩
  rw [rest'.hits, onSeq_hits own, front'.hits]

theorem allocateAdmitted {admitted : List Admission} {a : Admission} (h : Holds ids s t a.seqId blocks)
    (members : ∀ a ∈ admitted, a.seqId ∈ ids) (once : (admitted.map Admission.seqId).Nodup) (listed : a ∈ admitted)
    (fresh : t.hits a.seqId = (none, none)) (run : Raising.forEach Scheduler.allocateAdmitted admitted t = .ok () u) :
    Holds ids s u a.seqId blocks ∧ (u.hits a.seqId).1.getD 0 = a.initialBlocks.length ∧
      (u.hits a.seqId).2.getD 0 = 0 := by
  obtain ⟨front, rest, rfl⟩ := List.append_of_mem listed
  rw [List.map_append, List.map_cons, List.nodup_middle, List.nodup_cons, ← List.map_append] at once
  have other (c : Admission) (inside : c ∈ front ++ rest) : a.seqId ≠ c.seqId :=
    (ne_of_mem_of_not_mem (List.mem_map_of_mem inside) once.1).symm
  obtain ⟨v, first, later⟩ := forEach_append_ok run
  obtain ⟨⟨⟩, w, own, later⟩ := run_bind_ok later
  have front' := Keeps.forEach h.exclusive (fun c inside _ _ h => Keeps.allocateAdmitted h
    (members c (List.mem_append_left _ inside)) (other c (List.mem_append_left _ inside))) first
  obtain ⟨x, n, allocated, rfl⟩ := allocateAdmitted_ok own
  have allocate := Keeps.call (i := a.seqId) (.allocate a.seqId n) front'.exclusive (members a (by simp)) allocated
    (by simp)
  have none : x.hits a.seqId = (none, none) := by rw [allocate.hits, front'.hits, fresh]
  have holds := ((h.trans front').trans allocate).entered a.initialBlocks.length a.initialBlocks.length
  have rest' := Keeps.forEach holds.exclusive (fun c inside _ _ h => Keeps.allocateAdmitted h
    (members c (by simp [inside])) (other c (List.mem_append_right _ inside))) later
  refine ⟨holds.trans rest', ?_⟩
  rw [rest'.hits]
  obtain ⟨initial, sameStep⟩ := entered_hits_self none a.initialBlocks.length a.initialBlocks.length
  exact ⟨initial.trans (Nat.min_self _), sameStep.trans (Nat.sub_self _)⟩

end Holds

end NanoVllm
