import NanoVllm.Steps.Rank

set_option autoImplicit false

namespace NanoVllm

open Python Raising

namespace Entry

def Whole (s : Scheduler) (e : Entry) : Prop :=
  e.blockIds.length * s.blockManager.blockSize + e.numNewTokens = (s.seqs e.seqId).numTokens

-- The calls of entries that are committed one by one.
def commits (entries : List Entry) : List Call := entries.flatMap (fun e => [e.claim, e.allocate])

end Entry

/-- The entries keep within the token budget and the seats, and only the last one is partial. -/
structure Fits (s : Scheduler) (tokenBudget active : Nat) (entries : List Entry) : Prop where
  full : ∀ e ∈ entries.dropLast, e.Whole s
  whole : s.config.chunkedPrefill = false → ∀ e ∈ entries, e.Whole s
  tokens : (entries.map Entry.numNewTokens).sum ≤ tokenBudget
  seats : entries ≠ [] → active + entries.length ≤ s.config.maxNumSeqs

namespace Fits

variable {s : Scheduler} {tokenBudget active : Nat} {e : Entry} {entries : List Entry}

theorem nil : Fits s tokenBudget active [] := ⟨by simp, by simp, by simp, by simp⟩

theorem single (whole : s.config.chunkedPrefill = false → e.Whole s) (tokens : e.numNewTokens ≤ tokenBudget)
    (seat : active < s.config.maxNumSeqs) : Fits s tokenBudget active [e] :=
  ⟨by simp, fun plain e' listed => (List.mem_singleton.mp listed) ▸ whole plain, by simpa using tokens,
    fun _ => seat⟩

theorem cons (whole : e.Whole s) (tokens : e.numNewTokens ≤ tokenBudget) (seat : active < s.config.maxNumSeqs)
    (rest : Fits s (tokenBudget - e.numNewTokens) (active + 1) entries) : Fits s tokenBudget active (e :: entries) where
  full e' listed := by
    cases entries with
    | nil => simp at listed
    | cons next more =>
        rw [List.dropLast_cons_cons] at listed
        rcases List.mem_cons.mp listed with rfl | later
        · exact whole
        · exact rest.full e' later
  whole plain e' listed := by
    rcases List.mem_cons.mp listed with rfl | later
    · exact whole
    · exact rest.whole plain e' later
  tokens := by
    have := rest.tokens
    rw [List.map_cons, List.sum_cons]
    omega
  seats _ := by
    cases entries with
    | nil => exact seat
    | cons next more =>
        have := rest.seats (List.cons_ne_nil next more)
        simp only [List.length_cons] at this ⊢
        omega

theorem tail (h : Fits s tokenBudget active (e :: entries)) :
    Fits s (tokenBudget - e.numNewTokens) (active + 1) entries where
  full a listed := by
    refine h.full a ?_
    cases entries with
    | nil => simp at listed
    | cons next more =>
        rw [List.dropLast_cons_cons]
        exact List.mem_cons_of_mem e listed
  whole plain a listed := h.whole plain a (List.mem_cons_of_mem e listed)
  tokens := by
    have := h.tokens
    rw [List.map_cons, List.sum_cons] at this
    omega
  seats _ := by
    have := h.seats (List.cons_ne_nil e entries)
    rw [List.length_cons] at this
    omega

end Fits

namespace Scheduler

def Refuses (s : Scheduler) (i : SeqId) (blocks : List BlockId) (tokenBudget freeBudget active : Nat) : Prop :=
  s.config.maxNumSeqs ≤ active ∨
    s.config.chunkedPrefill = false ∧
      tokenBudget < (s.seqs i).numTokens - blocks.length * s.blockManager.blockSize ∨
    tokenBudget = 0 ∨
    freeBudget < blocks.countP (fun b => decide (b ∈ s.blockManager.freeBlockIds)) +
      pagesFor s.blockManager.blockSize
        (min ((s.seqs i).numTokens - blocks.length * s.blockManager.blockSize) tokenBudget)

end Scheduler

theorem Traced.enter {s t : Scheduler} {calls : List Call} (past : Traced s calls t) (i : SeqId)
    (initialBlocks latestBlocks : Nat) : Traced s calls (t.entered i initialBlocks latestBlocks) := by
  refine past.book rfl (fun j => ?_)
  by_cases self : j = i
  · subst self
    simp [Scheduler.entered, Scheduler.setSeq]
  · simp [Scheduler.entered, Scheduler.setSeq, Function.update_of_ne self, Scheduler.recorded]

/-- Entry `e` is admitted by a turn of the same-step loop from `s` to `s'`: it claims its match, and pays for it and for
its new pages. -/
structure Committed (cache : Cache) (origin s s' : Scheduler) (ids : Finset SeqId) (appended : List (SeqId × Nat))
    (before : List Entry) (tokenBudget reserved : Nat) (e : Entry) : Prop where
  matched : s.blockManager.matchPrefix (s.seqs e.seqId) = .ok e.blockIds
  stage : Stage cache origin s' ids [] appended (before ++ [e])
  traced : Traced s [e.claim, e.allocate] s'
  queue : s'.waiting = s.waiting.erase e.seqId
  tokens : e.numNewTokens =
    min ((s.seqs e.seqId).numTokens - e.blockIds.length * s.blockManager.blockSize) tokenBudget
  plain : origin.config.chunkedPrefill = false → e.Whole origin
  gone : ∀ b ∈ e.blockIds, b ∉ s'.blockManager.freeBlockIds
  paid : s'.blockManager.freeBlockIds.length + (e.blockIds.countP (fun b => decide (b ∈ s.blockManager.freeBlockIds)) +
    pagesFor s.blockManager.blockSize e.numNewTokens) = s.blockManager.freeBlockIds.length
  room : reserved ≤ s'.blockManager.freeBlockIds.length

namespace Stage

open Scheduler

variable {cache : Cache} {origin s : Scheduler} {ids : Finset SeqId} {appended : List (SeqId × Nat)}
  {before : List Entry} {reserved active tokenBudget : Nat} {found : Dict SeqId (List BlockId)}

theorem commit_entry {e : Entry} (h : Stage cache origin s ids [] appended before) (inv : Inv cache origin ids)
    (waits : e.seqId ∈ s.waiting) (matched : s.blockManager.matchPrefix (s.seqs e.seqId) = .ok e.blockIds)
    (plan : Plan s.blockManager (s.seqs e.seqId) 0 noLineage e.blockIds)
    (short : e.blockIds.length * s.blockManager.blockSize < (s.seqs e.seqId).numTokens)
    (tokens : e.numNewTokens =
      min ((s.seqs e.seqId).numTokens - e.blockIds.length * s.blockManager.blockSize) tokenBudget)
    (positive : 0 < e.numNewTokens) (plain : origin.config.chunkedPrefill = false → e.Whole origin)
    (room : reserved + (e.blockIds.countP (fun b => decide (b ∈ s.blockManager.freeBlockIds)) +
      pagesFor s.blockManager.blockSize e.numNewTokens) ≤ s.blockManager.freeBlockIds.length)
    (initialBlocks : Nat) :
    ∃ p q, e.claim.run s = .ok () (s.withPool p) ∧ e.allocate.run (s.withPool p) = .ok () (s.withPool q) ∧
      e.seqId ∈ (s.withPool q).waiting ∧
      Committed cache origin s ((s.withPool q).entered e.seqId initialBlocks e.blockIds.length) ids appended before
        tokenBudget reserved e := by
  obtain ⟨same, -, -⟩ := h.idle inv waits (by simp)
  obtain ⟨p, claimed, stage, chain, claims⟩ := h.claim inv waits (by simp) plan short
  have size : s.blockManager.blockSize = origin.blockManager.blockSize := h.size
  have free : p.manager.freeBlockIds.length +
      e.blockIds.countP (fun b => decide (b ∈ s.blockManager.freeBlockIds)) = s.blockManager.freeBlockIds.length :=
    claims.taken
  have within : e.blockIds.length * origin.blockManager.blockSize + e.numNewTokens ≤
      (origin.seqs e.seqId).numTokens := by
    rw [← same, ← size]
    omega
  have enough : pagesFor origin.blockManager.blockSize e.numNewTokens ≤
      (s.withPool p).blockManager.freeBlockIds.length := by
    rw [← size, withPool_blockManager]
    omega
  obtain ⟨q, allocated, waits', stage', taken, older⟩ :=
    stage.allocate inv positive within enough initialBlocks e.blockIds.length
  rw [← size, withPool_blockManager] at taken
  refine ⟨p, q, claimed.1, allocated.1, waits', ?_⟩
  constructor
  case matched => exact matched
  case stage => exact stage'
  case traced => exact (((Traced.nil s).call _ claimed).call _ allocated).enter e.seqId initialBlocks e.blockIds.length
  case queue => rfl
  case tokens => exact tokens
  case plain => exact plain
  case gone => exact fun b listed left => ((claims.free b).mp (older.subset left)).2 listed
  case paid =>
    change q.manager.freeBlockIds.length + _ = _
    omega
  case room =>
    change reserved ≤ q.manager.freeBlockIds.length
    omega

theorem commit_turn (h : Stage cache origin s ids [] appended before) (inv : Inv cache origin ids)
    (room : reserved ≤ s.blockManager.freeBlockIds.length) {i : SeqId} (waits : i ∈ s.waiting)
    (known : ∃ blocks, found i = some blocks) :
    ((∀ rest, commitWaitingSameStepFrom found reserved active (i :: rest) tokenBudget (before.map Entry.seqId) s =
        .ok (before.map Entry.seqId) s) ∧
      ∃ blocks, s.blockManager.matchPrefix (s.seqs i) = .ok blocks ∧ s.Refuses i blocks tokenBudget
        (s.blockManager.freeBlockIds.length - reserved) (active + before.length)) ∨
    ∃ e s', e.seqId = i ∧ Committed cache origin s s' ids appended before tokenBudget reserved e ∧
      active + before.length < origin.config.maxNumSeqs ∧
      ((e.Whole origin ∧ ∀ rest, commitWaitingSameStepFrom found reserved active (i :: rest) tokenBudget
          (before.map Entry.seqId) s =
        commitWaitingSameStepFrom found reserved active rest (tokenBudget - e.numNewTokens)
          ((before ++ [e]).map Entry.seqId) s') ∨
      ¬e.Whole origin ∧ ∀ rest, commitWaitingSameStepFrom found reserved active (i :: rest) tokenBudget
          (before.map Entry.seqId) s = .ok ((before ++ [e]).map Entry.seqId) s') := by
  obtain ⟨same, idle, member⟩ := h.idle inv waits (by simp)
  obtain ⟨chain, kept⟩ := h.kept
  obtain ⟨blocks, matched, plan, short⟩ := kept.held.matchPrefix_idle member idle.cached idle.table
  simp only [pool_seqs, pool_manager] at matched plan short
  obtain ⟨initial, known⟩ := known
  have cached : (s.seqs i).numCachedTokens + blocks.length * s.blockManager.blockSize =
      blocks.length * s.blockManager.blockSize := by rw [idle.cached, Nat.zero_add]
  have remaining : (s.seqs i).numTokens - blocks.length * s.blockManager.blockSize > 0 := by omega
  simp only [commitWaitingSameStepFrom, run_get_bind, List.length_map]
  by_cases seat : active + before.length ≥ s.config.maxNumSeqs
  · simp only [if_pos seat]
    exact Or.inl ⟨fun _ => rfl, blocks, matched, Or.inl seat⟩
  simp only [if_neg seat, run_ofExcept_bind matched, cached, run_require_bind remaining]
  by_cases large : ¬s.config.chunkedPrefill ∧
      (s.seqs i).numTokens - blocks.length * s.blockManager.blockSize > tokenBudget
  · simp only [if_pos large]
    exact Or.inl ⟨fun _ => rfl, blocks, matched, Or.inr (Or.inl ⟨by simpa using large.1, large.2⟩)⟩
  simp only [if_neg large]
  by_cases none : min ((s.seqs i).numTokens - blocks.length * s.blockManager.blockSize) tokenBudget = 0
  · simp only [if_pos none]
    exact Or.inl ⟨fun _ => rfl, blocks, matched, Or.inr (Or.inr (Or.inl (by omega)))⟩
  simp only [if_neg none, run_ofExcept_bind (numBlocksRequired_ok plan.nodup _), run_require_bind room]
  by_cases full : blocks.countP (fun b => decide (b ∈ s.blockManager.freeBlockIds)) +
      pagesFor s.blockManager.blockSize
        (min ((s.seqs i).numTokens - blocks.length * s.blockManager.blockSize) tokenBudget) >
      s.blockManager.freeBlockIds.length - reserved
  · simp only [if_pos full]
    exact Or.inl ⟨fun _ => rfl, blocks, matched, Or.inr (Or.inr (Or.inr full))⟩
  simp only [if_neg full]
  let e : Entry := ⟨i, blocks, min ((s.seqs i).numTokens - blocks.length * s.blockManager.blockSize) tokenBudget⟩
  have whole : e.Whole origin ↔ min ((s.seqs i).numTokens - blocks.length * s.blockManager.blockSize) tokenBudget =
      (s.seqs i).numTokens - blocks.length * s.blockManager.blockSize := by
    rw [Entry.Whole, ← same, ← h.size]
    dsimp only [e]
    omega
  have plain (off : origin.config.chunkedPrefill = false) : e.Whole origin := by
    rw [← h.config] at off
    simp only [off, Bool.false_eq_true, not_false_eq_true, true_and, not_lt] at large
    exact whole.mpr (min_eq_left large)
  obtain ⟨p, q, claimed, allocated, waits', committed⟩ := @Stage.commit_entry _ _ _ _ _ _ reserved tokenBudget e h inv
    waits matched plan short rfl (Nat.pos_of_ne_zero none) plain (by dsimp only [e]; omega) initial.length
  have claimed : onSeq i (BlockManager.claimPrefix blocks) s = .ok () (s.withPool p) := claimed
  simp only [Entry.allocate, Call.run, run_modifySeq_bind] at allocated
  have initial' : prefixesOf found i = .ok initial := by rw [prefixesOf, known]
  refine Or.inr ⟨e, (s.withPool q).entered i initial.length blocks.length, rfl, committed,
    h.config ▸ not_le.mp seat, ?_⟩
  by_cases all : min ((s.seqs i).numTokens - blocks.length * s.blockManager.blockSize) tokenBudget <
      (s.seqs i).numTokens - blocks.length * s.blockManager.blockSize
  · refine Or.inr ⟨fun same => absurd (whole.mp same) all.ne, fun rest => ?_⟩
    rw [bind_ok claimed, run_modifySeq_bind, bind_ok allocated, run_ofExcept_bind initial', entered_run waits',
      if_pos all, List.map_append]
    rfl
  · refine Or.inl ⟨whole.mpr (by omega), fun rest => ?_⟩
    rw [bind_ok claimed, run_modifySeq_bind, bind_ok allocated, run_ofExcept_bind initial', entered_run waits',
      if_neg all, List.map_append]
    rfl

/-- The same-step loop: the induction is on the requests that are left. -/
theorem commit (h : Stage cache origin s ids [] appended before) (inv : Inv cache origin ids)
    (room : reserved ≤ s.blockManager.freeBlockIds.length) {ranked : List SeqId} (once : ranked.Nodup)
    (waits : ∀ i ∈ ranked, i ∈ s.waiting) (known : ∀ i ∈ ranked, ∃ blocks, found i = some blocks) :
    ∃ s' entries, commitWaitingSameStepFrom found reserved active ranked tokenBudget
        (before.map Entry.seqId) s = .ok ((before ++ entries).map Entry.seqId) s' ∧
      Stage cache origin s' ids [] appended (before ++ entries) ∧ Traced s (Entry.commits entries) s' ∧
      reserved ≤ s'.blockManager.freeBlockIds.length ∧ entries.map Entry.seqId <+: ranked ∧
      Fits origin tokenBudget (active + before.length) entries ∧
      (∀ e rest, entries = e :: rest → s.blockManager.matchPrefix (s.seqs e.seqId) = .ok e.blockIds) ∧
      (entries = [] → s' = s ∧ ∀ i rest, ranked = i :: rest →
        ∃ blocks, s.blockManager.matchPrefix (s.seqs i) = .ok blocks ∧ s.Refuses i blocks tokenBudget
          (s.blockManager.freeBlockIds.length - reserved) (active + before.length)) := by
  induction ranked generalizing s tokenBudget before with
  | nil =>
      refine ⟨s, [], ?_, by simpa using h, Traced.nil s, room, by simp, Fits.nil, by simp, fun _ => ⟨rfl, by simp⟩⟩
      simp [commitWaitingSameStepFrom]
  | cons i rest ih =>
      rw [List.nodup_cons] at once
      rcases @h.commit_turn _ _ _ _ _ _ reserved active tokenBudget found inv room i (waits i (List.mem_cons_self ..))
        (known i (List.mem_cons_self ..)) with ⟨run, refused⟩ | ⟨e, s', self, committed, seat, turn⟩
      · refine ⟨s, [], by simpa using run rest, by simpa using h, Traced.nil s, room, by simp, Fits.nil, by simp,
          fun _ => ⟨rfl, ?_⟩⟩
        intro j rest' same
        rw [List.cons.injEq] at same
        exact same.1 ▸ refused
      · subst self
        have first (e' : Entry) (rest' entries : List Entry) (same : e :: entries = e' :: rest') :
            s.blockManager.matchPrefix (s.seqs e'.seqId) = .ok e'.blockIds := by
          rw [List.cons.injEq] at same
          exact same.1 ▸ committed.matched
        have tokens : e.numNewTokens ≤ tokenBudget := committed.tokens ▸ min_le_right _ _
        rcases turn with ⟨whole, run⟩ | ⟨-, run⟩
        · have waits' : ∀ j ∈ rest, j ∈ s'.waiting := by
            intro j later
            have other : j ≠ e.seqId := fun self => once.1 (self ▸ later)
            rw [committed.queue]
            exact (List.mem_erase_of_ne other).mpr (waits j (List.mem_cons_of_mem _ later))
          obtain ⟨s'', entries, run', stage', traced', left', order, fits, -, -⟩ :=
            @ih s' (before ++ [e]) (tokenBudget - e.numNewTokens) committed.stage committed.room once.2 waits'
              (fun j later => known j (List.mem_cons_of_mem _ later))
          rw [List.append_assoc, List.singleton_append] at run' stage'
          rw [List.length_append, List.length_singleton, ← Nat.add_assoc] at fits
          refine ⟨s'', e :: entries, (run rest).trans run', stage', committed.traced.trans traced', left', ?_,
            Fits.cons whole tokens seat fits, fun e' rest' => first e' rest' entries, by simp⟩
          exact List.prefix_cons_inj e.seqId |>.mpr order
        · refine ⟨s', [e], run rest, committed.stage, committed.traced, committed.room, ?_,
            Fits.single committed.plain tokens seat, fun e' rest' => first e' rest' [], by simp⟩
          exact ⟨rest, rfl⟩

end Stage

end NanoVllm
