import NanoVllm.Steps.Admit

set_option autoImplicit false

namespace NanoVllm

open Python Raising

-- The cached-free blocks of a plan that no earlier plan protects.
def BlockManager.newlyProtected (m : BlockManager) (protectedFreeIds : Finset BlockId) (blocks : List BlockId) :
    Finset BlockId :=
  blocks.toFinset.filter (fun b => b ∈ m.freeBlockIds ∧ b ∉ protectedFreeIds)

theorem BlockManager.card_newlyProtected {m : BlockManager} {protectedFreeIds : Finset BlockId}
    {blocks : List BlockId} (once : blocks.Nodup) : (m.newlyProtected protectedFreeIds blocks).card =
      blocks.countP (fun b => decide (b ∈ m.freeBlockIds ∧ b ∉ protectedFreeIds)) := by
  have same : m.newlyProtected protectedFreeIds blocks =
      (blocks.filter (fun b => decide (b ∈ m.freeBlockIds ∧ b ∉ protectedFreeIds))).toFinset := by
    ext b
    simp [newlyProtected]
  rw [same, List.toFinset_card_of_nodup (once.filter _), List.countP_eq_length_filter]

-- The entry of `admission` for an entry.
def Entry.admission (s : Scheduler) (e : Entry) : Scheduler.Admission :=
  ⟨e.seqId, e.blockIds, e.blockIds.length * s.blockManager.blockSize + e.numNewTokens⟩

def Budgeted (m : BlockManager) : Finset BlockId → Nat → List Entry → Prop
  | _, _, [] => True
  | protectedFreeIds, freeBudget, e :: rest =>
      (m.newlyProtected protectedFreeIds e.blockIds).card + pagesFor m.blockSize e.numNewTokens ≤ freeBudget ∧
      Budgeted m (protectedFreeIds ∪ m.newlyProtected protectedFreeIds e.blockIds)
        (freeBudget - ((m.newlyProtected protectedFreeIds e.blockIds).card +
          pagesFor m.blockSize e.numNewTokens)) rest

/-- Each entry computes what it has not cached, as far as the tokens go that the entries before it leave. -/
def Greedy (s : Scheduler) : Nat → List Entry → Prop
  | _, [] => True
  | tokenBudget, e :: rest =>
      e.numNewTokens =
        min ((s.seqs e.seqId).numTokens - e.blockIds.length * s.blockManager.blockSize) tokenBudget ∧
      Greedy s (tokenBudget - e.numNewTokens) rest

namespace Scheduler

variable {s : Scheduler} {found : Dict SeqId (List BlockId)} {active tokenBudget freeBudget : Nat}
  {protectedFreeIds : Finset BlockId} {before : List Entry} {ranked : List SeqId}

/-- What the frozen plan can admit: an initial match that leaves a token to compute. -/
structure Plannable (s : Scheduler) (found : Dict SeqId (List BlockId)) (i : SeqId) (blocks : List BlockId) :
    Prop where
  known : found i = some blocks
  cached : (s.seqs i).numCachedTokens = 0
  nodup : blocks.Nodup
  short : blocks.length * s.blockManager.blockSize < (s.seqs i).numTokens

theorem planFrozen_turn {i : SeqId} {rest : List SeqId} {blocks : List BlockId} (plan : Plannable s found i blocks) :
    (s.planFrozenFrom found active (i :: rest) tokenBudget freeBudget protectedFreeIds
        (before.map (Entry.admission s)) = .ok (before.map (Entry.admission s)) ∧
      (protectedFreeIds = ∅ → s.Refuses i blocks tokenBudget freeBudget (active + before.length))) ∨
    ∃ e : Entry, e.seqId = i ∧ e.blockIds = blocks ∧ active + before.length < s.config.maxNumSeqs ∧
      0 < e.numNewTokens ∧ e.numNewTokens =
        min ((s.seqs e.seqId).numTokens - e.blockIds.length * s.blockManager.blockSize) tokenBudget ∧
      e.blockIds.length * s.blockManager.blockSize + e.numNewTokens ≤ (s.seqs e.seqId).numTokens ∧
      (s.config.chunkedPrefill = false → e.Whole s) ∧
      (s.blockManager.newlyProtected protectedFreeIds e.blockIds).card +
        pagesFor s.blockManager.blockSize e.numNewTokens ≤ freeBudget ∧
      ((e.Whole s ∧ s.planFrozenFrom found active (i :: rest) tokenBudget freeBudget protectedFreeIds
          (before.map (Entry.admission s)) =
        s.planFrozenFrom found active rest (tokenBudget - e.numNewTokens)
          (freeBudget - ((s.blockManager.newlyProtected protectedFreeIds e.blockIds).card +
            pagesFor s.blockManager.blockSize e.numNewTokens))
          (protectedFreeIds ∪ s.blockManager.newlyProtected protectedFreeIds e.blockIds)
          ((before ++ [e]).map (Entry.admission s))) ∨
      s.planFrozenFrom found active (i :: rest) tokenBudget freeBudget protectedFreeIds
        (before.map (Entry.admission s)) = .ok ((before ++ [e]).map (Entry.admission s))) := by
  have short := plan.short
  have cached : (s.seqs i).numCachedTokens + blocks.length * s.blockManager.blockSize =
      blocks.length * s.blockManager.blockSize := by rw [plan.cached, Nat.zero_add]
  have remaining : (s.seqs i).numTokens - blocks.length * s.blockManager.blockSize > 0 := by omega
  have initial : prefixesOf found i = .ok blocks := by rw [prefixesOf, plan.known]
  simp only [planFrozenFrom, List.length_map]
  by_cases seat : active + before.length ≥ s.config.maxNumSeqs
  · rw [if_pos seat]
    exact Or.inl ⟨rfl, fun _ => Or.inl seat⟩
  simp only [if_neg seat, initial, except_ok_bind, cached, require_of remaining, pure_bind]
  by_cases large : ¬s.config.chunkedPrefill ∧
      (s.seqs i).numTokens - blocks.length * s.blockManager.blockSize > tokenBudget
  · rw [if_pos large]
    exact Or.inl ⟨rfl, fun _ => Or.inr (Or.inl ⟨by simpa using large.1, large.2⟩)⟩
  rw [if_neg large]
  by_cases none : min ((s.seqs i).numTokens - blocks.length * s.blockManager.blockSize) tokenBudget = 0
  · rw [if_pos none]
    exact Or.inl ⟨rfl, fun _ => Or.inr (Or.inr (Or.inl (by omega)))⟩
  rw [if_neg none]
  have fresh : blocks.toFinset.filter (fun b => b ∈ s.blockManager.freeBlockIds ∧ b ∉ protectedFreeIds) =
      s.blockManager.newlyProtected protectedFreeIds blocks := rfl
  rw [fresh]
  split
  next full =>
    refine Or.inl ⟨rfl, fun first => Or.inr (Or.inr (Or.inr ?_))⟩
    rw [BlockManager.card_newlyProtected plan.nodup, first] at full
    simpa using full
  next fits =>
    let e : Entry := ⟨i, blocks,
      min ((s.seqs i).numTokens - blocks.length * s.blockManager.blockSize) tokenBudget⟩
    have whole : min ((s.seqs i).numTokens - blocks.length * s.blockManager.blockSize) tokenBudget =
        (s.seqs i).numTokens - blocks.length * s.blockManager.blockSize → e.Whole s := by
      intro all
      rw [Entry.Whole]
      dsimp only [e]
      omega
    refine Or.inr ⟨e, rfl, rfl, not_le.mp seat, Nat.pos_of_ne_zero none, rfl, ?_, ?_, not_lt.mp fits, ?_⟩
    · dsimp only [e]
      omega
    · intro plain
      refine whole ?_
      simp only [plain, Bool.false_eq_true, not_false_eq_true, true_and, not_lt] at large
      exact min_eq_left large
    · by_cases all : min ((s.seqs i).numTokens - blocks.length * s.blockManager.blockSize) tokenBudget <
          (s.seqs i).numTokens - blocks.length * s.blockManager.blockSize
      · right
        rw [if_pos all, List.map_append]
        rfl
      · left
        rw [if_neg all, List.map_append]
        exact ⟨whole (by omega), rfl⟩

/-- The frozen plan: the induction is on the requests that are left. -/
theorem planFrozenFrom_ok (each : ∀ i ∈ ranked, ∃ blocks, Plannable s found i blocks) :
    ∃ entries, s.planFrozenFrom found active ranked tokenBudget freeBudget protectedFreeIds
        (before.map (Entry.admission s)) = .ok ((before ++ entries).map (Entry.admission s)) ∧
      entries.map Entry.seqId <+: ranked ∧ Fits s tokenBudget (active + before.length) entries ∧
      Budgeted s.blockManager protectedFreeIds freeBudget entries ∧ Greedy s tokenBudget entries ∧
      (∀ e ∈ entries, found e.seqId = some e.blockIds ∧ 0 < e.numNewTokens ∧
        e.blockIds.length * s.blockManager.blockSize + e.numNewTokens ≤ (s.seqs e.seqId).numTokens) ∧
      (entries = [] → protectedFreeIds = ∅ → ∀ i rest, ranked = i :: rest →
        ∃ blocks, found i = some blocks ∧
          s.Refuses i blocks tokenBudget freeBudget (active + before.length)) := by
  induction ranked generalizing tokenBudget freeBudget protectedFreeIds before with
  | nil =>
      refine ⟨[], ?_, by simp, Fits.nil, trivial, trivial, by simp, by simp⟩
      simp [planFrozenFrom]
  | cons i rest ih =>
      obtain ⟨blocks, plan⟩ := each i (List.mem_cons_self ..)
      rcases @planFrozen_turn s found active tokenBudget freeBudget protectedFreeIds before i rest blocks plan with
        ⟨run, refused⟩ | ⟨e, self, matched, seat, positive, share, within, plain, cost, turn⟩
      · refine ⟨[], by simpa using run, by simp, Fits.nil, trivial, trivial, by simp, ?_⟩
        intro _ first j rest' same
        rw [List.cons.injEq] at same
        exact same.1 ▸ ⟨blocks, plan.known, refused first⟩
      · subst self
        subst matched
        have tokens : e.numNewTokens ≤ tokenBudget := share ▸ min_le_right _ _
        rcases turn with ⟨whole, run⟩ | run
        · obtain ⟨entries, run', order, fits, budget, greedy, all, -⟩ := @ih (tokenBudget - e.numNewTokens)
            (freeBudget - ((s.blockManager.newlyProtected protectedFreeIds e.blockIds).card +
              pagesFor s.blockManager.blockSize e.numNewTokens))
            (protectedFreeIds ∪ s.blockManager.newlyProtected protectedFreeIds e.blockIds) (before ++ [e])
            (fun j later => each j (List.mem_cons_of_mem _ later))
          rw [List.append_assoc, List.singleton_append] at run'
          rw [List.length_append, List.length_singleton, ← Nat.add_assoc] at fits
          refine ⟨e :: entries, run.trans run', (List.prefix_cons_inj e.seqId).mpr order,
            Fits.cons whole tokens seat fits, ⟨cost, budget⟩, ⟨share, greedy⟩, ?_, by simp⟩
          intro e' listed
          rcases List.mem_cons.mp listed with rfl | later
          · exact ⟨plan.known, positive, within⟩
          · exact all e' later
        · refine ⟨[e], run, ⟨rest, rfl⟩, Fits.single plain tokens seat, ⟨cost, trivial⟩, ⟨share, trivial⟩, ?_, by simp⟩
          intro e' listed
          rw [List.mem_singleton.mp listed]
          exact ⟨plan.known, positive, within⟩

end Scheduler

theorem Plan.congr {m m' : BlockManager} {seq : Sequence} {k : Nat} {parent : Int × Int} {blocks : List BlockId}
    (plan : Plan m seq k parent blocks) (size : m'.blockSize = m.blockSize) (count : m'.numBlocks = m.numBlocks)
    (index : m'.hashToBlockId = m.hashToBlockId) (content : ∀ b, (m'.blocks b).content = (m.blocks b).content) :
    Plan m' seq k parent blocks where
  matched := plan.matched.congr size count rfl rfl (fun b _ => content b)
  nodup := plan.nodup
  apart := plan.apart
  indexed b planned := by
    rw [index, (Block.content_eq (content b)).2.1]
    exact plan.indexed b planned

namespace Stage

open Scheduler

variable {cache : Cache} {origin s : Scheduler} {ids : Finset SeqId} {claimed before entries : List Entry}
  {appended : List (SeqId × Nat)} {reserved freeBudget : Nat} {protectedFreeIds : Finset BlockId}

def pages (m : BlockManager) (entries : List Entry) : Nat :=
  (entries.map (fun e => pagesFor m.blockSize e.numNewTokens)).sum

theorem claimAll (h : Stage cache origin s ids claimed [] []) (inv : Inv cache origin ids)
    (once : (entries.map Entry.seqId).Nodup) (apart : ∀ e ∈ entries, e.seqId ∉ claimed.map Entry.seqId)
    (waits : ∀ e ∈ entries, e.seqId ∈ s.waiting)
    (plans : ∀ e ∈ entries, Plan s.blockManager (origin.seqs e.seqId) 0 noLineage e.blockIds)
    (short : ∀ e ∈ entries, e.blockIds.length * origin.blockManager.blockSize < (origin.seqs e.seqId).numTokens)
    (free : ∀ b, b ∈ s.blockManager.freeBlockIds ↔ b ∈ origin.blockManager.freeBlockIds ∧ b ∉ protectedFreeIds)
    (budget : Budgeted origin.blockManager protectedFreeIds freeBudget entries)
    (room : reserved + freeBudget ≤ s.blockManager.freeBlockIds.length) :
    ∃ s', forEach claimAdmitted (entries.map (Entry.admission origin)) s = .ok () s' ∧
      Stage cache origin s' ids (claimed ++ entries) [] [] ∧ Traced s (entries.map Entry.claim) s' ∧
      reserved + pages origin.blockManager entries ≤ s'.blockManager.freeBlockIds.length := by
  induction entries generalizing s claimed reserved freeBudget protectedFreeIds with
  | nil =>
      refine ⟨s, rfl, by simpa using h, Traced.nil s, ?_⟩
      simp only [pages, List.map_nil, List.sum_nil]
      omega
  | cons e rest ih =>
      rw [List.map_cons, List.nodup_cons] at once
      have first := List.mem_cons_self (a := e) (l := rest)
      obtain ⟨cost, budget'⟩ := budget
      have unclaimed := apart e first
      obtain ⟨same, -, -⟩ := h.idle inv (waits e first) unclaimed
      have plan := plans e first
      obtain ⟨p, exact', stage, chain, claims⟩ := h.claim inv (waits e first) unclaimed
        (by rw [same]; exact plan) (by rw [same, h.size]; exact short e first)
      have taken : p.manager.freeBlockIds.length +
          (origin.blockManager.newlyProtected protectedFreeIds e.blockIds).card =
          s.blockManager.freeBlockIds.length := by
        have counted : p.manager.freeBlockIds.length + e.blockIds.countP (fun b =>
            decide (b ∈ s.blockManager.freeBlockIds)) = s.blockManager.freeBlockIds.length := claims.taken
        rw [BlockManager.card_newlyProtected plan.nodup, ← counted]
        simp only [free]
      have free' (b : BlockId) : b ∈ (s.withPool p).blockManager.freeBlockIds ↔
          b ∈ origin.blockManager.freeBlockIds ∧
            b ∉ protectedFreeIds ∪ origin.blockManager.newlyProtected protectedFreeIds e.blockIds := by
        rw [withPool_blockManager, claims.free, pool_manager, free b]
        simp only [BlockManager.newlyProtected, Finset.mem_union, Finset.mem_filter, List.mem_toFinset]
        tauto
      obtain ⟨s', run, stage', traced, left⟩ := @ih (s.withPool p) (claimed ++ [e])
        (reserved + pagesFor origin.blockManager.blockSize e.numNewTokens) _ _ stage once.2
        (by
          intro e' later listed
          rw [List.map_append, List.mem_append] at listed
          rcases listed with old | self
          · exact apart e' (List.mem_cons_of_mem e later) old
          · rw [List.map_singleton, List.mem_singleton] at self
            exact once.1 (self ▸ List.mem_map_of_mem later))
        (fun e' later => waits e' (List.mem_cons_of_mem e later))
        (fun e' later => (plans e' (List.mem_cons_of_mem e later)).congr claims.size claims.count claims.index
          claims.content)
        (fun e' later => short e' (List.mem_cons_of_mem e later)) free' budget'
        (by
          rw [withPool_blockManager]
          omega)
      refine ⟨s', ?_, by simpa using stage', ((Traced.nil s).call _ exact').trans traced, ?_⟩
      · have run' : claimAdmitted (e.admission origin) s = .ok () (s.withPool p) := exact'.1
        simp only [List.map_cons, forEach]
        rw [bind_ok run']
        exact run
      · simp only [pages, List.map_cons, List.sum_cons] at left ⊢
        omega

theorem allocateAll (h : Stage cache origin s ids entries appended before) (inv : Inv cache origin ids)
    (positive : ∀ e ∈ entries, 0 < e.numNewTokens)
    (within : ∀ e ∈ entries, e.blockIds.length * origin.blockManager.blockSize + e.numNewTokens ≤
      (origin.seqs e.seqId).numTokens)
    (room : reserved + pages origin.blockManager entries ≤ s.blockManager.freeBlockIds.length) :
    ∃ s', forEach allocateAdmitted (entries.map (Entry.admission origin)) s = .ok () s' ∧
      Stage cache origin s' ids [] appended (before ++ entries) ∧ Traced s (entries.map Entry.allocate) s' ∧
      reserved ≤ s'.blockManager.freeBlockIds.length := by
  induction entries generalizing s before with
  | nil =>
      refine ⟨s, rfl, by simpa using h, Traced.nil s, ?_⟩
      simpa [pages] using room
  | cons e rest ih =>
      have first := List.mem_cons_self (a := e) (l := rest)
      have cost : pages origin.blockManager (e :: rest) =
          pagesFor origin.blockManager.blockSize e.numNewTokens + pages origin.blockManager rest := by
        simp [pages]
      rw [cost] at room
      obtain ⟨p, exact', waits, stage, taken, -⟩ := h.allocate inv (positive e first) (within e first) (by omega)
        e.blockIds.length e.blockIds.length
      obtain ⟨s', run, stage', traced, left⟩ := ih stage (fun e' later => positive e' (List.mem_cons_of_mem e later))
        (fun e' later => within e' (List.mem_cons_of_mem e later)) (by
          change reserved + pages origin.blockManager rest ≤ p.manager.freeBlockIds.length
          omega)
      refine ⟨s', ?_, by simpa using stage',
        (((Traced.nil s).call _ exact').enter e.seqId e.blockIds.length e.blockIds.length).trans traced, left⟩
      have context : e.blockIds.length * origin.blockManager.blockSize + e.numNewTokens -
          (s.seqs e.seqId).numCachedTokens = e.numNewTokens := by
        rw [(h.claims e first).2]
        simp
      have called := exact'.1
      simp only [Entry.allocate, Call.run, run_modifySeq_bind] at called
      have turn : allocateAdmitted (e.admission origin) s =
          .ok () ((s.withPool p).entered e.seqId e.blockIds.length e.blockIds.length) := by
        have some' : ((s.setSeq e.seqId { s.seqs e.seqId with numNewTokens := e.numNewTokens }).seqs
            e.seqId).numNewTokens > 0 := by
          rw [setSeq_seqs_self]
          exact positive e first
        dsimp only at some'
        simp only [allocateAdmitted, Entry.admission]
        rw [run_modifySeq_bind, run_get_bind, context]
        refine (run_require_bind some' _ _).trans ?_
        rw [bind_ok called]
        exact enter_run waits _ _
      simp only [List.map_cons, forEach]
      rw [bind_ok turn]
      exact run

end Stage

end NanoVllm
