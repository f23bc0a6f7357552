import NanoVllm.Steps.Calls

set_option autoImplicit false

namespace NanoVllm

open Python Raising

def Sequence.Appended (old new : Sequence) (n : Nat) : Prop :=
  ∃ table, new = { old with
    blockTable := table
    numNewTokens := n }

def Sequence.Admitted (old new : Sequence) (cached n : Nat) : Prop :=
  ∃ table, new = { old with
    status := .running
    blockTable := table
    numCachedTokens := cached
    numNewTokens := n }

/-- A state inside `schedule`, seen from the state `origin` after decode preemption: `claimed` is what
was claimed and not allocated yet, `appended` what was appended, `admitted` what was admitted. -/
structure Stage (cache : Cache) (origin s : Scheduler) (ids : Finset SeqId) (claimed : List Entry)
    (appended : List (SeqId × Nat)) (admitted : List Entry) : Prop where
  kept : ∃ chain, Kept cache s.pool ids chain
  config : s.config = origin.config
  size : s.blockManager.blockSize = origin.blockManager.blockSize
  count : s.blockManager.numBlocks = origin.blockManager.numBlocks
  chunkedReq : s.chunkedReq = origin.chunkedReq
  running : s.running = origin.running
  waiting : (admitted.map Entry.seqId ++ s.waiting).Perm origin.waiting
  order : s.waiting.Sublist origin.waiting
  once : (claimed.map Entry.seqId).Nodup
  rest : ∀ i, i ∉ claimed.map Entry.seqId → i ∉ appended.map Prod.fst → i ∉ admitted.map Entry.seqId →
    s.seqs i = origin.seqs i
  claims : ∀ e ∈ claimed, e.seqId ∈ s.waiting ∧ s.seqs e.seqId = { origin.seqs e.seqId with
    blockTable := e.blockIds
    numCachedTokens := e.blockIds.length * origin.blockManager.blockSize }
  appends : ∀ a ∈ appended, a.1 ∉ origin.waiting ∧ 0 < a.2 ∧ (origin.seqs a.1).Appended (s.seqs a.1) a.2
  admits : ∀ e ∈ admitted, 0 < e.numNewTokens ∧ (origin.seqs e.seqId).Admitted (s.seqs e.seqId)
    (e.blockIds.length * origin.blockManager.blockSize) e.numNewTokens

namespace Scheduler

-- What `_record_prefix_hits` leaves.
def recorded (s : Scheduler) (i : SeqId) (initialBlocks latestBlocks : Nat) : Scheduler :=
  { s with
    initialPersistentHitBlocksBySeq :=
      if min initialBlocks latestBlocks ≠ 0 then
        s.initialPersistentHitBlocksBySeq.insert i (min initialBlocks latestBlocks)
      else s.initialPersistentHitBlocksBySeq
    sameStepHitBlocksBySeq :=
      if latestBlocks - initialBlocks ≠ 0 then
        s.sameStepHitBlocksBySeq.insert i (latestBlocks - initialBlocks)
      else s.sameStepHitBlocksBySeq }

-- The request leaves the waiting queue after its pages were allocated.
def entered (s : Scheduler) (i : SeqId) (initialBlocks latestBlocks : Nat) : Scheduler :=
  { (s.recorded i initialBlocks latestBlocks).setSeq i { s.seqs i with status := .running } with
    waiting := s.waiting.erase i }

theorem recordPrefixHits_run (s : Scheduler) (i : SeqId) (initialBlocks latestBlocks : Nat) :
    recordPrefixHits i initialBlocks latestBlocks s = .ok () (s.recorded i initialBlocks latestBlocks) := by
  unfold recordPrefixHits recorded
  by_cases initial : min initialBlocks latestBlocks = 0 <;>
    by_cases same : latestBlocks - initialBlocks = 0 <;>
      simp [initial, same]

theorem removeWaiting_run {s : Scheduler} {i : SeqId} (waits : i ∈ s.waiting) :
    removeWaiting i s = .ok () { s with waiting := s.waiting.erase i } := by
  simp only [removeWaiting, run_get_bind, run_require_bind waits, run_set]

theorem enter_run {s : Scheduler} {i : SeqId} (waits : i ∈ s.waiting) (initialBlocks latestBlocks : Nat) :
    (do
      recordPrefixHits i initialBlocks latestBlocks
      modifySeq i (fun seq => { seq with status := .running })
      removeWaiting i) s = .ok () (s.entered i initialBlocks latestBlocks) := by
  rw [bind_ok (recordPrefixHits_run s i initialBlocks latestBlocks), run_modifySeq_bind]
  exact removeWaiting_run waits

theorem entered_run {s : Scheduler} {i : SeqId} (waits : i ∈ s.waiting) (initialBlocks latestBlocks : Nat)
    {α : Type} (next : Unit → Sched α) :
    (do
      recordPrefixHits i initialBlocks latestBlocks
      modifySeq i (fun seq => { seq with status := .running })
      let done ← removeWaiting i
      next done) s = next () (s.entered i initialBlocks latestBlocks) := by
  rw [bind_ok (recordPrefixHits_run s i initialBlocks latestBlocks), run_modifySeq_bind]
  exact bind_ok (removeWaiting_run waits)

theorem entered_self (s : Scheduler) (i : SeqId) (initialBlocks latestBlocks : Nat) :
    (s.entered i initialBlocks latestBlocks).seqs i = { s.seqs i with status := .running } := by
  simp [entered, setSeq]

theorem entered_other (s : Scheduler) {i j : SeqId} (other : j ≠ i) {initialBlocks latestBlocks : Nat} :
    (s.entered i initialBlocks latestBlocks).seqs j = s.seqs j := by
  simp only [entered, setSeq, Function.update_of_ne other]
  rfl

end Scheduler

namespace Stage

open Scheduler

variable {cache : Cache} {origin s : Scheduler} {ids : Finset SeqId} {claimed : List Entry}
  {appended : List (SeqId × Nat)} {admitted : List Entry} {i : SeqId} {e : Entry} {n : Nat}

theorem start (h : Inv cache origin ids) : Stage cache origin origin ids [] [] [] where
  kept := h.kept
  config := rfl
  size := rfl
  count := rfl
  chunkedReq := rfl
  running := rfl
  waiting := List.Perm.refl _
  order := List.Sublist.refl _
  once := List.nodup_nil
  rest _ _ _ _ := rfl
  claims := by simp
  appends := by simp
  admits := by simp

theorem request (h : Stage cache origin s ids claimed appended admitted) (i : SeqId) :
    (s.seqs i).request = (origin.seqs i).request := by
  by_cases isClaimed : i ∈ claimed.map Entry.seqId
  · obtain ⟨e, member, same⟩ := List.mem_map.mp isClaimed
    subst same
    rw [(h.claims e member).2]
    rfl
  · by_cases isAppended : i ∈ appended.map Prod.fst
    · obtain ⟨a, member, same⟩ := List.mem_map.mp isAppended
      subst same
      obtain ⟨-, -, table, same⟩ := h.appends a member
      rw [same]
      rfl
    · by_cases isAdmitted : i ∈ admitted.map Entry.seqId
      · obtain ⟨e, member, same⟩ := List.mem_map.mp isAdmitted
        subst same
        obtain ⟨-, table, same⟩ := h.admits e member
        rw [same]
        rfl
      · rw [h.rest i isClaimed isAppended isAdmitted]

theorem waiting_old (h : Stage cache origin s ids claimed appended admitted) (inv : Inv cache origin ids)
    (waits : i ∈ s.waiting) :
    i ∈ origin.waiting ∧ i ∉ admitted.map Entry.seqId ∧ i ∉ appended.map Prod.fst := by
  have old : i ∈ origin.waiting := h.waiting.mem_iff.mp (List.mem_append_right _ waits)
  have nodup : origin.waiting.Nodup := (List.nodup_append.mp (List.nodup_append.mp inv.seats).1).1
  have apart := h.waiting.nodup_iff.mpr nodup
  refine ⟨old, fun again => List.disjoint_of_nodup_append apart again waits, fun listed => ?_⟩
  obtain ⟨a, member, same⟩ := List.mem_map.mp listed
  exact (h.appends a member).1 (same ▸ old)

theorem idle (h : Stage cache origin s ids claimed appended admitted) (inv : Inv cache origin ids)
    (waits : i ∈ s.waiting) (unclaimed : i ∉ claimed.map Entry.seqId) :
    s.seqs i = origin.seqs i ∧ Idle (s.seqs i) ∧ i ∈ ids := by
  obtain ⟨old, notAdmitted, notAppended⟩ := h.waiting_old inv waits
  have same := h.rest i unclaimed notAppended notAdmitted
  exact ⟨same, same ▸ inv.waiting i old, (inv.waiting_mem old).1⟩

theorem claims_other (h : Stage cache origin s ids claimed appended admitted) (s' : Scheduler)
    (unclaimed : i ∉ claimed.map Entry.seqId) (waiting : s'.waiting = s.waiting)
    (others : ∀ j, j ≠ i → s'.seqs j = s.seqs j) :
    ∀ e ∈ claimed, e.seqId ∈ s'.waiting ∧ s'.seqs e.seqId = { origin.seqs e.seqId with
      blockTable := e.blockIds
      numCachedTokens := e.blockIds.length * origin.blockManager.blockSize } := by
  intro e listed
  have other : e.seqId ≠ i := fun self => unclaimed (self ▸ List.mem_map_of_mem listed)
  rw [waiting, others e.seqId other]
  exact h.claims e listed

theorem appends_other (h : Stage cache origin s ids claimed appended admitted) (s' : Scheduler)
    (fresh : i ∉ appended.map Prod.fst) (others : ∀ j, j ≠ i → s'.seqs j = s.seqs j) :
    ∀ a ∈ appended, a.1 ∉ origin.waiting ∧ 0 < a.2 ∧ (origin.seqs a.1).Appended (s'.seqs a.1) a.2 := by
  intro a listed
  have other : a.1 ≠ i := fun self => fresh (self ▸ List.mem_map_of_mem listed)
  rw [others a.1 other]
  exact h.appends a listed

theorem admits_other (h : Stage cache origin s ids claimed appended admitted) (s' : Scheduler)
    (fresh : i ∉ admitted.map Entry.seqId) (others : ∀ j, j ≠ i → s'.seqs j = s.seqs j) :
    ∀ e ∈ admitted, 0 < e.numNewTokens ∧ (origin.seqs e.seqId).Admitted (s'.seqs e.seqId)
      (e.blockIds.length * origin.blockManager.blockSize) e.numNewTokens := by
  intro e listed
  have other : e.seqId ≠ i := fun self => fresh (self ▸ List.mem_map_of_mem listed)
  rw [others e.seqId other]
  exact h.admits e listed

theorem claim (h : Stage cache origin s ids claimed appended admitted) (inv : Inv cache origin ids)
    (waits : e.seqId ∈ s.waiting) (unclaimed : e.seqId ∉ claimed.map Entry.seqId)
    (plan : Plan s.blockManager (s.seqs e.seqId) 0 noLineage e.blockIds)
    (short : e.blockIds.length * s.blockManager.blockSize < (s.seqs e.seqId).numTokens) :
    ∃ p, e.claim.Exact s (s.withPool p) ∧
      Stage cache origin (s.withPool p) ids (claimed ++ [e]) appended admitted ∧
      (∃ chain, Claims s.pool p ids chain e.seqId e.blockIds) := by
  obtain ⟨chain, kept⟩ := h.kept
  obtain ⟨same, idle, member⟩ := h.idle inv waits unclaimed
  obtain ⟨p, exact', kept', claims⟩ := claim_call kept member idle plan short e.numNewTokens
  obtain ⟨old, notAdmitted, notAppended⟩ := h.waiting_old inv waits
  have seqI : p.seqs e.seqId = { s.seqs e.seqId with
      blockTable := (s.seqs e.seqId).blockTable ++ e.blockIds
      numCachedTokens :=
        (s.seqs e.seqId).numCachedTokens + e.blockIds.length * s.blockManager.blockSize } := by
    rw [claims.seqs, Function.update_self]
    rfl
  have seqJ (j : SeqId) (other : j ≠ e.seqId) : (s.withPool p).seqs j = s.seqs j := by
    rw [withPool_seqs, claims.seqs, Function.update_of_ne other]
    rfl
  refine ⟨p, exact', ?_, chain, claims⟩
  constructor
  case kept => exact ⟨chain, kept'⟩
  case config => exact h.config
  case size => exact claims.size.trans h.size
  case count => exact claims.count.trans h.count
  case chunkedReq => exact h.chunkedReq
  case running => exact h.running
  case waiting => exact h.waiting
  case order => exact h.order
  case once =>
    rw [List.map_append, List.nodup_append]
    refine ⟨h.once, by simp, fun j listed j' listed' => ?_⟩
    rintro rfl
    exact unclaimed (by simpa [List.mem_singleton.mp listed'] using listed)
  case rest =>
    intro j unclaimed' notAppended' notAdmitted'
    simp only [List.map_append, List.map_cons, List.map_nil, List.mem_append, List.mem_singleton, not_or]
      at unclaimed'
    exact (seqJ j unclaimed'.2).trans (h.rest j unclaimed'.1 notAppended' notAdmitted')
  case claims =>
    intro e' listed
    rcases List.mem_append.mp listed with before | self
    · exact h.claims_other (s.withPool p) unclaimed rfl seqJ e' before
    · rw [List.mem_singleton.mp self]
      refine ⟨waits, seqI.trans ?_⟩
      rw [same] at idle ⊢
      rw [idle.table, idle.cached, h.size]
      simp
  case appends => exact h.appends_other _ notAppended seqJ
  case admits => exact h.admits_other _ notAdmitted seqJ

theorem append (h : Stage cache origin s ids claimed appended admitted) (inv : Inv cache origin ids)
    (member : i ∈ ids) (outside : i ∉ origin.waiting) (fresh : i ∉ appended.map Prod.fst) (positive : 0 < n)
    (within : (origin.seqs i).numCachedTokens + n ≤ (origin.seqs i).numTokens)
    (room : origin.blockManager.need (origin.seqs i) n ≤ s.blockManager.freeBlockIds.length) :
    ∃ p, (Call.append i n).Exact s (s.withPool p) ∧
      Stage cache origin (s.withPool p) ids claimed (appended ++ [(i, n)]) admitted ∧
      p.manager.freeBlockIds.length + origin.blockManager.need (origin.seqs i) n =
        s.blockManager.freeBlockIds.length := by
  obtain ⟨chain, kept⟩ := h.kept
  have unclaimed : i ∉ claimed.map Entry.seqId := by
    intro listed
    obtain ⟨e, before, same⟩ := List.mem_map.mp listed
    exact outside (same ▸ (h.waiting_old inv (h.claims e before).1).1)
  have notAdmitted : i ∉ admitted.map Entry.seqId :=
    fun listed => outside (h.waiting.mem_iff.mp (List.mem_append_left _ listed))
  have same := h.rest i unclaimed fresh notAdmitted
  have need : s.blockManager.need (s.seqs i) n = origin.blockManager.need (origin.seqs i) n := by
    rw [BlockManager.need, BlockManager.need, same, h.size]
  obtain ⟨p, taken, exact', done, length⟩ := append_call kept member (by rw [same]; exact inv.idle member)
    (by rw [same]; exact within) (by rw [need]; exact room)
  have seqI : p.seqs i = { s.seqs i with
      numNewTokens := n
      blockTable := (s.seqs i).blockTable ++ taken } := by
    rw [done.seqs, Function.update_self]
    rfl
  have seqJ (j : SeqId) (other : j ≠ i) : (s.withPool p).seqs j = s.seqs j := by
    rw [withPool_seqs, done.seqs, Function.update_of_ne other]
    rfl
  have free : s.blockManager.freeBlockIds.length = taken.length + p.manager.freeBlockIds.length := by
    rw [← List.length_append, ← done.free]
    rfl
  refine ⟨p, exact', ?_, by omega⟩
  constructor
  case kept => exact done.kept
  case config => exact h.config
  case size => exact done.size.trans h.size
  case count => exact done.count.trans h.count
  case chunkedReq => exact h.chunkedReq
  case running => exact h.running
  case waiting => exact h.waiting
  case order => exact h.order
  case once => exact h.once
  case rest =>
    intro j unclaimed' notAppended' notAdmitted'
    simp only [List.map_append, List.map_cons, List.map_nil, List.mem_append, List.mem_singleton, not_or]
      at notAppended'
    exact (seqJ j notAppended'.2).trans (h.rest j unclaimed' notAppended'.1 notAdmitted')
  case claims => exact h.claims_other _ unclaimed rfl seqJ
  case appends =>
    intro a listed
    rcases List.mem_append.mp listed with before | self
    · exact h.appends_other _ fresh seqJ a before
    · rw [List.mem_singleton.mp self]
      refine ⟨outside, positive, (s.seqs i).blockTable ++ taken, ?_⟩
      rw [withPool_seqs, seqI, same]
  case admits => exact h.admits_other _ notAdmitted seqJ

theorem validated (h : Stage cache origin s ids claimed appended admitted) (inv : Inv cache origin ids)
    (listed : e ∈ claimed) :
    e.seqId ∈ ids ∧ (s.seqs e.seqId).numNewTokens = 0 ∧ Held.Validated s.pool e.seqId := by
  obtain ⟨chain, kept⟩ := h.kept
  obtain ⟨waits, same⟩ := h.claims e listed
  have member := (inv.waiting_mem (h.waiting_old inv waits).1).1
  have idle : (s.seqs e.seqId).numNewTokens = 0 := by
    rw [same]
    exact inv.idle member
  have table : (s.seqs e.seqId).blockTable = e.blockIds := by rw [same]
  have cached : (s.seqs e.seqId).numCachedTokens = e.blockIds.length * origin.blockManager.blockSize := by
    rw [same]
  refine ⟨member, idle, ?_, fun b held => ?_⟩
  · simp only [pool_seqs, pool_manager, table, cached, h.size]
  · obtain ⟨k, entry⟩ := List.mem_iff_getElem?.mp held
    have inside := (List.getElem?_eq_some_iff.mp entry).1
    have context : (s.pool.seqs e.seqId).numContextTokens = (s.seqs e.seqId).numCachedTokens :=
      Kept.context_idle idle
    refine ((kept.covered e.seqId member).pages k b entry).mpr ?_
    rw [context]
    simp only [pool_seqs, pool_manager, cached, h.size] at inside ⊢
    rw [table] at inside
    exact Nat.mul_le_mul_right _ inside

theorem allocate (h : Stage cache origin s ids (e :: claimed) appended admitted) (inv : Inv cache origin ids)
    (positive : 0 < e.numNewTokens)
    (within : e.blockIds.length * origin.blockManager.blockSize + e.numNewTokens ≤
      (origin.seqs e.seqId).numTokens)
    (room : pagesFor origin.blockManager.blockSize e.numNewTokens ≤ s.blockManager.freeBlockIds.length)
    (initialBlocks latestBlocks : Nat) :
    ∃ p, e.allocate.Exact s (s.withPool p) ∧ e.seqId ∈ (s.withPool p).waiting ∧
      Stage cache origin ((s.withPool p).entered e.seqId initialBlocks latestBlocks) ids claimed appended
        (admitted ++ [e]) ∧
      p.manager.freeBlockIds.length + pagesFor origin.blockManager.blockSize e.numNewTokens =
        s.blockManager.freeBlockIds.length ∧ p.manager.freeBlockIds <:+ s.blockManager.freeBlockIds := by
  obtain ⟨chain, kept⟩ := h.kept
  obtain ⟨waits, same⟩ := h.claims e (List.mem_cons_self ..)
  obtain ⟨old, notAdmitted, notAppended⟩ := h.waiting_old inv waits
  have once := h.once
  rw [List.map_cons, List.nodup_cons] at once
  obtain ⟨member, idle, valid⟩ := h.validated inv (List.mem_cons_self ..)
  have cached : (s.seqs e.seqId).numCachedTokens = e.blockIds.length * origin.blockManager.blockSize := by
    rw [same]
  have tokens : (s.seqs e.seqId).numTokens = (origin.seqs e.seqId).numTokens := by rw [same]
  obtain ⟨p, fresh, exact', done, length⟩ := allocate_call kept member idle valid
    (by rw [cached, tokens]; exact within) (by rw [h.size]; exact room)
  have seqI : p.seqs e.seqId = { s.seqs e.seqId with
      numNewTokens := e.numNewTokens
      blockTable := (s.seqs e.seqId).blockTable ++ fresh } := by
    rw [done.seqs, Function.update_self]
    rfl
  have enteredI := entered_self (s.withPool p) e.seqId initialBlocks latestBlocks
  have enteredJ (j : SeqId) (other : j ≠ e.seqId) :
      ((s.withPool p).entered e.seqId initialBlocks latestBlocks).seqs j = s.seqs j := by
    rw [entered_other _ other, withPool_seqs, done.seqs, Function.update_of_ne other]
    rfl
  have pool : ((s.withPool p).entered e.seqId initialBlocks latestBlocks).pool =
      p.store e.seqId ⟨p.manager, { p.seqs e.seqId with status := .running }⟩ := rfl
  have free : s.blockManager.freeBlockIds.length = fresh.length + p.manager.freeBlockIds.length := by
    rw [← List.length_append, ← done.free]
    rfl
  rw [h.size] at length
  refine ⟨p, exact', waits, ?_, by omega, ⟨fresh, done.free.symm⟩⟩
  constructor
  case kept =>
    obtain ⟨chain', kept'⟩ := done.kept
    refine ⟨chain', ?_⟩
    rw [pool]
    exact kept'.restatus member .running
  case config => exact h.config
  case size => exact done.size.trans h.size
  case count => exact done.count.trans h.count
  case chunkedReq => exact h.chunkedReq
  case running => exact h.running
  case waiting =>
    have moved : (e.seqId :: s.waiting.erase e.seqId).Perm s.waiting := (List.perm_cons_erase waits).symm
    refine List.Perm.trans ?_ h.waiting
    rw [List.map_append, List.append_assoc]
    exact List.Perm.append_left _ moved
  case order => exact List.erase_sublist.trans h.order
  case once => exact once.2
  case rest =>
    intro j unclaimed' notAppended' notAdmitted'
    simp only [List.map_append, List.map_cons, List.map_nil, List.mem_append, List.mem_singleton, not_or]
      at notAdmitted'
    rw [enteredJ j notAdmitted'.2]
    exact h.rest j (by simpa [notAdmitted'.2] using unclaimed') notAppended' notAdmitted'.1
  case claims =>
    intro e' later
    have other : e'.seqId ≠ e.seqId := fun self => once.1 (self ▸ List.mem_map_of_mem later)
    obtain ⟨waits', same'⟩ := h.claims e' (List.mem_cons_of_mem e later)
    exact ⟨(List.mem_erase_of_ne other).mpr waits', (enteredJ e'.seqId other).trans same'⟩
  case appends => exact h.appends_other _ notAppended enteredJ
  case admits =>
    intro e' listed
    rcases List.mem_append.mp listed with before | self
    · exact h.admits_other _ notAdmitted enteredJ e' before
    · rw [List.mem_singleton.mp self]
      refine ⟨positive, (s.seqs e.seqId).blockTable ++ fresh, ?_⟩
      rw [enteredI, withPool_seqs, seqI, same]

end Stage

end NanoVllm
