import NanoVllm.Runs.Priority
import NanoVllm.Steps.Commit

set_option autoImplicit false

namespace NanoVllm

open Python Raising

namespace Scheduler

-- The blocks that hold the cached tokens of a request.
def claimedBlocks (t : Scheduler) (i : SeqId) : List BlockId :=
  (t.seqs i).blockTable.take (t.seqs i).numCachedBlocks

def matchedHashes (u : Scheduler) (i : SeqId) : List Int := (u.seqs i).blockHashes.take (u.initialMatch i).length

-- Claimed blocks of the initial match that nothing else took since.
def initialHits (u t : Scheduler) (i : SeqId) : Nat :=
  (t.claimedBlocks i).countP (fun b => decide (b ∈ u.initialMatch i ∧
    (t.blockManager.blocks b).generation = (u.blockManager.blocks b).generation))

def sameStepHits (u t : Scheduler) (i : SeqId) : Nat :=
  (t.claimedBlocks i).countP (fun b => decide ((t.blockManager.blocks b).published ∧
    ¬Unchanged u.blockManager t.blockManager b))

-- The state in which the admission of `u` looks request `i` up: behind the chunk and all that is ranked before it.
def atTurn (u : Scheduler) (i : SeqId) : Except PyError Scheduler := do
  let decodeBlocks ← u.blocksToAppend u.running
  let plan ← u.planChunk (u.config.maxNumBatchedTokens - u.running.length)
    (u.blockManager.freeBlockIds.length - decodeBlocks)
  let (ranked, initialPrefixes) ← u.rankedWaiting plan
  if u.config.enableSameStepPrefixReuse then
    match admitSameStep plan (ranked.takeWhile (fun j => decide (j ≠ i))) initialPrefixes decodeBlocks u.active u with
    | .ok _ v => .ok v
    | .error e _ => .error e
  else pure u

-- The requests that are given pages before request `i` is looked up.
def ahead (u : Scheduler) (i : SeqId) : Except PyError (List SeqId) := do
  let decodeBlocks ← u.blocksToAppend u.running
  let plan ← u.planChunk (u.config.maxNumBatchedTokens - u.running.length)
    (u.blockManager.freeBlockIds.length - decodeBlocks)
  let (ranked, _) ← u.rankedWaiting plan
  if u.config.enableSameStepPrefixReuse then
    pure (plan.scheduledChunked.toList ++ ranked.takeWhile (fun j => decide (j ≠ i)))
  else pure []

-- The hashes of the pages that the new tokens of these requests fill.
def filledHashes (v : Scheduler) (scheduled : List SeqId) : List Int := scheduled.flatMap (fun j => (v.seqs j).filled)

-- The hashes under which the step publishes pages before request `i` is looked up.
def filledBefore (u : Scheduler) (i : SeqId) : Except PyError (List Int) := do
  let v ← u.atTurn i
  let scheduled ← u.ahead i
  pure (v.filledHashes scheduled)

end Scheduler

open Scheduler

/-- The counters of the batch count what they say, from the state `u` of the initial matches to the state `t`. -/
def TruthfulHits (u t : Scheduler) (i : SeqId) : Prop :=
  (t.initialPersistentHitBlocksBySeq i).getD 0 = u.initialHits t i ∧
    (t.sameStepHitBlocksBySeq i).getD 0 = u.sameStepHits t i

/-- As far as the matches of `u` and `v` both reach, they are the same pages, in the same generations. -/
def SameMatch (u v : Scheduler) (i : SeqId) : Prop :=
  ∀ (k : Nat) (b b' : BlockId), (u.initialMatch i)[k]? = some b → (v.initialMatch i)[k]? = some b' →
    b' = b ∧ (v.blockManager.blocks b).generation = (u.blockManager.blocks b).generation

/-- Request `i` is looked up in `v` and keeps `blocks` up to `t`; its counters compare lengths. -/
structure Admits (ids : Finset SeqId) (u v t : Scheduler) (i : SeqId) (blocks : List BlockId) : Prop where
  reached : u.atTurn i = .ok v
  published : ∃ scheduled, u.ahead i = .ok scheduled ∧ Publishes ids u (v.filledHashes scheduled) v
  same : v.seqs i = u.seqs i
  held : ∃ chain, Held v.pool ids chain
  since : Since u.blockManager v.blockManager
  matched : v.blockManager.matchPrefix (v.seqs i) = .ok blocks
  holds : Holds ids v t i blocks
  initial : (t.initialPersistentHitBlocksBySeq i).getD 0 = min (u.initialMatch i).length blocks.length
  sameStep : (t.sameStepHitBlocksBySeq i).getD 0 = blocks.length - (u.initialMatch i).length

section Hits

variable {cache : Cache} {u v t : Scheduler} {ids : Finset SeqId} {i : SeqId} {blocks : List BlockId}

-- Marked elements that all lie below `n`: they are as many as can be when none there is unmarked.
theorem countP_eq_min {α : Type} {xs : List α} {marked : α → Bool} {n : Nat}
    (low : ∀ (k : Nat) x, xs[k]? = some x → marked x = true → k < n) :
    xs.countP marked = min n xs.length ↔ ∀ (k : Nat) x, xs[k]? = some x → k < n → marked x = true := by
  have none : (xs.drop n).countP marked = 0 := by
    refine List.countP_eq_zero.mpr (fun x listed found => ?_)
    obtain ⟨k, entry⟩ := List.mem_iff_getElem?.mp listed
    rw [List.getElem?_drop] at entry
    exact absurd (low (n + k) x entry found) (by omega)
  have split : xs.countP marked = (xs.take n).countP marked := by
    rw [← List.take_append_drop n xs, List.countP_append, none, List.take_append_drop]
    rfl
  rw [split, ← List.length_take, List.countP_eq_length]
  constructor
  · intro all k x entry below
    refine all x (List.mem_of_getElem? (i := k) ?_)
    rw [List.getElem?_take_of_lt below, entry]
  · intro all x listed
    obtain ⟨k, entry⟩ := List.mem_iff_getElem?.mp listed
    have below : k < n := by
      have inside := (List.getElem?_eq_some_iff.mp entry).1
      rw [List.length_take] at inside
      omega
    rw [List.getElem?_take_of_lt below] at entry
    exact all k x entry below

theorem Admits.truthful (h : Admits ids u v t i blocks) (inv : Inv cache u ids) (waits : i ∈ u.waiting)
    (size : (t.seqs i).blockSize = u.blockManager.blockSize) : TruthfulHits u t i ↔ SameMatch u v i := by
  obtain ⟨chain, held, -⟩ := inv.pool
  obtain ⟨chain', held'⟩ := h.held
  have idle := inv.waiting i waits
  have member := (inv.waiting_mem waits).1
  have matched := inv.initialMatch waits
  have idle' : Idle (v.seqs i) := h.same ▸ idle
  have live := held'.matchPrefix_live member idle' h.matched
  have known := held.matchPrefix_live member idle matched
  have content (b : BlockId) (listed : b ∈ blocks) := h.holds.content held' listed (live b listed)
  have place {k : Nat} {b : BlockId} (entry : blocks[k]? = some b) (same : Unchanged u.blockManager v.blockManager b) :
      (u.initialMatch i)[k]? = some b :=
    h.since.matchPrefix held held' member idle h.same matched h.matched entry same
  have claimed : t.claimedBlocks i = blocks := by
    have positive : 0 < u.blockManager.blockSize := held.size_pos
    rw [claimedBlocks, Sequence.numCachedBlocks, h.holds.cached, size, h.since.size,
      Nat.mul_div_cancel _ positive, ← List.prefix_iff_eq_take.mp h.holds.table]
  have initial : u.initialHits t i =
      blocks.countP (fun b => decide (Unchanged u.blockManager v.blockManager b)) := by
    rw [initialHits, claimed]
    refine List.countP_congr (fun b listed => ?_)
    rw [decide_eq_true_iff, decide_eq_true_iff, Unchanged, (Block.content_eq (content b listed)).1]
    constructor
    · rintro ⟨found, same⟩
      exact ⟨known b found, same⟩
    · intro same
      obtain ⟨k, entry⟩ := List.mem_iff_getElem?.mp listed
      exact ⟨List.mem_of_getElem? (place entry same), same.2⟩
  have sameStep : u.sameStepHits t i =
      blocks.countP (fun b => decide (¬decide (Unchanged u.blockManager v.blockManager b) = true)) := by
    rw [sameStepHits, claimed]
    refine List.countP_congr (fun b listed => ?_)
    obtain ⟨generation, hash, -⟩ := Block.content_eq (content b listed)
    have published : (t.blockManager.blocks b).published := by
      rw [Block.published, hash]
      exact live b listed
    have same : Unchanged u.blockManager t.blockManager b ↔ Unchanged u.blockManager v.blockManager b := by
      rw [Unchanged, Unchanged, generation]
    simp [published, same]
  have total := List.length_eq_countP_add_countP
    (fun b => decide (Unchanged u.blockManager v.blockManager b)) (l := blocks)
  have exactly := @countP_eq_min _ blocks (fun b => decide (Unchanged u.blockManager v.blockManager b))
    (u.initialMatch i).length (fun k b entry same =>
      (List.getElem?_eq_some_iff.mp (place entry (of_decide_eq_true same))).1)
  have latest : v.initialMatch i = blocks := by
    rw [initialMatch, h.matched]
    rfl
  have lengths : TruthfulHits u t i ↔
      blocks.countP (fun b => decide (Unchanged u.blockManager v.blockManager b)) =
        min (u.initialMatch i).length blocks.length := by
    rw [TruthfulHits, h.initial, h.sameStep, initial, sameStep]
    omega
  rw [lengths, exactly, SameMatch, latest]
  constructor
  · intro all k b b' entry entry'
    have same := of_decide_eq_true (all k b' entry' (List.getElem?_eq_some_iff.mp entry).1)
    have equal : b' = b := Option.some.inj ((place entry' same).symm.trans entry)
    exact ⟨equal, equal ▸ same.2⟩
  · intro all k b entry below
    obtain ⟨rfl, same⟩ := all k _ b (List.getElem?_eq_getElem below) entry
    exact decide_eq_true ⟨known _ (List.getElem_mem below), same⟩

theorem Admits.sameMatch (h : Admits ids u v t i blocks) (inv : Inv cache u ids) (waits : i ∈ u.waiting)
    {hashes : List Int} (published : Publishes ids u hashes v) (apart : ∀ hash ∈ u.matchedHashes i, hash ∉ hashes) :
    SameMatch u v i := by
  obtain ⟨chain, held, -⟩ := inv.pool
  obtain ⟨chain', held'⟩ := h.held
  have idle := inv.waiting i waits
  have member := (inv.waiting_mem waits).1
  obtain ⟨initial, matched, plan, -⟩ := held.matchPrefix_idle member idle.cached idle.table
  cases (inv.initialMatch waits).symm.trans matched
  rw [← h.same] at idle
  obtain ⟨latest, matched', plan', -⟩ := held'.matchPrefix_idle member idle.cached idle.table
  cases h.matched.symm.trans matched'
  simp only [pool_seqs, pool_manager, h.same] at plan plan'
  obtain ⟨-, evolves⟩ := @Publishes.evolvesIn _ _ _ _ (· ∈ hashes) published inv.exclusive (fun hash listed => listed)
  intro k b b' entry entry'
  rw [initialMatch, h.matched] at entry'
  obtain ⟨parent, page⟩ := plan.matched.page entry
  obtain ⟨parent', page'⟩ := plan'.matched.page entry'
  rw [Nat.zero_add] at page page'
  have hash : (v.blockManager.blocks b').hash = (u.blockManager.blocks b).hash :=
    Option.some.inj (page'.hash.symm.trans page.hash)
  have known := plan.indexed b (List.mem_of_getElem? entry)
  have found := plan'.indexed b' (List.mem_of_getElem? entry')
  have listed : (u.blockManager.blocks b).hash ∈ u.matchedHashes i := by
    refine List.mem_of_getElem? (i := k) ?_
    rw [matchedHashes, List.getElem?_take_of_lt (List.getElem?_eq_some_iff.mp entry).1, page.hash]
  have indexed (hash : Int) (c : BlockId) (owner : u.blockManager.hashToBlockId hash = some c) :=
    (held.index.indexed hash c owner).2
  rw [hash] at found
  rcases evolves.index held.accounting.identity held.accounting.free_nodup indexed (apart _ listed) with
    gone | ⟨c, before, after, same⟩
  · exact absurd (gone.symm.trans found) (by simp)
  · cases before.symm.trans known
    cases after.symm.trans found
    exact ⟨rfl, same⟩

theorem Admits.later (h : Admits ids u v t i blocks) {t' : Scheduler} (keeps : Keeps ids t t' i) :
    Admits ids u v t' i blocks where
  reached := h.reached
  published := h.published
  same := h.same
  held := h.held
  since := h.since
  matched := h.matched
  holds := h.holds.trans keeps
  initial := by
    obtain ⟨initial, -⟩ := Prod.mk.inj keeps.hits
    rw [initial]
    exact h.initial
  sameStep := by
    obtain ⟨-, sameStep⟩ := Prod.mk.inj keeps.hits
    rw [sameStep]
    exact h.sameStep

variable {s s₂ : Scheduler} {tail ranked : List SeqId} {plan : ChunkPlan} {found : Dict SeqId (List BlockId)}
  {entries : List Entry}

theorem Scheduler.Phases.initial_eq (phases : Phases cache s u s₂ ids tail plan ranked found entries)
    (listed : i ∈ ranked) : prefixesOf found i = .ok (u.initialMatch i) := by
  obtain ⟨initial, known, matched⟩ := phases.ranks.known i listed
  rw [prefixesOf, known, initialMatch, matched]
  rfl

theorem Scheduler.committed_eq {committed : List SeqId}
    (whole : plan.scheduledChunked.toList ++ committed = prefillSeqs plan entries) :
    committed = entries.map Entry.seqId := by
  have resumed : plan.resumes.map Prod.fst = plan.scheduledChunked.toList := by
    simp [ChunkPlan.resumes, Function.comp_def]
  rw [prefillSeqs, resumed] at whole
  exact List.append_cancel_left whole

theorem Scheduler.Phases.chunk_seat (phases : Phases cache s u s₂ ids tail plan ranked found entries) :
    ∀ c, plan.scheduledChunked = some c → u.chunkedReq = some c := by
  intro c resumed
  have decision := phases.decision
  cases decision with
  | absent chunk => cases resumed
  | paused chunk stuck => cases resumed
  | resumed chunk positive tokens fits =>
      cases resumed
      exact chunk

theorem Scheduler.Phases.chunk_mem (phases : Phases cache s u s₂ ids tail plan ranked found entries) :
    ∀ c, plan.scheduledChunked = some c → c ∈ ids :=
  fun c resumed => (phases.inv.chunk_mem (phases.chunk_seat c resumed)).1

theorem Scheduler.takers_eq (committed : List Entry) :
    (Call.appends plan.resumes ++ Entry.commits committed).filterMap Call.taker =
      plan.scheduledChunked.toList ++ committed.map Entry.seqId := by
  have resumed : (Call.appends plan.resumes).filterMap Call.taker = plan.scheduledChunked.toList := by
    cases chunk : plan.scheduledChunked <;> simp [Call.appends, ChunkPlan.resumes, chunk, Call.taker]
  rw [List.filterMap_append, resumed]
  congr 1
  induction committed with
  | nil => rfl
  | cons e rest ih =>
      rw [List.map_cons, ← ih]
      rfl

theorem Scheduler.Phases.takers_once (phases : Phases cache s u s₂ ids tail plan ranked found entries)
    {committed : List Entry} (waits : ∀ e ∈ committed, e.seqId ∈ u.waiting)
    (once : (committed.map Entry.seqId).Nodup) :
    (Call.appends plan.resumes ++ Entry.commits committed).Pairwise
      (fun call later => call.taker ≠ some later.seqId) := by
  rw [List.pairwise_append]
  refine ⟨?_, ?_, ?_⟩
  · cases chunk : plan.scheduledChunked <;> simp [Call.appends, ChunkPlan.resumes, chunk]
  · rw [Entry.commits, List.pairwise_flatMap]
    refine ⟨fun e _ => by simp [Entry.claim, Call.taker], (List.pairwise_map.mp once).imp ?_⟩
    intro e e' apart
    simpa [Entry.claim, Entry.allocate, Call.taker, Call.seqId] using apart
  · intro call appended later committed' takes
    obtain ⟨⟨c, n⟩, resumed, rfl⟩ := List.mem_map.mp appended
    obtain ⟨d, scheduled, same⟩ := List.mem_map.mp resumed
    cases same
    obtain ⟨e, entry, paired⟩ := List.mem_flatMap.mp committed'
    have waiting : later.seqId ∈ u.waiting := by
      rcases List.mem_pair.mp paired with rfl | rfl
      · exact waits e entry
      · exact waits e entry
    rw [← Option.some.inj takes] at waiting
    exact Stage.seat_apart phases.inv (.inl (phases.chunk_seat _ (Option.mem_toList.mp scheduled))) waiting

theorem Scheduler.Phases.turn_held (phases : Phases cache s u s₂ ids tail plan ranked found entries) {u₁ : Scheduler}
    {chunk front : List SeqId} (resumed : appendChunk plan u = .ok chunk u₁) (inside : ∀ j ∈ front, j ∈ ranked)
    (once : front.Nodup) (looped : commitWaitingSameStepFrom found (u.reserve u.running) u.active front plan.tokenBudget
      [] u₁ = .ok front v) (waits : i ∈ u.waiting) (before : i ∉ front) :
    v.seqs i = u.seqs i ∧ (∃ chain, Held v.pool ids chain) ∧
      Publishes ids u (v.filledHashes (plan.scheduledChunked.toList ++ front)) v := by
  have inv := phases.inv
  have affordable := phases.affordable.2
  have le := phases.decision.free_le
  obtain ⟨u₁', resumed', stage, traced, left, -⟩ := (Stage.start inv).resume inv phases.decision (by omega)
  cases resumed.symm.trans resumed'
  have waits₁ : ∀ j ∈ front, j ∈ u₁.waiting := by
    intro j listed
    have perm := stage.waiting
    rw [List.map_nil, List.nil_append] at perm
    exact perm.mem_iff.mpr (phases.ranks.waits j (inside j listed))
  obtain ⟨v', committed, run, stage', traced', -⟩ := @Stage.commit _ _ _ _ _ [] (u.reserve u.running) u.active
    plan.tokenBudget
    found stage inv (by omega) front once waits₁ (fun j listed => by
      obtain ⟨blocks, known, -⟩ := phases.ranks.known j (inside j listed)
      exact ⟨blocks, known⟩)
  rw [List.map_nil, looped, List.nil_append, EStateM.Result.ok.injEq] at run
  obtain ⟨same, rfl⟩ := run
  rw [List.nil_append] at stage'
  have still : i ∈ v.waiting := by
    have listed := stage'.waiting.mem_iff.mpr waits
    rw [← same, List.mem_append] at listed
    exact listed.resolve_left before
  obtain ⟨chain, kept⟩ := stage'.kept
  have waits' (e : Entry) (entry : e ∈ committed) : e.seqId ∈ u.waiting :=
    phases.ranks.waits _ (inside _ (same ▸ List.mem_map_of_mem entry))
  have published := @Traced.publishes _ _ ids _ (traced.trans traced') ?members (phases.takers_once waits' (same ▸ once))
  rw [takers_eq, ← same] at published
  refine ⟨(stage'.idle inv still (by simp)).1, ⟨chain, kept.held⟩, published⟩
  intro call called
  rcases List.mem_append.mp called with chunked | committed'
  · obtain ⟨⟨c, n⟩, appended, rfl⟩ := List.mem_map.mp chunked
    obtain ⟨d, scheduled, same⟩ := List.mem_map.mp appended
    cases same
    exact phases.chunk_mem _ (Option.mem_toList.mp scheduled)
  · obtain ⟨e, entry, paired⟩ := List.mem_flatMap.mp committed'
    have member := (inv.waiting_mem (waits' e entry)).1
    rcases List.mem_pair.mp paired with rfl | rfl
    · exact member
    · exact member

theorem Scheduler.Phases.atTurn_eq (phases : Phases cache s u s₂ ids tail plan ranked found entries)
    (mode : u.config.enableSameStepPrefixReuse = true) {u₁ : Scheduler} {chunk front rest : List SeqId}
    (split : ranked = front ++ i :: rest) (before : i ∉ front) (resumed : appendChunk plan u = .ok chunk u₁)
    (looped : commitWaitingSameStepFrom found (u.reserve u.running) u.active front plan.tokenBudget [] u₁ =
      .ok front v) :
    u.atTurn i = .ok v ∧ u.ahead i = .ok (plan.scheduledChunked.toList ++ front) := by
  have decode := blocksToAppend_ok (phases.inv.sizes (fun i runs => (phases.inv.running_mem runs).1))
  have taken : ranked.takeWhile (fun j => decide (j ≠ i)) = front := by
    rw [split, List.takeWhile_append_of_pos, List.takeWhile_cons_of_neg (by simp), List.append_nil]
    exact fun j inside => decide_eq_true (ne_of_mem_of_not_mem inside before)
  have behind : admitSameStep plan front found (u.reserve u.running) u.active u = .ok (chunk ++ front) v := by
    rw [admitSameStep, bind_ok resumed]
    exact (bind_ok looped).trans rfl
  constructor
  · simp only [atTurn, decode, phases.planning, phases.ranking, except_ok_bind, if_pos mode, taken, behind]
  · simp only [ahead, decode, phases.planning, phases.ranking, except_ok_bind, if_pos mode, taken]
    rfl

theorem Scheduler.Phases.admits_sameStep (phases : Phases cache s u s₂ ids tail plan ranked found entries)
    (mode : u.config.enableSameStepPrefixReuse = true) (none : u.hits i = (none, none))
    (listed : i ∈ entries.map Entry.seqId) :
    ∃ v blocks, Admits ids u v s₂ i blocks := by
  have inv := phases.inv
  obtain ⟨chain, held, -⟩ := inv.pool
  have rankedI := phases.prefilled.order.subset listed
  have once := phases.ranks.nodup inv.waiting_nodup
  have members (j : SeqId) (listed : j ∈ ranked) : j ∈ ids := (inv.waiting_mem (phases.ranks.waits j listed)).1
  have waitsI := phases.ranks.waits i rankedI
  obtain ⟨front, rest, split⟩ := List.append_of_mem rankedI
  rw [split, List.nodup_middle, List.nodup_cons, List.mem_append, not_or] at once
  obtain ⟨⟨before, after⟩, onceFront⟩ := once
  have inFront (j : SeqId) (listed : j ∈ front) : j ∈ ranked := split ▸ List.mem_append_left _ listed
  have inRest (j : SeqId) (listed : j ∈ rest) : j ∈ ranked :=
    split ▸ List.mem_append_right _ (List.mem_cons_of_mem i listed)
  have run := phases.prefilling
  rw [if_pos mode] at run
  obtain ⟨chunk, u₁, resumed, run⟩ := run_bind_ok run
  obtain ⟨committed, s', looped, run⟩ := run_bind_ok run
  rw [run_pure, EStateM.Result.ok.injEq] at run
  obtain ⟨whole, rfl⟩ := run
  have keepsChunk := Keeps.appendChunk inv.exclusive phases.chunk_mem resumed i
  rw [(appendChunk_ok resumed).1] at whole
  have admitted := committed_eq whole
  subst admitted
  rw [commitWaitingSameStep, split] at looped
  obtain ⟨v, left, looped', turn⟩ := commit_split looped listed (by simp) before
  rw [List.nil_append] at looped' turn
  have keepsFront := Keeps.commitWaiting keepsChunk.exclusive (fun j inside => members j (inFront j inside)) looped'
    (fun j inside _ => (ne_of_mem_of_not_mem inside before).symm)
  have keeps := keepsChunk.trans keepsFront
  obtain ⟨same, held', published⟩ := phases.turn_held resumed inFront onceFront.of_append_left looped' waitsI before
  obtain ⟨reached, filled⟩ := phases.atTurn_eq mode split before resumed looped'
  rcases commit_cases turn with ⟨nowhere, -⟩ | ⟨s'', blocks, n, commits, last | later⟩
  · exact absurd (nowhere ▸ listed) before
  all_goals
    obtain ⟨holds, initial, known, first, second⟩ := Holds.commits keeps.exclusive (members i rankedI)
      (same ▸ inv.waiting i waitsI) (keeps.hits.trans none) commits
    cases known.symm.trans (phases.initial_eq rankedI)
    have admits : Admits ids u v s'' i blocks :=
      ⟨reached, ⟨_, filled, published⟩, same, held',
        keeps.evolves.since held.accounting.identity held.accounting.free_nodup, commits.matched, holds,
        first, second⟩
  · have stopped := turn.symm.trans (last rest)
    rw [EStateM.Result.ok.injEq] at stopped
    exact ⟨v, blocks, stopped.2 ▸ admits⟩
  · rw [later rest] at turn
    exact ⟨v, blocks, admits.later (Keeps.commitWaiting holds.exclusive
      (fun j inside => members j (inRest j inside)) turn
      (fun j inside _ => (ne_of_mem_of_not_mem inside after).symm))⟩

theorem Scheduler.Phases.admits_frozen (phases : Phases cache s u s₂ ids tail plan ranked found entries)
    (mode : u.config.enableSameStepPrefixReuse = false) (none : u.hits i = (none, none))
    (listed : i ∈ entries.map Entry.seqId) :
    ∃ v blocks, Admits ids u v s₂ i blocks := by
  have inv := phases.inv
  obtain ⟨chain, held, -⟩ := inv.pool
  have rankedI := phases.prefilled.order.subset listed
  have waitsI := phases.ranks.waits i rankedI
  have run := phases.prefilling
  rw [mode, if_neg (by simp)] at run
  simp only [admitFrozen, run_get_bind] at run
  obtain ⟨admitted, planned, run⟩ := run_ofExcept_ok run
  obtain ⟨⟨⟩, w, claimed, run⟩ := run_bind_ok run
  obtain ⟨chunk, w', resumed, run⟩ := run_bind_ok run
  obtain ⟨⟨⟩, s', allocated, run⟩ := run_bind_ok run
  rw [run_pure, EStateM.Result.ok.injEq] at run
  obtain ⟨whole, rfl⟩ := run
  have initial := planFrozenFrom_initial (by simp) planned
  rw [(appendChunk_ok resumed).1] at whole
  have same := committed_eq whole
  have inRanked (a : Admission) (entry : a ∈ admitted) : a.seqId ∈ ranked :=
    phases.prefilled.order.subset (same ▸ List.mem_map_of_mem entry)
  have members (a : Admission) (entry : a ∈ admitted) : a.seqId ∈ ids :=
    (inv.waiting_mem (phases.ranks.waits _ (inRanked a entry))).1
  have once : (admitted.map Admission.seqId).Nodup :=
    same ▸ phases.prefilled.order.sublist.nodup (phases.ranks.nodup inv.waiting_nodup)
  rw [← same] at listed
  obtain ⟨a, entry, rfl⟩ := List.mem_map.mp listed
  have idle := inv.waiting _ waitsI
  have matched := inv.initialMatch waitsI
  have blocks : a.initialBlocks = u.initialMatch a.seqId :=
    Except.ok.inj ((initial a entry).symm.trans (phases.initial_eq rankedI))
  obtain ⟨holds, counted⟩ := Holds.claimAdmitted inv.exclusive members once entry idle claimed
  have chunk' := Keeps.appendChunk holds.exclusive phases.chunk_mem resumed a.seqId
  obtain ⟨holds', first, second⟩ := (holds.trans chunk').allocateAdmitted members once entry
    (by rw [chunk'.hits, counted, none]) allocated
  have decode := blocksToAppend_ok (inv.sizes (fun i runs => (inv.running_mem runs).1))
  have reached : u.atTurn a.seqId = .ok u := by
    simp only [atTurn, decode, phases.planning, phases.ranking, except_ok_bind, mode, Bool.false_eq_true, if_false]
    rfl
  refine ⟨u, a.initialBlocks, reached, ⟨[], ?_, Publishes.nil u⟩, rfl, ⟨chain, held⟩,
    Since.refl held.accounting.identity, ?_, holds', ?_, ?_⟩
  · simp only [ahead, decode, phases.planning, phases.ranking, except_ok_bind, mode,
      Bool.false_eq_true, if_false]
    rfl
  · rw [blocks]
    exact matched
  · rw [← blocks, Nat.min_self]
    exact first
  · rw [← blocks, Nat.sub_self]
    exact second

theorem Scheduler.Phases.admits (phases : Phases cache s u s₂ ids tail plan ranked found entries)
    (none : u.hits i = (none, none)) (listed : i ∈ entries.map Entry.seqId) :
    ∃ v blocks, Admits ids u v s₂ i blocks := by
  cases mode : u.config.enableSameStepPrefixReuse with
  | true => exact phases.admits_sameStep mode none listed
  | false => exact phases.admits_frozen mode none listed

theorem Scheduler.Phases.no_hits (phases : Phases cache s u s₂ ids tail plan ranked found entries) (i : SeqId) :
    u.hits i = (none, none) := by
  rw [preemptDecodeTail_hits phases.preempting]
  rfl

theorem Scheduler.Phases.decodes_keep (phases : Phases cache s u s₂ ids tail plan ranked found entries)
    {s₃ : Scheduler} (exclusive : Exclusive s₂.pool ids) (decoding : forEach appendDecode u.running s₂ = .ok () s₃)
    (i : SeqId) : Keeps ids s₂ (s₃.counted (prefillSeqs plan entries)) i := by
  have keeps := Keeps.appendDecodes exclusive (fun j runs => (phases.inv.running_mem runs).1) decoding i
  exact keeps.trans ⟨keeps.exclusive, Evolves.refl, List.prefix_rfl, rfl, rfl⟩

theorem Scheduler.Phases.keeps (phases : Phases cache s u s₂ ids tail plan ranked found entries)
    (outside : i ∉ entries.map Entry.seqId) : Keeps ids u s₂ i := by
  have inv := phases.inv
  have members (j : SeqId) (listed : j ∈ ranked) : j ∈ ids := (inv.waiting_mem (phases.ranks.waits j listed)).1
  have run := phases.prefilling
  split at run
  next =>
    obtain ⟨chunk, u₁, resumed, run⟩ := run_bind_ok run
    obtain ⟨committed, s', looped, run⟩ := run_bind_ok run
    rw [run_pure, EStateM.Result.ok.injEq] at run
    obtain ⟨whole, rfl⟩ := run
    rw [(appendChunk_ok resumed).1] at whole
    have keepsChunk := Keeps.appendChunk inv.exclusive phases.chunk_mem resumed i
    refine keepsChunk.trans (Keeps.commitWaiting keepsChunk.exclusive members looped (fun j _ admitted => ?_))
    rw [committed_eq whole] at admitted
    exact (ne_of_mem_of_not_mem admitted outside).symm
  next =>
    simp only [admitFrozen, run_get_bind] at run
    obtain ⟨admitted, -, run⟩ := run_ofExcept_ok run
    obtain ⟨⟨⟩, w, claimed, run⟩ := run_bind_ok run
    obtain ⟨chunk, w', resumed, run⟩ := run_bind_ok run
    obtain ⟨⟨⟩, s', allocated, run⟩ := run_bind_ok run
    rw [run_pure, EStateM.Result.ok.injEq] at run
    obtain ⟨whole, rfl⟩ := run
    rw [(appendChunk_ok resumed).1] at whole
    have same := committed_eq whole
    have inside (a : Admission) (entry : a ∈ admitted) : a.seqId ∈ ids ∧ i ≠ a.seqId := by
      have listed : a.seqId ∈ entries.map Entry.seqId := same ▸ List.mem_map_of_mem entry
      exact ⟨members _ (phases.prefilled.order.subset listed), (ne_of_mem_of_not_mem listed outside).symm⟩
    have claims := Keeps.forEach inv.exclusive
      (fun a entry _ _ h => Keeps.claimAdmitted h (inside a entry).1 (inside a entry).2) claimed
    have chunk' := Keeps.appendChunk claims.exclusive phases.chunk_mem resumed i
    exact (claims.trans chunk').trans (Keeps.forEach chunk'.exclusive
      (fun a entry _ _ h => Keeps.allocateAdmitted h (inside a entry).1 (inside a entry).2) allocated)

theorem Inv.hits (h : Inv cache s ids) {batch : List SeqId}
    (preempted : Scheduler.preemptDecodeTail s.resetCounters = .ok () u) (run : Scheduler.schedule s = .ok batch t) :
    (∀ i ∈ u.admitted batch, ∃ v blocks, Admits ids u v t i blocks ∧
      (t.seqs i).blockSize = u.blockManager.blockSize) ∧
      ∀ i ∈ t.waiting, t.initialPersistentHitBlocksBySeq i = none ∧ t.sameStepHitBlocksBySeq i = none := by
  obtain ⟨s₁, s₂, tail, plan, ranked, found, entries, phases, outcome⟩ := h.schedule
  cases preempted.symm.trans phases.preempting
  have inv := phases.inv
  rw [run] at outcome
  cases outcome with
  | batch s₃ decoding decoded some' =>
      constructor
      · intro i listed
        rw [phases.admitted_eq] at listed
        have waits := phases.ranks.waits i (phases.prefilled.order.subset listed)
        obtain ⟨v, blocks, admits⟩ := phases.admits (phases.no_hits i) listed
        refine ⟨v, blocks, admits.later (phases.decodes_keep admits.holds.exclusive decoding i), ?_⟩
        obtain ⟨chain, kept⟩ := decoded.stage.kept
        have wf := kept.held.wf i (inv.waiting_mem waits).1
        exact wf.block.trans decoded.stage.size
      · intro i waits
        have outside : i ∉ entries.map Entry.seqId := by
          intro listed
          have once := decoded.stage.waiting.nodup_iff.mpr inv.waiting_nodup
          exact List.disjoint_of_nodup_append once listed waits
        have keeps := phases.keeps outside
        have last := keeps.trans (phases.decodes_keep keeps.exclusive decoding i)
        exact Prod.mk.inj (last.hits.trans (phases.no_hits i))

theorem Scheduler.atTurn_frozen (mode : u.config.enableSameStepPrefixReuse = false) (reached : u.atTurn i = .ok v) :
    v = u := by
  simp only [atTurn, mode, Bool.false_eq_true, if_false] at reached
  obtain ⟨decodeBlocks, -, reached⟩ := except_bind_ok reached
  obtain ⟨plan, -, reached⟩ := except_bind_ok reached
  obtain ⟨⟨ranked, found⟩, -, reached⟩ := except_bind_ok reached
  exact (Except.ok.inj reached).symm

-- What a request fills is among its hashes.
theorem Scheduler.mem_filledHashes {scheduled : List SeqId} {hash : Int} (filled : hash ∈ t.filledHashes scheduled) :
    ∃ j ∈ scheduled, hash ∈ (t.seqs j).blockHashes := by
  obtain ⟨j, listed, filled⟩ := List.mem_flatMap.mp filled
  exact ⟨j, listed, List.mem_of_mem_take (List.mem_of_mem_drop filled)⟩

/-- The counters of an admitted request are right unless the chunk, or a prefill in front of it, publishes a page under
a hash of its initial match, as one can that shares a block hash with it. With frozen plans they always are. -/
theorem hits_truthful {xxh64 : XxHash} {config : Config} {batch : List SeqId} (past : Reachable xxh64 config s ids)
    (preempted : preemptDecodeTail s.resetCounters = .ok () u) (run : schedule s = .ok batch t) :
    (∀ i ∈ u.admitted batch, ∃ v scheduled hashes, u.atTurn i = .ok v ∧ u.ahead i = .ok scheduled ∧
      u.filledBefore i = .ok hashes ∧ Publishes ids u hashes v ∧
      ((∀ hash ∈ hashes, hash ∉ u.matchedHashes i) → TruthfulHits u t i) ∧
      ((∀ j ∈ scheduled, ∀ hash ∈ (u.seqs j).blockHashes, hash ∉ u.matchedHashes i) → TruthfulHits u t i)) ∧
      (u.config.enableSameStepPrefixReuse = false → ∀ i ∈ u.admitted batch, TruthfulHits u t i) ∧
      ∀ i ∈ t.waiting, t.initialPersistentHitBlocksBySeq i = none ∧ t.sameStepHitBlocksBySeq i = none := by
  obtain ⟨cache, inv, -⟩ := past.inv
  obtain ⟨admitted, waiting⟩ := inv.hits preempted run
  obtain ⟨u', tail, preempting, between, -⟩ := Inv.preemptDecodeTail inv.reset
  cases preempted.symm.trans preempting
  have truthful (i : SeqId) (listed : i ∈ u.admitted batch) (v : Scheduler) (blocks : List BlockId)
      (admits : Admits ids u v t i blocks) (size : (t.seqs i).blockSize = u.blockManager.blockSize) {hashes : List Int}
      (published : Publishes ids u hashes v) (apart : ∀ hash ∈ hashes, hash ∉ u.matchedHashes i) :
      TruthfulHits u t i := by
    have waits := of_decide_eq_true (List.mem_filter.mp listed).2
    refine (admits.truthful between waits size).mpr (admits.sameMatch between waits published ?_)
    exact fun hash matched listed => apart hash listed matched
  refine ⟨fun i listed => ?_, fun mode i listed => ?_, waiting⟩
  · obtain ⟨v, blocks, admits, size⟩ := admitted i listed
    obtain ⟨scheduled, ahead, published⟩ := admits.published
    have right := truthful i listed v blocks admits size published
    refine ⟨v, scheduled, _, admits.reached, ahead, ?_, published, right, fun strangers => right ?_⟩
    · simp only [filledBefore, admits.reached, ahead, except_ok_bind]
      rfl
    · intro hash filled
      obtain ⟨j, first, known⟩ := mem_filledHashes filled
      exact strangers j first hash (published.blockHashes_eq j ▸ known)
  · obtain ⟨v, blocks, admits, size⟩ := admitted i listed
    cases atTurn_frozen mode admits.reached
    exact truthful i listed _ blocks admits size (Publishes.nil _) (by simp)

def hitsConfig : Config :=
  { maxNumBatchedTokens := 8
    maxNumSeqs := 3
    maxModelLen := 8
    kvcacheBlockSize := 1
    numKvcacheBlocks := 9
    enableLpm := false
    kvcacheBlockSize_pos := Nat.one_pos }

-- Request 2 claims two pages of its initial match, and one that request 1 publishes in the same step.
theorem hits_truthful_shared :
    ∃ s t u, Reachable pageHash hitsConfig s {0, 1, 2} ∧ preemptDecodeTail s.resetCounters = .ok () u ∧
      schedule s = .ok [1, 2] t ∧ t.initialPersistentHitBlocksBySeq 2 = some 2 ∧
      t.sameStepHitBlocksBySeq 2 = some 1 ∧ TruthfulHits u t 2 := by
  have start : Scheduler.init hitsConfig = .ok _ := rfl
  have past := Reachable.play pageHash start
    [.add 0 [1, 2] { maxTokens := 1 }, .step [9], .add 1 [1, 2, 5, 7] {}, .add 2 [1, 2, 5, 8] {}] (by decide)
    (run_final (by decide +kernel))
  have truthful := (hits_truthful past (run_final (by decide +kernel))
    (run_value (a := [1, 2]) (by decide +kernel))).1 2 (by decide +kernel)
  refine ⟨_, _, _, past, run_final (by decide +kernel), run_value (by decide +kernel), by decide +kernel,
    by decide +kernel, ?_⟩
  obtain ⟨v, scheduled, hashes, -, -, filled, -, right, -⟩ := truthful
  have computed := filled.symm.trans (show _ = .ok [52013, 6813842] from by decide +kernel)
  exact right (Except.ok.inj computed ▸ by decide +kernel)

/-- Request 1 is one whole page of the initial match of request 2, and publishes it anew. -/
theorem hits_republished :
    ∃ s t u, Reachable pageHash hitsConfig s {0, 1, 2} ∧ preemptDecodeTail s.resetCounters = .ok () u ∧
      schedule s = .ok [1, 2] t ∧ 2 ∈ u.admitted [1, 2] ∧ u.initialMatch 2 = [0, 1] ∧ t.claimedBlocks 2 = [2, 1] ∧
      t.initialPersistentHitBlocksBySeq 2 = some 2 ∧ u.initialHits t 2 = 1 ∧
      t.sameStepHitBlocksBySeq 2 = none ∧ u.sameStepHits t 2 = 1 ∧ ¬TruthfulHits u t 2 := by
  have start : Scheduler.init hitsConfig = .ok _ := rfl
  have past := Reachable.play pageHash start
    [.add 0 [1, 2] { maxTokens := 1 }, .step [9], .add 1 [1] {}, .add 2 [1, 2, 3] {}] (by decide)
    (run_final (by decide +kernel))
  refine ⟨_, _, _, past, run_final (by decide +kernel), run_value (by decide +kernel), by decide +kernel,
    by decide +kernel, by decide +kernel, by decide +kernel, by decide +kernel, by decide +kernel, by decide +kernel, ?_⟩
  rintro ⟨initial, -⟩
  exact absurd initial (by decide +kernel)

end Hits

end NanoVllm
