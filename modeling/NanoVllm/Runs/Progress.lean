import NanoVllm.Runs.Reserve
import NanoVllm.Runs.Safety

set_option autoImplicit false

namespace NanoVllm

open Python Raising

-- A `ValueError` or a `RuntimeError`.
def PyError.refuses : PyError → Bool
  | .valueError _ => true
  | .runtimeError _ => true
  | _ => false

-- A request of any length fits in the KV cache on its own.
def Config.Roomy (config : Config) : Prop :=
  config.maxModelLen - 1 ≤ config.numKvcacheBlocks * config.kvcacheBlockSize

instance (config : Config) : Decidable config.Roomy := inferInstanceAs (Decidable (_ ≤ _))

section Room

open Scheduler

variable {cache : Cache} {s : Scheduler} {ids : Finset SeqId} {i : SeqId}

namespace Inv

theorem numBlocks_le (h : Inv cache s ids) : s.blockManager.numBlocks ≤
    s.blockManager.freeBlockIds.length + (s.live.map (fun i => (s.seqs i).blockTable.length)).sum := by
  obtain ⟨chain, held, -⟩ := h.pool
  have covered : List.range s.blockManager.numBlocks ⊆
      s.blockManager.freeBlockIds ++ s.live.flatMap (fun i => (s.seqs i).blockTable) := by
    intro b within
    have bound : b < s.pool.manager.numBlocks := List.mem_range.mp within
    by_cases free : b ∈ s.blockManager.freeBlockIds
    · exact List.mem_append_left _ free
    · have busy : holders s.seqs ids b ≠ ∅ := fun none => free ((held.accounting.free_iff b bound).mpr none)
      obtain ⟨j, holds⟩ := Finset.nonempty_iff_ne_empty.mpr busy
      obtain ⟨listed, entry⟩ := h.mem_live.mp (mem_holders.mp holds)
      exact List.mem_append_right _ (List.mem_flatMap.mpr ⟨j, listed, entry⟩)
  have count := (List.nodup_range.subperm covered).length_le
  rwa [List.length_range, List.length_append, List.length_flatMap] at count

theorem pages_le (h : Inv cache s ids) (roomy : s.config.Roomy) (member : i ∈ ids)
    (live : (s.seqs i).status ≠ .finished) {n : Nat} (within : n ≤ (s.seqs i).numTokens) :
    pagesFor s.blockManager.blockSize n ≤ s.blockManager.numBlocks := by
  obtain ⟨chain, held, -⟩ := h.pool
  have length := (h.limits i member live).length
  have positive : 0 < s.blockManager.blockSize := held.size_pos
  rw [Config.Roomy, ← h.size, ← h.count] at roomy
  exact (pagesFor_le positive).mpr (by omega)

theorem need_le (h : Inv cache s ids) (sole : s.live = [i]) {n : Nat}
    (pages : pagesFor s.blockManager.blockSize ((s.seqs i).numCachedTokens + n) ≤ s.blockManager.numBlocks) :
    s.blockManager.need (s.seqs i) n ≤ s.blockManager.freeBlockIds.length := by
  have blocks := h.numBlocks_le
  rw [sole, List.map_singleton, List.sum_singleton] at blocks
  rw [BlockManager.need]
  omega

theorem admission_le (h : Inv cache s ids) (roomy : s.config.Roomy) (none : s.live = []) (waits : i ∈ s.waiting)
    {blocks : List BlockId} {n : Nat}
    (within : blocks.length * s.blockManager.blockSize + n ≤ (s.seqs i).numTokens) :
    blocks.countP (fun b => decide (b ∈ s.blockManager.freeBlockIds)) + pagesFor s.blockManager.blockSize n ≤
      s.blockManager.freeBlockIds.length := by
  obtain ⟨chain, held, -⟩ := h.pool
  obtain ⟨member, live⟩ := h.waiting_mem waits
  have positive : 0 < s.blockManager.blockSize := held.size_pos
  have pages := h.pages_le roomy member live within
  have blocks' := h.numBlocks_le
  rw [none, List.map_nil, List.sum_nil] at blocks'
  rw [pagesFor_add_mul positive] at pages
  have few := @List.countP_le_length _ (fun b => decide (b ∈ s.blockManager.freeBlockIds)) blocks
  omega

end Inv

theorem Scheduler.Preempted.unfinished {s₁ : Scheduler} {tail : List SeqId} (h : Preempted s s₁ tail)
    (unfinished : s.isFinished = false) (none : s₁.live = []) : s₁.waiting ≠ [] := by
  obtain ⟨chunk, runs⟩ := List.append_eq_nil_iff.mp none
  intro idle
  rw [h.waiting, List.append_eq_nil_iff] at idle
  have first : s.chunkedReq = Option.none := by
    rw [← h.chunkedReq]
    exact Option.toList_eq_nil_iff.mp chunk
  have second : s.running = [] := by rw [h.running, runs, idle.1, List.append_nil]
  simp [isFinished, first, second, idle.2] at unfinished

end Room

section Progress

open Scheduler

variable {cache : Cache} {xxh64 : XxHash} {config : Config} {s s₁ s₂ t : Scheduler} {ids : Finset SeqId}
  {tail : List SeqId} {plan : ChunkPlan} {ranked : List SeqId} {found : Dict SeqId (List BlockId)}
  {entries : List Entry} {i : SeqId}

theorem Scheduler.Phases.refused (phases : Phases cache s s₁ s₂ ids tail plan ranked found entries)
    (none : prefillSeqs plan entries = []) (idle : s₁.running = []) (unfinished : s.isFinished = false)
    (roomy : s.config.Roomy) (seats : 1 ≤ s.config.maxNumSeqs) (budget : 1 ≤ s.config.maxNumBatchedTokens) :
    s.config.chunkedPrefill = false ∧ plan.allowWaiting = true ∧ ∃ i rest blocks, ranked = i :: rest ∧
      found i = some blocks ∧ s.config.maxNumBatchedTokens <
        (s₁.seqs i).numTokens - blocks.length * s₁.blockManager.blockSize := by
  have inv := phases.inv
  have config : s₁.config = s.config := phases.preempted.config
  rw [← config] at roomy seats budget ⊢
  have tokens : s₁.config.maxNumBatchedTokens - s₁.running.length = s₁.config.maxNumBatchedTokens := by
    rw [idle]
    rfl
  have free : s₁.blockManager.freeBlockIds.length - s₁.reserve s₁.running =
      s₁.blockManager.freeBlockIds.length := by
    rw [idle]
    rfl
  obtain ⟨resumed, admitted⟩ := List.append_eq_nil_iff.mp none
  have decision := phases.decision
  have prefilled := phases.prefilled
  have ranks := phases.ranks
  rw [tokens, free] at decision
  cases decision with
  | resumed chunk positive tokens fits => simp [ChunkPlan.resumes] at resumed
  | @paused c chunk stuck =>
      have sole : s₁.live = [c] := by simp [live, chunk, idle]
      obtain ⟨member, unended⟩ := inv.chunk_mem chunk
      have cached : (s₁.seqs c).numCachedTokens ≤ (s₁.seqs c).numTokens := by
        have within := (inv.covered c member).within
        rw [Sequence.numContextTokens] at within
        omega
      have fits := @inv.need_le _ _ _ _ sole
        (min ((s₁.seqs c).numTokens - (s₁.seqs c).numCachedTokens) s₁.config.maxNumBatchedTokens)
        (inv.pages_le roomy member unended (by omega))
      omega
  | absent chunk =>
      have nobody : s₁.live = [] := by simp [live, chunk, idle]
      have waits := phases.preempted.unfinished unfinished nobody
      have order := ranks.open_eq rfl waits budget
      obtain ⟨i, rest, first⟩ := List.exists_cons_of_ne_nil
        (show ranked ≠ [] by
          intro empty
          have perm := s₁.rankWaiting_perm s₁.waiting found
          rw [← order, empty] at perm
          exact waits (List.nil_perm.mp perm))
      obtain ⟨-, refuses⟩ := prefilled.stopped (List.map_eq_nil_iff.mp resumed)
        (List.map_eq_nil_iff.mp admitted)
      obtain ⟨blocks, matched, why⟩ := refuses i rest first
      obtain ⟨blocks', known, matched'⟩ := ranks.known i (by rw [first]; exact List.mem_cons_self ..)
      have same : blocks = blocks' := by simpa [matched] using matched'
      subst same
      have queued : i ∈ s₁.waiting := ranks.waits i (by rw [first]; exact List.mem_cons_self ..)
      obtain ⟨blocks', matched', -, short⟩ := inv.matchPrefix queued
      have same : blocks = blocks' := by simpa [matched] using matched'
      subst same
      rcases why with full | ⟨plain, long⟩ | zero | poor
      · simp only [active, idle, chunk] at full
        simp at full
        omega
      · exact ⟨plain, rfl, i, rest, blocks, first, known, long⟩
      · exact absurd zero (by dsimp only; omega)
      · exact absurd (inv.admission_le roomy nobody queued (by dsimp only; omega)) (not_le.mpr poor)

/-- With chunked prefill every step of an unfinished engine finds something to schedule. -/
theorem chunked_progress (run : Reachable xxh64 config s ids) (chunked : config.chunkedPrefill = true)
    (seats : 1 ≤ config.maxNumSeqs) (budget : 1 ≤ config.maxNumBatchedTokens) (roomy : config.Roomy)
    (unfinished : s.isFinished = false) :
    (∃ s₁ s₂ s₃ decodeBlocks plan ranked found entries done,
      Reserved s s₁ s₂ s₃ decodeBlocks plan ranked found entries done ∧
        (s₁.running ≠ [] ∨ plan.scheduledChunked ≠ none ∨ ∃ e ∈ entries, ranked.head? = some e.seqId)) ∧
    ∀ e t, schedule s = .error e t → e.refuses = false := by
  obtain ⟨cache, inv, same⟩ := run.inv
  subst same
  obtain ⟨s₁, s₂, tail, plan, ranked, found, entries, phases, outcome⟩ := inv.schedule
  obtain ⟨s₃, done, reserved⟩ := phases.reserves outcome
  have some' : ¬(prefillSeqs plan entries = [] ∧ s₁.running = []) := by
    rintro ⟨none, idle⟩
    obtain ⟨plain, -⟩ := phases.refused none idle unfinished roomy seats budget
    rw [chunked] at plain
    cases plain
  refine ⟨⟨s₁, s₂, s₃, _, plan, ranked, found, entries, done, reserved, ?_⟩, fun e t raised => ?_⟩
  · by_cases idle : s₁.running = []
    · right
      by_cases resumed : plan.scheduledChunked = none
      · right
        have order := phases.prefilled.order
        cases entries with
        | nil =>
            refine absurd ⟨?_, idle⟩ some'
            simp [prefillSeqs, ChunkPlan.resumes, resumed]
        | cons e rest =>
            refine ⟨e, List.mem_cons_self .., ?_⟩
            obtain ⟨more, whole⟩ := order
            rw [← whole]
            rfl
      · exact Or.inl resumed
    · exact Or.inl idle
  · rw [raised] at outcome
    rcases outcome.raises with rfl | ⟨none, idle, -⟩
    · rfl
    · exact absurd ⟨none, idle⟩ some'

-- Five pages of one token, and a budget of two tokens.
def tightConfig (chunkedPrefill : Bool) : Config :=
  { maxNumBatchedTokens := 2
    maxModelLen := 6
    kvcacheBlockSize := 1
    numKvcacheBlocks := 5
    chunkedPrefill }

-- Request 1 was preempted with three tokens, and its pages were evicted.
def preemptedEvents : List Event :=
  [.add 0 [1] {}, .add 1 [2] {}, .step [11, 21], .step [12, 22], .step [13], .step [14], .step [15]]

theorem chunked_progress_preempted :
    ∃ s, Reachable pageHash (tightConfig true) s {0, 1} ∧ s.waiting = [1] ∧ s.running = [] ∧
      (∃ s₁ s₂ s₃ decodeBlocks plan ranked found entries done,
        Reserved s s₁ s₂ s₃ decodeBlocks plan ranked found entries done ∧
          (s₁.running ≠ [] ∨ plan.scheduledChunked ≠ none ∨ ∃ e ∈ entries, ranked.head? = some e.seqId)) ∧
      ∀ e t, schedule s = .error e t → e.refuses = false := by
  have start : Scheduler.init (tightConfig true) = .ok _ := rfl
  have run := Reachable.play pageHash start preemptedEvents (by decide) (run_final (by decide +kernel))
  have progress := chunked_progress run rfl (by decide) (by decide) (by decide) (by decide +kernel)
  exact ⟨_, run, by decide +kernel, by decide +kernel, progress⟩

theorem Scheduler.Phases.keeps_first (phases : Phases cache s s₁ s₂ ids tail plan ranked found entries)
    (inv : Inv cache s ids) (chunk : s.chunkedReq = none) {rest : List SeqId} (queue : s.running = i :: rest)
    (pages : pagesFor s.blockManager.blockSize ((s.seqs i).numCachedTokens + 1) ≤ s.blockManager.numBlocks)
    (budget : 1 ≤ s.config.maxNumBatchedTokens) : s₁.running ≠ [] := by
  intro idle
  have split : i :: rest = s₁.running ++ tail := queue.symm.trans phases.preempted.running
  rw [idle, List.nil_append] at split
  obtain ⟨u, invU, preempted, last, poor⟩ := phases.pressed i rest split.symm
  rw [idle, List.nil_append] at last
  have config : u.config = s.config := preempted.config
  have chunk' : u.chunkedReq = none := preempted.chunkedReq.trans chunk
  have sole : u.live = [i] := by simp [live, chunk', last]
  have once := (List.nodup_append.mp inv.seats).2.1
  rw [queue, List.nodup_cons] at once
  have same : u.seqs i = s.seqs i := preempted.others i once.1
  have fits := @invU.need_le _ _ _ _ sole 1 (by
    rw [same, invU.size, invU.count, config, ← inv.size, ← inv.count]
    exact pages)
  refine poor ⟨?_, ?_⟩
  · rw [last, config]
    exact budget
  · simpa [reserve, last] using fits

theorem Scheduler.Phases.unpreempted (phases : Phases cache s s₁ s₂ ids tail plan ranked found entries)
    (inv : Inv cache s ids) (chunk : s.chunkedReq = none) (idle : s₁.running = []) (roomy : s.config.Roomy)
    (budget : 1 ≤ s.config.maxNumBatchedTokens) : s.running = [] := by
  cases queue : s.running with
  | nil => rfl
  | cons i rest =>
      have runs : i ∈ s.running := by rw [queue]; exact List.mem_cons_self ..
      obtain ⟨member, unended⟩ := inv.running_mem runs
      have pages := inv.pages_le roomy member unended (inv.running i runs).cached
      exact absurd idle (phases.keeps_first inv chunk queue pages budget)

theorem preemptDecodeTail_idle (idle : s.running = []) : preemptDecodeTail s = .ok () s := by
  simp only [preemptDecodeTail, run_get_bind, idle, List.length_nil]
  rfl

theorem matchWaitingFrom_congr {s' : Scheduler} (manager : s'.blockManager = s.blockManager)
    (seqs : s'.seqs = s.seqs) (waiting : List SeqId) (prefixes : Dict SeqId (List BlockId)) :
    s'.matchWaitingFrom waiting prefixes = s.matchWaitingFrom waiting prefixes := by
  induction waiting generalizing prefixes with
  | nil => rfl
  | cons i rest ih => simp only [matchWaitingFrom, manager, seqs, ih]

-- A step from a state without decode requests and without a chunk tries the waiting requests.
theorem Scheduler.Phases.ranked_eq (phases : Phases cache s s₁ s₂ ids tail plan ranked found entries)
    (idle : s.running = []) (chunk : s.chunkedReq = none) (waits : s.waiting ≠ [])
    (budget : 1 ≤ s.config.maxNumBatchedTokens) : s₁ = s.resetCounters ∧ plan.resumes = [] ∧
      plan.tokenBudget = s.config.maxNumBatchedTokens ∧ s.matchWaiting = .ok found ∧
      ranked = s.rankWaiting s.waiting found := by
  have preempting := phases.preempting
  rw [preemptDecodeTail_idle (s := s.resetCounters) idle] at preempting
  have same : s.resetCounters = s₁ := by
    cases preempting
    rfl
  subst same
  have tokens : s.config.maxNumBatchedTokens - s.running.length = s.config.maxNumBatchedTokens := by
    rw [idle]
    rfl
  have ranking := phases.ranking
  cases phases.decision with
  | absent chunk' =>
      have tries : (true : Bool) = true ∧ s.waiting ≠ [] ∧ s.config.maxNumBatchedTokens - s.running.length > 0 :=
        ⟨rfl, waits, by omega⟩
      have matching : s.resetCounters.matchWaiting = s.matchWaiting :=
        @matchWaitingFrom_congr s s.resetCounters rfl rfl _ _
      unfold rankedWaiting at ranking
      split at ranking
      next =>
        rw [matching] at ranking
        obtain ⟨found', matched, ranking⟩ := except_bind_ok ranking
        cases ranking
        exact ⟨rfl, rfl, tokens, matched, rfl⟩
      next closed => exact absurd tries closed
  | paused chunk' stuck => exact absurd (chunk.symm.trans chunk') (by simp)
  | resumed chunk' positive tokens fits => exact absurd (chunk.symm.trans chunk') (by simp)

theorem Inv.exists_member (h : Inv cache s ids) (unfinished : s.isFinished = false) : ∃ i, i ∈ ids := by
  by_contra nobody
  rw [not_exists] at nobody
  have waiting : s.waiting = [] := List.eq_nil_iff_forall_not_mem.mpr (fun i waits => nobody i (h.waiting_mem waits).1)
  have running : s.running = [] := List.eq_nil_iff_forall_not_mem.mpr (fun i runs => nobody i (h.running_mem runs).1)
  have chunk : s.chunkedReq = none :=
    Option.eq_none_iff_forall_ne_some.mpr (fun i chunk => nobody i (h.chunk_mem chunk).1)
  simp [isFinished, waiting, running, chunk] at unfinished

/-- Nothing decodes, and the request that is tried first has more uncomputed tokens than the budget. -/
def Starved (s : Scheduler) : Prop :=
  s.running = [] ∧ ∃ found i rest blocks, s.matchWaiting = .ok found ∧
    s.rankWaiting s.waiting found = i :: rest ∧ found i = some blocks ∧
    s.config.maxNumBatchedTokens < (s.seqs i).numTokens - blocks.length * s.blockManager.blockSize

theorem Reachable.starved_iff (run : Reachable xxh64 config s ids) (plain : config.chunkedPrefill = false)
    (seats : 1 ≤ config.maxNumSeqs) (roomy : config.Roomy)
    (prompts : ∀ i ∈ ids, (s.seqs i).numPromptTokens ≤ config.maxNumBatchedTokens)
    (unfinished : s.isFinished = false) :
    (∀ e t, schedule s = .error e t → e.refuses = false) ↔ ¬Starved s := by
  obtain ⟨cache, inv, same⟩ := run.inv
  subst same
  have budget : 1 ≤ s.config.maxNumBatchedTokens := by
    obtain ⟨i, member⟩ := inv.exists_member unfinished
    obtain ⟨chain, held, -⟩ := inv.pool
    exact (held.wf i member).prompt_pos.trans_le (prompts i member)
  have chunk := inv.whole plain
  obtain ⟨s₁, s₂, tail, plan, ranked, found, entries, phases, outcome⟩ := inv.schedule
  constructor
  · rintro calm ⟨idle, found', i, rest, blocks, matched, order, known, long⟩
    have waits : s.waiting ≠ [] := by
      intro none
      simp [none, rankWaiting] at order
    obtain ⟨rfl, fresh, tokens, matched', ranked'⟩ := phases.ranked_eq idle chunk waits budget
    have same : found' = found := by simpa [matched] using matched'
    subst same
    have none : entries = [] := by
      cases entries with
      | nil => rfl
      | cons e more =>
          have prefilled := phases.prefilled
          obtain ⟨later, whole⟩ := prefilled.order
          rw [ranked', order, List.map_cons, List.cons_append, List.cons.injEq] at whole
          have name := whole.1
          subst name
          have first := prefilled.first fresh e more rfl
          obtain ⟨blocks', known', matches'⟩ := phases.ranks.known e.seqId (by
            rw [ranked', order]
            exact List.mem_cons_self ..)
          have same : blocks = blocks' := by simpa [known] using known'
          subst same
          have same : e.blockIds = blocks := by simpa [first] using matches'
          have all := prefilled.fits.whole plain e (List.mem_cons_self ..)
          have few := prefilled.fits.tokens
          rw [Entry.Whole, same] at all
          rw [tokens, List.map_cons, List.sum_cons] at few
          change blocks.length * s.blockManager.blockSize + e.numNewTokens = (s.seqs e.seqId).numTokens at all
          omega
    have nothing : prefillSeqs plan entries ++ s.running = [] := by
      simp [prefillSeqs, fresh, none, idle]
    generalize result : schedule s = ended at outcome
    cases outcome with
    | batch s₃ decoding decoded some' => exact some' nothing
    | phase s₃ split decoding decoded many =>
        rw [show s.resetCounters.running = [] from idle] at split
        simp at split
    | stuck none idle kind =>
        have quiet := calm _ _ result
        rcases kind with rfl | rfl <;> cases quiet
  · intro fed e t raised
    rw [raised] at outcome
    rcases outcome.raises with rfl | ⟨none, idle, -⟩
    · rfl
    · refine absurd ?_ fed
      have running := phases.unpreempted inv chunk idle roomy budget
      obtain ⟨-, -, i, rest, blocks, first, known, long⟩ :=
        phases.refused none idle unfinished roomy seats budget
      have waits : s.waiting ≠ [] := by
        intro empty
        simp [isFinished, empty, chunk, running] at unfinished
      obtain ⟨rfl, -, -, matched, ranked'⟩ := phases.ranked_eq running chunk waits budget
      exact ⟨running, found, i, rest, blocks, matched, ranked' ▸ first, known, long⟩

theorem Reachable.not_starved (run : Reachable xxh64 config s ids)
    (wide : config.maxModelLen ≤ config.maxNumBatchedTokens + 1) : ¬Starved s := by
  rintro ⟨-, found, i, rest, blocks, -, order, -, long⟩
  obtain ⟨cache, inv, same⟩ := run.inv
  have waits : i ∈ s.waiting := by
    refine (rankWaiting_perm s s.waiting found).mem_iff.mp ?_
    rw [order]
    exact List.mem_cons_self ..
  obtain ⟨member, live⟩ := inv.waiting_mem waits
  have short := (inv.limits i member live).length
  rw [same] at short long
  omega

/-- In a reachable state, a step without chunked prefill fails exactly when the first request is starved. None is when
a step has room for a request of full length. -/
theorem whole_progress (run : Reachable xxh64 config s ids) (plain : config.chunkedPrefill = false)
    (seats : 1 ≤ config.maxNumSeqs) (roomy : config.Roomy)
    (prompts : ∀ i ∈ ids, (s.seqs i).numPromptTokens ≤ config.maxNumBatchedTokens)
    (unfinished : s.isFinished = false) :
    ((∀ e t, schedule s = .error e t → e.refuses = false) ↔ ¬Starved s) ∧
      (config.maxModelLen ≤ config.maxNumBatchedTokens + 1 → ∀ e t, schedule s = .error e t → e.refuses = false) := by
  have fails := run.starved_iff plain seats roomy prompts unfinished
  exact ⟨fails, fun wide => fails.mpr (run.not_starved wide)⟩

theorem whole_progress_decoding :
    ∃ s, Reachable pageHash (tightConfig false) s {0, 1} ∧ s.running = [0, 1] ∧
      ∀ e t, schedule s = .error e t → e.refuses = false := by
  have start : Scheduler.init (tightConfig false) = .ok _ := rfl
  have run := Reachable.play pageHash start (preemptedEvents.take 3) (by decide) (run_final (by decide +kernel))
  obtain ⟨s, run, decodes, prompts, unfinished⟩ : ∃ s, Reachable pageHash (tightConfig false) s {0, 1} ∧
      s.running = [0, 1] ∧ (∀ i ∈ ({0, 1} : Finset SeqId), (s.seqs i).numPromptTokens ≤ 2) ∧ s.isFinished = false :=
    ⟨_, run, by decide +kernel, by decide +kernel, by decide +kernel⟩
  have progress := whole_progress run rfl (by decide) (by decide) prompts unfinished
  refine ⟨s, run, decodes, progress.1.mpr (fun starved => ?_)⟩
  rw [Starved, decodes] at starved
  exact absurd starved.1 (by decide)

/-- A request of one prompt token that was preempted is starved when its pages were evicted. -/
theorem preempted_request_starves :
    ∃ s t, Reachable pageHash (tightConfig false) s {0, 1} ∧ (tightConfig false).Roomy ∧
      (∀ i ∈ ({0, 1} : Finset SeqId), (s.seqs i).numPromptTokens ≤ (tightConfig false).maxNumBatchedTokens) ∧
      s.isFinished = false ∧ schedule s = .error uncachedExceedsBudget t := by
  have start : Scheduler.init (tightConfig false) = .ok _ := rfl
  have run := Reachable.play pageHash start preemptedEvents (by decide) (run_final (by decide +kernel))
  exact ⟨_, _, run, by decide, by decide +kernel, by decide +kernel, run_error (by decide +kernel)⟩

end Progress

end NanoVllm
