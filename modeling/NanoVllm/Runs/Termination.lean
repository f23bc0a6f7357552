import Mathlib
import NanoVllm.Runs.Progress

set_option autoImplicit false

namespace NanoVllm

open Python Raising

def Sequence.remaining (config : Config) (seq : Sequence) : Nat :=
  if seq.status = .finished then 0 else config.maxModelLen - seq.numTokens

namespace Scheduler

def remaining (s : Scheduler) (ids : Finset SeqId) : Nat := ids.sum (fun i => (s.seqs i).remaining s.config)

def capacity (s : Scheduler) : Nat := s.config.numKvcacheBlocks * s.config.kvcacheBlockSize

-- How far the scheduler is from appending a token: a chunk gets there by its own steps, and so does a first
-- decode request whose next token the KV cache can hold.
def distance (s : Scheduler) : Nat :=
  match s.chunkedReq, s.running with
  | some c, _ => (s.seqs c).uncomputed + 1
  | none, [] => s.config.maxModelLen + 1
  | none, i :: _ => if (s.seqs i).numCachedTokens < s.capacity then 0 else s.config.maxModelLen + 2

def potential (s : Scheduler) (ids : Finset SeqId) : Nat :=
  s.remaining ids * (s.config.maxModelLen + 3) + s.distance

end Scheduler

/-- A request of the batch fills the KV cache past its prompt, and has a token left to compute. -/
def Stalls (t : Scheduler) (batch : List SeqId) : Prop :=
  ∃ i ∈ batch, (t.seqs i).numPromptTokens ≤ (t.seqs i).numContextTokens ∧
    (t.seqs i).numContextTokens < (t.seqs i).numTokens ∧ t.capacity ≤ (t.seqs i).numContextTokens

section Termination

open Scheduler

variable {cache : Cache} {xxh64 : XxHash} {config : Config} {s t w : Scheduler} {ids : Finset SeqId}
  {batch prefill : List SeqId} {samples : List (SeqId × Token)} {i : SeqId}

theorem Turn.remaining_le {seq seq' : Sequence} (turn : Turn xxh64 config seq seq')
    (live : seq.status ≠ .finished) (length : seq.numTokens < config.maxModelLen) :
    seq'.remaining config ≤ seq.remaining config ∧
      (seq.Complete → seq'.remaining config < seq.remaining config) := by
  have before : seq.remaining config = config.maxModelLen - seq.numTokens := by rw [Sequence.remaining, if_neg live]
  rw [before]
  cases turn with
  | ends tokenId complete stop =>
      have after : (seq.appended xxh64 tokenId).finished.remaining config = 0 := rfl
      rw [after]
      omega
  | grows tokenId complete more =>
      have after : (seq.appended xxh64 tokenId).advanced.remaining config =
          config.maxModelLen - (seq.numTokens + 1) := by
        rw [Sequence.remaining, if_neg (show (seq.appended xxh64 tokenId).advanced.status ≠ .finished from live)]
        rfl
      rw [after]
      omega
  | advances rest =>
      have after : seq.advanced.remaining config = config.maxModelLen - seq.numTokens := by
        rw [Sequence.remaining, if_neg (show seq.advanced.status ≠ .finished from live)]
        rfl
      rw [after]
      exact ⟨le_rfl, fun complete => absurd complete rest⟩

theorem Advanced.remaining_le (adv : Advanced xxh64 t w prefill samples) (h : Batch cache t ids prefill) :
    w.remaining ids ≤ t.remaining ids ∧
      ((∃ i ∈ prefill ++ t.running, (t.seqs i).Complete) → w.remaining ids < t.remaining ids) := by
  have turn (i : SeqId) (scheduled : i ∈ prefill ++ t.running) :
      (w.seqs i).remaining w.config ≤ (t.seqs i).remaining t.config ∧
        ((t.seqs i).Complete → (w.seqs i).remaining w.config < (t.seqs i).remaining t.config) := by
    obtain ⟨member, live⟩ := h.member scheduled
    rw [adv.config]
    exact (adv.turn i scheduled).remaining_le live (h.limits i member live).length
  have each : ∀ i ∈ ids, (w.seqs i).remaining w.config ≤ (t.seqs i).remaining t.config := by
    intro i member
    by_cases scheduled : i ∈ prefill ++ t.running
    · exact (turn i scheduled).1
    · rw [adv.others i scheduled, adv.config]
  refine ⟨Finset.sum_le_sum each, ?_⟩
  rintro ⟨i, scheduled, complete⟩
  exact Finset.sum_lt_sum each ⟨i, (h.member scheduled).1, (turn i scheduled).2 complete⟩

theorem Scheduled.remaining_eq {input : ModelRunner.ModelInput}
    (h : Scheduled cache s t ids batch prefill input) : t.remaining ids = s.remaining ids := by
  refine Finset.sum_congr rfl (fun i _ => ?_)
  have tokens := (Sequence.request_eq (h.request i)).2.1
  simp only [Sequence.remaining, h.config, tokens, h.ended i]

theorem Inv.distance_le (h : Inv cache s ids) : s.distance ≤ s.config.maxModelLen + 2 := by
  unfold distance
  split
  next c chunk =>
    obtain ⟨member, live⟩ := h.chunk_mem chunk
    have length := (h.limits c member live).length
    rw [Sequence.uncomputed]
    omega
  next => omega
  next =>
    split
    · omega
    · exact le_rfl

theorem Scheduler.Phases.budget_pos {s₁ s₂ : Scheduler} {tail : List SeqId} {plan : ChunkPlan}
    {ranked : List SeqId} {found : Dict SeqId (List BlockId)} {entries : List Entry}
    (phases : Phases cache s s₁ s₂ ids tail plan ranked found entries)
    (some' : prefillSeqs plan entries ++ s₁.running ≠ []) : 1 ≤ s.config.maxNumBatchedTokens := by
  by_contra zero
  rw [← show s₁.config = s.config from phases.preempted.config] at zero
  have decode := phases.affordable.1
  have fits := phases.prefilled.fits.tokens
  have idle : s₁.running = [] := List.length_eq_zero_iff.mp (by omega)
  have none : entries = [] := by
    cases entries with
    | nil => rfl
    | cons e rest =>
        obtain ⟨positive, -⟩ := phases.prefilled.stage.admits e (List.mem_cons_self ..)
        rw [List.map_cons, List.sum_cons] at fits
        cases phases.decision <;> dsimp only at fits <;> omega
  refine some' ?_
  cases phases.decision with
  | absent chunk => simp [prefillSeqs, ChunkPlan.resumes, none, idle]
  | paused chunk stuck => simp [prefillSeqs, ChunkPlan.resumes, none, idle]
  | resumed chunk positive tokens fits => omega

theorem Inv.decodes_first (h : Inv cache s ids) (run : Scheduler.schedule s = .ok batch t)
    (chunk : s.chunkedReq = none) {rest : List SeqId} (queue : s.running = i :: rest)
    (room : (s.seqs i).numCachedTokens < s.capacity) : t.running ≠ [] := by
  obtain ⟨s₁, s₂, tail, plan, ranked, found, entries, phases, outcome⟩ := h.schedule
  rw [run] at outcome
  cases outcome with
  | batch s₃ decoding decoded some' =>
      change s₃.running ≠ []
      rw [show s₃.running = s₁.running from decoded.stage.running]
      obtain ⟨chain, held, -⟩ := h.pool
      have positive : 0 < s.blockManager.blockSize := held.size_pos
      refine phases.keeps_first h chunk queue ?_ (phases.budget_pos some')
      rw [pagesFor_le positive, h.count, h.size]
      exact room

theorem Inv.distance_far (h : Inv cache s ids) (run : Scheduler.schedule s = .ok batch t) (idle : t.running = [])
    (chunk : s.chunkedReq = none) : s.config.maxModelLen + 1 ≤ s.distance := by
  unfold distance
  rw [chunk]
  cases queue : s.running with
  | nil => exact le_rfl
  | cons i rest =>
      have full : ¬(s.seqs i).numCachedTokens < s.capacity := fun room => h.decodes_first run chunk queue room idle
      simp only [full, if_false]
      omega

theorem Inv.distance_lt (h : Inv cache s ids) {input : ModelRunner.ModelInput}
    (run : Scheduler.schedule s = .ok batch t) (scheduled : Scheduled cache s t ids batch prefill input)
    (adv : Advanced xxh64 t w prefill samples) (steady : ¬Stalls t batch)
    (partial' : ∀ i ∈ prefill ++ t.running, ¬(t.seqs i).Complete) : w.distance < s.distance := by
  have shape := scheduled.shape
  have idle : t.running = [] := List.eq_nil_iff_forall_not_mem.mpr
    (fun i runs => partial' i (List.mem_append_right _ runs) (shape.running i runs).1)
  obtain ⟨c, single⟩ : ∃ c, prefill = [c] := by
    have early : prefill.dropLast = [] := List.eq_nil_iff_forall_not_mem.mpr
      (fun i front => partial' i (List.mem_append_left _ (List.dropLast_subset _ front)) (shape.complete i front))
    have some' : prefill ≠ [] := by simpa [idle] using shape.some'
    have whole := List.dropLast_append_getLast some'
    rw [early, List.nil_append] at whole
    exact ⟨_, whole.symm⟩
  subst single
  have listed : c ∈ [c] ++ t.running := List.mem_append_left _ (List.mem_singleton_self c)
  obtain ⟨member, live⟩ := shape.member listed
  obtain ⟨status, new⟩ := shape.scheduled c listed
  have value := (adv.turn c listed).advanced (partial' c listed)
  have length := (shape.limits c member live).length
  rw [scheduled.config] at length
  have below : (t.seqs c).numContextTokens < (t.seqs c).numTokens := by
    obtain ⟨chain, kept⟩ := shape.kept
    exact Nat.lt_of_le_of_ne (kept.covered c member).within (partial' c listed)
  have config : w.config = s.config := adv.config.trans scheduled.config
  by_cases part : (t.seqs c).numContextTokens < (t.seqs c).numPromptTokens
  · have partial'' : w.isPartial c = true := by
      simp only [isPartial, decide_eq_true_eq, value]
      exact ⟨live, part⟩
    have chunk : w.chunkedReq = some c := by
      rw [adv.chunk, if_neg (by simp)]
      simp [partial'']
    have after : w.distance = (t.seqs c).numTokens - (t.seqs c).numContextTokens + 1 := by
      simp only [distance, chunk, value]
      rfl
    rw [after]
    cases before : s.chunkedReq with
    | none =>
        have far := h.distance_far run idle before
        omega
    | some c' =>
        have same : c' = c := by
          simpa using shape.chunk (by simp) c' (scheduled.chunkedReq.trans before)
        subst same
        have cached := scheduled.chunk c' before
        have tokens := (Sequence.request_eq (scheduled.request c')).2.1
        have start : s.distance = (t.seqs c').numTokens - (t.seqs c').numCachedTokens + 1 := by
          simp only [distance, before, Sequence.uncomputed, tokens, cached]
        rw [start]
        rw [Sequence.numContextTokens] at below ⊢
        omega
  · have joins : w.joins c = true := by
      simp only [Scheduler.joins, decide_eq_true_eq, value]
      exact ⟨live, part⟩
    have partial'' : w.isPartial c = false := by
      simp only [isPartial, decide_eq_false_iff_not, value, not_and]
      exact fun _ => part
    have chunk : w.chunkedReq = none := by
      rw [adv.chunk, if_neg (by simp)]
      simp [partial'']
    have queue : w.running = [c] := by
      rw [adv.running, idle]
      simp [joins, unfinished]
    have room : (t.seqs c).numContextTokens < w.capacity := by
      by_contra full
      refine steady ⟨c, ?_, not_lt.mp part, below, ?_⟩
      · rw [scheduled.order]
        exact listed
      · rw [capacity, ← adv.config]
        exact not_lt.mp full
    have after : w.distance = 0 := by
      have room' : (t.seqs c).advanced.numCachedTokens < w.capacity := room
      simp only [distance, chunk, queue, value, room', if_true]
    rw [after]
    cases before : s.chunkedReq with
    | none =>
        have far := h.distance_far run idle before
        omega
    | some c' => simp [distance, before]

theorem Inv.potential_lt (h : Inv cache s ids) (step : Step xxh64 s batch t w) (steady : ¬Stalls t batch) :
    w.potential ids < s.potential ids := by
  obtain ⟨prefill, input, samples, scheduled, advanced, inv', config⟩ := h.step step
  obtain ⟨fewer, sampled⟩ := advanced.remaining_le scheduled.shape
  rw [scheduled.remaining_eq] at fewer sampled
  have near := inv'.distance_le
  rw [config] at near
  unfold potential
  rw [config]
  by_cases complete : ∃ i ∈ prefill ++ t.running, (t.seqs i).Complete
  · have less := Nat.mul_le_mul_right (s.config.maxModelLen + 3) (sampled complete)
    rw [Nat.succ_mul] at less
    omega
  · have less := Nat.mul_le_mul_right (s.config.maxModelLen + 3) fewer
    have closer := h.distance_lt step.scheduled scheduled advanced steady
      (fun i listed whole => complete ⟨i, listed, whole⟩)
    omega

/-- An engine that never ends stalls again and again. -/
theorem endless_run_stalls {state : Nat → Scheduler} (start : Reachable xxh64 config (state 0) ids)
    (steps : ∀ n, ∃ batch t, Step xxh64 (state n) batch t (state (n + 1))) (n : Nat) :
    ∃ m, n ≤ m ∧ ∃ batch t, Step xxh64 (state m) batch t (state (m + 1)) ∧ Stalls t batch := by
  have reached (m : Nat) : Reachable xxh64 config (state m) ids := by
    induction m with
    | zero => exact start
    | succ m ih =>
        obtain ⟨batch, t, step⟩ := steps m
        exact ih.step step
  by_contra never
  have descends (k : Nat) : (state (n + k)).potential ids + k ≤ (state n).potential ids := by
    induction k with
    | zero => exact le_rfl
    | succ k ih =>
        obtain ⟨batch, t, step⟩ := steps (n + k)
        obtain ⟨cache, inv, -⟩ := (reached (n + k)).inv
        have less := inv.potential_lt step (fun stalls => never ⟨n + k, Nat.le_add_right n k, batch, t, step, stalls⟩)
        change (state (n + k + 1)).potential ids + (k + 1) ≤ _
        omega
  have long := descends ((state n).potential ids + 1)
  omega

end Termination

-- A request whose chain of pages has a hash collision: the first page has the digest of the third one. The
-- pages are those of a prompt of six tokens, and the two digests are the real ones.
section Endless

open Scheduler

def loopingConfig : Config where
  maxNumBatchedTokens := 6
  maxModelLen := 8
  kvcacheBlockSize := 2
  numKvcacheBlocks := 3
  chunkedPrefill := true

def firstDigest : Int := 15453681839988068216

def secondDigest : Int := 9240089142476077877

def collidingHash : XxHash := fun tokenIds parentHash =>
  if tokenIds = [9707, 11] ∧ parentHash = -1 then 15453681839988068216
  else if tokenIds = [11248, 51932] ∧ parentHash = firstDigest then 9240089142476077877
  else if tokenIds = [9605, 15974] ∧ parentHash = secondDigest then 15453681839988068216
  else pageHash tokenIds parentHash

-- The request fills the KV cache, from the page `first` to the page `last`, and has one more token.
def looped (first last : BlockId) (generation : Nat) : Scheduler where
  config := loopingConfig
  blockManager :=
    { blockSize := 2
      numBlocks := 3
      blocks := fun b =>
        if b = first then ⟨b, 1, generation, firstDigest, b, generation, -1, -1, [9707, 11]⟩
        else if b = 1 then ⟨b, 1, generation, secondDigest, b, generation, first, generation, [11248, 51932]⟩
        else if b = last then ⟨b, 1, generation, firstDigest, b, generation, 1, generation, [9605, 15974]⟩
        else Block.init b
      hashToBlockId := fun h => if h = firstDigest then some last else if h = secondDigest then some 1 else none
      freeBlockIds := []
      usedBlockIds := {0, 1, 2} }
  waiting := []
  chunkedReq := none
  running := [0]
  numScheduledPrefillSeqs := 1
  numScheduledPrefillTokens := 6
  initialPersistentHitBlocksBySeq := Dict.empty
  sameStepHitBlocksBySeq := Dict.empty
  seqs := fun i =>
    if i = 0 then
      { seqId := 0
        blockSize := 2
        status := .running
        tokenIds := [9707, 11, 11248, 51932, 9605, 15974, 13]
        lastToken := 13
        numTokens := 7
        numPromptTokens := 6
        blockHashes := [firstDigest, secondDigest, firstDigest]
        numCachedTokens := 6
        numNewTokens := 0
        blockTable := [first, 1, last]
        temperature := 1
        maxTokens := 64
        ignoreEos := false }
    else default

theorem Scheduler.ext_pointwise {s t : Scheduler}
    (rest : { s with
        blockManager := { s.blockManager with blocks := Block.init, hashToBlockId := Dict.empty, usedBlockIds := ∅ }
        seqs := fun _ => default } =
      { t with
        blockManager := { t.blockManager with blocks := Block.init, hashToBlockId := Dict.empty, usedBlockIds := ∅ }
        seqs := fun _ => default })
    (blocks : ∀ b, s.blockManager.blocks b = t.blockManager.blocks b)
    (hashes : ∀ h, s.blockManager.hashToBlockId h = t.blockManager.hashToBlockId h)
    (used : s.blockManager.usedBlockIds = t.blockManager.usedBlockIds) (seqs : ∀ i, s.seqs i = t.seqs i) :
    s = t := by
  obtain ⟨_, ⟨⟩⟩ := s
  obtain ⟨_, ⟨⟩⟩ := t
  obtain rfl := funext blocks
  obtain rfl := funext hashes
  obtain rfl := funext seqs
  obtain rfl := used
  simp only [Scheduler.mk.injEq, BlockManager.mk.injEq] at rest ⊢
  simp only [rest, and_self]

theorem digest_cases {P : Int → Prop} (first : P firstDigest) (second : P secondDigest)
    (rest : ∀ h, h ≠ 15453681839988068216 → h ≠ 9240089142476077877 → P h) (h : Int) : P h := by
  by_cases isFirst : h = firstDigest
  · exact isFirst ▸ first
  by_cases isSecond : h = secondDigest
  · exact isSecond ▸ second
  exact rest h isFirst isSecond

theorem looped_start : ∃ s, Scheduler.init loopingConfig = .ok s ∧
    forEach (Event.run collidingHash) [.add 0 [9707, 11, 11248, 51932, 9605, 15974] {}, .step [13]] s =
      .ok () (looped 0 2 1) := by
  refine ⟨_, rfl, ?_⟩
  conv_lhs => cbv
  congr 1
  refine ext_pointwise (by cbv) ?blocks ?hashes ?used ?seqs
  case blocks =>
    rintro (_ | _ | _ | b)
    all_goals rfl
  case hashes =>
    refine digest_cases rfl rfl (fun h first second => ?_)
    simp [looped, firstDigest, secondDigest, first, second, Function.update, Dict.empty]
  case used =>
    dsimp only [looped]
    decide
  case seqs =>
    rintro (_ | i)
    all_goals rfl

-- The request is preempted. Its first page is looked up where its last page is registered, so it is
-- prefilled from the start, into the pages that it gave back; the budget ends with the last page.
theorem looped_turn {first last : BlockId} (pages : (first, last) = (0, 2) ∨ (first, last) = (2, 0))
    (generation : Nat) :
    (Event.step []).run collidingHash (looped first last generation) =
      .ok () (looped last first (generation + 1)) := by
  rcases pages with pages | pages
  all_goals
    cases pages
    conv_lhs => cbv
    congr 1
    refine ext_pointwise (by cbv) ?blocks ?hashes ?used ?seqs
    case blocks =>
      rintro (_ | _ | _ | b)
      all_goals rfl
    case hashes =>
      refine digest_cases rfl rfl (fun h first second => ?_)
      simp [looped, firstDigest, secondDigest, first, second, Function.update]
    case used =>
      dsimp only [looped]
      decide
    case seqs =>
      rintro (_ | i)
      all_goals rfl

def turned : Nat → BlockId × BlockId
  | 0 => (0, 2)
  | n + 1 => (turned n).swap

theorem turned_cases (n : Nat) : turned n = (0, 2) ∨ turned n = (2, 0) := by
  induction n with
  | zero => exact Or.inl rfl
  | succ n ih =>
      rcases ih with even | odd
      · exact Or.inr (congrArg Prod.swap even)
      · exact Or.inl (congrArg Prod.swap odd)

def loopedAt (n : Nat) : Scheduler := looped (turned n).1 (turned n).2 (n + 1)

theorem loopedAt_reachable : Reachable collidingHash loopingConfig (loopedAt 0) {0} := by
  obtain ⟨s, made, run⟩ := looped_start
  exact Reachable.play collidingHash made _ (by decide) run

theorem loopedAt_step (n : Nat) : ∃ batch t, Step collidingHash (loopedAt n) batch t (loopedAt (n + 1)) :=
  Event.step_run (looped_turn (turned_cases n) (n + 1))

theorem endless_run_stalls_collision : ∃ m, 5 ≤ m ∧ ∃ batch t,
    Step collidingHash (loopedAt m) batch t (loopedAt (m + 1)) ∧ Stalls t batch :=
  endless_run_stalls loopedAt_reachable loopedAt_step 5

/-- One request keeps the engine busy for ever. -/
theorem collision_never_ends : ∃ state : Nat → Scheduler, Reachable collidingHash loopingConfig (state 0) {0} ∧
    ∀ n, (state n).isFinished = false ∧ ∃ batch t, Step collidingHash (state n) batch t (state (n + 1)) :=
  ⟨loopedAt, loopedAt_reachable, fun n => ⟨rfl, loopedAt_step n⟩⟩

end Endless

end NanoVllm
