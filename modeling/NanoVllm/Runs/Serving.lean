import NanoVllm.Model.LLMEngine
import NanoVllm.Runs.Reachable
import NanoVllm.Shared.Loop

set_option autoImplicit false

namespace NanoVllm

open Python Raising

structure Request where
  seqId : SeqId
  promptIds : List Token
  samplingParams : SamplingParams

namespace Request

section Reference

variable (forward : List Token → Token) (config : Config) (request : Request)

-- The test of the reference loop after it appended a token.
def ends (tokenIds : List Token) : Bool :=
  (!request.samplingParams.ignoreEos && decide (tokenIds.getLast? = some config.eos)) ||
    decide (tokenIds.length - request.promptIds.length ≥ request.samplingParams.maxTokens) ||
    decide (tokenIds.length ≥ config.maxModelLen)

def extend (tokenIds : List Token) : List Token := tokenIds ++ [forward tokenIds]

def continued (tokenIds : List Token) : List Token :=
  Loop.repeatUntil (extend forward) (request.ends config)
    (request.samplingParams.maxTokens - (tokenIds.length - request.promptIds.length)) tokenIds

def completion : List Token := (request.continued forward config request.promptIds).drop request.promptIds.length

end Reference

variable {forward : List Token → Token} {config : Config} {request : Request} {tokenIds : List Token}

theorem continued_last
    (open' : tokenIds.length - request.promptIds.length < request.samplingParams.maxTokens)
    (ends : request.ends config (extend forward tokenIds) = true) :
    request.continued forward config tokenIds = extend forward tokenIds := by
  obtain ⟨fuel, some'⟩ := Nat.exists_eq_succ_of_ne_zero (Nat.sub_ne_zero_of_lt open')
  rw [continued, some']
  exact Loop.repeatUntil_last ends

theorem continued_more (prompt : request.promptIds.length ≤ tokenIds.length)
    (open' : tokenIds.length - request.promptIds.length < request.samplingParams.maxTokens)
    (more : request.ends config (extend forward tokenIds) = false) :
    request.continued forward config tokenIds = request.continued forward config (extend forward tokenIds) := by
  have longer : (extend forward tokenIds).length = tokenIds.length + 1 := List.length_append
  have fuel : request.samplingParams.maxTokens - (tokenIds.length - request.promptIds.length) =
      request.samplingParams.maxTokens - ((extend forward tokenIds).length - request.promptIds.length) + 1 := by
    omega
  rw [continued, fuel]
  exact Loop.repeatUntil_more more

theorem prefix_continued : tokenIds <+: request.continued forward config tokenIds :=
  Loop.repeatUntil_keeps (fun _ before => before.trans (List.prefix_append ..)) List.prefix_rfl

theorem continued_ends (prompt : request.promptIds.length ≤ tokenIds.length)
    (open' : tokenIds.length - request.promptIds.length < request.samplingParams.maxTokens) :
    request.ends config (request.continued forward config tokenIds) = true := by
  refine Loop.repeatUntil_stops (I := fun tokens => request.promptIds.length ≤ tokens.length)
    (fun tokens => request.samplingParams.maxTokens - (tokens.length - request.promptIds.length) - 1) ?_ ?_ prompt ?_
  · intro tokens longer
    rw [extend, List.length_append]
    omega
  · intro tokens longer more
    simp only [Request.ends, Bool.or_eq_false_iff, decide_eq_false_iff_not] at more
    have open'' := more.1.2
    rw [extend, List.length_append, List.length_singleton] at open'' ⊢
    omega
  · omega

end Request

/-- An engine from its start on: requests are added or refused, and steps report what finished. -/
inductive Session (xxh64 : XxHash) (tokenizer : Tokenizer) (forward : List Token → Token) (config : Config) :
    LLMEngine → List Request → List (SeqId × List Token) → Prop
  | init {s : Scheduler} (counter : SeqId) (made : Scheduler.init config = .ok s) :
      Session xxh64 tokenizer forward config ⟨s, counter⟩ [] []
  | add {e e' : LLMEngine} {requests : List Request} {reports : List (SeqId × List Token)} {prompt : Prompt}
      {params : SamplingParams} (past : Session xxh64 tokenizer forward config e requests reports)
      (run : LLMEngine.addRequest xxh64 tokenizer prompt params e = .ok () e') :
      Session xxh64 tokenizer forward config e'
        (requests ++ [⟨e.counter, LLMEngine.encodePrompt tokenizer prompt, params⟩]) reports
  | refuse {e e' : LLMEngine} {requests : List Request} {reports : List (SeqId × List Token)} {prompt : Prompt}
      {params : SamplingParams} {error : PyError}
      (past : Session xxh64 tokenizer forward config e requests reports)
      (run : LLMEngine.addRequest xxh64 tokenizer prompt params e = .error error e') :
      Session xxh64 tokenizer forward config e' requests reports
  | step {e e' : LLMEngine} {requests : List Request} {reports output : List (SeqId × List Token)}
      (past : Session xxh64 tokenizer forward config e requests reports)
      (run : LLMEngine.step xxh64 forward e = .ok output e') :
      Session xxh64 tokenizer forward config e' requests (reports ++ output)

def reportsOf (reports : List (SeqId × List Token)) (i : SeqId) : List (SeqId × List Token) :=
  reports.filter (fun report => decide (report.1 = i))

theorem reportsOf_append (reports output : List (SeqId × List Token)) (i : SeqId) :
    reportsOf (reports ++ output) i = reportsOf reports i ++ reportsOf output i := List.filter_append ..

/-- A sequence on the way of the reference loop, and at its end when it finished. -/
structure Follows (forward : List Token → Token) (config : Config) (request : Request) (seq : Sequence) :
    Prop where
  prompt : seq.numPromptTokens = request.promptIds.length
  most : seq.maxTokens = request.samplingParams.maxTokens
  ignoreEos : seq.ignoreEos = request.samplingParams.ignoreEos
  started : request.promptIds <+: seq.tokenIds
  live : seq.status ≠ .finished →
    request.continued forward config seq.tokenIds = request.continued forward config request.promptIds
  ended : seq.status = .finished → seq.tokenIds = request.continued forward config request.promptIds

structure Serving (xxh64 : XxHash) (forward : List Token → Token) (config : Config) (e : LLMEngine)
    (requests : List Request) (reports : List (SeqId × List Token)) : Prop where
  reachable : Reachable xxh64 config e.scheduler (requests.map Request.seqId).toFinset
  below : ∀ r ∈ requests, r.seqId < e.counter
  once : (requests.map Request.seqId).Nodup
  follows : ∀ r ∈ requests, Follows forward config r (e.scheduler.seqs r.seqId)
  known : ∀ report ∈ reports, ∃ r ∈ requests, r.seqId = report.1
  reported : ∀ r ∈ requests, reportsOf reports r.seqId =
    if (e.scheduler.seqs r.seqId).status = .finished then [(r.seqId, r.completion forward config)] else []

namespace Follows

variable {xxh64 : XxHash} {forward : List Token → Token} {config : Config} {request : Request}
  {seq seq' : Sequence}

theorem congr (h : Follows forward config request seq) (same : seq'.request = seq.request)
    (ended : seq'.status = .finished ↔ seq.status = .finished) : Follows forward config request seq' := by
  obtain ⟨-, -, prompt, most, tokens, ignoreEos⟩ := Sequence.request_eq same
  constructor
  case prompt => exact prompt.trans h.prompt
  case most => exact most.trans h.most
  case ignoreEos => exact ignoreEos.trans h.ignoreEos
  case started => exact tokens ▸ h.started
  case live =>
    intro live
    rw [tokens]
    exact h.live (fun old => live (ended.mpr old))
  case ended =>
    intro old
    rw [tokens]
    exact h.ended (ended.mp old)

theorem fresh {params : SamplingParams} {i : SeqId} {tokenIds : List Token} {size : Nat}
    (made : Sequence.init xxh64 i tokenIds params size = .ok seq) :
    Follows forward config ⟨i, tokenIds, params⟩ seq := by
  obtain ⟨wf, fresh, name, tokens, most, ignoreEos⟩ := Sequence.init_ok made
  constructor
  case prompt => rw [fresh.prompt, wf.tokens, tokens]
  case most => exact most
  case ignoreEos => exact ignoreEos
  case started => exact tokens ▸ List.prefix_rfl
  case live => exact fun _ => by rw [tokens]
  case ended =>
    intro ended
    rw [fresh.status] at ended
    cases ended

theorem stops_eq (h : Follows forward config request seq) {size : Nat} (wf : seq.Wf size) (tokenId : Token) :
    Scheduler.stops config (seq.appended xxh64 tokenId) tokenId =
      request.ends config (seq.tokenIds ++ [tokenId]) := by
  simp only [Scheduler.stops, Request.ends, Sequence.appended, Sequence.numCompletionTokens, h.prompt, h.most,
    h.ignoreEos, wf.tokens, List.getLast?_append, List.getLast?_singleton, Option.some_or, Option.some.injEq,
    List.length_append, List.length_singleton]

theorem sampled (h : Follows forward config request seq) {size : Nat} (wf : seq.Wf size)
    (live : seq.status ≠ .finished) (limits : Limits config seq) :
    Follows forward config request (seq.sampled xxh64 config (forward seq.tokenIds)).settled := by
  have prompt : request.promptIds.length ≤ seq.tokenIds.length := h.started.length_le
  have open' : seq.tokenIds.length - request.promptIds.length < request.samplingParams.maxTokens := by
    have completion := limits.completion
    rwa [Sequence.numCompletionTokens, h.prompt, h.most, wf.tokens] at completion
  have started : request.promptIds <+: seq.tokenIds ++ [forward seq.tokenIds] :=
    h.started.trans (List.prefix_append ..)
  have test := @stops_eq xxh64 _ _ _ _ h _ wf (forward seq.tokenIds)
  cases stop : Scheduler.stops config (seq.appended xxh64 (forward seq.tokenIds)) (forward seq.tokenIds) with
  | true =>
      rw [Sequence.sampled, if_pos stop]
      refine ⟨h.prompt, h.most, h.ignoreEos, started, fun live' => absurd rfl live', fun _ => ?_⟩
      rw [← h.live live, Request.continued_last open' (test.symm.trans stop)]
      rfl
  | false =>
      have live' : (seq.appended xxh64 (forward seq.tokenIds)).status ≠ .finished := live
      rw [Sequence.sampled, stop]
      simp only [Bool.false_eq_true, if_false]
      rw [Sequence.settled, if_pos live']
      refine ⟨h.prompt, h.most, h.ignoreEos, started, fun _ => ?_, fun ended => absurd ended live'⟩
      rw [← h.live live, Request.continued_more prompt open' (test.symm.trans stop)]
      rfl

end Follows

namespace LLMEngine

variable {xxh64 : XxHash} {tokenizer : Tokenizer} {forward : List Token → Token} {e e' : LLMEngine}

theorem add_error {seq : Sequence} {s s' : Scheduler} {error : PyError}
    (run : Scheduler.add seq s = .error error s') : s' = s := by
  by_cases short : (seq.numTokens : Int) ≤ (s.config.maxModelLen : Int) - 1
  · have added : Scheduler.add seq s = .ok () _ := run_require_bind short _ _
    rw [added] at run
    cases run
  · simp only [Scheduler.add, run_get_bind, require, short, if_false] at run
    cases run
    rfl

theorem addRequest_ok {prompt : Prompt} {params : SamplingParams}
    (run : addRequest xxh64 tokenizer prompt params e = .ok () e') :
    ∃ seq s, Sequence.init xxh64 e.counter (encodePrompt tokenizer prompt) params
        e.scheduler.config.kvcacheBlockSize = .ok seq ∧
      Scheduler.add seq e.scheduler = .ok () s ∧ e' = ⟨s, e.counter + 1⟩ := by
  obtain ⟨seq, made, run⟩ := run_ofExcept_ok run
  obtain ⟨s, run, same⟩ := run_zoom_ok run
  exact ⟨seq, s, made, run, same.symm⟩

theorem addRequest_error {prompt : Prompt} {params : SamplingParams} {error : PyError}
    (run : addRequest xxh64 tokenizer prompt params e = .error error e') :
    e' = { e with counter := e.counter + 1 } := by
  simp only [addRequest, run_get_bind, run_set_bind] at run
  cases made : Sequence.init xxh64 e.counter (encodePrompt tokenizer prompt) params
      e.scheduler.config.kvcacheBlockSize with
  | error reason =>
      rw [made] at run
      cases run
      rfl
  | ok seq =>
      rw [run_ofExcept_bind made] at run
      rw [onScheduler, zoom] at run
      cases added : Scheduler.add seq e.scheduler with
      | ok _ s => simp [added] at run
      | error reason s =>
          simp only [added, EStateM.Result.error.injEq] at run
          rw [← run.2, add_error added]

theorem step_ok {output : List (SeqId × List Token)} (run : step xxh64 forward e = .ok output e') :
    ∃ batch t input rows w, Scheduler.schedule e.scheduler = .ok batch t ∧
      ModelRunner.prepareModelInput t.config.kvcacheBlockSize (batch.map t.seqs) t.numScheduledPrefillSeqs =
        .ok input ∧
      input.seqNeedComputeLogits = some rows ∧
      Scheduler.postprocess xxh64 batch
        (rows.filterMap (fun row => (batch.map t.seqs)[row]?.map (fun seq => forward seq.tokenIds))) rows t =
          .ok () w ∧
      e' = { e with scheduler := w } ∧
      output = (batch.filter (fun i => (w.seqs i).isFinished)).map
        (fun i => ((w.seqs i).seqId, (w.seqs i).completionTokenIds)) := by
  obtain ⟨batch, e₁, scheduled, run⟩ := run_bind_ok run
  obtain ⟨t, scheduled', rfl⟩ := run_zoom_ok scheduled
  obtain ⟨⟨tokenIds, logits⟩, executed, run⟩ := run_ofExcept_ok run
  obtain ⟨input, prepared, executed⟩ := except_bind_ok executed
  rw [except_pure_ok, Prod.mk.injEq] at executed
  obtain ⟨tokens, rfl⟩ := executed
  cases rows : input.seqNeedComputeLogits with
  | none =>
      simp only [rows] at run
      cases run
  | some logitsIndices =>
      simp only [rows] at run tokens
      subst tokens
      obtain ⟨_, e₂, processed, run⟩ := run_bind_ok run
      obtain ⟨w, processed', rfl⟩ := run_zoom_ok processed
      cases run
      exact ⟨batch, t, input, logitsIndices, w, scheduled', prepared, rows, processed', rfl, rfl⟩

end LLMEngine


namespace Serving

variable {xxh64 : XxHash} {tokenizer : Tokenizer} {forward : List Token → Token} {config : Config}
  {e e' : LLMEngine} {requests : List Request} {reports output : List (SeqId × List Token)}

theorem init {s : Scheduler} (counter : SeqId) (made : Scheduler.init config = .ok s) :
    Serving xxh64 forward config ⟨s, counter⟩ [] [] where
  reachable := .init made
  below := by simp
  once := by simp
  follows := by simp
  known := by simp
  reported := by simp

theorem refuse (h : Serving xxh64 forward config e requests reports) :
    Serving xxh64 forward config { e with counter := e.counter + 1 } requests reports where
  reachable := h.reachable
  below := fun r listed => Nat.lt_succ_of_lt (h.below r listed)
  once := h.once
  follows := h.follows
  known := h.known
  reported := h.reported

theorem config_eq (h : Serving xxh64 forward config e requests reports) : e.scheduler.config = config := by
  obtain ⟨cache, -, same⟩ := h.reachable.inv
  exact same

theorem add (h : Serving xxh64 forward config e requests reports) {prompt : Prompt} {params : SamplingParams}
    (run : LLMEngine.addRequest xxh64 tokenizer prompt params e = .ok () e') :
    Serving xxh64 forward config e' (requests ++ [⟨e.counter, LLMEngine.encodePrompt tokenizer prompt, params⟩])
      reports := by
  obtain ⟨seq, s, made, added, rfl⟩ := LLMEngine.addRequest_ok run
  obtain ⟨-, fresh, name, -⟩ := Sequence.init_ok made
  obtain ⟨-, value⟩ := add_run added
  have absent : e.counter ∉ requests.map Request.seqId := by
    intro listed
    obtain ⟨r, known, same⟩ := List.mem_map.mp listed
    exact absurd same (Nat.ne_of_lt (h.below r known))
  have self : s.seqs e.counter = seq := by
    rw [value, ← name]
    exact e.scheduler.setSeq_seqs_self seq.seqId seq
  have others (r : Request) (listed : r ∈ requests) : s.seqs r.seqId = e.scheduler.seqs r.seqId := by
    rw [value]
    refine e.scheduler.setSeq_seqs_of_ne seq ?_
    rw [name]
    exact Nat.ne_of_lt (h.below r listed)
  have unreported : reportsOf reports e.counter = [] := by
    refine List.filter_eq_nil_iff.mpr (fun report listed => ?_)
    obtain ⟨r, known, same⟩ := h.known report listed
    have other : report.1 ≠ e.counter := same ▸ Nat.ne_of_lt (h.below r known)
    simpa using other
  have each {P : Request → Prop} (old : ∀ r ∈ requests, P r)
      (new : P ⟨e.counter, LLMEngine.encodePrompt tokenizer prompt, params⟩) :
      ∀ r ∈ requests ++ [⟨e.counter, LLMEngine.encodePrompt tokenizer prompt, params⟩], P r := by
    intro r listed
    rcases List.mem_append.mp listed with known | last
    · exact old r known
    · rw [List.mem_singleton.mp last]
      exact new
  constructor
  case reachable =>
    rw [List.map_append, List.toFinset_append, List.map_singleton, List.toFinset_cons, List.toFinset_nil,
      Finset.union_comm]
    exact h.reachable.add (by simpa using absent) (h.config_eq ▸ made) added
  case below => exact each (fun r listed => Nat.lt_succ_of_lt (h.below r listed)) (Nat.lt_succ_self _)
  case once =>
    rw [List.map_append, List.map_singleton]
    refine List.nodup_append.mpr ⟨h.once, List.nodup_singleton _, fun i old j new => ?_⟩
    have last : j = e.counter := List.mem_singleton.mp new
    exact fun same => absent (last ▸ same ▸ old)
  case follows =>
    refine each (fun r listed => ?_) ?_
    · rw [others r listed]
      exact h.follows r listed
    · rw [self]
      exact .fresh made
  case known =>
    intro report listed
    obtain ⟨r, known, same⟩ := h.known report listed
    exact ⟨r, List.mem_append_left _ known, same⟩
  case reported =>
    refine each (fun r listed => ?_) ?_
    · rw [others r listed]
      exact h.reported r listed
    · rw [self, fresh.status]
      exact unreported

theorem mem_zip_filterMap {α β : Type} {g : α → Option β} {xs : List α} (inside : ∀ x ∈ xs, ∃ y, g x = some y)
    {x : α} {y : β} (pair : (x, y) ∈ xs.zip (xs.filterMap g)) : g x = some y := by
  induction xs with
  | nil => simp at pair
  | cons first rest ih =>
      obtain ⟨value, found⟩ := inside first (List.mem_cons_self ..)
      rw [List.filterMap_cons_some found, List.zip_cons_cons] at pair
      rcases List.mem_cons.mp pair with same | later
      · cases same
        exact found
      · exact ih (fun x listed => inside x (List.mem_cons_of_mem first listed)) later

theorem samples_forward {t : Scheduler} {batch : List SeqId} {rows : List Nat} (logits : LogitsOf t batch rows)
    {d : SeqId × Token} (listed : d ∈ samplesOf batch rows
      (rows.filterMap (fun row => (batch.map t.seqs)[row]?.map (fun seq => forward seq.tokenIds)))) :
    d.2 = forward (t.seqs d.1).tokenIds := by
  have token (row : Nat) (i : SeqId) (entry : batch[row]? = some i) :
      (batch.map t.seqs)[row]?.map (fun seq => forward seq.tokenIds) = some (forward (t.seqs i).tokenIds) := by
    rw [List.getElem?_map, entry]
    rfl
  obtain ⟨e, placed, rfl⟩ := List.mem_map.mp listed
  obtain ⟨pair, entry⟩ := mem_placed.mp placed
  have value := mem_zip_filterMap (fun row listed => by
    obtain ⟨i, entry, -⟩ := (logits.exact' row).mp listed
    exact ⟨_, token row i entry⟩) pair
  rw [token e.1 e.2.1 entry] at value
  exact (Option.some.inj value).symm

theorem reports_step {w : Scheduler} {batch : List SeqId} (once : batch.Nodup)
    (named : ∀ i ∈ batch, (w.seqs i).seqId = i) (i : SeqId) :
    reportsOf ((batch.filter (fun i => (w.seqs i).isFinished)).map
        (fun i => ((w.seqs i).seqId, (w.seqs i).completionTokenIds))) i =
      if i ∈ batch ∧ (w.seqs i).status = .finished then [(i, (w.seqs i).completionTokenIds)] else [] := by
  have single : (batch.filter (fun j => (w.seqs j).isFinished)).filter (fun j => decide (j = i)) =
      if i ∈ batch ∧ (w.seqs i).status = .finished then [i] else [] := by
    rw [List.filter_eq, (once.filter _).count]
    simp only [List.mem_filter, Sequence.isFinished, decide_eq_true_eq]
    split <;> rfl
  have renamed : (batch.filter (fun i => (w.seqs i).isFinished)).map
      (fun i => ((w.seqs i).seqId, (w.seqs i).completionTokenIds)) =
      (batch.filter (fun i => (w.seqs i).isFinished)).map (fun i => (i, (w.seqs i).completionTokenIds)) := by
    refine List.map_congr_left (fun j listed => ?_)
    rw [named j (List.mem_filter.mp listed).1]
  rw [renamed, reportsOf, List.filter_map]
  change ((batch.filter (fun j => (w.seqs j).isFinished)).filter (fun j => decide (j = i))).map _ = _
  rw [single]
  split <;> rfl

theorem step (h : Serving xxh64 forward config e requests reports)
    (run : LLMEngine.step xxh64 forward e = .ok output e') :
    Serving xxh64 forward config e' requests (reports ++ output) := by
  obtain ⟨batch, t, input, rows, w, chosen, prepared, logitsRows, processed, rfl, rfl⟩ := LLMEngine.step_ok run
  obtain ⟨cache, inv, same⟩ := h.reachable.inv
  obtain ⟨prefill, input', scheduled⟩ := inv.scheduled chosen
  obtain ⟨rows', logitsRows', logits⟩ := scheduled.logits
  have packed := scheduled.prepared
  rw [← scheduled.config, prepared] at packed
  cases packed
  rw [logitsRows] at logitsRows'
  cases logitsRows'
  obtain ⟨adv, inv', -⟩ := scheduled.postprocess logits processed
  have shape := scheduled.shape
  have order := scheduled.order
  have config' : t.config = config := scheduled.config.trans same
  have member (r : Request) (listed : r ∈ requests) : r.seqId ∈ (requests.map Request.seqId).toFinset :=
    List.mem_toFinset.mpr (List.mem_map_of_mem listed)
  have stays (r : Request) (outside : r.seqId ∉ batch) : w.seqs r.seqId = t.seqs r.seqId :=
    adv.others r.seqId (order ▸ outside)
  have follows (r : Request) (listed : r ∈ requests) : Follows forward config r (w.seqs r.seqId) := by
    have before := (h.follows r listed).congr (scheduled.request r.seqId) (scheduled.ended r.seqId)
    by_cases inBatch : r.seqId ∈ batch
    · rw [order] at inBatch
      have live := (shape.member inBatch).2
      by_cases complete : (t.seqs r.seqId).Complete
      · obtain ⟨d, sampled, self⟩ := List.mem_map.mp ((adv.rows r.seqId).mpr ⟨inBatch, complete⟩)
        obtain ⟨chain, kept⟩ := shape.kept
        have value := adv.sampled d sampled
        rw [samples_forward logits sampled, self, config'] at value
        rw [value]
        exact before.sampled (kept.held.wf r.seqId (member r listed)) live
          (config' ▸ shape.limits r.seqId (member r listed) live)
      · rw [(adv.turn r.seqId inBatch).advanced complete]
        exact before.congr rfl Iff.rfl
    · rw [stays r inBatch]
      exact before
  constructor
  case reachable => exact h.reachable.step ⟨chosen, _, rows, logits, processed⟩
  case below => exact h.below
  case once => exact h.once
  case follows => exact follows
  case known =>
    intro report listed
    rcases List.mem_append.mp listed with old | new
    · exact h.known report old
    · obtain ⟨i, finished, rfl⟩ := List.mem_map.mp new
      have inBatch := (List.mem_filter.mp finished).1
      rw [order] at inBatch
      have known := (shape.member inBatch).1
      rw [List.mem_toFinset] at known
      obtain ⟨r, listed, self⟩ := List.mem_map.mp known
      exact ⟨r, listed, self.trans (inv'.named i (shape.member inBatch).1).symm⟩
  case reported =>
    intro r listed
    have named : ∀ i ∈ batch, (w.seqs i).seqId = i := fun i inBatch =>
      inv'.named i (shape.member (order ▸ inBatch)).1
    rw [reportsOf_append, h.reported r listed, reports_step (order ▸ shape.once) named]
    by_cases inBatch : r.seqId ∈ batch
    · have live : (e.scheduler.seqs r.seqId).status ≠ .finished := fun old =>
        (shape.member (order ▸ inBatch)).2 ((scheduled.ended r.seqId).mpr old)
      rw [if_neg live, List.nil_append]
      by_cases finished : (w.seqs r.seqId).status = .finished
      · rw [if_pos ⟨inBatch, finished⟩, if_pos finished, Sequence.completionTokenIds,
          (follows r listed).ended finished, (follows r listed).prompt]
        rfl
      · rw [if_neg (fun both => finished both.2), if_neg finished]
    · have none : ¬(r.seqId ∈ batch ∧ (w.seqs r.seqId).status = .finished) := fun both => inBatch both.1
      rw [if_neg none, List.append_nil, stays r inBatch]
      exact if_congr (scheduled.ended r.seqId).symm rfl rfl

end Serving

theorem Session.serving {xxh64 : XxHash} {tokenizer : Tokenizer} {forward : List Token → Token} {config : Config}
    {e : LLMEngine} {requests : List Request} {reports : List (SeqId × List Token)}
    (session : Session xxh64 tokenizer forward config e requests reports) :
    Serving xxh64 forward config e requests reports := by
  induction session with
  | init counter made => exact .init counter made
  | add past run ih => exact ih.add run
  | refuse past run ih =>
      rw [LLMEngine.addRequest_error run]
      exact ih.refuse
  | step past run ih => exact ih.step run

-- What `generate` keeps of the reports since it started: one entry for each id.
structure Recorded (outputs fresh : List (SeqId × List Token)) : Prop where
  once : (outputs.map Prod.fst).Nodup
  sound : ∀ entry ∈ outputs, entry ∈ fresh
  complete : ∀ entry ∈ fresh, entry.1 ∈ outputs.map Prod.fst

namespace Recorded

variable {outputs fresh output : List (SeqId × List Token)}

theorem set (h : Recorded outputs fresh) (entry : SeqId × List Token) :
    Recorded (LLMEngine.setOutput outputs entry) (fresh ++ [entry]) where
  once := by
    rw [LLMEngine.setOutput, List.map_cons, List.nodup_cons]
    refine ⟨fun listed => ?_, h.once.sublist (List.Sublist.map Prod.fst List.filter_sublist)⟩
    obtain ⟨old, kept, same⟩ := List.mem_map.mp listed
    exact absurd same (by simpa using (List.mem_filter.mp kept).2)
  sound := by
    intro old listed
    rcases List.mem_cons.mp listed with rfl | kept
    · exact List.mem_append_right _ (List.mem_singleton_self old)
    · exact List.mem_append_left _ (h.sound old (List.mem_filter.mp kept).1)
  complete := by
    intro old listed
    rw [LLMEngine.setOutput, List.map_cons, List.mem_cons]
    by_cases same : old.1 = entry.1
    · exact Or.inl same
    · right
      rcases List.mem_append.mp listed with before | last
      · obtain ⟨kept, known, self⟩ := List.mem_map.mp (h.complete old before)
        refine List.mem_map.mpr ⟨kept, List.mem_filter.mpr ⟨known, ?_⟩, self⟩
        simpa [self] using same
      · exact absurd (congrArg Prod.fst (List.mem_singleton.mp last)) same

theorem fold (h : Recorded outputs fresh) (output : List (SeqId × List Token)) :
    Recorded (output.foldl LLMEngine.setOutput outputs) (fresh ++ output) := by
  induction output generalizing outputs fresh with
  | nil => simpa using h
  | cons entry rest ih =>
      have next := ih (h.set entry)
      rwa [List.append_assoc, List.singleton_append] at next

theorem lookup (h : Recorded outputs fresh) {i : SeqId} {tokenIds : List Token}
    (reported : reportsOf fresh i = [(i, tokenIds)]) : outputs.lookup i = some tokenIds := by
  have here : (i, tokenIds) ∈ reportsOf fresh i := by simp [reported]
  obtain ⟨entry, listed, self⟩ := List.mem_map.mp (h.complete _ (List.mem_filter.mp here).1)
  have same : entry = (i, tokenIds) := by
    have found : entry ∈ reportsOf fresh i := List.mem_filter.mpr ⟨h.sound entry listed, by simpa using self⟩
    simpa [reported] using found
  subst same
  obtain ⟨before, after, split⟩ := List.mem_iff_append.mp listed
  refine List.lookup_eq_some_iff.mpr ⟨before, after, split, fun other earlier => ?_⟩
  have once := h.once
  rw [split, List.map_append, List.map_cons] at once
  have apart := (List.nodup_append.mp once).2.2 other.1 (List.mem_map_of_mem earlier) i (List.mem_cons_self ..)
  simpa using apart.symm

end Recorded

section Generate

variable {xxh64 : XxHash} {tokenizer : Tokenizer} {forward : List Token → Token} {config : Config}
  {e e' : LLMEngine} {requests : List Request} {reports : List (SeqId × List Token)}

-- The requests that `generate` adds, from the next number on.
def numbered (tokenizer : Tokenizer) : SeqId → List (Prompt × SamplingParams) → List Request
  | _, [] => []
  | i, (prompt, params) :: rest =>
      ⟨i, LLMEngine.encodePrompt tokenizer prompt, params⟩ :: numbered tokenizer (i + 1) rest

theorem Session.addRequests (session : Session xxh64 tokenizer forward config e requests reports)
    {added : List (Prompt × SamplingParams)}
    (run : LLMEngine.addRequests xxh64 tokenizer added e = .ok () e') :
    Session xxh64 tokenizer forward config e' (requests ++ numbered tokenizer e.counter added) reports := by
  induction added generalizing e requests with
  | nil =>
      cases run
      simpa [numbered] using session
  | cons request rest ih =>
      obtain ⟨_, e₁, first, run⟩ := run_bind_ok run
      have next := ih (session.add first) run
      obtain ⟨seq, s, made, added, rfl⟩ := LLMEngine.addRequest_ok first
      rwa [List.append_assoc, List.singleton_append] at next

theorem Session.generateLoop {fuel : Nat} {fresh outputs result : List (SeqId × List Token)}
    (session : Session xxh64 tokenizer forward config e requests (reports ++ fresh))
    (recorded : Recorded outputs fresh)
    (run : LLMEngine.generateLoop xxh64 forward fuel outputs e = .ok (some result) e') :
    ∃ fresh', Session xxh64 tokenizer forward config e' requests (reports ++ fresh') ∧
      Recorded result fresh' ∧ e'.scheduler.isFinished = true := by
  induction fuel generalizing e fresh outputs with
  | zero => cases run
  | succ fuel ih =>
      simp only [LLMEngine.generateLoop, run_get_bind] at run
      split at run
      next ended =>
        cases run
        exact ⟨fresh, session, recorded, ended⟩
      next =>
        obtain ⟨output, e₁, stepped, run⟩ := run_bind_ok run
        have next := session.step stepped
        rw [List.append_assoc] at next
        exact ih next (recorded.fold output) run

theorem numbered_ids (added : List (Prompt × SamplingParams)) (i : SeqId) :
    (numbered tokenizer i added).map Request.seqId = List.range' i added.length := by
  induction added generalizing i with
  | nil => rfl
  | cons request rest ih => simp [numbered, ih, List.range'_succ]

-- What `generate` returns for a prompt.
def expected (tokenizer : Tokenizer) (forward : List Token → Token) (config : Config)
    (request : Prompt × SamplingParams) : Completion :=
  let tokenIds := Request.completion forward config ⟨0, LLMEngine.encodePrompt tokenizer request.1, request.2⟩
  ⟨tokenizer.decode tokenIds, tokenIds⟩

theorem map_numbered (added : List (Prompt × SamplingParams)) (i : SeqId) :
    (numbered tokenizer i added).map (fun r =>
        ⟨tokenizer.decode (r.completion forward config), r.completion forward config⟩) =
      added.map (expected tokenizer forward config) := by
  induction added generalizing i with
  | nil => rfl
  | cons request rest ih =>
      rw [numbered, List.map_cons, List.map_cons, ih]
      rfl

theorem Serving.all_finished (h : Serving xxh64 forward config e requests reports)
    (idle : e.scheduler.isFinished = true) {r : Request} (listed : r ∈ requests) :
    (e.scheduler.seqs r.seqId).status = .finished := by
  obtain ⟨cache, inv, -⟩ := h.reachable.inv
  by_contra live
  have seat := (inv.seated r.seqId).mpr ⟨List.mem_toFinset.mpr (List.mem_map_of_mem listed), live⟩
  simp only [Scheduler.isFinished, Bool.and_eq_true, List.isEmpty_iff, Option.isNone_iff_eq_none] at idle
  simp [idle] at seat

theorem Session.generate {fuel : Nat} {prompts : List Prompt} {choice : SamplingChoice}
    {results : List Completion} (session : Session xxh64 tokenizer forward config e requests reports)
    (idle : e.scheduler.isFinished = true)
    (run : LLMEngine.generate xxh64 tokenizer forward fuel prompts choice e = .ok (some results) e') :
    results = (prompts.zip (LLMEngine.spread choice prompts.length)).map (expected tokenizer forward config) := by
  obtain ⟨_, e₁, added, run⟩ := run_bind_ok run
  obtain ⟨outputs, e₂, looped, run⟩ := run_bind_ok run
  cases outputs with
  | none => cases run
  | some outputs =>
      cases run
      have accepted := session.addRequests added
      have start : Recorded [] [] := ⟨List.nodup_nil, by simp, by simp⟩
      rw [← List.append_nil reports] at accepted
      obtain ⟨fresh, final, recorded, ended⟩ := accepted.generateLoop start looped
      rw [List.append_nil] at accepted
      generalize prompts.zip (LLMEngine.spread choice prompts.length) = requested at accepted final ⊢
      have before := session.serving
      have after := final.serving
      have reported (r : Request) (listed : r ∈ requests ++ numbered tokenizer e.counter requested) :
          reportsOf reports r.seqId ++ reportsOf fresh r.seqId = [(r.seqId, r.completion forward config)] := by
        have whole := after.reported r listed
        rwa [reportsOf_append, if_pos (after.all_finished ended listed)] at whole
      have new (r : Request) (listed : r ∈ numbered tokenizer e.counter requested) :
          reportsOf fresh r.seqId = [(r.seqId, r.completion forward config)] := by
        have none : reportsOf reports r.seqId = [] := by
          refine List.filter_eq_nil_iff.mpr (fun report known => ?_)
          obtain ⟨old, oldListed, same⟩ := before.known report known
          have late : r.seqId ∈ List.range' e.counter requested.length := by
            rw [← numbered_ids]
            exact List.mem_map_of_mem listed
          have early := before.below old oldListed
          rw [List.mem_range'_1] at late
          have apart : report.1 ≠ r.seqId := by
            rw [← same]
            exact Nat.ne_of_lt (early.trans_le late.1)
          simpa using apart
        have whole := reported r (List.mem_append_right _ listed)
        rwa [none, List.nil_append] at whole
      have old (r : Request) (listed : r ∈ requests) : reportsOf fresh r.seqId = [] := by
        have whole := reported r (List.mem_append_left _ listed)
        rw [before.reported r listed, if_pos (before.all_finished idle listed)] at whole
        simpa using whole
      have keys : (outputs.map Prod.fst).Perm ((numbered tokenizer e.counter requested).map Request.seqId) := by
        have once : ((numbered tokenizer e.counter requested).map Request.seqId).Nodup := by
          rw [numbered_ids]
          exact List.nodup_range' ..
        refine (List.perm_ext_iff_of_nodup recorded.once once).mpr (fun i => ⟨fun key => ?_, fun added => ?_⟩)
        · obtain ⟨entry, kept, self⟩ := List.mem_map.mp key
          have reported' := recorded.sound entry kept
          obtain ⟨r, listed, same⟩ := after.known entry (List.mem_append_right _ reported')
          rcases List.mem_append.mp listed with earlier | added
          · have none := old r earlier
            rw [reportsOf, List.filter_eq_nil_iff] at none
            exact absurd same.symm (by simpa using none entry reported')
          · rw [← self, ← same]
            exact List.mem_map_of_mem added
        · obtain ⟨r, listed, rfl⟩ := List.mem_map.mp added
          have here : (r.seqId, r.completion forward config) ∈ reportsOf fresh r.seqId := by simp [new r listed]
          exact recorded.complete _ (List.mem_filter.mp here).1
      have order : (outputs.map Prod.fst).insertionSort (· ≤ ·) =
          (numbered tokenizer e.counter requested).map Request.seqId := by
        refine List.Perm.eq_of_pairwise' (List.pairwise_insertionSort _ _) ?_ ((List.perm_insertionSort _ _).trans keys)
        rw [numbered_ids]
        exact List.pairwise_le_range' ..
      rw [LLMEngine.collect, order, ← map_numbered requested e.counter, List.filterMap_map, ← List.filterMap_eq_map]
      refine List.filterMap_congr (fun r listed => ?_)
      simp only [Function.comp_apply, recorded.lookup (new r listed), Option.map_some]

structure Transparent (forward : List Token → Token) (config : Config) (e : LLMEngine) (requests : List Request)
    (reports : List (SeqId × List Token)) : Prop where
  distinct : (requests.map Request.seqId).Nodup
  finished : ∀ r ∈ requests, (e.scheduler.seqs r.seqId).isFinished = true →
    (e.scheduler.seqs r.seqId).completionTokenIds = r.completion forward config ∧
      reportsOf reports r.seqId = [(r.seqId, r.completion forward config)]
  unfinished : ∀ r ∈ requests, (e.scheduler.seqs r.seqId).isFinished = false →
    (e.scheduler.seqs r.seqId).completionTokenIds <+: r.completion forward config ∧
      reportsOf reports r.seqId = []
  known : ∀ report ∈ reports, ∃ r ∈ requests, r.seqId = report.1

/-- Batching, preemption and shared prefixes do not show in what requests get. -/
theorem scheduling_transparent (session : Session xxh64 tokenizer forward config e requests reports) :
    Transparent forward config e requests reports ∧
      ∀ fuel prompts choice results e', e.scheduler.isFinished = true →
        (LLMEngine.spread choice prompts.length).length = prompts.length →
        LLMEngine.generate xxh64 tokenizer forward fuel prompts choice e = .ok (some results) e' →
        results.length = prompts.length ∧ results =
          (prompts.zip (LLMEngine.spread choice prompts.length)).map (expected tokenizer forward config) := by
  have serving := session.serving
  constructor
  · constructor
    case distinct => exact serving.once
    case finished =>
      intro r listed finished
      simp only [Sequence.isFinished, decide_eq_true_eq] at finished
      have follows := serving.follows r listed
      rw [serving.reported r listed, if_pos finished, Sequence.completionTokenIds, follows.prompt,
        follows.ended finished]
      exact ⟨rfl, rfl⟩
    case unfinished =>
      intro r listed live
      simp only [Sequence.isFinished, decide_eq_false_iff_not] at live
      have follows := serving.follows r listed
      rw [serving.reported r listed, if_neg live, Sequence.completionTokenIds, follows.prompt, Request.completion,
        ← follows.live live]
      exact ⟨List.IsPrefix.drop Request.prefix_continued _, rfl⟩
    case known => exact serving.known
  · intro fuel prompts choice results e' idle fits run
    have value := session.generate idle run
    refine ⟨?_, value⟩
    rw [value, List.length_map, List.length_zip, fits, Nat.min_self]

-- `n` steps with all that they report.
def LLMEngine.steps (xxh64 : XxHash) (forward : List Token → Token) : Nat → Engine (List (SeqId × List Token))
  | 0 => pure []
  | n + 1 => do
      let output ← step xxh64 forward
      let later ← steps xxh64 forward n
      pure (output ++ later)

theorem Session.steps {n : Nat} {output : List (SeqId × List Token)}
    (session : Session xxh64 tokenizer forward config e requests reports)
    (run : LLMEngine.steps xxh64 forward n e = .ok output e') :
    Session xxh64 tokenizer forward config e' requests (reports ++ output) := by
  induction n generalizing e reports output with
  | zero =>
      cases run
      rwa [List.append_nil]
  | succ n ih =>
      obtain ⟨first, e₁, stepped, run⟩ := run_bind_ok run
      obtain ⟨later, e₂, run, value⟩ := run_bind_ok run
      cases value
      rw [← List.append_assoc]
      exact ih (session.step stepped) run

theorem Session.play (session : Session xxh64 tokenizer forward config e requests reports) (n : Nat)
    (Q : List (SeqId × List Token) → LLMEngine → Prop)
    (run : wp (LLMEngine.steps xxh64 forward n) Q (fun _ _ => False) e) :
    ∃ output e', Session xxh64 tokenizer forward config e' requests (reports ++ output) ∧ Q output e' := by
  obtain ⟨output, e', run, holds⟩ := wp_total run
  exact ⟨output, e', session.steps run, holds⟩

end Generate

-- Two requests share a page; the second one is preempted, and waits while the first one ends. A call of `generate` on the
-- engine at its start returns their completions.
theorem scheduling_transparent_preempted :
    ∃ e, Transparent (fun tokenIds => 3 * tokenIds.sum + 1)
        { maxNumBatchedTokens := 8
          maxModelLen := 6
          kvcacheBlockSize := 1
          numKvcacheBlocks := 5
          chunkedPrefill := true } e [⟨0, [1], { maxTokens := 4 }⟩, ⟨1, [1, 2], {}⟩] [(0, [4, 16, 64, 256])] ∧
      e.scheduler.waiting = [1] ∧
      [⟨"", [4, 16]⟩, ⟨"", [10, 40]⟩] = [(.tokenIds [1], { maxTokens := 2 }), (.tokenIds [1, 2], { maxTokens := 2 })].map
        (expected ⟨fun _ => [], fun _ => ""⟩ (fun tokenIds => 3 * tokenIds.sum + 1)
          { maxNumBatchedTokens := 8
            maxModelLen := 6
            kvcacheBlockSize := 1
            numKvcacheBlocks := 5
            chunkedPrefill := true }) := by
  have start : Scheduler.init
      { maxNumBatchedTokens := 8
        maxModelLen := 6
        kvcacheBlockSize := 1
        numKvcacheBlocks := 5
        chunkedPrefill := true } = .ok _ := rfl
  have added := @Session.addRequests pageHash ⟨fun _ => [], fun _ => ""⟩ (fun tokenIds => 3 * tokenIds.sum + 1) _
    _ _ _ _ (Session.init 0 start) [(.tokenIds [1], { maxTokens := 4 }), (.tokenIds [1, 2], {})]
    (run_final (by decide +kernel))
  obtain ⟨output, e, run, same, waits⟩ := added.play 4
    (fun output e => output = [(0, [4, 16, 64, 256])] ∧ e.scheduler.waiting = [1]) (by decide +kernel)
  subst same
  obtain ⟨transparent, -⟩ := scheduling_transparent run
  obtain ⟨-, generates⟩ := scheduling_transparent (@Session.init pageHash ⟨fun _ => [], fun _ => ""⟩
    (fun tokenIds => 3 * tokenIds.sum + 1) _ _ 0 start)
  have generated := generates 8 [.tokenIds [1], .tokenIds [1, 2]] (.one { maxTokens := 2 })
    [⟨"", [4, 16]⟩, ⟨"", [10, 40]⟩] _ rfl rfl (run_value (by decide +kernel))
  exact ⟨e, transparent, waits, generated.2⟩

end NanoVllm
