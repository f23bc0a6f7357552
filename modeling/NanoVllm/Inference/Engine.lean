import NanoVllm.Inference.Runs
import NanoVllm.Model.Host
import NanoVllm.Runs.Serving
import NanoVllm.Shared.Matched

set_option autoImplicit false

namespace NanoVllm

open Python Raising Torch Scheduler

variable {R : Type}

-- A sampler without noise: the same logits always give the same token.
def noiseless (pick : (vocabSize : Nat) → (Fin vocabSize → R) → Token) : SampleRow R :=
  fun _ vocabSize logits _ => pick vocabSize logits

namespace Deployment

variable [CommRing R] {config : Config} (d : Deployment R config)

def runner (sampleRow : SampleRow R) : Runner R (d.part.heads.size .q) where
  tpSize := d.tpSize
  silu := d.silu
  model := d.model
  runtime := d.runtime
  sampleRow := sampleRow

def next (pick : (vocabSize : Nat) → (Fin vocabSize → R) → Token) (tokenIds : List Token) : Token :=
  pick d.shape.vocabSize (fun c => d.logits tokenIds c)

def Picks (pick : (vocabSize : Nat) → (Fin vocabSize → R) → Token) : Prop :=
  ∀ logits, 0 ≤ pick d.shape.vocabSize logits ∧ pick d.shape.vocabSize logits < (d.shape.vocabSize : Int)

end Deployment

section Run

variable [CommRing R] {xxh64 : XxHash} {tokenizer : Tokenizer} {config : Config} {d : Deployment R config}
  {pick : (vocabSize : Nat) → (Fin vocabSize → R) → Token} {caches caches' : List (Nat → KVCaches R)} {t : Scheduler}
  {batch : List SeqId} {input : ModelRunner.ModelInput} {rows : List Nat} {logits : Tensor R} {ids : Finset SeqId}
  {host : Host R} {e : LLMEngine}

theorem Executor.prepareSample_ok {seqs : List Sequence} {rows : List Nat} (inside : ∀ k ∈ rows, k < seqs.length) :
    Executor.prepareSample seqs (some rows) = .ok (rows.map (fun k => (seqs.map Sequence.temperature).getD k 0)) := by
  have found : rows.mapM (fun k => (seqs.map Sequence.temperature)[k]?) =
      some (rows.map (fun k => (seqs.map Sequence.temperature).getD k 0)) := by
    refine mapM_some (fun k listed => ?_)
    have below : k < (seqs.map Sequence.temperature).length := by simpa using inside k listed
    rw [List.getD_eq_getElem?_getD, List.getElem?_eq_getElem below, Option.getD_some]
  simp only [Executor.prepareSample, found]
  rfl

-- The tokens that `run` returns for a batch.
def Deployment.tokens (d : Deployment R config) (pick : (vocabSize : Nat) → (Fin vocabSize → R) → Token)
    (t : Scheduler) (batch : List SeqId) (rows : List Nat) : List Token :=
  rows.filterMap (fun row => (batch.map t.seqs)[row]?.map (fun seq => d.next pick seq.tokenIds))

theorem Deployment.tokens_known (picks : d.Picks pick) : d.Known (d.tokens pick t batch rows) := by
  intro token listed
  obtain ⟨row, -, found⟩ := List.mem_filterMap.mp listed
  obtain ⟨seq, -, rfl⟩ := Option.map_eq_some_iff.mp found
  exact picks _

namespace Deployment.Forwarded

theorem inside (h : d.Forwarded t batch input caches caches' rows logits) {row : Nat} (listed : row ∈ rows) :
    ∃ i, batch[row]? = some i := by
  obtain ⟨i, entry, -⟩ := (h.complete.exact' row).mp listed
  exact ⟨i, entry⟩

theorem picked (h : d.Forwarded t batch input caches caches' rows logits) :
    (List.range logits.rows).map (fun row => pick logits.cols (fun v => logits.entry row v)) =
      d.tokens pick t batch rows := by
  obtain ⟨tall, wide⟩ := h.shape
  have each (row : Nat) (listed : row ∈ rows) :
      (batch.map t.seqs)[row]?.map (fun seq => d.next pick seq.tokenIds) =
        some (d.next pick ((batch.map t.seqs)[row]?.map Sequence.tokenIds |>.getD [])) := by
    obtain ⟨i, entry⟩ := h.inside listed
    simp only [List.getElem?_map, entry, Option.map_some, Option.getD_some]
  rw [Deployment.tokens, List.filterMap_congr each, List.filterMap_eq_map', tall]
  refine List.ext_getElem (by simp) (fun k below _ => ?_)
  rw [List.length_map, List.length_range] at below
  have row := List.getElem?_eq_getElem below
  obtain ⟨i, entry⟩ := h.inside (List.mem_of_getElem? row)
  simp only [List.getElem_map, List.getElem_range, List.getElem?_map, entry, Option.map_some, Option.getD_some,
    Deployment.next]
  rw [wide]
  exact congrArg _ (funext (fun c => h.entries k rows[k] i row entry c c.isLt))

theorem run (h : d.Forwarded t batch input caches caches' rows logits) :
    (d.runner (noiseless pick)).run config.kvcacheBlockSize (batch.map t.seqs) t.numScheduledPrefillSeqs
      (heldCaches caches) = .ok ((d.tokens pick t batch rows, some rows), heldCaches caches') := by
  have below (k : Nat) (listed : k ∈ rows) : k < (batch.map t.seqs).length := by
    obtain ⟨i, entry⟩ := h.inside listed
    simpa using (List.getElem?_eq_some_iff.mp entry).1
  have sampled : Sampler.forward (d.runner (noiseless pick)).sampleRow logits
      (rows.map (fun k => ((batch.map t.seqs).map Sequence.temperature).getD k 0)) =
        .ok (d.tokens pick t batch rows) := by
    have fits : (rows.map (fun k => ((batch.map t.seqs).map Sequence.temperature).getD k 0)).length = logits.rows :=
      (List.length_map _).trans h.shape.1.symm
    simp only [← h.picked, Sampler.forward, require, fits, true_or, if_true]
    rfl
  have forward : ModelRunner.runModel (d.runner (noiseless pick)).silu (d.runner (noiseless pick)).tpSize
      (d.runner (noiseless pick)).model (d.runner (noiseless pick)).runtime input (heldCaches caches) =
        .ok (some logits, heldCaches caches') := h.forward
  simp only [Runner.run, h.prepared, except_ok_bind, h.needed, Executor.prepareSample_ok below, forward, sampled]
  rfl

end Deployment.Forwarded

theorem Deployment.Holding.config_eq {s : Scheduler} (h : d.Holding xxh64 caches s ids)
    (run : schedule s = .ok batch t) : t.config = config := by
  obtain ⟨label, served, -⟩ := h
  obtain ⟨inv, same⟩ := served.inv
  obtain ⟨prefill, input, scheduled⟩ := inv.scheduled run
  exact scheduled.config.trans same

/-- A host on which the engine runs: its caches are those that the run left. -/
structure Deployment.Hosts (xxh64 : XxHash) (d : Deployment R config) (host : Host R) (e : LLMEngine) : Prop where
  engine : host.engine = e
  held : ∃ caches ids, host.kvCache = heldCaches caches ∧
    Inference xxh64 d caches e.scheduler ids ∧ ∀ i ∈ ids, i < e.counter

namespace Deployment.Hosts

theorem init {s : Scheduler} (counter : SeqId) (allocated : caches.length = d.weights.layers.length)
    (made : Scheduler.init config = .ok s) : d.Hosts xxh64 ⟨⟨s, counter⟩, heldCaches caches⟩ ⟨s, counter⟩ where
  engine := rfl
  held := ⟨caches, ∅, rfl, .init allocated made, by simp⟩

theorem config_eq (h : d.Hosts xxh64 host e) : e.scheduler.config = config := by
  obtain ⟨caches, ids, -, past, -⟩ := h.held
  obtain ⟨label, served, -⟩ := past.holding
  exact served.inv.2

theorem addRequest (h : d.Hosts xxh64 host e) {prompt : Prompt} {params : SamplingParams}
    (known : d.Known (LLMEngine.encodePrompt tokenizer prompt)) :
    Matched (fun _ => d.Hosts xxh64) (Host.addRequest xxh64 tokenizer prompt params host)
      (LLMEngine.addRequest xxh64 tokenizer prompt params e) := by
  have same := h.engine
  subst same
  unfold Host.addRequest Host.onEngine
  refine Matched.zoom (fun _ e' run => ⟨rfl, ?_⟩)
  obtain ⟨caches, ids, cached, past, below⟩ := h.held
  obtain ⟨seq, s, made, added, rfl⟩ := LLMEngine.addRequest_ok run
  rw [h.config_eq] at made
  refine ⟨caches, insert host.engine.counter ids, cached, ?_, ?_⟩
  · exact past.add (fun listed => Nat.lt_irrefl _ (below _ listed)) known made added
  · intro i listed
    rcases Finset.mem_insert.mp listed with rfl | old
    · exact Nat.lt_succ_self _
    · exact Nat.lt_succ_of_lt (below i old)

theorem step (h : d.Hosts xxh64 host e) (picks : d.Picks pick) :
    Matched (fun _ => d.Hosts xxh64) (Host.step xxh64 (d.runner (noiseless pick)) host)
      (LLMEngine.step xxh64 (d.next pick) e) := by
  have config' := h.config_eq
  have same := h.engine
  subst same
  obtain ⟨caches, ids, cached, past, below⟩ := h.held
  have chosen : Matched (fun batch host' e' => host' = { host with engine := e' } ∧
      ∃ t, schedule host.engine.scheduler = .ok batch t ∧ e' = { host.engine with scheduler := t })
      (Host.onEngine (LLMEngine.onScheduler schedule) host) (LLMEngine.onScheduler schedule host.engine) := by
    refine Matched.zoom (fun batch e' run => ⟨rfl, ?_⟩)
    obtain ⟨t, scheduled, same⟩ := run_zoom_ok run
    exact ⟨t, scheduled, same.symm⟩
  refine chosen.bind ?_
  rintro batch host' e' ⟨rfl, t, scheduled, rfl⟩
  obtain ⟨input, caches', rows, logits, forwarded, -⟩ := past.holding.step scheduled
  have plain : ModelRunner.run (d.next pick) config.kvcacheBlockSize (batch.map t.seqs) t.numScheduledPrefillSeqs =
      .ok (d.tokens pick t batch rows, some rows) := by
    simp only [ModelRunner.run, forwarded.prepared, except_ok_bind, forwarded.needed]
    rfl
  have size : t.config.kvcacheBlockSize = config.kvcacheBlockSize := by rw [past.holding.config_eq scheduled]
  simp only [run_get_bind, size, cached]
  rw [run_ofExcept_bind forwarded.run, run_ofExcept_bind plain, run_set_bind]
  have processed : Matched (fun _ host' e' => host'.engine = e' ∧ d.Hosts xxh64 host' e')
      (Host.onEngine (LLMEngine.onScheduler
        (Scheduler.postprocess xxh64 batch (d.tokens pick t batch rows) rows))
          { engine := { host.engine with scheduler := t }, kvCache := heldCaches caches' })
      (LLMEngine.onScheduler (Scheduler.postprocess xxh64 batch (d.tokens pick t batch rows) rows)
        { host.engine with scheduler := t }) := by
    refine Matched.zoom (fun _ e' run => ⟨rfl, rfl, ?_⟩)
    obtain ⟨w, appended, rfl⟩ := run_zoom_ok run
    exact ⟨caches', ids, rfl, past.step scheduled forwarded.prepared forwarded.forward forwarded.needed
      (d.tokens_known picks) appended, below⟩
  refine processed.bind ?_
  rintro _ host' _ ⟨rfl, hosts⟩
  exact .ok hosts

theorem generateLoop (h : d.Hosts xxh64 host e) (picks : d.Picks pick) (fuel : Nat)
    (outputs : List (SeqId × List Token)) :
    Matched (fun _ => d.Hosts xxh64) (Host.generateLoop xxh64 (d.runner (noiseless pick)) fuel outputs host)
      (LLMEngine.generateLoop xxh64 (d.next pick) fuel outputs e) := by
  induction fuel generalizing host e outputs with
  | zero => exact .ok h
  | succ fuel ih =>
      simp only [Host.generateLoop, LLMEngine.generateLoop, run_get_bind, h.engine]
      split
      next => exact .ok h
      next => exact (h.step picks).bind (fun output _ _ hosts => ih hosts _)

theorem generate (h : d.Hosts xxh64 host e) (picks : d.Picks pick) (fuel : Nat) {prompts : List Prompt}
    (choice : SamplingChoice) (known : ∀ prompt ∈ prompts, d.Known (LLMEngine.encodePrompt tokenizer prompt)) :
    Matched (fun _ => d.Hosts xxh64) (Host.generate xxh64 tokenizer (d.runner (noiseless pick)) fuel prompts choice host)
      (LLMEngine.generate xxh64 tokenizer (d.next pick) fuel prompts choice e) := by
  have added : Matched (fun _ => d.Hosts xxh64)
      (forEach (fun request => Host.addRequest xxh64 tokenizer request.1 request.2)
        (prompts.zip (LLMEngine.spread choice prompts.length)) host)
      (forEach (fun request => LLMEngine.addRequest xxh64 tokenizer request.1 request.2)
        (prompts.zip (LLMEngine.spread choice prompts.length)) e) :=
    .forEach h (fun request listed _ _ hosts => hosts.addRequest (known _ (List.of_mem_zip listed).1))
  refine added.bind (fun _ _ _ hosts => ?_)
  exact (hosts.generateLoop picks fuel []).bind (fun _ _ _ hosts => .ok hosts)

end Deployment.Hosts

/-- A host from its start on: requests are added or refused, and steps report what finished. -/
inductive Hosted (xxh64 : XxHash) (tokenizer : Tokenizer) (d : Deployment R config)
    (pick : (vocabSize : Nat) → (Fin vocabSize → R) → Token) :
    Host R → List Request → List (SeqId × List Token) → Prop
  | init {s : Scheduler} {caches : List (Nat → KVCaches R)} (counter : SeqId)
      (allocated : caches.length = d.weights.layers.length) (made : Scheduler.init config = .ok s) :
      Hosted xxh64 tokenizer d pick ⟨⟨s, counter⟩, heldCaches caches⟩ [] []
  | add {host host' : Host R} {requests : List Request} {reports : List (SeqId × List Token)} {prompt : Prompt}
      {params : SamplingParams} (past : Hosted xxh64 tokenizer d pick host requests reports)
      (known : d.Known (LLMEngine.encodePrompt tokenizer prompt))
      (run : Host.addRequest xxh64 tokenizer prompt params host = .ok () host') :
      Hosted xxh64 tokenizer d pick host'
        (requests ++ [⟨host.engine.counter, LLMEngine.encodePrompt tokenizer prompt, params⟩]) reports
  | refuse {host host' : Host R} {requests : List Request} {reports : List (SeqId × List Token)} {prompt : Prompt}
      {params : SamplingParams} {error : PyError} (past : Hosted xxh64 tokenizer d pick host requests reports)
      (run : Host.addRequest xxh64 tokenizer prompt params host = .error error host') :
      Hosted xxh64 tokenizer d pick host' requests reports
  | step {host host' : Host R} {requests : List Request} {reports output : List (SeqId × List Token)}
      (past : Hosted xxh64 tokenizer d pick host requests reports)
      (run : Host.step xxh64 (d.runner (noiseless pick)) host = .ok output host') :
      Hosted xxh64 tokenizer d pick host' requests (reports ++ output)

section Hosted

variable {requests : List Request} {reports : List (SeqId × List Token)}

omit [CommRing R] in
theorem Host.addRequest_error {host host' : Host R} {prompt : Prompt} {params : SamplingParams} {error : PyError}
    (run : Host.addRequest xxh64 tokenizer prompt params host = .error error host') :
    LLMEngine.addRequest xxh64 tokenizer prompt params host.engine = .error error host'.engine ∧
      host' = { host with engine := { host.engine with counter := host.engine.counter + 1 } } := by
  unfold Host.addRequest Host.onEngine Raising.zoom at run
  cases inner : LLMEngine.addRequest xxh64 tokenizer prompt params host.engine with
  | ok _ e' => simp [inner] at run
  | error reason e' =>
      simp only [inner, EStateM.Result.error.injEq] at run
      obtain ⟨rfl, rfl⟩ := run
      exact ⟨rfl, by rw [LLMEngine.addRequest_error inner]⟩

theorem Hosted.session (picks : d.Picks pick) (run : Hosted xxh64 tokenizer d pick host requests reports) :
    d.Hosts xxh64 host host.engine ∧ Session xxh64 tokenizer (d.next pick) config host.engine requests reports := by
  induction run with
  | init counter allocated made => exact ⟨.init counter allocated made, .init counter made⟩
  | add past known run ih =>
      obtain ⟨hosts, session⟩ := ih
      obtain ⟨e', run', hosts'⟩ := (hosts.addRequest known).left run
      obtain rfl := hosts'.engine
      exact ⟨hosts', session.add run'⟩
  | refuse past run ih =>
      obtain ⟨hosts, session⟩ := ih
      obtain ⟨run', rfl⟩ := Host.addRequest_error run
      refine ⟨⟨rfl, ?_⟩, session.refuse run'⟩
      obtain ⟨caches, ids, cached, inference, below⟩ := hosts.held
      exact ⟨caches, ids, cached, inference, fun i listed => Nat.lt_succ_of_lt (below i listed)⟩
  | step past run ih =>
      obtain ⟨hosts, session⟩ := ih
      obtain ⟨e', run', hosts'⟩ := (hosts.step picks).left run
      obtain rfl := hosts'.engine
      exact ⟨hosts', session.step run'⟩

theorem Session.hosted (picks : d.Picks pick) {e : LLMEngine}
    (session : Session xxh64 tokenizer (d.next pick) config e requests reports)
    (known : ∀ r ∈ requests, d.Known r.promptIds) (allocated : caches.length = d.weights.layers.length) :
    ∃ host, host.engine = e ∧ Hosted xxh64 tokenizer d pick host requests reports := by
  induction session with
  | init counter made => exact ⟨_, rfl, .init counter allocated made⟩
  | add past run ih =>
      rw [List.forall_mem_append, List.forall_mem_singleton] at known
      obtain ⟨host, rfl, hosted⟩ := ih known.1
      obtain ⟨hosts, -⟩ := hosted.session picks
      obtain ⟨host', run', hosts'⟩ := (hosts.addRequest known.2).right run
      exact ⟨host', hosts'.engine, hosted.add known.2 run'⟩
  | @refuse e e' requests reports prompt params error past run ih =>
      obtain ⟨host, rfl, hosted⟩ := ih known
      have run' : Host.addRequest xxh64 tokenizer prompt params host = .error error { host with engine := e' } := by
        simp only [Host.addRequest, Host.onEngine, Raising.zoom, run]
      exact ⟨_, rfl, hosted.refuse run'⟩
  | step past run ih =>
      obtain ⟨host, rfl, hosted⟩ := ih known
      obtain ⟨hosts, -⟩ := hosted.session picks
      obtain ⟨host', run', hosts'⟩ := (hosts.step picks).right run
      exact ⟨host', hosts'.engine, hosted.step run'⟩

theorem Follows.completion {forward : List Token → Token} {request : Request} {seq : Sequence}
    (h : Follows forward config request seq) : seq.completionTokenIds <+: request.completion forward config := by
  rw [Sequence.completionTokenIds, h.prompt, Request.completion]
  by_cases ended : seq.status = .finished
  · rw [h.ended ended]
  · rw [← h.live ended]
    exact List.IsPrefix.drop Request.prefix_continued _

end Hosted

end Run

end NanoVllm
