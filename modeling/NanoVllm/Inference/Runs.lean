import NanoVllm.Inference.Deploy
import NanoVllm.Inference.Logits
import NanoVllm.Runs.Contract
import NanoVllm.Runs.Sampling

set_option autoImplicit false

namespace NanoVllm

open Python Raising Torch Device Causal

variable {α β κ R : Type}

/-- The backends that the registry knows, over kernels that are causal attention to the pages. -/
inductive AttentionBackend.Provided (size : Nat) (attend : κ → α → List Int → β) : AttentionBackend α β κ → Prop
  | flashAttention {varlen : VarlenArgs → κ → (q : List α) → Except PyError (List β)}
      (kernel : VarlenKernel size varlen attend) : Provided size attend (FlashAttentionBackend.backend (some varlen))
  | flashInfer {self : FlashInferBackend} {ops : FlashInferOps α β κ} (paged : self.blockSize = size)
      (kernels : FlashInferKernels size self.wrappers ops attend) : Provided size attend (self.backend ops)

/-- The providers of `KVCacheStore`, the kernel for a use that suits it. -/
inductive KVCacheStore.Provided (use : KVCacheStore.Use) : KVCacheStore R → Prop
  | nativeTorch : Provided use nativeTorch
  | nativeTriton {launch : Memory R → List (Int × R) → Memory R}
      (launched : ∀ memory stores, Launched memory stores (launch memory stores)) (fits : use.Fits) :
      Provided use (nativeTriton launch)

/-- The ranks of an engine: what they have loaded, and the kernels and caches that they run on. -/
structure Deployment (R : Type) [CommRing R] (config : Config) where
  tpSize : Nat
  part : ModelShape
  weights : ModelWeights R
  model : Qwen3ForCausalLM R
  silu : R → R
  attention : HeadAttention R
  runtime : AttentionRuntime R (part.heads.size .q)
  positive : 0 < tpSize
  kv_pos : 0 < part.heads.numKvHeads
  dim_pos : 0 < part.heads.headSize
  groups : part.heads.numKvHeads ∣ part.heads.numHeads
  fits : weights.Fits (part.times tpSize)
  deployed : ModelDeployed tpSize (part.times tpSize) weights model
  backend : runtime.backend.Provided config.kvcacheBlockSize (attendCaches attention part.heads)
  allocated : runtime.cacheShape =
    ⟨config.numKvcacheBlocks, config.kvcacheBlockSize, part.heads.numKvHeads, part.heads.headSize⟩
  int32 : config.numKvcacheBlocks * config.kvcacheBlockSize ≤ 2 ^ 31
  store : runtime.kvStore.Provided
    (part.heads.storeUse config.maxNumBatchedTokens (config.numKvcacheBlocks * config.kvcacheBlockSize))

namespace Deployment

variable [CommRing R] {config : Config} (d : Deployment R config)

def shape : ModelShape := d.part.times d.tpSize

def Known (tokenIds : List Token) : Prop := ∀ token ∈ tokenIds, 0 ≤ token ∧ token < (d.shape.vocabSize : Int)

def logits (tokenIds : List Token) : Nat → R := d.weights.logits d.shape d.silu d.attention tokenIds

-- `run` on all ranks, up to the sampler.
def forward (input : ModelRunner.ModelInput) (caches : List (Nat → KVCaches R)) :
    Except PyError (Option (Tensor R) × List (LayerCaches R)) :=
  ModelRunner.runModel d.silu d.tpSize d.model d.runtime input (heldCaches caches)

end Deployment

/-- The states between steps, with the KV caches of the layers. The caches start with anything; a step runs the model on
its batch, and the sampler picks any tokens of the vocabulary. -/
inductive Inference [CommRing R] (xxh64 : XxHash) {config : Config} (d : Deployment R config) :
    List (Nat → KVCaches R) → Scheduler → Finset SeqId → Prop
  | init {s : Scheduler} {caches : List (Nat → KVCaches R)} (allocated : caches.length = d.weights.layers.length)
      (made : Scheduler.init config = .ok s) : Inference xxh64 d caches s ∅
  | add {caches : List (Nat → KVCaches R)} {s s' : Scheduler} {ids : Finset SeqId} {i : SeqId} {tokenIds : List Token}
      {params : SamplingParams} {seq : Sequence} (past : Inference xxh64 d caches s ids) (absent : i ∉ ids)
      (known : d.Known tokenIds) (made : Sequence.init xxh64 i tokenIds params config.kvcacheBlockSize = .ok seq)
      (run : Scheduler.add seq s = .ok () s') : Inference xxh64 d caches s' (insert i ids)
  | step {caches caches' : List (Nat → KVCaches R)} {s t w : Scheduler} {ids : Finset SeqId} {batch : List SeqId}
      {input : ModelRunner.ModelInput} {logits : Option (Tensor R)} {tokenIds : List Token} {rows : List Nat}
      (past : Inference xxh64 d caches s ids) (scheduled : Scheduler.schedule s = .ok batch t)
      (prepared : ModelRunner.prepareModelInput config.kvcacheBlockSize (batch.map t.seqs) t.numScheduledPrefillSeqs =
        .ok input)
      (forward : d.forward input caches = .ok (logits, heldCaches caches'))
      (needed : input.seqNeedComputeLogits = some rows)
      (known : d.Known tokenIds) (run : Scheduler.postprocess xxh64 batch tokenIds rows t = .ok () w) :
      Inference xxh64 d caches' w ids

section Providers

theorem AttentionBackend.Provided.computes {backend : AttentionBackend α β κ} {size : Nat}
    {attend : κ → α → List Int → β} (provided : backend.Provided size attend) : backend.Computes size attend := by
  cases provided with
  | flashAttention kernel => exact flashAttention_computes kernel
  | flashInfer paged kernels =>
      subst paged
      exact flashInfer_computes kernels

theorem KVCacheStore.Provided.stores {store : KVCacheStore R} {use : KVCacheStore.Use}
    (provided : store.Provided use) : store.Stores use := by
  cases provided with
  | nativeTorch => exact nativeTorch_stores
  | nativeTriton launched fits => exact nativeTriton_stores launched fits

end Providers

section Runs

open Scheduler

variable [CommRing R] {xxh64 : XxHash} {config : Config} {d : Deployment R config} {caches : List (Nat → KVCaches R)}
  {cache : Cache} {s t w : Scheduler} {ids : Finset SeqId} {batch : List SeqId}

namespace Deployment

theorem loaded (d : Deployment R config) : ModelLoaded d.tpSize d.part d.weights d.model :=
  d.deployed.loaded d.fits d.positive d.kv_pos

theorem holds (d : Deployment R config) : d.runtime.Holds d.part.heads config.maxNumBatchedTokens where
  kv_pos := d.kv_pos
  dim_pos := d.dim_pos
  groups := d.groups
  cacheHeads := by
    rw [d.allocated]
    exact ⟨rfl, rfl⟩
  int32 := by
    rw [d.allocated]
    exact d.int32
  stores := by
    rw [d.allocated]
    exact d.store.stores

theorem paged (d : Deployment R config) : d.runtime.cacheShape.blockSize = config.kvcacheBlockSize :=
  congrArg KVCacheShape.blockSize d.allocated

def Caching (d : Deployment R config) (label : Cache) (caches : List (Nat → KVCaches R)) : Prop :=
  MirrorsAll (fun tokenIds => tokenIds.map (d.weights.embed d.shape)) label
    (plainLayers d.shape d.silu d.attention d.weights.layers) (caches.map (slotEntry d.tpSize d.part.heads))

end Deployment

theorem Inv.slots_nodup (inv : Inv cache s ids) (run : Scheduler.schedule s = .ok batch t)
    (packable : Packable s.config.kvcacheBlockSize (batch.map t.seqs) t.numScheduledPrefillSeqs) :
    ((batch.map t.seqs).flatMap (ModelRunner.seqSlots s.config.kvcacheBlockSize)).Nodup := by
  obtain ⟨prefill, input, scheduled⟩ := inv.scheduled run
  have shape := scheduled.shape
  have size : t.blockManager.blockSize = s.config.kvcacheBlockSize := shape.size.trans (congrArg _ scheduled.config)
  have members (i : SeqId) (listed : i ∈ batch) : i ∈ ids := by
    rw [scheduled.order] at listed
    exact (shape.member listed).1
  obtain ⟨chain, kept⟩ := shape.kept
  obtain ⟨u, calls, -, inv', traced, listed⟩ := inv.schedule_traced run
  have exclusive := traced.exclusive inv'.exclusive (fun call called => members _ (listed call called))
  refine packable.slots_nodup ?_ ?_
  · exact List.forall_mem_map.mpr (fun i listed => kept.held.accounting.table_nodup i (members i listed))
  · rw [List.pairwise_map]
    have once : batch.Nodup := scheduled.order ▸ shape.once
    refine once.imp_of_mem (fun {i j} listedI listedJ other k l b entry entry' open' open'' => other ?_)
    rw [← size] at open' open''
    exact exclusive.alone i (members i listedI) j (members j listedJ) k l b entry entry' open' open''

/-- What the forward pass of a batch gives, and what it leaves in the caches. -/
structure Deployment.Forwarded (d : Deployment R config) (t : Scheduler) (batch : List SeqId)
    (input : ModelRunner.ModelInput) (caches caches' : List (Nat → KVCaches R)) (rows : List Nat) (logits : Tensor R) :
    Prop where
  prepared : ModelRunner.prepareModelInput config.kvcacheBlockSize (batch.map t.seqs) t.numScheduledPrefillSeqs =
    .ok input
  forward : d.forward input caches = .ok (some logits, heldCaches caches')
  needed : input.seqNeedComputeLogits = some rows
  complete : LogitsOf t batch rows
  shape : logits.HasShape rows.length d.shape.vocabSize
  entries : ∀ (k row : Nat) (i : SeqId), rows[k]? = some row → batch[row]? = some i → ∀ c < d.shape.vocabSize,
    logits.entry k c = d.logits (t.seqs i).tokenIds c

structure Deployment.Takes (d : Deployment R config) (label : Cache) (seqs : List Sequence) (n : Nat) : Prop where
  packable : Packable config.kvcacheBlockSize seqs n
  once : (seqs.flatMap (ModelRunner.seqSlots config.kvcacheBlockSize)).Nodup
  bounded : ∀ seq ∈ seqs, ∀ b ∈ seq.blockTable, b < d.runtime.cacheShape.numBlocks
  tokens : (seqs.map Sequence.numNewTokens).sum ≤ config.maxNumBatchedTokens
  known : ∀ seq ∈ seqs, d.Known seq.tokenIds
  resident : ∀ seq ∈ seqs, ∀ p < seq.numContextTokens,
    execute label (ModelRunner.packed config.kvcacheBlockSize seqs n) seqs
      (ModelRunner.slotAt config.kvcacheBlockSize seq p) = seq.tokenIds.take (p + 1)

/-- The rows of the batch that get logits are those of the requests with all their tokens as context. -/
structure Completes (t : Scheduler) (batch : List SeqId) : Prop where
  complete : LogitsOf t batch (completeRows (batch.map t.seqs))
  tokens : ∀ i ∈ batch, (t.seqs i).numTokens = (t.seqs i).tokenIds.length

theorem Served.takes (served : Served xxh64 config cache s ids) (known : ∀ i ∈ ids, d.Known (s.seqs i).tokenIds)
    (run : schedule s = .ok batch t) :
    d.Takes cache (batch.map t.seqs) t.numScheduledPrefillSeqs ∧ Completes t batch := by
  obtain ⟨inv, same⟩ := served.inv
  subst same
  obtain ⟨prefill, input, scheduled⟩ := inv.scheduled run
  have shape := scheduled.shape
  obtain ⟨rows, needed, complete⟩ := scheduled.logits
  have size : t.blockManager.blockSize = s.config.kvcacheBlockSize := shape.size.trans (congrArg _ scheduled.config)
  have members (i : SeqId) (listed : i ∈ batch) : i ∈ ids := by
    rw [scheduled.order] at listed
    exact (shape.member listed).1
  have packable : Packable s.config.kvcacheBlockSize (batch.map t.seqs) t.numScheduledPrefillSeqs := by
    rw [scheduled.order, ← size]
    exact shape.packable
  have packed : input = ModelRunner.packed s.config.kvcacheBlockSize (batch.map t.seqs) t.numScheduledPrefillSeqs :=
    Except.ok.inj (scheduled.prepared.symm.trans packable.prepared)
  obtain ⟨chain, held, settled⟩ := scheduled.resident.pool
  subst packed
  cases needed
  refine ⟨⟨packable, inv.slots_nodup run packable, ?bounded, ?total, ?known, ?resident⟩, ⟨complete, ?tokens⟩⟩
  case bounded =>
    refine List.forall_mem_map.mpr (fun i listed b entry => ?_)
    have below := held.accounting.table_lt i (members i listed) b entry
    rw [d.allocated]
    exact below.trans_eq (shape.count.trans (congrArg _ scheduled.config))
  case total =>
    obtain ⟨_, -, contract⟩ := inv.contract served.reachable.seated run
    rw [List.map_map]
    exact contract.tokens
  case known =>
    refine List.forall_mem_map.mpr (fun i listed => ?_)
    obtain ⟨-, -, -, -, same, -⟩ := Sequence.request_eq (scheduled.request i)
    rw [same]
    exact known i (members i listed)
  case resident =>
    refine List.forall_mem_map.mpr (fun i listed p below => ?_)
    obtain ⟨b, entry, value⟩ := settled.context held (members i listed)
      (scheduled.resident.covered i (members i listed)) below
    rw [pool_manager, size] at entry value
    rw [ModelRunner.slotAt, show (t.seqs i).blockTable[p / s.config.kvcacheBlockSize]? = some b from entry]
    exact value
  case tokens =>
    intro i listed
    exact (held.wf i (members i listed)).tokens

theorem Completes.entries (completes : Completes t batch) {logits : Tensor R}
    (entries : ∀ (k row : Nat) (seq : Sequence), (completeRows (batch.map t.seqs))[k]? = some row →
      (batch.map t.seqs)[row]? = some seq → ∀ c < d.shape.vocabSize,
        logits.entry k c = d.logits (seq.tokenIds.take seq.numContextTokens) c) :
    ∀ (k row : Nat) (i : SeqId), (completeRows (batch.map t.seqs))[k]? = some row → batch[row]? = some i →
      ∀ c < d.shape.vocabSize, logits.entry k c = d.logits (t.seqs i).tokenIds c := by
  intro k row i needed entry c col
  obtain ⟨i', entry', whole⟩ := (completes.complete.exact' row).mp (List.mem_of_getElem? needed)
  obtain rfl : i = i' := Option.some.inj (entry.symm.trans entry')
  have seq : (batch.map t.seqs)[row]? = some (t.seqs i) := by
    rw [List.getElem?_map, entry]
    rfl
  have all : (t.seqs i).tokenIds.take (t.seqs i).numContextTokens = (t.seqs i).tokenIds :=
    List.take_of_length_le ((completes.tokens i (List.mem_of_getElem? entry)).symm.trans whole.symm).le
  rw [entries k row (t.seqs i) needed seq c col, all]

theorem Served.forward (served : Served xxh64 config cache s ids) (caching : d.Caching cache caches)
    (known : ∀ i ∈ ids, d.Known (s.seqs i).tokenIds) (run : schedule s = .ok batch t) :
    ∃ input caches' rows logits, d.Forwarded t batch input caches caches' rows logits ∧
      d.Caching (execute cache input (batch.map t.seqs)) caches' := by
  obtain ⟨takes, completes⟩ := served.takes known run
  obtain ⟨logits, caches', forward, logitsShape, entries, mirror⟩ := d.loaded.runModel_plain d.positive d.holds
    d.backend.computes d.paged takes.packable takes.once takes.bounded takes.tokens takes.known takes.resident caching
  exact ⟨_, caches', _, logits,
    ⟨takes.packable.prepared, forward, rfl, completes.complete, logitsShape, completes.entries entries⟩, mirror⟩

/-- What holds of the caches between steps: they hold what the pages of some `label` stand for. -/
def Deployment.Holding (xxh64 : XxHash) (d : Deployment R config) (caches : List (Nat → KVCaches R)) (s : Scheduler)
    (ids : Finset SeqId) : Prop :=
  ∃ label, Served xxh64 config label s ids ∧ d.Caching label caches ∧ ∀ i ∈ ids, d.Known (s.seqs i).tokenIds

namespace Deployment.Holding

theorem init (allocated : caches.length = d.weights.layers.length) (made : Scheduler.init config = .ok s) :
    d.Holding xxh64 caches s ∅ := by
  have layers : (plainLayers d.shape d.silu d.attention d.weights.layers).length = d.weights.layers.length :=
    List.length_map _
  exact ⟨fun _ => [], .init _ made, .unlabelled ((List.length_map _).trans (allocated.trans layers.symm)), by simp⟩

theorem add (h : d.Holding xxh64 caches s ids) {i : SeqId} {tokenIds : List Token} {params : SamplingParams}
    {seq : Sequence} {s' : Scheduler} (absent : i ∉ ids) (known : d.Known tokenIds)
    (made : Sequence.init xxh64 i tokenIds params config.kvcacheBlockSize = .ok seq)
    (run : Scheduler.add seq s = .ok () s') : d.Holding xxh64 caches s' (insert i ids) := by
  obtain ⟨label, served, caching, before⟩ := h
  obtain ⟨-, -, name, tokens, -⟩ := Sequence.init_ok made
  obtain ⟨-, value⟩ := add_run run
  refine ⟨label, served.add absent made run, caching, fun j listed => ?_⟩
  rw [value]
  by_cases self : j = i
  · subst self
    rw [← name, Scheduler.setSeq_seqs_self, tokens]
    exact known
  · rw [Scheduler.setSeq_seqs_of_ne _ _ (name ▸ self)]
    exact before j ((Finset.mem_insert.mp listed).resolve_left self)

theorem processed (served : Served xxh64 config cache s ids) (before : ∀ i ∈ ids, d.Known (s.seqs i).tokenIds)
    (run : schedule s = .ok batch t) {input : ModelRunner.ModelInput} {rows : List Nat} {tokenIds : List Token}
    (prepared : ModelRunner.prepareModelInput config.kvcacheBlockSize (batch.map t.seqs) t.numScheduledPrefillSeqs =
      .ok input) (complete : LogitsOf t batch rows) (caching : d.Caching (execute cache input (batch.map t.seqs)) caches)
    (known : d.Known tokenIds) (processed : Scheduler.postprocess xxh64 batch tokenIds rows t = .ok () w) :
    d.Holding xxh64 caches w ids := by
  have step : Step xxh64 s batch t w := ⟨run, tokenIds, rows, complete, processed⟩
  obtain ⟨inv, same⟩ := served.inv
  obtain ⟨prefill, input', scheduled⟩ := inv.scheduled run
  obtain ⟨adv, -⟩ := scheduled.postprocess complete processed
  refine ⟨_, served.step step prepared, caching, fun i listed => ?_⟩
  have old : d.Known (t.seqs i).tokenIds := by
    obtain ⟨-, -, -, -, tokens, -⟩ := Sequence.request_eq (scheduled.request i)
    rw [tokens]
    exact before i listed
  by_cases inBatch : i ∈ prefill ++ t.running
  · by_cases complete : (t.seqs i).Complete
    · obtain ⟨entry, sampled, self⟩ := List.mem_map.mp ((adv.rows i).mpr ⟨inBatch, complete⟩)
      have value := adv.sampled entry sampled
      obtain ⟨e, placed, rfl⟩ := List.mem_map.mp sampled
      have token := known _ (List.of_mem_zip (mem_placed.mp placed).1).2
      rw [self] at value
      rw [value, Sequence.sampled_tokens]
      exact List.forall_mem_append.mpr ⟨old, List.forall_mem_singleton.mpr token⟩
    · rw [(adv.turn i inBatch).advanced complete]
      exact old
  · rw [adv.others i inBatch]
    exact old

theorem step (h : d.Holding xxh64 caches s ids) (run : schedule s = .ok batch t) :
    ∃ input caches' rows logits, d.Forwarded t batch input caches caches' rows logits ∧
      ∀ tokenIds w, d.Known tokenIds → Scheduler.postprocess xxh64 batch tokenIds rows t = .ok () w →
        d.Holding xxh64 caches' w ids := by
  obtain ⟨label, served, caching, before⟩ := h
  obtain ⟨input, caches', rows, logits, forwarded, caching'⟩ := served.forward caching before run
  refine ⟨input, caches', rows, logits, forwarded, fun tokenIds w known done => ?_⟩
  exact processed served before run forwarded.prepared forwarded.complete caching' known done

end Deployment.Holding

omit [CommRing R] in
theorem heldCaches_injective : Function.Injective (@heldCaches R) := by
  refine List.map_injective_iff.mpr (fun held held' same => funext (fun r => ?_))
  exact Option.some.inj (congrFun same r)

theorem Inference.holding (past : Inference xxh64 d caches s ids) : d.Holding xxh64 caches s ids := by
  induction past with
  | init allocated made => exact .init allocated made
  | add past absent known made run ih => exact ih.add absent known made run
  | step past scheduled prepared forward needed known run ih =>
      obtain ⟨input', caches', rows', logits', forwarded, after⟩ := ih.step scheduled
      have packed := forwarded.prepared
      rw [prepared] at packed
      cases packed
      have passed := forwarded.forward
      rw [forward] at passed
      obtain ⟨-, same⟩ := Prod.mk.inj (Except.ok.inj passed)
      obtain rfl := heldCaches_injective same
      have rows := forwarded.needed
      rw [needed] at rows
      cases rows
      exact after _ _ known run

end Runs

end NanoVllm
