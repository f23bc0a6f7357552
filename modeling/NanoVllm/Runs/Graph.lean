import Mathlib.Algebra.Order.BigOperators.Group.List
import NanoVllm.Model.CudaGraph
import NanoVllm.Runs.Metadata

set_option autoImplicit false

namespace NanoVllm

open Python Raising Torch

/-- The runner from the end of `__init__` on, where each replay leaves its plan in the state. -/
inductive Replaying (config : GraphConfig) (backend : FlashInferBackend)
    (wrapper : (kvIndptr indices lastPageLen : Nat) → GraphWrapper) : GraphRunner → Prop
  | init {runner : GraphRunner} (made : GraphRunner.init config backend wrapper true = .ok runner) :
      Replaying config backend wrapper runner
  | replay {runner : GraphRunner} {state state' : DecodeGraphState} {context : Context} {inputIds positions : Nat}
      {stats stats' : CudagraphStats} (past : Replaying config backend wrapper runner)
      (own : runner.decodeGraphStates state.batchSize = some state)
      (replayed : runner.replayFullDecodeGraph state context inputIds positions stats = .ok state' stats') :
      Replaying config backend wrapper
        { runner with decodeGraphStates := runner.decodeGraphStates.insert state.batchSize state' }

-- The state of a bucket, with the plan of its last replay.
def bucketState (config : GraphConfig) (wrapper : (kvIndptr indices lastPageLen : Nat) → GraphWrapper) (size : Nat)
    (plan : Option AttentionPlan) (cudaGraph : Bool) : DecodeGraphState :=
  let capacity := size * pagesFor config.config.kvcacheBlockSize config.config.maxModelLen
  { batchSize := size
    attentionState :=
      { batchSize := size
        pageIndicesCapacity := capacity
        wrapper := wrapper (size + 1) capacity size
        queryStartLocBuffer := size + 1
        plan }
    cudaGraph
    staticInputIds := size
    staticPositions := size
    staticSlotMapping := size }

def Retained (config : GraphConfig) (size : Nat) : Prop :=
  size ∈ config.cudagraphBatchSizes ∧ size ≤ min config.config.maxNumSeqs config.config.maxNumBatchedTokens

instance (config : GraphConfig) (size : Nat) : Decidable (Retained config size) :=
  inferInstanceAs (Decidable (_ ∧ _))

/-- The runner has exactly the retained buckets, and their graphs are captured. -/
structure Ready (config : GraphConfig) (backend : FlashInferBackend)
    (wrapper : (kvIndptr indices lastPageLen : Nat) → GraphWrapper) (runner : GraphRunner) : Prop where
  policy : runner.cudagraphPolicy = config.cudagraphMode
  world : runner.worldSize = config.tensorParallelSize
  backend : runner.attentionBackend = backend
  kept : ∀ size, Retained config size → ∃ plan,
    runner.decodeGraphStates (size : Int) = some (bucketState config wrapper size plan true)
  only : ∀ size : Nat, ¬Retained config size → runner.decodeGraphStates (size : Int) = none

section Init

variable {config : GraphConfig} {backend : FlashInferBackend}
  {wrapper : (kvIndptr indices lastPageLen : Nat) → GraphWrapper}

theorem createFullDecodeGraphState_ok {batchSize capacity : Nat} {device : DeviceType} {state : AttentionGraphState}
    (made : backend.createFullDecodeGraphState wrapper batchSize capacity device = .ok state) :
    state = ⟨batchSize, capacity, wrapper (batchSize + 1) capacity batchSize, batchSize + 1, none⟩ := by
  obtain ⟨_, -, made⟩ := except_bind_ok made
  obtain ⟨_, -, made⟩ := except_bind_ok made
  obtain ⟨_, -, made⟩ := except_bind_ok made
  exact ((except_pure_ok _ _).mp made).symm

theorem addDecodeGraphState_ok {states states' : Dict Int DecodeGraphState} {batchSize : Nat}
    (made : GraphRunner.addDecodeGraphState config backend wrapper states batchSize = .ok states') :
    states' = if batchSize ≤ min config.config.maxNumSeqs config.config.maxNumBatchedTokens then
      states.insert batchSize (bucketState config wrapper batchSize none false) else states := by
  unfold GraphRunner.addDecodeGraphState at made
  split at made
  next large =>
    rw [if_neg (not_le.mpr large)]
    exact ((except_pure_ok _ _).mp made).symm
  next small =>
    obtain ⟨state, created, made⟩ := except_bind_ok made
    have value := createFullDecodeGraphState_ok created
    subst value
    rw [if_pos (not_lt.mp small)]
    exact ((except_pure_ok _ _).mp made).symm

theorem foldlM_addDecodeGraphState {sizes : List Nat} {states states' : Dict Int DecodeGraphState}
    (made : sizes.foldlM (GraphRunner.addDecodeGraphState config backend wrapper) states = .ok states') (size : Nat) :
    states' (size : Int) =
      if size ∈ sizes ∧ size ≤ min config.config.maxNumSeqs config.config.maxNumBatchedTokens then
        some (bucketState config wrapper size none false) else states (size : Int) := by
  induction sizes generalizing states with
  | nil =>
      rw [if_neg (by simp)]
      rw [List.foldlM_nil, except_pure_ok] at made
      rw [made]
  | cons first rest ih =>
      rw [List.foldlM_cons] at made
      obtain ⟨next, added, made⟩ := except_bind_ok made
      rw [ih made, addDecodeGraphState_ok added]
      by_cases later : size ∈ rest ∧ size ≤ min config.config.maxNumSeqs config.config.maxNumBatchedTokens
      · rw [if_pos later, if_pos ⟨List.mem_cons_of_mem first later.1, later.2⟩]
      · rw [if_neg later]
        by_cases self : size = first
        · subst self
          by_cases small : size ≤ min config.config.maxNumSeqs config.config.maxNumBatchedTokens
          · rw [if_pos small, if_pos ⟨List.mem_cons_self .., small⟩]
            exact Function.update_self ..
          · rw [if_neg small, if_neg (fun both => small both.2)]
        · have outside : ¬(size ∈ first :: rest ∧
              size ≤ min config.config.maxNumSeqs config.config.maxNumBatchedTokens) := by
            rintro ⟨listed, small⟩
            exact later ⟨(List.mem_cons.mp listed).resolve_left self, small⟩
          rw [if_neg outside]
          split
          · exact Function.update_of_ne (fun same => self (Int.ofNat_inj.mp same)) ..
          · rfl

theorem Ready.init {runner : GraphRunner} (graphs : config.cudagraphMode = .fullDecodeOnly)
    (single : config.tensorParallelSize = 1) (unified : backend.attentionMode = .unified)
    (made : GraphRunner.init config backend wrapper true = .ok runner) : Ready config backend wrapper runner := by
  obtain ⟨states, initialized, made⟩ := except_bind_ok made
  have value := (except_pure_ok _ _).mp made
  subst value
  have found (size : Nat) : states (size : Int) =
      if Retained config size then some (bucketState config wrapper size none false) else none := by
    split at initialized
    next => exact foldlM_addDecodeGraphState initialized size
    next incapable =>
      have outside : ¬Retained config size := by
        rintro ⟨listed, small⟩
        refine incapable ?_
        simp only [GraphRunner.fullDecodeGraphCapable, graphs, single, FlashInferBackend.supportsFullDecodeGraph,
          unified, decide_true, Bool.true_and, Bool.and_true, List.any_eq_true]
        exact ⟨size, listed, decide_eq_true small⟩
      have none := (except_pure_ok _ _).mp initialized
      rw [if_neg outside, ← none]
      rfl
  refine ⟨rfl, rfl, rfl, fun size retained => ⟨none, ?_⟩, fun size outside => ?_⟩
  · change (states (size : Int)).map _ = _
    rw [found, if_pos retained]
    rfl
  · change (states (size : Int)).map _ = _
    rw [found, if_neg outside]
    rfl

theorem planFullDecodeGraph_ok {state state' : AttentionGraphState} {plan : AttentionPlan}
    (planned : backend.planFullDecodeGraph state plan = .ok state') : state' = { state with plan := some plan } := by
  obtain ⟨_, -, planned⟩ := except_bind_ok planned
  split at planned
  next =>
    obtain ⟨_, -, planned⟩ := except_bind_ok planned
    obtain ⟨_, -, planned⟩ := except_bind_ok planned
    exact ((except_pure_ok _ _).mp planned).symm
  next => cases planned
  next => cases planned
  next => cases planned

theorem replayFullDecodeGraph_ok {runner : GraphRunner} {state state' : DecodeGraphState} {context : Context}
    {inputIds positions : Nat} {stats stats' : CudagraphStats}
    (replayed : runner.replayFullDecodeGraph state context inputIds positions stats = .ok state' stats') :
    ∃ plan, state' = { state with attentionState := { state.attentionState with plan := some plan } } := by
  unfold GraphRunner.replayFullDecodeGraph at replayed
  cases metadata : context.attentionMetadata with
  | none =>
    rw [metadata] at replayed
    cases replayed
  | some common =>
  cases planning : context.attentionPlan with
  | none =>
    rw [metadata, planning] at replayed
    cases replayed
  | some plan =>
    rw [metadata, planning] at replayed
    obtain ⟨attentionState, planned, replayed⟩ := run_ofExcept_ok replayed
    obtain ⟨_, -, replayed⟩ := run_ofExcept_ok replayed
    obtain ⟨_, -, replayed⟩ := run_ofExcept_ok replayed
    obtain ⟨_, -, replayed⟩ := run_ofExcept_ok replayed
    obtain ⟨-, replayed⟩ := run_require_ok replayed
    rw [run_modify_bind, run_pure] at replayed
    cases replayed
    exact ⟨plan, by rw [planFullDecodeGraph_ok planned]⟩

theorem Ready.replay {runner : GraphRunner} (ready : Ready config backend wrapper runner)
    {state state' : DecodeGraphState} {context : Context} {inputIds positions : Nat} {stats stats' : CudagraphStats}
    (own : runner.decodeGraphStates state.batchSize = some state)
    (replayed : runner.replayFullDecodeGraph state context inputIds positions stats = .ok state' stats') :
    Ready config backend wrapper
      { runner with decodeGraphStates := runner.decodeGraphStates.insert state.batchSize state' } := by
  obtain ⟨plan, value⟩ := replayFullDecodeGraph_ok replayed
  have retained : Retained config state.batchSize := by
    by_contra outside
    rw [ready.only _ outside] at own
    cases own
  obtain ⟨old, kept⟩ := ready.kept _ retained
  have before : state = bucketState config wrapper state.batchSize old true :=
    Option.some.inj (own.symm.trans kept)
  have after : state' = bucketState config wrapper state.batchSize (some plan) true := by
    rw [value, before]
    rfl
  refine ⟨ready.policy, ready.world, ready.backend, fun size listed => ?_, fun size outside => ?_⟩
  · by_cases self : (size : Int) = state.batchSize
    · have same := Int.ofNat_inj.mp self
      subst same
      exact ⟨some plan, (Function.update_self ..).trans (congrArg some after)⟩
    · obtain ⟨plan', found⟩ := ready.kept size listed
      exact ⟨plan', (Function.update_of_ne self ..).trans found⟩
  · have other : (size : Int) ≠ state.batchSize := by
      rintro self
      have same := Int.ofNat_inj.mp self
      subst same
      exact outside retained
    exact (Function.update_of_ne other ..).trans (ready.only size outside)

theorem Replaying.ready {runner : GraphRunner} (graphs : config.cudagraphMode = .fullDecodeOnly)
    (single : config.tensorParallelSize = 1) (unified : backend.attentionMode = .unified)
    (past : Replaying config backend wrapper runner) : Ready config backend wrapper runner := by
  induction past with
  | init made => exact Ready.init graphs single unified made
  | replay past own replayed ih => exact ih.replay own replayed

end Init

namespace Packable

variable {size : Nat} {seqs : List Sequence} {n : Nat}

theorem numNewTokens_decode (h : Packable size seqs 0) : (seqs.map Sequence.numNewTokens).sum = seqs.length := by
  have tokens := h.numDecodeTokens
  rwa [List.drop_zero, Nat.sub_zero] at tokens

theorem numel_pageIndices (h : Packable size seqs n) {maxModelLen : Nat}
    (short : ∀ seq ∈ seqs, seq.numContextTokens ≤ maxModelLen) :
    (pagesOf seqs n).pageIndices.numel ≤ seqs.length * pagesFor size maxModelLen := by
  change (seqs.map Sequence.pageRow).flatten.length ≤ _
  rw [List.length_flatten, List.map_map]
  have rows : ∀ seq ∈ seqs, (List.length ∘ Sequence.pageRow) seq ≤ pagesFor size maxModelLen := by
    intro seq listed
    rw [Function.comp_apply, Sequence.length_pageRow, h.pages seq listed]
    exact pagesFor_mono h.size_pos (short seq listed)
  have bound := List.sum_le_card_nsmul _ _ (List.forall_mem_map.mpr rows)
  rwa [List.length_map, Nat.nsmul_eq_mul] at bound

end Packable

-- The plan of a batch whose requests all decode.
def decodePlanOf (size : Nat) (seqs : List Sequence) : AttentionPlan :=
  ⟨.pureDecode, .decode, metadataOf true size seqs 0, flashInferOf size seqs 0⟩

section Decode

variable {config : GraphConfig} {backend : FlashInferBackend}
  {wrapper : (kvIndptr indices lastPageLen : Nat) → GraphWrapper} {size : Nat} {seqs : List Sequence}
  {old : Option AttentionPlan}

theorem Packable.attentionFits (h : Packable config.config.kvcacheBlockSize seqs 0)
    (short : ∀ seq ∈ seqs, seq.numContextTokens ≤ config.config.maxModelLen) :
    backend.fullDecodeGraphMetadataFits (bucketState config wrapper seqs.length old true).attentionState
      (decodePlanOf config.config.kvcacheBlockSize seqs) = true := by
  have tokens := h.numNewTokens_decode
  have capacity := h.numel_pageIndices short
  have decodeTokens : (metadataOf true config.config.kvcacheBlockSize seqs 0).numDecodeTokens = seqs.length :=
    congrArg Nat.cast h.numDecodeTokens
  have starts : (flashInferOf config.config.kvcacheBlockSize seqs 0).queryStartLoc.numel = seqs.length + 1 := by
    simp [flashInferOf, cudaTensor, IntTensor.numel]
  have indptr : (pagesOf seqs 0).kvIndptr.numel = seqs.length + 1 := by
    simp [pagesOf, cudaTensor, IntTensor.numel]
  have slots : (metadataOf true config.config.kvcacheBlockSize seqs 0).slotMapping.numel = seqs.length :=
    h.length_slotMapping.trans tokens
  have fits : (pagesOf seqs 0).pageIndices.numel ≤
      (bucketState config wrapper seqs.length old true).attentionState.pageIndicesCapacity := capacity
  have last : (cudaTensor (seqs.map (fun seq => ((seq.numContextTokens : Int) - 1) %
      config.config.kvcacheBlockSize + 1))).numel = seqs.length := List.length_map ..
  have paged : (flashInferOf config.config.kvcacheBlockSize seqs 0).numPages =
      (pagesOf seqs 0).pageIndices.numel := Packable.numPages
  have plain : ¬((decodePlanOf config.config.kvcacheBlockSize seqs).batchType ≠ .pureDecode ∨
      (decodePlanOf config.config.kvcacheBlockSize seqs).route ≠ .decode) := by simp [decodePlanOf]
  have pages : (decide ((flashInferOf config.config.kvcacheBlockSize seqs 0).numPages =
      (pagesOf seqs 0).pageIndices.numel) &&
        decide ((flashInferOf config.config.kvcacheBlockSize seqs 0).numPrefillPages = 0)) = true :=
    Bool.and_eq_true_iff.mpr ⟨decide_eq_true paged, rfl⟩
  rw [FlashInferBackend.fullDecodeGraphMetadataFits]
  rw [if_neg plain]
  simp only [decodePlanOf, flashInferOf, Bool.and_eq_true, and_assoc]
  exact ⟨rfl, rfl, decide_eq_true decodeTokens, decide_eq_true rfl, decide_eq_true starts, decide_eq_true indptr,
    decide_eq_true last, decide_eq_true fits, rfl, pages, rfl, decide_eq_true slots⟩

theorem Packable.graphFits {runner : GraphRunner} (h : Packable config.config.kvcacheBlockSize seqs 0)
    (short : ∀ seq ∈ seqs, seq.numContextTokens ≤ config.config.maxModelLen) :
    runner.graphMetadataFits (bucketState config wrapper seqs.length old true)
      ⟨some (metadataOf true config.config.kvcacheBlockSize seqs 0),
        some (decodePlanOf config.config.kvcacheBlockSize seqs)⟩ = true := by
  have lens : (metadataOf true config.config.kvcacheBlockSize seqs 0).seqLens.numel = seqs.length := by
    change ((seqs.map Sequence.numContextTokens).map Nat.cast).length = _
    simp
  have slots : (metadataOf true config.config.kvcacheBlockSize seqs 0).slotMapping.numel = seqs.length :=
    h.length_slotMapping.trans h.numNewTokens_decode
  have rows : (tablesOf seqs).rows.length = seqs.length := by simp [tablesOf]
  have tables : (decide ((tablesOf seqs).dtype = .int32) && decide ((tablesOf seqs).device = .cuda) &&
      decide ((tablesOf seqs).rows.length = seqs.length)) = true :=
    Bool.and_eq_true_iff.mpr ⟨rfl, decide_eq_true rows⟩
  simp only [GraphRunner.graphMetadataFits, h.blockTables, Bool.and_eq_true, and_assoc]
  exact ⟨rfl, decide_eq_true Packable.numel_queryStartLoc, decide_eq_true lens, decide_eq_true slots, rfl, rfl,
    decide_eq_true rows, rfl,
    h.attentionFits short⟩

theorem Ready.selectRuntimeMode {runner : GraphRunner} {n : Nat} {route : AttentionRoute}
    (ready : Ready config backend wrapper runner) (graphs : config.cudagraphMode = .fullDecodeOnly)
    (single : config.tensorParallelSize = 1) (unified : backend.attentionMode = .unified)
    (h : Packable config.config.kvcacheBlockSize seqs n)
    (short : ∀ seq ∈ seqs, seq.numContextTokens ≤ config.config.maxModelLen)
    (few : seqs.length ≤ min config.config.maxNumSeqs config.config.maxNumBatchedTokens)
    (decodes : n = 0 → route = .decode) (stats : CudagraphStats) :
    ∃ stats', runner.selectRuntimeMode
      ⟨some (metadataOf true config.config.kvcacheBlockSize seqs n), some ⟨batchTypeOf seqs n, route,
        metadataOf true config.config.kvcacheBlockSize seqs n, flashInferOf config.config.kvcacheBlockSize seqs n⟩⟩
      (ModelRunner.packed config.config.kvcacheBlockSize seqs n).inputIds.length stats =
      .ok (if n = 0 ∧ seqs.length ∈ config.cudagraphBatchSizes then
        (.fullGraph, runner.decodeGraphStates (seqs.length : Int)) else (.eager, none)) stats' := by
  have policy : runner.cudagraphPolicy ≠ .none := by simp [ready.policy, graphs]
  unfold GraphRunner.selectRuntimeMode
  rw [if_neg policy]
  dsimp only
  by_cases none : n = 0
  · subst none
    have route := decodes rfl
    subst route
    have tokens := h.numNewTokens_decode
    have supports : runner.attentionBackend.supportsFullDecodeGraph = true := by
      rw [ready.backend]
      exact decide_eq_true unified
    have requests : (metadataOf true config.config.kvcacheBlockSize seqs 0).numDecodeSeqs = (seqs.length : Int) := rfl
    have decodeTokens : (metadataOf true config.config.kvcacheBlockSize seqs 0).numDecodeTokens =
        (seqs.length : Int) := congrArg Nat.cast h.numDecodeTokens
    have ids : (ModelRunner.packed config.config.kvcacheBlockSize seqs 0).inputIds.length = seqs.length :=
      h.length_inputIds.trans tokens
    rw [if_neg (by simp [batchTypeOf]), if_neg (by simp [supports]), if_neg (by simp [ready.world, single]),
      if_neg (by simp [metadataOf, ModelRunner.packed, ModelRunner.ModelInput.attentionMetadata]),
      if_neg (by simp [metadataOf, ModelRunner.packed, ModelRunner.ModelInput.attentionMetadata]),
      if_neg (by rw [requests, decodeTokens]; simp), if_neg (by rw [requests, ids]; simp),
      if_neg (by rw [requests, Packable.numel_queryStartLoc]; simp), if_neg (by simp [metadataOf]), requests]
    by_cases listed : seqs.length ∈ config.cudagraphBatchSizes
    · obtain ⟨old, found⟩ := ready.kept seqs.length ⟨listed, few⟩
      rw [found, if_pos ⟨rfl, listed⟩]
      have fits := @Packable.graphFits config wrapper seqs old runner h short
      refine ⟨{ stats with graphBucketHits := stats.graphBucketHits + 1 }, ?_⟩
      dsimp only
      rw [run_modify_bind, if_neg (by simp [bucketState])]
      exact congrFun (if_neg (not_not.mpr fits)) _
    · rw [ready.only seqs.length (fun retained => listed retained.1), if_neg (fun both => listed both.2)]
      exact ⟨_, rfl⟩
  · have mixed : batchTypeOf seqs n ≠ .pureDecode := by
      rw [batchTypeOf, if_neg none]
      split <;> simp
    rw [if_pos mixed, if_neg (fun both => none both.1)]
    exact ⟨_, rfl⟩

theorem Packable.replay {runner : GraphRunner} (h : Packable config.config.kvcacheBlockSize seqs 0)
    (short : ∀ seq ∈ seqs, seq.numContextTokens ≤ config.config.maxModelLen)
    (accepts : ∀ rows capacity lasts kvIndptr indices lastPageLen, kvIndptr.length = rows →
      indices.length ≤ capacity → lastPageLen.length = lasts →
      (wrapper rows capacity lasts).plan kvIndptr indices lastPageLen = .ok ()) (stats : CudagraphStats) :
    (∃ attentionState, runner.attentionBackend.planFullDecodeGraph
      (bucketState config wrapper seqs.length old true).attentionState
      (decodePlanOf config.config.kvcacheBlockSize seqs) = .ok attentionState) ∧
    ∃ state' stats', runner.replayFullDecodeGraph (bucketState config wrapper seqs.length old true)
      ⟨some (metadataOf true config.config.kvcacheBlockSize seqs 0),
        some (decodePlanOf config.config.kvcacheBlockSize seqs)⟩
      (ModelRunner.packed config.config.kvcacheBlockSize seqs 0).inputIds.length
      (ModelRunner.packed config.config.kvcacheBlockSize seqs 0).positions.length stats = .ok state' stats' := by
  have tokens := h.numNewTokens_decode
  have fits := @Packable.attentionFits config runner.attentionBackend wrapper seqs old h short
  have ids : (ModelRunner.packed config.config.kvcacheBlockSize seqs 0).inputIds.length = seqs.length :=
    h.length_inputIds.trans tokens
  have positions : (ModelRunner.packed config.config.kvcacheBlockSize seqs 0).positions.length = seqs.length :=
    Packable.length_positions.trans tokens
  have slots : (metadataOf true config.config.kvcacheBlockSize seqs 0).slotMapping.numel = seqs.length :=
    h.length_slotMapping.trans tokens
  have copies (count : Nat) : copyInto count count = .ok () := require_of (Or.inl rfl) _
  have starts : (decodePlanOf config.config.kvcacheBlockSize seqs).metadata.queryStartLoc.numel = seqs.length + 1 := by
    simp [decodePlanOf, flashInferOf, cudaTensor, IntTensor.numel]
  have taken := accepts (seqs.length + 1)
    (seqs.length * pagesFor config.config.kvcacheBlockSize config.config.maxModelLen) seqs.length
    (pagesOf seqs 0).kvIndptr.data (pagesOf seqs 0).pageIndices.data
    (seqs.map (fun seq => ((seq.numContextTokens : Int) - 1) % config.config.kvcacheBlockSize + 1))
    (by simp [pagesOf, cudaTensor]) (h.numel_pageIndices short) (by simp)
  have plans : runner.attentionBackend.planFullDecodeGraph
      (bucketState config wrapper seqs.length old true).attentionState
      (decodePlanOf config.config.kvcacheBlockSize seqs) =
      .ok (bucketState config wrapper seqs.length (some (decodePlanOf config.config.kvcacheBlockSize seqs))
        true).attentionState := by
    rw [FlashInferBackend.planFullDecodeGraph, require_of fits, pure_bind]
    change (copyInto (seqs.length + 1) _ >>= fun _ =>
      GraphWrapper.plan (wrapper (seqs.length + 1) _ seqs.length) (pagesOf seqs 0).kvIndptr.data
        (pagesOf seqs 0).pageIndices.data _ >>= _) = _
    rw [starts, copies, except_ok_bind]
    change (GraphWrapper.plan _ _ _ (seqs.map _) >>= _) = _
    rw [taken]
    rfl
  refine ⟨⟨_, plans⟩, ?_⟩
  unfold GraphRunner.replayFullDecodeGraph
  dsimp only
  rw [run_ofExcept_bind plans, ids, positions, slots]
  simp only [bucketState]
  rw [run_ofExcept_bind (copies seqs.length), run_ofExcept_bind (copies seqs.length),
    run_ofExcept_bind (copies seqs.length), run_require_bind trivial]
  exact ⟨_, _, rfl⟩

end Decode

section Dispatch

open Scheduler

variable {xxh64 : XxHash} {config : Config} {s t : Scheduler} {ids : Finset SeqId} {batch prefill : List SeqId}

theorem BatchContract.context_le (h : BatchContract config t batch prefill) {i : SeqId} (scheduled : i ∈ batch) :
    (t.seqs i).numContextTokens ≤ config.maxModelLen := by
  have positive := h.positive i scheduled
  have last : (t.seqs i).numCachedTokens + ((t.seqs i).numNewTokens - 1) < config.maxModelLen :=
    h.positions i scheduled _ (by rw [List.mem_range'_1]; omega)
  rw [Sequence.numContextTokens]
  omega

/-- What the dispatch does with a batch, when the plan of the batch is `plan`. -/
structure ExactDispatch (config : GraphConfig) (runner : GraphRunner) (input : ModelRunner.ModelInput)
    (plan : AttentionPlan) (numPrefillSeqs size : Nat) (stats : CudagraphStats) : Prop where
  mode : (∃ state stats', runner.selectRuntimeMode ⟨some input.attentionMetadata, some plan⟩ input.inputIds.length
      stats = .ok (.fullGraph, some state) stats' ∧ state.batchSize = size) ↔
    numPrefillSeqs = 0 ∧ size ∈ config.cudagraphBatchSizes
  eager : ¬(numPrefillSeqs = 0 ∧ size ∈ config.cudagraphBatchSizes) →
    ∃ stats', runner.selectRuntimeMode ⟨some input.attentionMetadata, some plan⟩ input.inputIds.length stats =
      .ok (.eager, none) stats'
  bucket : size ∈ config.cudagraphBatchSizes → ∃ state, runner.decodeGraphStates (size : Int) = some state ∧
    state.batchSize = size ∧
    state.attentionState.pageIndicesCapacity = size * pagesFor config.config.kvcacheBlockSize config.config.maxModelLen
  capacity : ∃ pageIndices, plan.metadata.pageIndices = some pageIndices ∧
    pageIndices.numel ≤ size * pagesFor config.config.kvcacheBlockSize config.config.maxModelLen
  replays : ∀ state stats', runner.selectRuntimeMode ⟨some input.attentionMetadata, some plan⟩ input.inputIds.length
      stats = .ok (.fullGraph, some state) stats' →
    (∃ attentionState, runner.attentionBackend.planFullDecodeGraph state.attentionState plan = .ok attentionState) ∧
    ∃ state' stats'', runner.replayFullDecodeGraph state ⟨some input.attentionMetadata, some plan⟩
      input.inputIds.length input.positions.length stats' = .ok state' stats''

/-- Exactly the batches of decode requests whose size is a configured bucket replay a graph, and they can. -/
theorem graph_dispatch_exact {graph : GraphConfig} {wrappers : Wrappers}
    {wrapper : (kvIndptr indices lastPageLen : Nat) → GraphWrapper} {runner : GraphRunner}
    (graphs : graph.cudagraphMode = .fullDecodeOnly) (single : graph.tensorParallelSize = 1)
    (accepts : ∀ rows capacity lasts kvIndptr indices lastPageLen, kvIndptr.length = rows →
      indices.length ≤ capacity → lastPageLen.length = lasts →
      (wrapper rows capacity lasts).plan kvIndptr indices lastPageLen = .ok ())
    (replaying : Replaying graph ⟨graph.config.kvcacheBlockSize, .unified, wrappers⟩ wrapper runner)
    (past : Reachable xxh64 graph.config s ids) (run : schedule s = .ok batch t) {input : ModelRunner.ModelInput}
    {plan : AttentionPlan} (prepared : ModelRunner.prepareModelInput graph.config.kvcacheBlockSize
      (batch.map t.seqs) t.numScheduledPrefillSeqs = .ok input)
    (planned : runner.attentionBackend.buildPlan input.attentionMetadata none = .ok plan) (stats : CudagraphStats) :
    ExactDispatch graph runner input plan t.numScheduledPrefillSeqs batch.length stats := by
  obtain ⟨packable, packs⟩ := past.packable run
  obtain ⟨cache, inv, same⟩ := past.inv
  obtain ⟨prefill, -, contract⟩ := inv.contract (same ▸ past.seated) run
  rw [same] at contract
  have ready := replaying.ready graphs single rfl
  have value : input = ModelRunner.packed graph.config.kvcacheBlockSize (batch.map t.seqs)
      t.numScheduledPrefillSeqs := Except.ok.inj (prepared.symm.trans packs)
  subst value
  have size : runner.attentionBackend.blockSize = graph.config.kvcacheBlockSize := by rw [ready.backend]
  change FlashInferBackend.buildPlan _ (metadataOf true _ _ _) none = _ at planned
  rw [packable.buildPlan size] at planned
  obtain ⟨route, routed, made⟩ := except_bind_ok planned
  have value := (except_pure_ok _ _).mp made
  subst value
  have decodes : t.numScheduledPrefillSeqs = 0 → route = .decode := by
    intro none
    rw [none] at routed
    obtain ⟨_, -, routed⟩ := except_bind_ok routed
    exact ((except_pure_ok _ _).mp routed).symm
  have length : (batch.map t.seqs).length = batch.length := List.length_map ..
  have few : (batch.map t.seqs).length ≤ min graph.config.maxNumSeqs graph.config.maxNumBatchedTokens := by
    have seats := contract.seats
    rw [length]
    exact le_min (by omega) contract.length_le
  have short : ∀ seq ∈ batch.map t.seqs, seq.numContextTokens ≤ graph.config.maxModelLen :=
    List.forall_mem_map.mpr (fun i scheduled => contract.context_le scheduled)
  obtain ⟨stats', selected⟩ := ready.selectRuntimeMode graphs single rfl packable short few decodes stats
  have capacity := packable.numel_pageIndices short
  rw [length] at selected capacity
  refine ⟨⟨?full, ?graph⟩, ?eager, ?bucket, ⟨_, rfl, capacity⟩, ?replays⟩
  case full =>
    rintro ⟨state, stats'', again, -⟩
    by_contra outside
    rw [if_neg outside] at selected
    have impossible := selected.symm.trans again
    simp at impossible
  case graph =>
    intro both
    obtain ⟨old, found⟩ := ready.kept batch.length ⟨both.2, length ▸ few⟩
    rw [if_pos both, found] at selected
    exact ⟨_, stats', selected, rfl⟩
  case eager =>
    intro outside
    rw [if_neg outside] at selected
    exact ⟨stats', selected⟩
  case bucket =>
    intro listed
    obtain ⟨old, found⟩ := ready.kept batch.length ⟨listed, length ▸ few⟩
    exact ⟨_, found, rfl, rfl⟩
  case replays =>
    intro state stats'' again
    by_cases both : t.numScheduledPrefillSeqs = 0 ∧ batch.length ∈ graph.cudagraphBatchSizes
    · obtain ⟨old, found⟩ := ready.kept batch.length ⟨both.2, length ▸ few⟩
      rw [if_pos both, found] at selected
      have states := selected.symm.trans again
      simp only [EStateM.Result.ok.injEq, Prod.mk.injEq, Option.some.injEq, true_and] at states
      rw [← states.1, ← length]
      have route := decodes both.1
      subst route
      rw [both.1] at packable ⊢
      exact packable.replay short accepts stats''
    · rw [if_neg both] at selected
      have impossible := selected.symm.trans again
      simp at impossible

def graphConfig : GraphConfig :=
  { config :=
      { maxNumBatchedTokens := 8
        maxNumSeqs := 3
        maxModelLen := 16
        kvcacheBlockSize := 2
        numKvcacheBlocks := 9
        kvcacheBlockSize_pos := Nat.zero_lt_two }
    cudagraphBatchSizes := [1, 2, 4]
    cudagraphBatchSizes_pos := by decide }

def bufferedWrapper (rows capacity lasts : Nat) : GraphWrapper where
  plan kvIndptr indices lastPageLen :=
    require (kvIndptr.length = rows ∧ indices.length ≤ capacity ∧ lastPageLen.length = lasts)
      (PyError.valueError "the plan does not fit the buffers")

def takingWrappers : Wrappers := ⟨fun _ _ _ _ => .ok (), fun _ _ _ => .ok (), none⟩

theorem takingWrappers_plan {size n : Nat} {seqs : List Sequence} (h : Packable size seqs n) :
    ∃ plan,
      FlashInferBackend.buildPlan ⟨size, .unified, takingWrappers⟩ (metadataOf true size seqs n) none = .ok plan := by
  rw [h.buildPlan rfl]
  cases batchTypeOf seqs n with
  | purePrefill => exact ⟨_, rfl⟩
  | pureDecode => exact ⟨_, rfl⟩
  | mixed => exact ⟨_, rfl⟩

-- Two requests decode, and the bucket of four requests is dropped.
theorem graph_dispatch_exact_pair :
    ∃ s t runner input plan, Reachable pageHash graphConfig.config s {0, 1} ∧ schedule s = .ok [0, 1] t ∧
      t.numScheduledPrefillSeqs = 0 ∧ runner.decodeGraphStates 4 = none ∧
      ExactDispatch graphConfig runner input plan t.numScheduledPrefillSeqs 2 {} := by
  have start : Scheduler.init graphConfig.config = .ok _ := rfl
  have past := Reachable.play pageHash start [.add 0 [1, 2, 3] {}, .add 1 [4, 5] {}, .step [6, 7]] (by decide)
    (run_final (by decide +kernel))
  have made : GraphRunner.init graphConfig ⟨2, .unified, takingWrappers⟩ bufferedWrapper true = .ok _ := rfl
  obtain ⟨packable, packs⟩ := past.packable (run_value (a := [0, 1]) (by decide +kernel))
  obtain ⟨plan, planned⟩ := takingWrappers_plan packable
  refine ⟨_, _, _, _, plan, past, run_value (by decide +kernel), by decide +kernel, ?_,
    graph_dispatch_exact rfl rfl ?_ (.init made) past (run_value (by decide +kernel)) packs planned {}⟩
  · rfl
  · rintro rows capacity lasts kvIndptr indices lastPageLen rfl fits rfl
    exact require_of ⟨rfl, fits, rfl⟩ _

end Dispatch

end NanoVllm
