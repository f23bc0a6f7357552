import NanoVllm.Attention.Kernels
import NanoVllm.Attention.Split
import NanoVllm.Model.Attention

set_option autoImplicit false

namespace NanoVllm

open Python Raising Torch Paged

-- A sequence of a batch, on the pages of its block table.
def Sequence.pagedRow (seq : Sequence) : Row := ⟨seq.numNewTokens, seq.numContextTokens, seq.pageRow⟩

variable {α β κ : Type}

/-- For each batch of a run the backend makes a plan, with which it is causal attention over the block tables. -/
structure AttentionBackend.Computes (backend : AttentionBackend α β κ) (size : Nat) (attend : κ → α → List Int → β) :
    Prop where
  forward : ∀ {seqs : List Sequence} {n : Nat} {trusted : Bool}, Packable size seqs n →
    ∃ plan, backend.buildPlan (metadataOf trusted size seqs n) = .ok plan ∧
      ∀ cacheless caches (q : List α), q.length = (seqs.map Sequence.numNewTokens).sum →
        backend.forward cacheless q (some caches) plan =
          .ok (attention size (attend caches) (seqs.map Sequence.pagedRow) q)

namespace Packable

variable {size n : Nat} {seqs : List Sequence} {trusted : Bool}

theorem counts_pagedRow : (seqs.map Sequence.pagedRow).map Row.count = seqs.map Sequence.numNewTokens := by
  rw [List.map_map]
  rfl

theorem feasible (h : Packable size seqs n) {part : List Sequence} (some' : part ≠ [])
    (within : ∀ seq ∈ part, seq ∈ seqs) :
    Feasible size (part.map Sequence.pagedRow) := by
  refine ⟨h.size_pos, by simpa using some', List.forall_mem_map.mpr (fun seq listed => ?_)⟩
  have member := within seq listed
  have new := h.new seq member
  exact ⟨⟨Nat.le_add_left _ _, Nat.add_pos_right _ new, seq.length_pageRow.trans (h.pages seq member)⟩, new⟩

theorem starts : Starts (seqs.map Sequence.pagedRow)
    ((offsets (seqs.map Sequence.numNewTokens)).map (Nat.cast : Nat → Int)) := by
  rw [Starts, counts_pagedRow]

section Flash

-- The arguments of the varlen kernel for a batch.
def varlenArgs (size : Nat) (seqs : List Sequence) (n : Nat) : VarlenArgs :=
  { cuSeqlensQ := (offsets (seqs.map Sequence.numNewTokens)).map Nat.cast
    cuSeqlensK := 0 :: cumsum ((seqs.map Sequence.numContextTokens).map Nat.cast)
    maxSeqlenQ := (ModelRunner.packed size seqs n).maxQLen
    maxSeqlenK := (ModelRunner.packed size seqs n).maxKvLen
    blockTable := (tablesOf seqs).rows }

theorem varlenArgs_describes : (varlenArgs size seqs n).Describes (seqs.map Sequence.pagedRow) := by
  constructor
  case starts =>
    rw [counts_pagedRow]
    rfl
  case lengths =>
    have lengths : (seqs.map Sequence.pagedRow).map Row.length = seqs.map Sequence.numContextTokens := by
      rw [List.map_map]
      rfl
    rw [lengths, map_cast_offsets]
    exact zero_cons_cumsum _
  case maxQ =>
    refine List.forall_mem_map.mpr (fun seq listed => Nat.cast_le.mpr ?_)
    exact le_foldl_max (List.mem_map_of_mem (f := Sequence.numNewTokens) listed) 0
  case maxK =>
    refine List.forall_mem_map.mpr (fun seq listed => Nat.cast_le.mpr ?_)
    exact le_foldl_max (List.mem_map_of_mem (f := Sequence.numContextTokens) listed) 0
  case tables => simp [varlenArgs, tablesOf]
  case table =>
    intro r row entry
    rw [List.getElem?_map, Option.map_eq_some_iff] at entry
    obtain ⟨seq, entry, rfl⟩ := entry
    refine ⟨padded (-1) (widest seqs) seq.pageRow, ?_, List.prefix_append _ _⟩
    rw [varlenArgs, tablesOf, List.getElem?_map, List.getElem?_map, entry]
    rfl

-- What `build_metadata` makes of the batch.
def flashMetadata (size : Nat) (seqs : List Sequence) (n : Nat) : FlashAttentionMetadata :=
  { queryStartLoc := cudaTensor (varlenArgs size seqs n).cuSeqlensQ
    kvStartLoc := some (cudaTensor (varlenArgs size seqs n).cuSeqlensK)
    blockTables := some (tablesOf seqs)
    maxQLen := (varlenArgs size seqs n).maxSeqlenQ
    maxKvLen := (varlenArgs size seqs n).maxSeqlenK }

theorem flashPlan (h : Packable size seqs n) :
    FlashAttentionBackend.buildPlan (metadataOf trusted size seqs n) none = .ok
      { batchType := batchTypeOf seqs n
        route := FlashAttentionBackend.planRoute (flashMetadata size seqs n) (batchTypeOf seqs n)
        common := metadataOf trusted size seqs n
        metadata := flashMetadata size seqs n } := by
  have metadata : FlashAttentionBackend.buildMetadata (metadataOf trusted size seqs n) =
      .ok (flashMetadata size seqs n) := by
    rw [FlashAttentionBackend.buildMetadata, h.validate, except_ok_bind, h.blockTables]
    rfl
  simp only [FlashAttentionBackend.buildPlan, metadata, h.classifyBatch, except_ok_bind]
  rfl

end Flash

end Packable

theorem flashAttention_computes {size : Nat} {varlen : VarlenArgs → κ → (q : List α) → Except PyError (List β)}
    {attend : κ → α → List Int → β} (kernel : VarlenKernel size varlen attend) :
    (FlashAttentionBackend.backend (some varlen)).Computes size attend where
  forward {seqs n trusted} h := by
    refine ⟨_, h.flashPlan, fun cacheless caches q length => ?_⟩
    have run := @kernel.run (Packable.varlenArgs size seqs n) _ caches q (h.feasible h.some' (fun _ listed => listed))
      Packable.varlenArgs_describes (by rwa [Packable.counts_pagedRow])
    change FlashAttentionBackend.forward (some varlen) cacheless q (some caches) _ = _
    rw [← run]
    unfold batchTypeOf
    split
    next => rfl
    next =>
      split
      next => rfl
      next => rfl

namespace Packable

variable {size n : Nat} {seqs part : List Sequence} {trusted : Bool}

def lastLens (size : Nat) (seqs : List Sequence) : List Int :=
  seqs.map (fun seq => ((seq.numContextTokens : Int) - 1) % size + 1)

-- The pages of some sequences, with what the wrapper takes of their lengths.
def planOf (part : List Sequence) (last : List Int) : PagePlan := PagePlan.ofRows (part.map Sequence.pageRow) last

theorem describes {last : Row → Nat} {lens : List Int}
    (same : lens = part.map (fun seq => (last seq.pagedRow : Int))) :
    (planOf part lens).Describes (part.map Sequence.pagedRow) last := by
  constructor
  case kvIndptr =>
    rw [planOf, PagePlan.ofRows, List.map_map, List.map_map]
    rfl
  case indices =>
    rw [planOf, PagePlan.ofRows, List.flatMap_map]
    exact List.flatMap_def.symm
  case lastPageLen =>
    rw [List.map_map]
    exact same

theorem lengths_describe : (planOf part (part.map (fun seq => (seq.numContextTokens : Int)))).Describes
    (part.map Sequence.pagedRow) Row.length := describes rfl

theorem lastLens_eq (h : Packable size seqs n) (within : ∀ seq ∈ part, seq ∈ seqs) :
    lastLens size part = part.map (fun seq => (Row.filled size seq.pagedRow : Int)) := by
  refine List.map_congr_left (fun seq listed => ?_)
  have new := h.new seq (within seq listed)
  have positive : 0 < seq.numContextTokens := Nat.add_pos_right _ new
  have back : (seq.numContextTokens : Int) - 1 = ((seq.numContextTokens - 1 : Nat) : Int) := by omega
  rw [back]
  rfl

theorem take_starts (h : Packable size seqs n) :
    ((offsets (seqs.map Sequence.numNewTokens)).map (Nat.cast : Nat → Int)).take (n + 1) =
      (offsets ((seqs.take n).map Sequence.numNewTokens)).map Nat.cast := by
  rw [← List.map_take, take_offsets _ (by simpa using h.count), List.map_take]

def wrapperArgs (unified : Bool) (size : Nat) (seqs : List Sequence) (n : Nat) : PlanArgs :=
  let starts (part : List Sequence) : List Int := (offsets (part.map Sequence.numNewTokens)).map Nat.cast
  match batchTypeOf seqs n with
  | .purePrefill => { prefill := some (starts seqs, planOf seqs (lastLens size seqs)) }
  | .pureDecode => { decode := some (planOf seqs (lastLens size seqs)) }
  | .mixed =>
      if unified then
        { mixed := some (starts seqs, planOf seqs (seqs.map (fun seq => (seq.numContextTokens : Int)))) }
      else
        { prefill := some (starts (seqs.take n), planOf (seqs.take n) (lastLens size (seqs.take n)))
          decode := some (planOf (seqs.drop n) (lastLens size (seqs.drop n))) }

theorem pagesOf_plan (lens : List Int) :
    (⟨(pagesOf seqs n).kvIndptr.data, (pagesOf seqs n).pageIndices.data, lens⟩ : PagePlan) = planOf seqs lens := by
  rw [planOf, PagePlan.ofRows, List.map_map]
  simp only [Function.comp_def, Sequence.length_pageRow]
  rfl

theorem planArgs_eq (h : Packable size seqs n) (unified : Bool) :
    FlashInferBackend.planArgs unified (batchTypeOf seqs n) (metadataOf trusted size seqs n)
      (pagesOf seqs n).numPrefillPages ((offsets (seqs.map Sequence.numNewTokens)).map Nat.cast)
      (pagesOf seqs n).kvIndptr.data (pagesOf seqs n).pageIndices.data (lastLens size seqs) =
      wrapperArgs unified size seqs n := by
  have lens : (metadataOf trusted size seqs n).seqLens.data = seqs.map (fun seq => (seq.numContextTokens : Int)) :=
    List.map_map
  have within : n ≤ (seqs.map Sequence.pageRow).length := by simpa using h.count
  have prefillPages : (pagesOf seqs n).numPrefillPages =
      ((((seqs.map Sequence.pageRow).take n).map List.length).sum : Nat) := by
    rw [← List.map_take, List.map_map]
    simp only [Function.comp_def, Sequence.length_pageRow]
    rfl
  have first := @PagePlan.take_ofRows _ (lastLens size seqs) _ within
  have later := @PagePlan.drop_ofRows _ (lastLens size seqs) _ within
  have count : (metadataOf trusted size seqs n).numPrefillSeqs.toNat = n := rfl
  unfold FlashInferBackend.planArgs wrapperArgs
  cases batchTypeOf seqs n with
  | purePrefill => simp only [pagesOf_plan]
  | pureDecode => simp only [pagesOf_plan]
  | mixed =>
      cases unified with
      | true => simp only [pagesOf_plan, lens, if_true]
      | false =>
          have same := @pagesOf_plan n seqs (lastLens size seqs)
          rw [planOf, PagePlan.ofRows, PagePlan.mk.injEq] at same
          simp only [Bool.false_eq_true, if_false, count, same.1, same.2.1, prefillPages, Int.toNat_natCast,
            h.take_starts]
          rw [PagePlan.ofRows] at first later
          rw [first, later]
          simp only [planOf, lastLens, List.map_take, List.map_drop]

end Packable

section FlashInfer

variable {backend : FlashInferBackend} {ops : FlashInferOps α β κ} {attend : κ → α → List Int → β} {size n : Nat}
  {seqs : List Sequence} {trusted : Bool}

open Packable

theorem batchTypeOf_mixed (mixed : batchTypeOf seqs n = .mixed) (h : Packable size seqs n) :
    0 < n ∧ n < seqs.length := by
  have count := h.count
  unfold batchTypeOf at mixed
  split at mixed
  next => cases mixed
  next some' =>
    split at mixed
    next => cases mixed
    next part => exact ⟨by omega, by omega⟩

theorem batchTypeOf_decode (decode : batchTypeOf seqs n = .pureDecode) : n = 0 := by
  unfold batchTypeOf at decode
  split at decode
  next none => exact none
  next =>
    split at decode
    all_goals cases decode

theorem FlashInferKernels.call (kernels : FlashInferKernels size backend.wrappers ops attend)
    (h : Packable size seqs n) :
    (wrapperArgs backend.wrappers.mixedPlan.isSome size seqs n).call backend.wrappers = .ok () := by
  have all := h.feasible h.some' (fun _ listed => listed)
  have whole := describes (h.lastLens_eq (fun _ listed => listed))
  unfold wrapperArgs
  cases kind : batchTypeOf seqs n with
  | purePrefill =>
      have plan := kernels.prefillPlan all starts whole
      simp only [PlanArgs.call, PlanArgs.callPrefill, plan]
      rfl
  | pureDecode =>
      have plan := kernels.decodePlan all whole
      simp only [PlanArgs.call, PlanArgs.callDecode, PlanArgs.callPrefill, plan]
      rfl
  | mixed =>
      cases unified : backend.wrappers.mixedPlan with
      | some mixedPlan =>
          have plan := kernels.mixedPlan unified all starts lengths_describe
          simp only [Option.isSome_some, if_true, PlanArgs.call, PlanArgs.callPrefill, PlanArgs.callDecode,
            PlanArgs.callMixed, unified, plan]
          rfl
      | none =>
          obtain ⟨prefill, decode⟩ := batchTypeOf_mixed kind h
          have first := fun seq (listed : seq ∈ seqs.take n) => List.mem_of_mem_take listed
          have later := fun seq (listed : seq ∈ seqs.drop n) => List.mem_of_mem_drop listed
          have plan := kernels.prefillPlan (h.feasible (by simp [prefill.ne', h.some']) first) starts
            (describes (h.lastLens_eq first))
          have plan' := kernels.decodePlan (h.feasible (by simpa using decode) later) (describes (h.lastLens_eq later))
          simp only [Option.isSome_none, Bool.false_eq_true, if_false, PlanArgs.call, PlanArgs.callPrefill,
            PlanArgs.callDecode, PlanArgs.callMixed, plan, plan']
          rfl

theorem FlashInferKernels.run (kernels : FlashInferKernels size backend.wrappers ops attend)
    (h : Packable size seqs n) (same : backend.blockSize = size) {caches : κ} {q : List α}
    (length : q.length = (seqs.map Sequence.numNewTokens).sum) {route : AttentionRoute}
    (planned : route = match batchTypeOf seqs n with
      | .purePrefill => .prefill
      | .pureDecode => .decode
      | .mixed => if backend.wrappers.mixedPlan.isSome then .mixedUnified else .mixedSplit) :
    FlashInferBackend.forwardPaged (ops.planned (wrapperArgs backend.wrappers.mixedPlan.isSome size seqs n) caches) q
      (ops.output q) ⟨batchTypeOf seqs n, route, metadataOf trusted size seqs n, flashInferOf size seqs n⟩ =
      .ok (attention size (attend caches) (seqs.map Sequence.pagedRow) q) := by
  have all := h.feasible h.some' (fun _ listed => listed)
  have whole := describes (h.lastLens_eq (fun _ listed => listed))
  have buffer := ops.output_length q
  have tokens : (q.length : Int) = (metadataOf trusted size seqs n).numQueryTokens := by
    rw [numQueryTokens, length]
  have counts : q.length = ((seqs.map Sequence.pagedRow).map Row.count).sum := by rwa [counts_pagedRow]
  have cached : (flashInferOf size seqs n).isCacheless = false := rfl
  cases kind : batchTypeOf seqs n with
  | purePrefill =>
      rw [kind] at planned
      subst planned
      have run := @kernels.prefillRun _ _ _ caches q (ops.output q) all starts whole counts buffer
      rw [FlashInferBackend.forwardPaged, require_of cached, pure_bind, require_of tokens, pure_bind]
      simp only [FlashInferOps.planned, wrapperArgs, kind, run]
  | pureDecode =>
      rw [kind] at planned
      subst planned
      have single : ∀ row ∈ seqs.map Sequence.pagedRow, row.count = 1 :=
        List.forall_mem_map.mpr (fun seq listed => h.decode seq (by rwa [batchTypeOf_decode kind]))
      have lengths : q.length = (seqs.map Sequence.pagedRow).length := by
        rw [counts, List.map_congr_left single, List.map_const', List.sum_replicate_nat, Nat.mul_one]
      have run := @kernels.decodeRun _ _ caches q (ops.output q) all single whole lengths buffer
      rw [FlashInferBackend.forwardPaged, require_of cached, pure_bind, require_of tokens, pure_bind]
      simp only [FlashInferOps.planned, wrapperArgs, kind, run]
  | mixed =>
      rw [kind] at planned
      cases unified : backend.wrappers.mixedPlan with
      | some mixedPlan =>
          have together := kernels.together
          simp only [unified, Option.isSome_some, if_true] at planned together
          subst planned
          obtain ⟨mixed, found⟩ := Option.isSome_iff_exists.mp together
          have run := @kernels.mixedRun _ _ _ _ caches q (ops.output q) found all starts lengths_describe counts buffer
          rw [FlashInferBackend.forwardPaged, require_of cached, pure_bind, require_of tokens, pure_bind]
          simp only [FlashInferOps.planned, wrapperArgs, kind, found, Option.map_some, Option.isSome_some, if_true, run]
      | none =>
          obtain ⟨prefill, decode⟩ := batchTypeOf_mixed kind h
          simp only [unified, Option.isSome_none, Bool.false_eq_true, if_false] at planned
          subst planned
          have first := fun seq (listed : seq ∈ seqs.take n) => List.mem_of_mem_take listed
          have later := fun seq (listed : seq ∈ seqs.drop n) => List.mem_of_mem_drop listed
          have split : (metadataOf trusted size seqs n).numPrefillTokens =
              (((seqs.take n).map Sequence.numNewTokens).sum : Nat) := rfl
          have front : ((seqs.take n).map Sequence.numNewTokens).sum ≤ q.length := by
            have parts := congrArg (fun seqs => (seqs.map Sequence.numNewTokens).sum) (List.take_append_drop n seqs)
            rw [List.map_append, List.sum_append, ← length] at parts
            omega
          have single : ∀ row ∈ (seqs.drop n).map Sequence.pagedRow, row.count = 1 :=
            List.forall_mem_map.mpr (fun seq listed => h.decode seq listed)
          have rest : (q.drop ((seqs.take n).map Sequence.numNewTokens).sum).length =
              ((seqs.drop n).map Sequence.pagedRow).length := by
            have parts := congrArg (fun seqs => (seqs.map Sequence.numNewTokens).sum) (List.take_append_drop n seqs)
            rw [List.map_append, List.sum_append, ← length, h.numDecodeTokens] at parts
            rw [List.length_drop, List.length_map, List.length_drop]
            omega
          have run := @kernels.prefillRun _ _ _ caches (q.take ((seqs.take n).map Sequence.numNewTokens).sum)
            ((ops.output q).take ((seqs.take n).map Sequence.numNewTokens).sum)
            (h.feasible (by simp [prefill.ne', h.some']) first) starts (describes (h.lastLens_eq first))
            (by rw [counts_pagedRow, List.length_take, Nat.min_eq_left front])
            (by rw [List.length_take, List.length_take, buffer])
          have run' := @kernels.decodeRun _ _ caches (q.drop ((seqs.take n).map Sequence.numNewTokens).sum)
            ((ops.output q).drop ((seqs.take n).map Sequence.numNewTokens).sum)
            (h.feasible (by simpa using decode) later) single (describes (h.lastLens_eq later)) rest
            (by rw [List.length_drop, List.length_drop, buffer])
          rw [(h.validMixed same prefill decode).forwardPaged _ split tokens buffer]
          conv_rhs => rw [← List.take_append_drop n seqs, List.map_append, attention_append, counts_pagedRow]
          simp only [FlashInferOps.planned, wrapperArgs, kind, Option.isSome_none, Bool.false_eq_true, if_false,
            run, run',
            except_ok_bind]
          rfl

end FlashInfer

theorem flashInfer_computes {backend : FlashInferBackend} {ops : FlashInferOps α β κ}
    {attend : κ → α → List Int → β} (kernels : FlashInferKernels backend.blockSize backend.wrappers ops attend) :
    (backend.backend ops).Computes backend.blockSize attend where
  forward {seqs n trusted} h := by
    have args := @Packable.planArgs_eq _ _ _ trusted h backend.wrappers.mixedPlan.isSome
    have plan := @Packable.buildPlan _ _ _ trusted h backend rfl
    rw [FlashInferBackend.planRoute_eq] at plan
    change backend.buildPlan _ none = ((FlashInferBackend.planArgs _ _ _ (pagesOf seqs n).numPrefillPages
      ((offsets (seqs.map Sequence.numNewTokens)).map Nat.cast) (pagesOf seqs n).kvIndptr.data
      (pagesOf seqs n).pageIndices.data (Packable.lastLens backend.blockSize seqs)).call _ >>= _) >>= _ at plan
    rw [args, kernels.call h, except_ok_bind] at plan
    refine ⟨_, plan, fun cacheless caches q length => ?_⟩
    have run := @FlashInferKernels.run _ _ _ _ _ _ _ _ _ trusted kernels h rfl caches q length _ rfl
    rw [← run]
    exact congrArg (fun args => FlashInferBackend.forwardPaged (ops.planned args caches) q (ops.output q) _) args

end NanoVllm
