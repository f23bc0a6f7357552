import NanoVllm.Model.AttentionBackend

set_option autoImplicit false

namespace NanoVllm

open Python Raising Torch

-- What the wrappers were given by the last `build_plan`.
structure PlanArgs where
  prefill : Option (List Int × PagePlan) := none
  decode : Option PagePlan := none
  -- With the lengths of the sequences in the place of those of the last pages.
  mixed : Option (List Int × PagePlan) := none

namespace PlanArgs

def callPrefill (wrappers : Wrappers) : Option (List Int × PagePlan) → Except PyError Unit
  | none => pure ()
  | some (qIndptr, pages) => wrappers.prefillPlan qIndptr pages.kvIndptr pages.indices pages.lastPageLen

def callDecode (wrappers : Wrappers) : Option PagePlan → Except PyError Unit
  | none => pure ()
  | some pages => wrappers.decodePlan pages.kvIndptr pages.indices pages.lastPageLen

def callMixed (wrappers : Wrappers) : Option (List Int × PagePlan) → Except PyError Unit
  | none => pure ()
  | some (qIndptr, pages) =>
      match wrappers.mixedPlan with
      | none => pure ()
      | some mixedPlan => mixedPlan qIndptr pages.kvIndptr pages.indices pages.lastPageLen

-- The `plan` calls that leave the arguments.
def call (wrappers : Wrappers) (args : PlanArgs) : Except PyError Unit := do
  callPrefill wrappers args.prefill
  callDecode wrappers args.decode
  callMixed wrappers args.mixed

end PlanArgs

namespace FlashInferBackend

-- The arguments that `build_plan` gives to the wrappers for a batch with pages.
def planArgs (unified : Bool) (batchType : BatchType) (common : CommonAttentionMetadata) (numPrefillPages : Int)
    (qIndptr kvIndptr indices lastPageLen : List Int) : PlanArgs :=
  match batchType with
  | .purePrefill => { prefill := some (qIndptr, ⟨kvIndptr, indices, lastPageLen⟩) }
  | .pureDecode => { decode := some ⟨kvIndptr, indices, lastPageLen⟩ }
  | .mixed =>
      if unified then { mixed := some (qIndptr, ⟨kvIndptr, indices, common.seqLens.data⟩) }
      else
        let seqs := common.numPrefillSeqs.toNat
        let pages := numPrefillPages.toNat
        { prefill := some (qIndptr.take (seqs + 1),
            ⟨kvIndptr.take (seqs + 1), indices.take pages, lastPageLen.take seqs⟩)
          decode := some ⟨(kvIndptr.drop seqs).map (fun offset => offset - numPrefillPages), indices.drop pages,
            lastPageLen.drop seqs⟩ }

theorem planRoute_eq (wrappers : Wrappers) (batchType : BatchType) (common : CommonAttentionMetadata)
    (numPrefillPages : Int) (qIndptr kvIndptr indices lastPageLen : List Int) :
    planRoute wrappers batchType common numPrefillPages qIndptr kvIndptr indices lastPageLen = (do
      (planArgs wrappers.mixedPlan.isSome batchType common numPrefillPages qIndptr kvIndptr indices lastPageLen).call
        wrappers
      pure (match batchType with
        | .purePrefill => .prefill
        | .pureDecode => .decode
        | .mixed => if wrappers.mixedPlan.isSome then .mixedUnified else .mixedSplit)) := by
  cases batchType with
  | purePrefill => simp
    [planRoute, planArgs, PlanArgs.call, PlanArgs.callPrefill, PlanArgs.callDecode, PlanArgs.callMixed]
  | pureDecode => simp [planRoute, planArgs, PlanArgs.call, PlanArgs.callPrefill, PlanArgs.callDecode, PlanArgs.callMixed]
  | mixed =>
      cases unified : wrappers.mixedPlan <;>
        simp [planRoute, planArgs, PlanArgs.call, PlanArgs.callPrefill, PlanArgs.callDecode, PlanArgs.callMixed, unified]

end FlashInferBackend

/-- What the wrappers' `run` leaves in `out`, for the arguments of the last `plan`. A run writes each row of `out`. -/
structure FlashInferOps (α β κ : Type) where
  prefill : (qIndptr : List Int) → PagePlan → κ → (q : List α) → (out : List β) → Except PyError (List β)
  decode : PagePlan → κ → (q : List α) → (out : List β) → Except PyError (List β)
  mixed : Option ((qIndptr : List Int) → PagePlan → κ → (q : List α) → (out : List β) → Except PyError (List β))
  -- `_get_reusable_attention_output`, with what the last batch left in it.
  output : (q : List α) → List β
  prefill_inPlace : ∀ {qIndptr pages caches q out rows},
    prefill qIndptr pages caches q out = .ok rows → rows.length = out.length
  decode_inPlace : ∀ {pages caches q out rows}, decode pages caches q out = .ok rows → rows.length = out.length
  output_length : ∀ q, (output q).length = q.length

namespace FlashInferOps

variable {α β κ : Type}

def unplanned : PyError := .runtimeError "plan() must be called before run()"

-- The kernels of the wrappers after a plan, on the given caches.
def planned (ops : FlashInferOps α β κ) (args : PlanArgs) (caches : κ) : Kernels α β where
  prefillRun q out :=
    match args.prefill with
    | some (qIndptr, pages) => ops.prefill qIndptr pages caches q out
    | none => throw unplanned
  decodeRun q out :=
    match args.decode with
    | some pages => ops.decode pages caches q out
    | none => throw unplanned
  mixedRun := ops.mixed.map (fun mixed q out =>
    match args.mixed with
    | some (qIndptr, pages) => mixed qIndptr pages caches q out
    | none => throw unplanned)
  prefillRun_inPlace run := by
    split at run
    · exact ops.prefill_inPlace run
    · cases run
  decodeRun_inPlace run := by
    split at run
    · exact ops.decode_inPlace run
    · cases run

end FlashInferOps

namespace FlashInferBackend

variable {α β κ : Type}

-- The arguments of the wrappers after `build_plan` made the plan.
def argsOf (backend : FlashInferBackend) (plan : AttentionPlan) : PlanArgs :=
  match plan.metadata.kvIndptr, plan.metadata.pageIndices, plan.metadata.lastPageLen with
  | some kvIndptr, some indices, some lastPageLen =>
      planArgs backend.wrappers.mixedPlan.isSome plan.batchType plan.common plan.metadata.numPrefillPages
        plan.metadata.queryStartLoc.data kvIndptr.data indices.data lastPageLen.data
  | _, _, _ => {}

-- `forward` outside of a graph
def forward (backend : FlashInferBackend) (ops : FlashInferOps α β κ)
    (cacheless : CommonAttentionMetadata → Except PyError (List β)) (q : List α) (caches : Option κ)
    (plan : AttentionPlan) : Except PyError (List β) :=
  match caches with
  | none => cacheless plan.common
  | some caches => forwardPaged (ops.planned (backend.argsOf plan) caches) q (ops.output q) plan

end FlashInferBackend

end NanoVllm
