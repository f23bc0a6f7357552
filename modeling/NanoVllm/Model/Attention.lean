import NanoVllm.Model.FlashAttention
import NanoVllm.Model.FlashInfer

set_option autoImplicit false

namespace NanoVllm

open Python Raising

/-- `AttentionBackend` on one rank, with query rows `α`, output rows `β` and caches `κ`. -/
structure AttentionBackend (α β κ : Type) where
  Plan : Type
  buildPlan : CommonAttentionMetadata → Except PyError Plan
  -- The first argument is `_cacheless_varlen_attention` on the tensors of the batch.
  forward : (CommonAttentionMetadata → Except PyError (List β)) → (q : List α) → Option κ → Plan →
    Except PyError (List β)

variable {α β κ : Type}

def FlashAttentionBackend.backend (varlen : Option (VarlenArgs → κ → (q : List α) → Except PyError (List β))) :
    AttentionBackend α β κ where
  Plan := FlashAttentionPlan
  buildPlan common := buildPlan common none
  forward cacheless q caches plan := forward varlen cacheless q caches plan

def FlashInferBackend.backend (self : FlashInferBackend) (ops : FlashInferOps α β κ) : AttentionBackend α β κ where
  Plan := AttentionPlan
  buildPlan common := self.buildPlan common none
  forward cacheless q caches plan := self.forward ops cacheless q caches plan

end NanoVllm
