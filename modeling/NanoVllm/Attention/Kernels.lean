import NanoVllm.Model.FlashAttention
import NanoVllm.Model.FlashInfer
import NanoVllm.Shared.Paged

set_option autoImplicit false

namespace NanoVllm

open Python Raising Torch Paged

variable {α β κ : Type}

structure VarlenArgs.Describes (args : VarlenArgs) (rows : List Row) : Prop where
  starts : args.cuSeqlensQ = (offsets (rows.map Row.count)).map Nat.cast
  lengths : args.cuSeqlensK = (offsets (rows.map Row.length)).map Nat.cast
  maxQ : ∀ row ∈ rows, (row.count : Int) ≤ args.maxSeqlenQ
  maxK : ∀ row ∈ rows, (row.length : Int) ≤ args.maxSeqlenK
  tables : args.blockTable.length = rows.length
  table : ∀ (r : Nat) (row : Row), rows[r]? = some row → ∃ line, args.blockTable[r]? = some line ∧ row.pages <+: line

/-- A page table in the form that FlashInfer takes, with one number for each sequence. -/
structure PagePlan.Describes (pages : PagePlan) (rows : List Row) (last : Row → Nat) : Prop where
  kvIndptr : pages.kvIndptr = (offsets (rows.map (fun row => row.pages.length))).map Nat.cast
  indices : pages.indices = rows.flatMap Row.pages
  lastPageLen : pages.lastPageLen = rows.map (fun row => (last row : Int))

def Feasible (size : Nat) (rows : List Row) : Prop := 0 < size ∧ rows ≠ [] ∧ ∀ row ∈ rows, row.Fits size ∧ 0 < row.count

/-- `flash_attn_varlen_func` with a block table is causal attention over the pages. -/
structure VarlenKernel (size : Nat) (varlen : VarlenArgs → κ → (q : List α) → Except PyError (List β))
    (attend : κ → α → List Int → β) : Prop where
  run : ∀ {args : VarlenArgs} {rows : List Row} {caches : κ} {q : List α}, Feasible size rows → args.Describes rows →
    q.length = (rows.map Row.count).sum →
    varlen args caches q = .ok (attention size (attend caches) rows q)

-- `query_start_loc` of the sequences.
def Starts (rows : List Row) (qIndptr : List Int) : Prop := qIndptr = (offsets (rows.map Row.count)).map Nat.cast

/-- FlashInfer's wrappers accept a valid plan, and are causal attention over its pages. -/
structure FlashInferKernels (size : Nat) (wrappers : Wrappers) (ops : FlashInferOps α β κ)
    (attend : κ → α → List Int → β) : Prop where
  together : ops.mixed.isSome = wrappers.mixedPlan.isSome
  prefillPlan : ∀ {rows : List Row} {qIndptr : List Int} {pages : PagePlan}, Feasible size rows →
    Starts rows qIndptr → pages.Describes rows (Row.filled size) →
    wrappers.prefillPlan qIndptr pages.kvIndptr pages.indices pages.lastPageLen = .ok ()
  prefillRun : ∀ {rows : List Row} {qIndptr : List Int} {pages : PagePlan} {caches : κ} {q : List α} {out : List β},
    Feasible size rows → Starts rows qIndptr → pages.Describes rows (Row.filled size) →
    q.length = (rows.map Row.count).sum → out.length = q.length →
    ops.prefill qIndptr pages caches q out = .ok (attention size (attend caches) rows q)
  decodePlan : ∀ {rows : List Row} {pages : PagePlan}, Feasible size rows → pages.Describes rows (Row.filled size) →
    wrappers.decodePlan pages.kvIndptr pages.indices pages.lastPageLen = .ok ()
  -- A decode query is the last token of its sequence.
  decodeRun : ∀ {rows : List Row} {pages : PagePlan} {caches : κ} {q : List α} {out : List β}, Feasible size rows →
    (∀ row ∈ rows, row.count = 1) → pages.Describes rows (Row.filled size) → q.length = rows.length →
    out.length = q.length → ops.decode pages caches q out = .ok (attention size (attend caches) rows q)
  mixedPlan : ∀ {plan} {rows : List Row} {qIndptr : List Int} {pages : PagePlan}, wrappers.mixedPlan = some plan →
    Feasible size rows → Starts rows qIndptr → pages.Describes rows Row.length →
    plan qIndptr pages.kvIndptr pages.indices pages.lastPageLen = .ok ()
  mixedRun : ∀ {run} {rows : List Row} {qIndptr : List Int} {pages : PagePlan} {caches : κ} {q : List α}
    {out : List β}, ops.mixed = some run → Feasible size rows → Starts rows qIndptr →
    pages.Describes rows Row.length → q.length = (rows.map Row.count).sum → out.length = q.length →
    run qIndptr pages caches q out = .ok (attention size (attend caches) rows q)

end NanoVllm
