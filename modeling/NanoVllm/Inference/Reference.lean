import NanoVllm.Inference.Engine
import NanoVllm.Runs.Graph

set_option autoImplicit false

namespace NanoVllm

open Python Raising Torch Device Paged

section Kernel

variable {α β κ : Type} {size : Nat} {attend : κ → α → List Int → β} {rows : List Row} {pages held : PagePlan}
  {indices : List Int}

-- The sequences with these numbers of queries, of pages, and of tokens on the last page.
def rowsOfPages (size : Nat) : (counts pages lastPageLen : List Int) → (indices : List Int) → List Row
  | count :: counts, pages :: rest, last :: lasts, indices =>
      ⟨count.toNat, (pages.toNat - 1) * size + last.toNat, indices.take pages.toNat⟩ ::
        rowsOfPages size counts rest lasts (indices.drop pages.toNat)
  | _, _, _, _ => []

theorem rowsOfPages_eq (positive : 0 < size) (fits : ∀ row ∈ rows, row.Fits size)
    (front : rows.flatMap Row.pages <+: indices) :
    rowsOfPages size (rows.map (fun row => (row.count : Int))) (rows.map (fun row => (row.pages.length : Int)))
      (rows.map (fun row => (row.filled size : Int))) indices = rows := by
  induction rows generalizing indices with
  | nil => rfl
  | cons row rest ih =>
      obtain ⟨later, rfl⟩ := front
      have own := fits row (List.mem_cons_self ..)
      obtain ⟨-, -, length⟩ := Packable.lastPage positive own.length
      have others := @ih (rest.flatMap Row.pages ++ later) (fun row' listed => fits row' (List.mem_cons_of_mem _ listed))
        (List.prefix_append _ _)
      simp only [List.map_cons, List.flatMap_cons, List.append_assoc, rowsOfPages, Int.toNat_natCast, List.take_left,
        List.drop_left, others]
      rw [Row.filled, own.pages, length]

def pagedRun (size : Nat) (attend : κ → α → List Int → β) (counts : List Int) (pages : PagePlan) (caches : κ)
    (q : List α) (out : List β) : Except PyError (List β) := do
  let output := attention size (attend caches)
    (rowsOfPages size counts (diffs pages.kvIndptr) pages.lastPageLen pages.indices) q
  require (output.length = out.length) (PyError.valueError "the output does not match the queries")
  pure output

theorem pagedRun_ok (feasible : Feasible size rows) {counts : List Int}
    (queries : counts = rows.map (fun row => (row.count : Int))) (describes : pages.Describes rows (Row.filled size))
    (indptr : held.kvIndptr = pages.kvIndptr) (front : pages.indices <+: held.indices)
    (last : held.lastPageLen = pages.lastPageLen) {caches : κ} {q : List α} {out : List β}
    (whole : q.length = (rows.map Row.count).sum) (output : out.length = q.length) :
    pagedRun size attend counts held caches q out = .ok (attention size (attend caches) rows q) := by
  have lengths : diffs held.kvIndptr = rows.map (fun row => (row.pages.length : Int)) := by
    rw [indptr, describes.kvIndptr, map_cast_offsets, diffs_offsets, List.map_map]
    rfl
  have read : rowsOfPages size counts (diffs held.kvIndptr) held.lastPageLen held.indices = rows := by
    rw [queries, lengths, last, describes.lastPageLen]
    exact rowsOfPages_eq feasible.1 (fun row listed => (feasible.2.2 row listed).1) (describes.indices ▸ front)
  have filled : (attention size (attend caches) rows q).length = out.length := (length_attention whole).trans output.symm
  rw [pagedRun, read, require_of filled]
  rfl

theorem pagedRun_inPlace {counts : List Int} {caches : κ} {q : List α} {out output : List β}
    (run : pagedRun size attend counts pages caches q out = .ok output) : output.length = out.length := by
  obtain ⟨_, filled, run⟩ := except_bind_ok run
  obtain rfl := (except_pure_ok _ _).mp run
  exact (except_require_ok _ _ _).mp filled

-- The kernel of a decode wrapper, in a graph or not.
def pagedDecode (size : Nat) (attend : κ → α → List Int → β) (pages : PagePlan) (caches : κ) (q : List α)
    (out : List β) : Except PyError (List β) :=
  pagedRun size attend (pages.lastPageLen.map (fun _ => 1)) pages caches q out

theorem pagedDecode_ok (feasible : Feasible size rows) (single : ∀ row ∈ rows, row.count = 1)
    (describes : pages.Describes rows (Row.filled size)) (indptr : held.kvIndptr = pages.kvIndptr)
    (front : pages.indices <+: held.indices) (last : held.lastPageLen = pages.lastPageLen) {caches : κ} {q : List α}
    {out : List β} (whole : q.length = rows.length) (output : out.length = q.length) :
    pagedDecode size attend held caches q out = .ok (attention size (attend caches) rows q) := by
  refine pagedRun_ok feasible ?_ describes indptr front last ?_ output
  · rw [last, describes.lastPageLen, List.map_map]
    exact List.map_congr_left (fun row listed => (congrArg Nat.cast (single row listed)).symm)
  · rw [List.map_congr_left single, List.map_const', List.sum_replicate_nat, Nat.mul_one, whole]

def pagedOps [Inhabited β] (size : Nat) (attend : κ → α → List Int → β) : FlashInferOps α β κ where
  prefill qIndptr := pagedRun size attend (diffs qIndptr)
  decode := pagedDecode size attend
  mixed := none
  output q := q.map (fun _ => default)
  prefill_inPlace := pagedRun_inPlace
  decode_inPlace := pagedRun_inPlace
  output_length _ := List.length_map _

theorem pagedOps_kernels [Inhabited β] : FlashInferKernels size takingWrappers (pagedOps size attend) attend where
  together := rfl
  prefillPlan _ _ _ := rfl
  prefillRun feasible starts describes whole output := by
    refine pagedRun_ok feasible ?_ describes rfl (List.prefix_refl _) rfl whole output
    rw [starts, map_cast_offsets, diffs_offsets, List.map_map]
    rfl
  decodePlan _ _ := rfl
  decodeRun feasible single describes whole output :=
    pagedDecode_ok feasible single describes rfl (List.prefix_refl _) rfl whole output
  mixedPlan planned := by cases planned
  mixedRun found := by cases found

end Kernel

-- A model of two ranks with one layer, over the integers.
section Tiny

def tinyPart : ModelShape where
  vocabSize := 2
  hiddenSize := 2
  intermediateSize := 1
  heads := ⟨1, 1, 2⟩
  qkvBias := false

def tinyTensor (rows cols seed : Nat) : Tensor Int :=
  ⟨rows, cols, fun i j => ((seed + 4 * i + 2 * j + i * j) % 9 : Nat) - 4⟩

def tinyNorm (weight : Int) : RMSNorm Int := ⟨fun _ => weight, fun _ _ => 1⟩

def tinyRotary : RotaryEmbedding Int where
  cos position _ := [1, 0, -1, 0].getD (position % 4) 0
  sin position _ := [0, 1, 0, -1].getD (position % 4) 0

def tinyLayer : LayerWeights Int where
  weight
    | .q => tinyTensor 4 2 1
    | .k => tinyTensor 4 2 2
    | .v => tinyTensor 4 2 4
  bias _ := tinyTensor 4 1 0
  o := tinyTensor 2 4 3
  gate := tinyTensor 2 2 5
  up := tinyTensor 2 2 6
  down := tinyTensor 2 2 1
  norms := ⟨tinyNorm 1, tinyNorm (-1), tinyRotary⟩
  inputLayernorm := tinyNorm 1
  postAttentionLayernorm := tinyNorm 1

def tinyWeights : ModelWeights Int where
  embedTokens := tinyTensor 4 2 2
  layers := [tinyLayer]
  norm := tinyNorm 1
  lmHead := tinyTensor 4 2 5

def linearAttention : HeadAttention Int :=
  fun _ q context c => (context.map (fun entry => (∑ j, q j * entry.1 j) * entry.2 c)).sum

def argmax (vocabSize : Nat) (logits : Fin vocabSize → Int) : Token :=
  (((List.finRange vocabSize).maxOn? logits).map (fun c => (c : Int))).getD 0

def tinyNext (tokenIds : List Token) : Token :=
  argmax 4 (fun c => tinyWeights.logits (tinyPart.times 2) (fun x => max x 0) linearAttention tokenIds c)

def tinyConfig (maxNumSeqs : Nat) : Config where
  maxNumBatchedTokens := 4
  maxNumSeqs
  maxModelLen := 8
  kvcacheBlockSize := 2
  numKvcacheBlocks := 5
  chunkedPrefill := true
  kvcacheBlockSize_pos := Nat.two_pos

theorem argmax_picks {vocabSize : Nat} (some' : 0 < vocabSize) (logits : Fin vocabSize → Int) :
    0 ≤ argmax vocabSize logits ∧ argmax vocabSize logits < (vocabSize : Int) := by
  unfold argmax
  cases (List.finRange vocabSize).maxOn? logits with
  | none => exact ⟨le_rfl, Int.natCast_pos.mpr some'⟩
  | some c => exact ⟨Int.natCast_nonneg c, Int.ofNat_lt.mpr c.isLt⟩

theorem tiny_deployment (n : Nat) : ∃ d : Deployment Int (tinyConfig n), d.weights.layers.length = 1 ∧
    d.shape.vocabSize = 4 ∧
    d.Picks argmax ∧ d.next argmax = tinyNext := by
  have fits : tinyWeights.Fits (tinyPart.times 2) := by
    refine ⟨⟨rfl, rfl⟩, ?_, List.cons_ne_nil _ _, ⟨rfl, rfl⟩⟩
    rintro _ (_ | ⟨_, ⟨⟩⟩)
    refine ⟨?_, ?_, ⟨rfl, rfl⟩, ⟨rfl, rfl⟩, ⟨rfl, rfl⟩, ⟨rfl, rfl⟩⟩
    all_goals
      intro s
      cases s <;> exact ⟨rfl, rfl⟩
  have stored : (tinyPart.heads.storeUse 4 (5 * 2)).Fits := ⟨by decide, by decide, by decide, by decide, by decide⟩
  obtain ⟨model, deployed⟩ := fits.deploys (by decide) (by decide) (by decide)
  let d : Deployment Int (tinyConfig n) :=
    { tpSize := 2
      part := tinyPart
      weights := tinyWeights
      model
      silu := fun x => max x 0
      attention := linearAttention
      runtime :=
        { backend := FlashInferBackend.backend ⟨2, .unified, takingWrappers⟩
            (pagedOps 2 (attendCaches linearAttention tinyPart.heads))
          kvStore := .nativeTriton storeAll
          cacheShape := ⟨5, 2, 1, 2⟩
          cacheless := fun _ _ _ _ => throw (.runtimeError "there is no warm-up") }
      positive := by decide
      kv_pos := by decide
      dim_pos := by decide
      groups := by decide
      fits
      deployed
      backend := .flashInfer rfl pagedOps_kernels
      allocated := rfl
      int32 := (show 5 * 2 ≤ 2 ^ 31 by decide)
      store := .nativeTriton Launched.serial stored }
  exact ⟨d, rfl, rfl, argmax_picks (show 0 < 2 * 2 by decide), rfl⟩

def tinyTokenizer : Tokenizer := ⟨fun _ => [], fun _ => ""⟩

theorem tiny_hosted (seqs n : Nat) (Q : List (SeqId × List Token) → LLMEngine → Prop)
    (run : ∀ s, Scheduler.init (tinyConfig seqs) = .ok s → wp (do
      LLMEngine.addRequests pageHash tinyTokenizer
        [(.tokenIds [1, 2, 3], { maxTokens := 3 }), (.tokenIds [1, 2, 0, 3, 1, 2], {})]
      LLMEngine.steps pageHash tinyNext n) Q (fun _ _ => False) ⟨s, 0⟩) :
    ∃ (d : Deployment Int (tinyConfig seqs)) (host : Host Int) (output : List (SeqId × List Token)), d.Picks argmax ∧
      d.next argmax = tinyNext ∧ Hosted pageHash tinyTokenizer d argmax host
        [⟨0, [1, 2, 3], { maxTokens := 3 }⟩, ⟨1, [1, 2, 0, 3, 1, 2], {}⟩] output ∧ Q output host.engine := by
  obtain ⟨d, layers, vocab, picks, next⟩ := tiny_deployment seqs
  have start : Scheduler.init (tinyConfig seqs) = .ok _ := rfl
  obtain ⟨output, e, ran, holds⟩ := wp_total (run _ start)
  obtain ⟨_, e₁, added, ran⟩ := run_bind_ok ran
  rw [← next] at ran
  have session := ((Session.init 0 start).addRequests added).steps ran
  have known : ∀ r ∈ [⟨0, [1, 2, 3], { maxTokens := 3 }⟩, (⟨1, [1, 2, 0, 3, 1, 2], {}⟩ : Request)],
      d.Known r.promptIds := by
    simp only [Deployment.Known, vocab]
    decide
  have allocated : [fun _ : Nat => (⟨fun _ => 0, fun _ => 0⟩ : KVCaches Int)].length = d.weights.layers.length :=
    layers.symm
  obtain ⟨host, rfl, hosted⟩ := session.hosted picks known allocated
  exact ⟨d, host, output, picks, next, hosted, holds⟩

end Tiny

end NanoVllm
