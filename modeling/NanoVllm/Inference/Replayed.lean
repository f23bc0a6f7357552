import NanoVllm.Inference.Graphs
import NanoVllm.Inference.Reference

set_option autoImplicit false

namespace NanoVllm

open Python Raising Torch Device Paged Scheduler

section Kernel

variable {α β κ : Type} {size : Nat} {attend : κ → α → List Int → β}

def pagedGraph (size : Nat) (attend : κ → α → List Int → β) : GraphOps α β κ where
  Held := PagePlan
  plan held pages := { pages with indices := pages.indices ++ held.indices.drop pages.indices.length }
  run := pagedDecode size attend

theorem pagedGraph_reads : (pagedGraph size attend : GraphOps α β κ).Reads size attend where
  run := by
    intro held rows pages caches q out feasible single describes whole output
    refine pagedDecode_ok feasible single describes ?indptr ?front ?last whole output
    case indptr => rfl
    case front => exact List.prefix_append _ _
    case last => rfl

end Kernel

section Tiny

def tinyGraph : GraphConfig where
  config := tinyConfig 2
  cudagraphBatchSizes := [1, 2]

theorem tiny_graphs : ∃ d : GraphDeployment Int tinyGraph, d.weights.layers.length = 1 ∧ d.shape.vocabSize = 4 ∧
    Nonempty d.graph.Held := by
  have fits : tinyWeights.Fits ((tinyPart.times 2).times 1) := by
    refine ⟨⟨rfl, rfl⟩, ?_, List.cons_ne_nil _ _, ⟨rfl, rfl⟩⟩
    rintro _ (_ | ⟨_, ⟨⟩⟩)
    refine ⟨?_, ?_, ⟨rfl, rfl⟩, ⟨rfl, rfl⟩, ⟨rfl, rfl⟩, ⟨rfl, rfl⟩⟩
    all_goals
      intro s
      cases s <;> exact ⟨rfl, rfl⟩
  obtain ⟨model, deployed⟩ := fits.deploys (by decide) (by decide) (by decide)
  let attend := attendCaches linearAttention (tinyPart.times 2).heads
  let d : GraphDeployment Int tinyGraph :=
    { tpSize := 1
      part := tinyPart.times 2
      weights := tinyWeights
      model
      silu := fun x => max x 0
      attention := linearAttention
      runtime :=
        { backend := FlashInferBackend.backend ⟨2, .unified, takingWrappers⟩ (pagedOps 2 attend)
          kvStore := .nativeTriton storeAll
          cacheShape := ⟨5, 2, 2, 2⟩
          cacheless := fun _ _ _ _ => throw (.runtimeError "there is no warm-up") }
      positive := by decide
      kv_pos := by decide
      dim_pos := by decide
      groups := by decide
      fits
      deployed
      backend := .flashInfer rfl pagedOps_kernels
      allocated := rfl
      int32 := (show 5 * 2 ≤ 2 ^ 31 by decide)
      store := .nativeTriton Launched.serial ⟨by decide, by decide, by decide, by decide, by decide⟩
      wrappers := takingWrappers
      ops := pagedOps 2 attend
      selected := rfl
      kernels := pagedOps_kernels
      enabled := rfl
      single := rfl
      ranks := rfl
      wrapper := bufferedWrapper
      accepts := fun _ _ _ _ _ _ rows capacity lasts => require_of ⟨rows, capacity, lasts⟩ _
      graph := pagedGraph 2 attend
      reads := pagedGraph_reads
      output := fun batchSize => List.replicate batchSize 0
      output_length := fun _ => List.length_replicate }
  exact ⟨d, rfl, rfl, ⟨⟨[9], [9, 9, 9], [9]⟩⟩⟩

-- Two requests have been prefilled and decode for the second time, on what the first replay left in the buffers.
theorem replays_plain_twice : ∃ (d : GraphDeployment Int tinyGraph) (caches : List (Nat → KVCaches Int))
    (rank : GraphRank d.graph.Held) (stats : CudagraphStats) (s t : Scheduler) (ids : Finset SeqId),
      GraphInference pageHash d caches rank stats s ids ∧ schedule s = .ok [0, 1] t ∧ t.numScheduledPrefillSeqs = 0 ∧
      ∃ input rank' caches' rows logits, d.Forwarded t [0, 1] input rank rank' caches caches' stats rows logits ∧
        (rank'.buffers 2).staticInputIds = input.inputIds := by
  obtain ⟨d, layers, vocab, ⟨held⟩⟩ := tiny_graphs
  have start : Scheduler.init tinyGraph.config = .ok _ := rfl
  have captured : GraphRunner.init tinyGraph d.flashInfer d.wrapper true = .ok _ := rfl
  have allocated : [fun _ : Nat => (⟨fun _ => 7, fun _ => 7⟩ : KVCaches Int)].length = d.weights.layers.length :=
    layers.symm
  let buffers (size : Int) : GraphBuffers d.graph.Held :=
    ⟨List.replicate size.toNat 9, List.replicate size.toNat 9, List.replicate size.toNat 9,
      List.replicate (size.toNat + 1) 9, held⟩
  have sized (size : Nat) : (buffers size).Sized size := by constructor <;> simp [buffers]
  have known : ∀ tokenIds ∈ [[1, 2], [3, 1], [2, 3], [1, 0]], d.Known tokenIds := by
    simp only [Deployment.Known, vocab]
    decide
  have past := @GraphInference.init _ _ pageHash _ d _ ⟨_, buffers⟩ {} _ allocated captured (fun size _ => sized size)
    start
  have made (i : SeqId) (a b : Token) : Sequence.init pageHash i [a, b] {} 2 = .ok _ := rfl
  have past := past.add (Finset.notMem_empty 0) (known [1, 2] (by simp)) (made 0 1 2) rfl
  have past := past.add (show 1 ∉ insert 0 ∅ by decide) (known [3, 1] (by simp)) (made 1 3 1) rfl
  obtain ⟨caches, rank, stats, past⟩ := past.stepped (run_value (a := [0, 1]) (by decide +kernel))
    (known [2, 3] (by simp)) (run_final (by decide +kernel))
  obtain ⟨caches, rank, stats, past⟩ := past.stepped (run_value (a := [0, 1]) (by decide +kernel))
    (known [1, 0] (by simp)) (run_final (by decide +kernel))
  refine ⟨d, caches, rank, stats, _, _, _, past, run_value (by decide +kernel), by decide +kernel, ?_⟩
  obtain ⟨input, rank', caches', rows, logits, forwarded⟩ :=
    replays_plain past (run_value (a := [0, 1]) (by decide +kernel))
  exact ⟨input, rank', caches', rows, logits, forwarded, forwarded.replayed ⟨by decide +kernel, by decide⟩⟩

end Tiny

end NanoVllm
