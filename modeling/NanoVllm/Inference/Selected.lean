import NanoVllm.Inference.InPlace
import NanoVllm.Inference.Reference

set_option autoImplicit false

namespace NanoVllm

open Python Raising Torch Storage

variable {machine : Machine} {kwargs : BackendKwargs} {options : RunnerOptions} {backend : SelectedBackend}
  {providers : RMSNorm.Providers} {dtype : FloatDtype} {R : Type} {round : FloatDtype → R → R}

section Registry

theorem FlashAttentionBackend.half (supported : supportReason machine kwargs = none) : kwargs.dtype.isHalf := by
  unfold supportReason at supported
  by_contra other
  rw [if_pos other] at supported
  split at supported
  next => cases supported
  next => split at supported <;> cases supported

theorem FlashInferBackend.half (supported : supportReason machine kwargs = none) : kwargs.dtype.isHalf := by
  unfold supportReason at supported
  by_contra other
  rw [if_pos other] at supported
  split at supported <;> cases supported

namespace AttentionBackendRegistry

theorem create_half {name : BackendName} (created : create machine name kwargs = .ok backend) : kwargs.dtype.isHalf := by
  have flashAttention (run : createFlashAttention machine kwargs = .ok backend) : kwargs.dtype.isHalf := by
    unfold createFlashAttention at run
    cases supported : FlashAttentionBackend.supportReason machine kwargs with
    | none => exact FlashAttentionBackend.half supported
    | some reason =>
        rw [supported] at run
        cases run
  cases name with
  | flashattention | legacy => exact flashAttention created
  | flashinfer =>
      change createFlashInfer machine kwargs = .ok backend at created
      unfold createFlashInfer at created
      cases supported : FlashInferBackend.supportReason machine kwargs with
      | none => exact FlashInferBackend.half supported
      | some reason =>
          rw [supported] at created
          cases created
  | auto =>
      change createAuto machine kwargs = .ok backend at created
      unfold createAuto at created
      cases supported : FlashAttentionBackend.supportReason machine kwargs with
      | none => exact FlashAttentionBackend.half supported
      | some reason =>
          cases supported' : FlashInferBackend.supportReason machine kwargs with
          | none => exact FlashInferBackend.half supported'
          | some reason' =>
              have no : (if kwargs.blockSize % 256 = 0 then some reason else
                some ((some reason).getD "block_size policy did not select FlashAttention")) = some reason := by simp
              simp only [supported, supported', no] at created
              cases created

end AttentionBackendRegistry

theorem ModelRunner.selectImplementations_half
    (selected : selectImplementations machine options = .ok (backend, providers)) : options.dtype.isHalf := by
  obtain ⟨_, -, selected⟩ := except_bind_ok selected
  obtain ⟨_, created, -⟩ := except_bind_ok selected
  exact AttentionBackendRegistry.create_half created

end Registry

section Native

variable {s : List (TensorStorage R)} {x residual : Ref} {a b : TensorStorage R} {v w sum : Tensor R}

namespace TensorStorage

theorem get_ok (held : StoredAt s x a) : get x s = .ok a s := load_ok held

theorem toDtype_ok (held : StoredAt s x a) : toDtype round x a.dtype s = .ok x s := by
  rw [toDtype, bind_ok (get_ok held), if_pos rfl, run_pure]

theorem mulInto_ok (held : StoredAt s x a) (scaled : (n : Nat) → (Fin n → R) → Fin n → R) :
    mulInto x scaled s = .ok () (s.set x { a with value := a.value.mapRows scaled }) := by
  rw [mulInto, bind_ok (get_ok held)]
  rfl

theorem addInto_ok [Add R] (held : StoredAt s x a) (held' : StoredAt s residual b)
    (added : a.value.add b.value = some sum) :
    addInto x residual s = .ok () (s.set x { a with value := sum }) := by
  rw [addInto, bind_ok (get_ok held), bind_ok (get_ok held'), added]
  rfl

end TensorStorage

open TensorStorage

variable [Mul R] [Add R]

/-- Tensors that are `float32` already are not copied: the norm takes the storage of its argument, and the residual that
it returns is the storage of the norm. -/
theorem RMSNorm.nativeAddRms_float32 (norm : RMSNorm R) (held : StoredAt s x ⟨.float32, v⟩)
    (held' : StoredAt s residual ⟨.float32, w⟩) (added : v.add w = some sum) :
    norm.nativeAddRms round x residual s = .ok (x, x) (s.set x ⟨.float32, norm.forward sum⟩) := by
  have summed := held.set_self ⟨.float32, sum⟩
  have scaled := summed.set_self ⟨.float32, sum.mapRows norm.normalize⟩
  rw [nativeAddRms, bind_ok (get_ok held), bind_ok (toDtype_ok held), bind_ok (toDtype_ok held'),
    bind_ok (addInto_ok held held' added), bind_ok (toDtype_ok summed), bind_ok (mulInto_ok summed norm.normalize),
    bind_ok (toDtype_ok scaled), bind_ok (mulInto_ok scaled norm.weigh), run_pure, List.set_set, List.set_set, forward_eq]

theorem RMSNorm.native_exact_iff [Inhabited R] {kernels : FlashInferNorm R} (lossless : Lossless round) :
    ((⟨.nativeTorch, .nativeTorch⟩ : Providers).impl round kernels).Exact dtype ↔ dtype ≠ .float32 := by
  constructor
  · rintro exact rfl
    let v : Tensor R := ⟨0, 0, fun _ _ => default⟩
    let norm : RMSNorm R := ⟨fun _ => default, fun _ _ => default⟩
    let s : List (TensorStorage R) := [⟨.float32, v⟩, ⟨.float32, v⟩]
    have held : StoredAt s 0 ⟨.float32, v⟩ := rfl
    have held' : StoredAt s 1 ⟨.float32, v⟩ := rfl
    have run : norm.nativeAddRms round 0 1 s = .ok (0, 0) _ := norm.nativeAddRms_float32 held held' rfl
    have realised := exact.addRmsInplace norm Nat.zero_ne_one held held'
    obtain ⟨_, -, -, -, ne⟩ := realised.of_ok run
    exact ne rfl
  · intro other
    constructor
    case rms =>
      intro norm s x v held
      exact norm.nativeRms_exact lossless other held
    case addRms =>
      intro norm s x residual v w held held'
      exact norm.nativeAddRms_exact lossless other held held'
    case addRmsInplace =>
      intro norm s x residual v w _ held held'
      exact norm.nativeAddRmsInplace_exact lossless other held held'

end Native

section Forward

variable [Ring R] {width : Nat} {kernels : FlashInferNorm R} {out : Option (Tensor R) × List (LayerCaches R)}

/-- In exact arithmetic, whatever `ModelRunner.__init__` selects, the forward pass on storages gives what the one on
values gives, from any storages. -/
theorem in_place_runs (selected : ModelRunner.selectImplementations machine options = .ok (backend, providers))
    (lossless : Lossless round) (documented : RMSNorm.Documented kernels) (silu : R → R) (tpSize : Nat)
    (model : Qwen3ForCausalLM R)
    (runtime : AttentionRuntime R width) (input : ModelRunner.ModelInput) (caches : List (LayerCaches R))
    (s : List (TensorStorage R)) :
    (∃ t, ModelRunner.runModelInPlace (providers.impl round kernels) silu tpSize model options.dtype runtime input
      caches s = .ok out t) ↔ ModelRunner.runModel silu tpSize model runtime input caches = .ok out := by
  have exact := providers.impl_exact lossless documented (ModelRunner.selectImplementations_half selected)
  exact (ModelRunner.runModelInPlace_realises exact silu tpSize model runtime input caches).returns_iff out

end Forward

section Reference

variable [Mul R] [Add R]

def FlashInferNorm.reference : FlashInferNorm R where
  rmsnorm norm x := do
    let input ← TensorStorage.get x
    alloc { input with value := norm.forward input.value }
  fusedAddRmsnorm norm x residual := do
    let input ← TensorStorage.get x
    let added ← TensorStorage.get residual
    let sum ← ofExcept (ofTensor (input.value.add added.value))
    store residual { added with value := sum }
    store x { input with value := norm.forward sum }

theorem FlashInferNorm.reference_documented : RMSNorm.Documented (reference : FlashInferNorm R) := by
  constructor
  case rmsnorm =>
    intro norm dtype s x v _ held
    exact bind_ok (TensorStorage.get_ok held)
  case fusedAddRmsnorm =>
    intro norm dtype s x residual v w sum _ _ held held' added
    change (TensorStorage.get x >>= _) s = _
    rw [bind_ok (TensorStorage.get_ok held), bind_ok (TensorStorage.get_ok held'), added]
    rfl
  case mismatched =>
    intro norm dtype s x residual v w held held' added
    refine ⟨.runtimeError "the shapes of the tensors do not match", s, ?_⟩
    change (TensorStorage.get x >>= _) s = _
    rw [bind_ok (TensorStorage.get_ok held), bind_ok (TensorStorage.get_ok held'), added]
    rfl

end Reference

-- The blocks are too small for FlashAttention, and the operators have different providers.
theorem in_place_runs_mixed :
    let machine : Machine := { cudaAvailable := true, flashAttnPresent := false, flashInferPresent := true }
    let options : RunnerOptions :=
      { hfConfig := ⟨4, 2, 2, 1, 2, 2, some 2, false, false, "silu", some 1000000, none⟩
        dtype := .bfloat16
        tensorParallelSize := 2
        kvcacheBlockSize := 2
        operatorOverrides := Dict.empty.insert "rms_norm" "native" }
    let providers : RMSNorm.Providers := ⟨.nativeTorch, .flashInfer⟩
    ModelRunner.selectImplementations machine options = .ok (.flashInfer .unified, providers) ∧
      ∃ (d : Deployment Int (tinyConfig 2)) (input : ModelRunner.ModelInput) (caches caches' : List (LayerCaches Int))
        (logits : Tensor Int) (t : List (TensorStorage Int)),
        ModelRunner.runModelInPlace (providers.impl (fun _ x => x) .reference) d.silu d.tpSize d.model options.dtype
          d.runtime input caches [] = .ok (some logits, caches') t := by
  intro machine options providers
  have selected : ModelRunner.selectImplementations machine options = .ok (.flashInfer .unified, providers) := by
    decide +kernel
  refine ⟨selected, ?_⟩
  obtain ⟨d, host, output, picks, -, hosted, next⟩ := tiny_hosted 2 1 (fun _ e =>
    wp Scheduler.schedule (fun batch t => batch = [1, 0]) (fun _ _ => False) e.scheduler) (by rintro _ ⟨⟩; decide +kernel)
  obtain ⟨caches, ids, -, past, -⟩ := (hosted.session picks).1.held
  obtain ⟨_, t, scheduled, rfl⟩ := wp_total next
  obtain ⟨input, caches', rows, logits, forwarded, -⟩ := past.holding.step scheduled
  obtain ⟨heap, run⟩ :=
    (in_place_runs selected (fun _ _ => rfl) FlashInferNorm.reference_documented d.silu d.tpSize d.model d.runtime input
    (heldCaches caches) []).mpr forwarded.forward
  exact ⟨d, input, _, _, logits, heap, run⟩

end NanoVllm
