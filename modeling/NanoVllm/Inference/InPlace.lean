import NanoVllm.Model.LayerNorm

set_option autoImplicit false

namespace NanoVllm

open Python Raising Torch Storage

def Lossless {R : Type} (round : FloatDtype → R → R) : Prop := ∀ dtype x, round dtype x = x

variable {R α β : Type} {round : FloatDtype → R → R} {s : List (TensorStorage R)} {x residual : Ref}
  {a b : TensorStorage R} {dtype : FloatDtype}

namespace TensorStorage

variable {ε : Type} {f : Unit → OnStorages R α} {g : Ref → OnStorages R α} {y : Except ε β}
  {rel : α → β → List (TensorStorage R) → Prop}

theorem get_bind {k : TensorStorage R → OnStorages R α} (held : StoredAt s x a) (next : Realises (k a) y rel s) :
    Realises (get x >>= k) y rel s := Realises.load_bind held next

theorem toDtype_bind (lossless : Lossless round) (held : StoredAt s x a) (other : a.dtype ≠ dtype)
    (next : Realises (g s.length) y rel (s ++ [{ a with dtype }])) : Realises (toDtype round x dtype >>= g) y rel s := by
  have same : a.value.map (round dtype) = a.value := by simp only [Tensor.map, lossless dtype _]
  rw [toDtype, bind_assoc]
  refine get_bind held ?_
  rw [if_neg other, same]
  exact Realises.alloc_bind next

theorem clone_bind (held : StoredAt s x a) (next : Realises (g s.length) y rel (s ++ [a])) :
    Realises (clone x >>= g) y rel s := by
  rw [clone, bind_assoc]
  exact get_bind held (Realises.alloc_bind next)

theorem mulInto_bind (held : StoredAt s x a) {scaled : (n : Nat) → (Fin n → R) → Fin n → R}
    (next : Realises (f ()) y rel (s.set x { a with value := a.value.mapRows scaled })) :
    Realises (mulInto x scaled >>= f) y rel s := by
  rw [mulInto, bind_assoc]
  exact get_bind held (Realises.store_bind next)

theorem addInto_bind [Add R] (held : StoredAt s x a) (held' : StoredAt s residual b) {k : Tensor R → Except PyError β}
    (next : ∀ sum, Realises (f ()) (k sum) rel (s.set x { a with value := sum })) :
    Realises (addInto x residual >>= f) (ofTensor (a.value.add b.value) >>= k) rel s := by
  simp only [addInto, bind_assoc]
  refine get_bind held (get_bind held' ?_)
  refine Realises.bind (Realises.value (ofTensor (a.value.add b.value))) (fun sum sum' t => ?_)
  rintro ⟨rfl, rfl⟩
  exact Realises.store_bind (next sum)

end TensorStorage

namespace RMSNorm

variable [Mul R] {v w : Tensor R}

theorem forward_eq (norm : RMSNorm R) (v : Tensor R) : norm.forward v = (v.mapRows norm.normalize).mapRows norm.weigh :=
  (Tensor.mapRows_mapRows norm.normalize norm.weigh).symm

theorem ofTensor_forwardInplace [Add R] (norm : RMSNorm R) (v w : Tensor R) :
    ofTensor (norm.forwardInplace v w) = ofTensor (v.add w) >>= fun sum => pure (norm.forward sum, sum) := by
  unfold forwardInplace
  cases v.add w <;> rfl

/-- An implementation that does on tensors of the dtype what the operators do on values. Only the fast path may take the
storages of its arguments. -/
structure Impl.Exact [Add R] (impl : Impl R) (dtype : FloatDtype) : Prop where
  rms : ∀ (norm : RMSNorm R) {s : List (TensorStorage R)} {x : Ref} {v : Tensor R}, StoredAt s x ⟨dtype, v⟩ →
    Realises (impl.rms norm x) (pure (norm.forward v) : Except PyError (Tensor R))
      (fun r v' t => Allocated s t r ⟨dtype, v'⟩) s
  addRms : ∀ (norm : RMSNorm R) {s : List (TensorStorage R)} {x residual : Ref} {v w : Tensor R}, StoredAt s x
    ⟨dtype, v⟩ →
    StoredAt s residual ⟨dtype, w⟩ → Realises (impl.addRms norm x residual) (ofTensor (norm.forwardInplace v w))
      (fun r v' t => Allocated s t r.1 ⟨dtype, v'.1⟩ ∧ Allocated s t r.2 ⟨dtype, v'.2⟩ ∧ r.1 ≠ r.2) s
  addRmsInplace : ∀ (norm : RMSNorm R) {s : List (TensorStorage R)} {x residual : Ref} {v w : Tensor R}, x ≠ residual →
    StoredAt s x ⟨dtype, v⟩ → StoredAt s residual ⟨dtype, w⟩ →
    Realises (impl.addRmsInplace norm x residual) (ofTensor (norm.forwardInplace v w))
      (fun r v' t => StoredAt t r.1 ⟨dtype, v'.1⟩ ∧ StoredAt t r.2 ⟨dtype, v'.2⟩ ∧ r.1 ≠ r.2) s

section Native

theorem nativeRms_exact (norm : RMSNorm R) (lossless : Lossless round) (other : dtype ≠ .float32)
    (held : StoredAt s x ⟨dtype, v⟩) :
    Realises (norm.nativeRms round x) (pure (norm.forward v) : Except PyError (Tensor R))
      (fun r v' t => Allocated s t r ⟨dtype, v'⟩) s := by
  unfold nativeRms
  refine TensorStorage.get_bind held (TensorStorage.toDtype_bind lossless held other ?_)
  have x' := allocated_alloc s (⟨.float32, v⟩ : TensorStorage R)
  refine TensorStorage.mulInto_bind x'.holds ?_
  have scaled := x'.set ⟨.float32, v.mapRows norm.normalize⟩
  refine TensorStorage.toDtype_bind lossless scaled.holds other.symm ?_
  have back := (allocated_alloc _ (⟨dtype, v.mapRows norm.normalize⟩ : TensorStorage R)).after scaled.kept
  refine TensorStorage.mulInto_bind back.holds (Realises.returns ?_)
  rw [forward_eq]
  exact back.set _

theorem nativeAddRms_exact [Add R] (norm : RMSNorm R) (lossless : Lossless round) (other : dtype ≠ .float32)
    (held : StoredAt s x ⟨dtype, v⟩)
    (held' : StoredAt s residual ⟨dtype, w⟩) :
    Realises (norm.nativeAddRms round x residual) (ofTensor (norm.forwardInplace v w))
      (fun r v' t => Allocated s t r.1 ⟨dtype, v'.1⟩ ∧ Allocated s t r.2 ⟨dtype, v'.2⟩ ∧ r.1 ≠ r.2) s := by
  unfold nativeAddRms
  rw [ofTensor_forwardInplace]
  refine TensorStorage.get_bind held (TensorStorage.toDtype_bind lossless held other ?_)
  have x' := allocated_alloc s (⟨.float32, v⟩ : TensorStorage R)
  refine TensorStorage.toDtype_bind lossless (held'.kept x'.kept) other ?_
  have residual' := (allocated_alloc (s ++ [⟨.float32, v⟩]) (⟨.float32, w⟩ : TensorStorage R)).after x'.kept
  have x' := x'.alloc (⟨.float32, w⟩ : TensorStorage R)
  refine TensorStorage.addInto_bind x'.holds residual'.holds (fun sum => ?_)
  have x' := x'.set ⟨.float32, sum⟩
  refine TensorStorage.toDtype_bind lossless x'.holds other.symm ?_
  have residual'' := (allocated_alloc _ (⟨dtype, sum⟩ : TensorStorage R)).after x'.kept
  have ne := x'.holds.ne_new
  have x' := x'.alloc (⟨dtype, sum⟩ : TensorStorage R)
  refine TensorStorage.mulInto_bind x'.holds ?_
  have residual'' := residual''.set_of_ne x' ne ⟨.float32, sum.mapRows norm.normalize⟩
  have x' := x'.set ⟨.float32, sum.mapRows norm.normalize⟩
  refine TensorStorage.toDtype_bind lossless x'.holds other.symm ?_
  have result := (allocated_alloc _ (⟨dtype, sum.mapRows norm.normalize⟩ : TensorStorage R)).after x'.kept
  have ne := residual''.holds.ne_new
  have residual'' := residual''.alloc (⟨dtype, sum.mapRows norm.normalize⟩ : TensorStorage R)
  refine TensorStorage.mulInto_bind result.holds (Realises.returns ?_)
  rw [forward_eq]
  exact ⟨result.set _, residual''.set_of_ne result ne.symm _, ne.symm⟩

theorem nativeAddRmsInplace_exact [Add R] (norm : RMSNorm R) (lossless : Lossless round) (other : dtype ≠ .float32)
    (held : StoredAt s x ⟨dtype, v⟩)
    (held' : StoredAt s residual ⟨dtype, w⟩) :
    Realises (norm.nativeAddRms round x residual) (ofTensor (norm.forwardInplace v w))
      (fun r v' t => StoredAt t r.1 ⟨dtype, v'.1⟩ ∧ StoredAt t r.2 ⟨dtype, v'.2⟩ ∧ r.1 ≠ r.2) s := by
  refine (norm.nativeAddRms_exact lossless other held held').mono (fun r v' t fresh => ?_)
  exact ⟨fresh.1.holds, fresh.2.1.holds, fresh.2.2⟩

end Native

/-- What FlashInfer documents of its kernels, for tensors of half precision. -/
structure Documented [Add R] (kernels : FlashInferNorm R) : Prop where
  rmsnorm : ∀ (norm : RMSNorm R) {dtype : FloatDtype} {s : List (TensorStorage R)} {x : Ref} {v : Tensor R},
    dtype.isHalf →
    StoredAt s x ⟨dtype, v⟩ → kernels.rmsnorm norm x s = .ok s.length (s ++ [⟨dtype, norm.forward v⟩])
  -- The residual gets the sum, and the input the norm of it.
  fusedAddRmsnorm : ∀ (norm : RMSNorm R) {dtype : FloatDtype} {s : List (TensorStorage R)} {x residual : Ref}
    {v w sum : Tensor R}, dtype.isHalf → x ≠ residual → StoredAt s x ⟨dtype, v⟩ → StoredAt s residual ⟨dtype, w⟩ →
    v.add w = some sum → kernels.fusedAddRmsnorm norm x residual s =
      .ok () ((s.set residual ⟨dtype, sum⟩).set x ⟨dtype, norm.forward sum⟩)
  mismatched : ∀ (norm : RMSNorm R) {dtype : FloatDtype} {s : List (TensorStorage R)} {x residual : Ref} {v w : Tensor R},
    StoredAt s x ⟨dtype, v⟩ → StoredAt s residual ⟨dtype, w⟩ → v.add w = none →
    ∃ e t, kernels.fusedAddRmsnorm norm x residual s = .error e t

section FlashInfer

variable [Add R] {kernels : FlashInferNorm R}

theorem Documented.rms_exact (documented : Documented kernels) (norm : RMSNorm R) (half : dtype.isHalf)
    (held : StoredAt s x ⟨dtype, v⟩) : Realises (kernels.rmsnorm norm x)
    (pure (norm.forward v) : Except PyError (Tensor R))
      (fun r v' t => Allocated s t r ⟨dtype, v'⟩) s := by
  unfold Realises wp
  rw [documented.rmsnorm norm half held]
  exact ⟨_, rfl, allocated_alloc s _⟩

theorem Documented.fused_exact (documented : Documented kernels) (norm : RMSNorm R) (half : dtype.isHalf)
    (other : x ≠ residual) (held : StoredAt s x ⟨dtype, v⟩) (held' : StoredAt s residual ⟨dtype, w⟩)
    {rel : Ref × Ref → Tensor R × Tensor R → List (TensorStorage R) → Prop}
    (next : ∀ sum, rel (x, residual) (norm.forward sum, sum)
      ((s.set residual ⟨dtype, sum⟩).set x ⟨dtype, norm.forward sum⟩)) :
    Realises (kernels.fusedAddRmsnorm norm x residual >>= fun _ => pure (x, residual))
      (ofTensor (norm.forwardInplace v w)) rel s := by
  unfold Realises wp forwardInplace
  cases sum : v.add w with
  | none =>
      obtain ⟨e, t, run⟩ := documented.mismatched norm held held' sum
      rw [bind_error run]
      exact ⟨_, rfl⟩
  | some sum' =>
      rw [bind_ok (documented.fusedAddRmsnorm norm half other held held' sum)]
      exact ⟨_, rfl, next sum'⟩

theorem flashInferAddRms_exact (documented : Documented kernels) (norm : RMSNorm R) (half : dtype.isHalf)
    (held : StoredAt s x ⟨dtype, v⟩) (held' : StoredAt s residual ⟨dtype, w⟩) :
    Realises (norm.flashInferAddRms kernels x residual) (ofTensor (norm.forwardInplace v w))
      (fun r v' t => Allocated s t r.1 ⟨dtype, v'.1⟩ ∧ Allocated s t r.2 ⟨dtype, v'.2⟩ ∧ r.1 ≠ r.2) s := by
  unfold flashInferAddRms
  have normalized := allocated_alloc s (⟨dtype, v⟩ : TensorStorage R)
  have newResidual := (allocated_alloc (s ++ [⟨dtype, v⟩]) (⟨dtype, w⟩ : TensorStorage R)).after normalized.kept
  have ne := normalized.holds.ne_new
  have normalized := normalized.alloc (⟨dtype, w⟩ : TensorStorage R)
  refine TensorStorage.clone_bind held (TensorStorage.clone_bind (held'.kept (List.prefix_append s _)) ?_)
  refine documented.fused_exact norm half ne normalized.holds newResidual.holds (fun sum => ?_)
  have normalized := normalized.set_of_ne newResidual ne.symm ⟨dtype, sum⟩
  have newResidual := newResidual.set ⟨dtype, sum⟩
  exact ⟨normalized.set _, newResidual.set_of_ne normalized ne _, ne⟩

theorem flashInferAddRmsInplace_exact (documented : Documented kernels) (norm : RMSNorm R) (half : dtype.isHalf)
    (other : x ≠ residual) (held : StoredAt s x ⟨dtype, v⟩) (held' : StoredAt s residual ⟨dtype, w⟩) :
    Realises (norm.flashInferAddRmsInplace kernels x residual) (ofTensor (norm.forwardInplace v w))
      (fun r v' t => StoredAt t r.1 ⟨dtype, v'.1⟩ ∧ StoredAt t r.2 ⟨dtype, v'.2⟩ ∧ r.1 ≠ r.2) s := by
  refine documented.fused_exact norm half other held held' (fun sum => ⟨?_, ?_, other⟩)
  · exact (held.set_of_ne other.symm _).set_self _
  · exact (held'.set_self _).set_of_ne other _

end FlashInfer

theorem Providers.impl_exact [Add R] (providers : Providers) (lossless : Lossless round) {kernels : FlashInferNorm R}
    (documented : Documented kernels)
    (half : dtype.isHalf) : (providers.impl round kernels).Exact dtype := by
  have other : dtype ≠ .float32 := by
    rintro rfl
    exact absurd half (by decide)
  constructor
  case rms =>
    intro norm s x v held
    unfold Providers.impl
    cases providers.rms with
    | nativeTorch => exact norm.nativeRms_exact lossless other held
    | flashInfer => exact documented.rms_exact norm half held
  case addRms =>
    intro norm s x residual v w held held'
    unfold Providers.impl
    cases providers.addRms with
    | nativeTorch => exact norm.nativeAddRms_exact lossless other held held'
    | flashInfer => exact flashInferAddRms_exact documented norm half held held'
  case addRmsInplace =>
    intro norm s x residual v w ne held held'
    unfold Providers.impl
    cases providers.addRms with
    | nativeTorch => exact norm.nativeAddRmsInplace_exact lossless other held held'
    | flashInfer => exact flashInferAddRmsInplace_exact documented norm half ne held held'

end RMSNorm

section Forward

/-- The hidden states and the residual between two layers, each in a storage of its own. -/
structure Streams (dtype : FloatDtype) (s : List (TensorStorage R)) (hidden : Ref) (residual : Option Ref) (v : Tensor R)
    (w : Option (Tensor R)) : Prop where
  held : StoredAt s hidden ⟨dtype, v⟩
  apart : Option.Rel (fun r v' => hidden ≠ r ∧ StoredAt s r ⟨dtype, v'⟩) residual w

theorem Streams.both {r : Ref} {v w : Tensor R} (held : StoredAt s x ⟨dtype, v⟩) (held' : StoredAt s r ⟨dtype, w⟩)
    (ne : x ≠ r) : Streams dtype s x (some r) v (some w) :=
  ⟨held, Option.Rel.some ⟨ne, held'⟩⟩

theorem Streams.next {r : Ref} {w output : Tensor R} (held : StoredAt s r ⟨dtype, w⟩) :
    Streams dtype (s ++ [⟨dtype, output⟩]) s.length (some r) output (some w) :=
  .both (storedAt_new s _) (held.kept (List.prefix_append s _)) held.ne_new.symm

variable [Ring R] {width : Nat} {runtime : AttentionRuntime R width} {impl : RMSNorm.Impl R} (exact : impl.Exact dtype)
  (silu : R → R) (tpSize : Nat) {hidden : Ref} {before : Option Ref} {v : Tensor R} {w : Option (Tensor R)}
include exact

namespace Qwen3DecoderLayer

theorem enterInPlace_realises (layer : Qwen3DecoderLayer R) (streams : Streams dtype s hidden before v w) :
    Realises (layer.enterInPlace impl hidden before) (layer.enter v w)
      (fun r v' t => StoredAt t r.1 ⟨dtype, v'.1⟩ ∧ StoredAt t r.2 ⟨dtype, v'.2⟩ ∧ r.1 ≠ r.2) s := by
  obtain ⟨held, rel⟩ := streams
  cases rel with
  | none =>
      have enter : layer.enter v none = (pure (layer.inputLayernorm.forward v) >>= fun v' => pure (v', v)) := rfl
      rw [enter]
      refine Realises.bind (exact.rms layer.inputLayernorm held) (fun r v' t fresh => Realises.returns ?_)
      -- The residual is the storage that the norm read.
      exact ⟨fresh.holds, held.kept fresh.kept, (fresh.ne held).symm⟩
  | some both => exact exact.addRmsInplace layer.inputLayernorm both.1 held both.2

theorem forwardInPlace_realises (layer : Qwen3DecoderLayer R) (context : AttentionContext runtime) (positions : List Nat)
    (caches : LayerCaches R) (streams : Streams dtype s hidden before v w) :
    Realises (layer.forwardInPlace impl silu tpSize context positions hidden before caches)
      (layer.forward silu tpSize context positions v w caches)
      (fun out out' t => Streams dtype t out.1 (some out.2.1) out'.1 (some out'.2.1) ∧ out.2.2 = out'.2.2) s := by
  unfold forwardInPlace forward
  refine Realises.bind (enterInPlace_realises exact layer streams) ?_
  rintro ⟨hidden, residual⟩ ⟨v, w⟩ t ⟨held, held', ne⟩
  refine TensorStorage.get_bind held ?_
  refine Realises.bind (Realises.value _) ?_
  rintro ⟨output, caches⟩ _ t ⟨rfl, rfl⟩
  have held := storedAt_new t (⟨dtype, output⟩ : TensorStorage R)
  have ne := held'.ne_new.symm
  have held' := held'.kept (List.prefix_append t [⟨dtype, output⟩])
  refine Realises.alloc_bind (Realises.bind (exact.addRmsInplace layer.postAttentionLayernorm ne held held') ?_)
  rintro ⟨hidden, residual⟩ ⟨v, w⟩ t ⟨held, held', ne⟩
  refine TensorStorage.get_bind held ?_
  refine Realises.bind (Realises.value _) ?_
  rintro output _ _ ⟨rfl, rfl⟩
  exact Realises.alloc_bind (Realises.returns ⟨.next held', rfl⟩)

end Qwen3DecoderLayer

namespace Qwen3Model

theorem forwardLayersInPlace_realises (context : AttentionContext runtime) (positions : List Nat)
    (layers : List (Qwen3DecoderLayer R × LayerCaches R)) (streams : Streams dtype s hidden before v w) :
    Realises (forwardLayersInPlace impl silu tpSize context positions layers hidden before)
      (forwardLayers silu tpSize context positions layers v w)
      (fun out out' t => Streams dtype t out.1 out.2.1 out'.1 out'.2.1 ∧ out.2.2 = out'.2.2) s := by
  induction layers generalizing s hidden before v w with
  | nil => exact Realises.returns ⟨streams, rfl⟩
  | cons entry layers ih =>
      obtain ⟨layer, caches⟩ := entry
      unfold forwardLayersInPlace forwardLayers
      refine Realises.bind (layer.forwardInPlace_realises exact silu tpSize context positions caches streams) ?_
      rintro ⟨hidden, residual, caches⟩ ⟨v, w, _⟩ t ⟨streams, rfl⟩
      refine Realises.bind (ih streams) ?_
      rintro ⟨hidden, residual, later⟩ ⟨v, w, _⟩ t ⟨streams, rfl⟩
      exact Realises.returns ⟨streams, rfl⟩

theorem forwardInPlace_realises (model : Qwen3Model R) (context : AttentionContext runtime) (inputIds : List Token)
    (positions : List Nat) (caches : List (LayerCaches R)) :
    Realises (model.forwardInPlace impl silu tpSize dtype context inputIds positions caches)
      (model.forward silu tpSize context inputIds positions caches)
      (fun out out' t => StoredAt t out.1 ⟨dtype, out'.1⟩ ∧ out.2 = out'.2) s := by
  unfold forwardInPlace forward
  refine Realises.bind (Realises.value _) ?_
  rintro embedded _ s ⟨rfl, rfl⟩
  refine Realises.alloc_bind ?_
  have start : Streams dtype (s ++ [⟨dtype, embedded⟩]) s.length none embedded none := ⟨storedAt_new s _, Option.Rel.none⟩
  refine Realises.bind (forwardLayersInPlace_realises exact silu tpSize context positions _ start) ?_
  rintro ⟨hidden, residual, caches⟩ ⟨v, w, _⟩ t ⟨⟨held, rel⟩, rfl⟩
  cases rel with
  | none => exact ⟨_, rfl⟩
  | some both =>
      refine Realises.bind (exact.addRmsInplace model.norm both.1 held both.2) ?_
      rintro ⟨hidden, _⟩ ⟨v, _⟩ t ⟨held, -, -⟩
      exact Realises.returns ⟨held, rfl⟩

end Qwen3Model

theorem ModelRunner.runModelInPlace_realises (model : Qwen3ForCausalLM R) (runtime : AttentionRuntime R width)
    (input : ModelRunner.ModelInput) (caches : List (LayerCaches R)) :
    Realises (runModelInPlace impl silu tpSize model dtype runtime input caches)
      (runModel silu tpSize model runtime input caches) (fun out out' _ => out = out') s := by
  unfold runModelInPlace runModel
  refine Realises.bind (Realises.value _) ?_
  rintro plan _ _ ⟨rfl, rfl⟩
  refine Realises.bind (model.model.forwardInPlace_realises exact silu tpSize _ input.inputIds input.positions caches) ?_
  rintro ⟨hidden, caches⟩ ⟨v, _⟩ t ⟨held, rfl⟩
  refine TensorStorage.get_bind held ?_
  refine Realises.bind (Realises.value _) ?_
  rintro logits _ _ ⟨rfl, rfl⟩
  exact Realises.returns rfl

end Forward

end NanoVllm
