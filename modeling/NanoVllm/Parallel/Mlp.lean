import NanoVllm.Model.Qwen3
import NanoVllm.Parallel.Linear

set_option autoImplicit false

namespace NanoVllm

open Torch Finset

variable {R : Type} {tpSize size rank hidden : Nat}

theorem siluAndMul_eq [Mul R] {silu : R → R} {cols : Nat} (whole : cols = 2 * size) (rows : Nat) (entry : Nat → Nat → R) :
    siluAndMul silu ⟨rows, cols, entry⟩ =
      some ⟨rows, size, fun t c => silu (entry t (0 * size + c)) * entry t (1 * size + c)⟩ := by
  have half {index : Nat} (below : index < 2) :=
    Tensor.chunkCols_block (x := ⟨rows, cols, entry⟩) whole below
  simp only [siluAndMul, half Nat.zero_lt_two, half Nat.one_lt_two, Option.bind_eq_bind, Option.bind_some,
    Tensor.mul, Tensor.map, Tensor.colBlock, and_self, if_true]

namespace MergedColumnParallelLinear

-- The layer on one rank whose shards have `sizes` rows there.
def onRank (rank tpSize : Nat) (sizes : List Nat) (hidden : Nat) (memory : Nat → Nat → R) :
    MergedColumnParallelLinear R :=
  { tpRank := rank
    tpSize
    weight := ⟨sizes.sum, hidden, memory⟩
    bias := none
    outputSizes := sizes.map (tpSize * ·) }

theorem sum_shards (tpSize : Nat) (sizes : List Nat) : (sizes.map (tpSize * ·)).sum = tpSize * sizes.sum := by
  simpa using List.sum_map_mul_left sizes id tpSize

theorem shard_within {sizes : List Nat} {id : Nat} (shard : sizes[id]? = some size) :
    (sizes.take id).sum + size ≤ sizes.sum := by
  obtain ⟨inside, rfl⟩ := List.getElem?_eq_some_iff.mp shard
  have split := List.sum_take_add_sum_drop sizes id
  rw [List.drop_eq_getElem_cons inside, List.sum_cons] at split
  omega

theorem init_eq (positive : 0 < tpSize) (memory : Nat → Nat → R) (sizes : List Nat) :
    init rank tpSize memory hidden (sizes.map (tpSize * ·)) false = some (onRank rank tpSize sizes hidden memory) := by
  rw [init, ColumnParallelLinear.init, sum_shards, divide_mul positive]
  rfl

theorem window_eq (positive : 0 < tpSize) (memory : Nat → Nat → R) {sizes : List Nat} {id : Nat}
    (shard : sizes[id]? = some size) :
    (onRank rank tpSize sizes hidden memory).window id = some ((sizes.take id).sum, size) := by
  have offset : ((sizes.map (tpSize * ·)).take id).sum = tpSize * (sizes.take id).sum := by
    rw [← List.map_take]
    exact sum_shards tpSize _
  simp only [window, onRank, List.getElem?_map, shard, Option.map_some, Option.bind_eq_bind, Option.bind_some,
    offset, Nat.mul_div_cancel_left _ positive]
  rfl

theorem load_eq (positive : 0 < tpSize) (below : rank < tpSize) (memory : Nat → Nat → R) {sizes : List Nat} {id : Nat}
    (shard : sizes[id]? = some size) {loadedWeight : Tensor R} (shape : loadedWeight.HasShape (tpSize * size) hidden) :
    (onRank rank tpSize sizes hidden memory).load (id, loadedWeight) =
      some (onRank rank tpSize sizes hidden (fun i j =>
        if Covers ((sizes.take id).sum, size) i then loadedWeight.entry (rank * size + (i - (sizes.take id).sum)) j
        else memory i j)) := by
  obtain ⟨rows, rfl⟩ := shape
  have within := shard_within shard
  rw [load, weightLoader, window_eq positive memory shard]
  simp only [onRank, Option.bind_eq_bind, Option.bind_some, Tensor.chunkRows_block rows below]
  rw [Tensor.copyRows_eq (x := ⟨sizes.sum, loadedWeight.cols, memory⟩) (y := loadedWeight.rowBlock size rank) within
    ⟨rfl, rfl⟩]
  rfl

theorem forward_eq [NonUnitalNonAssocSemiring R] (x : Tensor R) (entry : Nat → Nat → R) (sizes : List Nat) :
    ColumnParallelLinear.forward (onRank rank tpSize sizes x.cols entry).toLinearBase x =
      some ⟨x.rows, sizes.sum, fun t c => ∑ k ∈ range x.cols, x.entry t k * entry c k⟩ := Tensor.linear_eq rfl

end MergedColumnParallelLinear

namespace Qwen3MLP

open MergedColumnParallelLinear

variable {gate up down x : Tensor R}

-- The MLP of one rank, whose merged parameter holds `entry`.
def onRank (rank tpSize size : Nat) (hidden : Nat) (entry : Nat → Nat → R) (down : Tensor R) : Qwen3MLP R :=
  { gateUpProj := MergedColumnParallelLinear.onRank rank tpSize [size, size] hidden entry
    downProj := ⟨rank, tpSize, down, none⟩ }

-- The rows of the merged parameter of a rank: its block of `gate`, then its block of `up`.
def merged (gate up : Tensor R) (size rank : Nat) (memory : Nat → Nat → R) (i j : Nat) : R :=
  if i < size then gate.entry (rank * size + i) j
  else if i < size + size then up.entry (rank * size + (i - size)) j
  else memory i j

theorem init_eq (positive : 0 < tpSize) (memory : Nat → Nat → R) :
    init rank tpSize memory hidden (tpSize * size) =
      some (onRank rank tpSize size hidden memory ⟨hidden, size, memory⟩) := by
  have shards : List.replicate 2 (tpSize * size) = [size, size].map (tpSize * ·) := rfl
  rw [init, shards, MergedColumnParallelLinear.init_eq positive, RowParallelLinear.init_eq positive]
  rfl

theorem load_eq (positive : 0 < tpSize) (below : rank < tpSize) (memory memory' : Nat → Nat → R)
    (gateShape : gate.HasShape (tpSize * size) hidden) (upShape : up.HasShape (tpSize * size) hidden)
    (downShape : down.HasShape hidden (tpSize * size)) {shards : List (Nat × Tensor R)}
    (order : shards = [(0, gate), (1, up)] ∨ shards = [(1, up), (0, gate)]) :
    (onRank rank tpSize size hidden memory ⟨hidden, size, memory'⟩).load shards down =
      some (onRank rank tpSize size hidden (merged gate up size rank memory) (down.colBlock size rank)) := by
  have first (m : Nat → Nat → R) := MergedColumnParallelLinear.load_eq positive below m
    (show [size, size][0]? = some size from rfl) gateShape
  have second (m : Nat → Nat → R) := MergedColumnParallelLinear.load_eq positive below m
    (show [size, size][1]? = some size from rfl) upShape
  rcases order with rfl | rfl
  all_goals
    simp only [load, onRank, List.foldlM_cons, List.foldlM_nil, first, second, Option.bind_eq_bind, Option.bind_some,
      RowParallelLinear.load_eq below downShape]
    refine congrArg (fun entry => some (onRank rank tpSize size hidden entry (down.colBlock size rank)))
      (funext₂ (fun i j => ?_))
    simp only [Covers, merged, List.take_zero, List.sum_nil, List.take_succ_cons, List.sum_cons, Nat.add_zero,
      Nat.zero_add, Nat.zero_le, true_and, Nat.sub_zero]
    by_cases inGate : i < size
    · simp [inGate, Nat.not_le.mpr inGate]
    · simp [inGate, Nat.not_lt.mp inGate]

theorem window_iff (positive : 0 < tpSize) (entry : Nat → Nat → R) (down : Tensor R) (id : Nat) (window : Nat × Nat) :
    (onRank rank tpSize size hidden entry down).gateUpProj.window id = some window ↔
      id < 2 ∧ window = (id * size, size) := by
  have known (shard : [size, size][id]? = some size) :=
    @MergedColumnParallelLinear.window_eq _ _ _ rank hidden positive entry _ _ shard
  match id with
  | 0 => simp [onRank, known rfl, eq_comm]
  | 1 => simp [onRank, known rfl, eq_comm]
  | id + 2 => simp [onRank, MergedColumnParallelLinear.onRank, MergedColumnParallelLinear.window]

theorem window_once (positive : 0 < tpSize) (entry : Nat → Nat → R) (down : Tensor R) {i : Nat}
    (row : i < (onRank rank tpSize size hidden entry down).gateUpProj.weight.rows) :
    ∃! id, ∃ window, (onRank rank tpSize size hidden entry down).gateUpProj.window id = some window ∧
      Covers window i := by
  have row : i < size + size := by simpa [onRank, MergedColumnParallelLinear.onRank] using row
  have places (id : Nat) : (∃ window, (onRank rank tpSize size hidden entry down).gateUpProj.window id = some window ∧
      Covers window i) ↔ id < 2 ∧ id * size ≤ i ∧ i < id * size + size := by
    simp only [window_iff positive, Covers]
    constructor
    · rintro ⟨_, ⟨below, rfl⟩, inside⟩
      exact ⟨below, inside⟩
    · rintro ⟨below, inside⟩
      exact ⟨_, ⟨below, rfl⟩, inside⟩
  simp only [places]
  refine ⟨if i < size then 0 else 1, ?_, fun id ⟨below, first, last⟩ => ?_⟩
  · split <;> omega
  · match id with
    | 0 => rw [if_pos (by omega)]
    | 1 => rw [if_neg (by omega)]

theorem merged_same {gate up : Tensor R} (cols : gate.cols = hidden) (memory : Nat → Nat → R) {down : Tensor R} :
    (onRank rank tpSize size hidden (merged gate up size rank memory) down).gateUpProj.weight.Same
      ((gate.rowBlock size rank).stack (up.rowBlock size rank)) := by
  refine ⟨by simp [onRank, MergedColumnParallelLinear.onRank, Tensor.stack, Tensor.rowBlock], cols.symm, ?_⟩
  intro i row j _
  have row : i < size + size := by simpa [onRank, MergedColumnParallelLinear.onRank] using row
  simp only [onRank, MergedColumnParallelLinear.onRank, merged, row, if_true]
  rfl

section Product

variable [NonUnitalNonAssocSemiring R] {x : Tensor R} {silu : R → R}

-- The input of the down projection on one device.
def intermediate (silu : R → R) (gate up x : Tensor R) (inter : Nat) : Tensor R :=
  ⟨x.rows, inter, fun t c => silu (∑ k ∈ range x.cols, x.entry t k * gate.entry c k) *
    ∑ k ∈ range x.cols, x.entry t k * up.entry c k⟩

theorem unsharded_eq {inter : Nat} (gateShape : gate.HasShape inter x.cols) (upShape : up.HasShape inter x.cols) :
    unsharded silu gate up down x = (intermediate silu gate up x inter).linear down none := by
  obtain ⟨rows, cols⟩ := gateShape
  obtain ⟨rows', cols'⟩ := upShape
  simp only [unsharded, Tensor.linear_eq cols.symm, Tensor.linear_eq cols'.symm, Option.bind_eq_bind,
    Option.bind_some, Tensor.mul, Tensor.map, rows, rows', and_self, if_true]
  rfl

-- The same on a rank, which computes its columns only.
def localIntermediate (silu : R → R) (entry : Nat → Nat → R) (x : Tensor R) (size : Nat) : Tensor R :=
  ⟨x.rows, size, fun t c => silu (∑ k ∈ range x.cols, x.entry t k * entry (0 * size + c) k) *
    ∑ k ∈ range x.cols, x.entry t k * entry (1 * size + c) k⟩

theorem product_eq (entry : Nat → Nat → R) (down : Tensor R) :
    (onRank rank tpSize size x.cols entry down).product silu x =
      (localIntermediate silu entry x size).linear down none := by
  have halves : [size, size].sum = 2 * size := by simp [Nat.two_mul]
  simp only [product, onRank, forward_eq, Option.bind_eq_bind, Option.bind_some, siluAndMul_eq halves,
    RowParallelLinear.product_eq]
  rfl

theorem localIntermediate_same (memory : Nat → Nat → R) :
    (localIntermediate silu (merged gate up size rank memory) x size).Same
      ((intermediate silu gate up x (tpSize * size)).colBlock size rank) := by
  refine ⟨rfl, rfl, fun t _ c col => ?_⟩
  have inGate (k : Nat) : merged gate up size rank memory (0 * size + c) k = gate.entry (rank * size + c) k := by
    have col : c < size := col
    simp [merged, col]
  have inUp (k : Nat) : merged gate up size rank memory (1 * size + c) k = up.entry (rank * size + c) k := by
    have col : c < size := col
    simp [merged, col]
  simp only [localIntermediate, inGate, inUp]
  rfl

end Product

end Qwen3MLP

/-- The tensor-parallel MLP computes the MLP of one device. -/
theorem mlp_parallel [CommRing R] (silu : R → R) (positive : 0 < tpSize) {intermediateSize : Nat}
    (divides : tpSize ∣ intermediateSize) {gate up down x : Tensor R} (gateShape : gate.HasShape intermediateSize hidden)
    (upShape : up.HasShape intermediateSize hidden) (downShape : down.HasShape hidden intermediateSize)
    (inputs : x.cols = hidden) (memory : Nat → Nat → Nat → R) :
    ∃ created loaded : Nat → Qwen3MLP R,
      (∀ r < tpSize, Qwen3MLP.init r tpSize (memory r) hidden intermediateSize = some (created r) ∧
        (∀ i < (created r).gateUpProj.weight.rows, ∃! shard, ∃ window,
          (created r).gateUpProj.window shard = some window ∧ Covers window i) ∧
        (created r).load [(0, gate), (1, up)] down = some (loaded r) ∧
        (created r).load [(1, up), (0, gate)] down = some (loaded r) ∧
        (loaded r).gateUpProj.weight.Same
          ((gate.rowBlock (intermediateSize / tpSize) r).stack (up.rowBlock (intermediateSize / tpSize) r)) ∧
        (loaded r).downProj.weight.Same (down.colBlock (intermediateSize / tpSize) r)) ∧
      ∃ y y', Qwen3MLP.forward silu tpSize loaded x = some y ∧ Qwen3MLP.unsharded silu gate up down x = some y' ∧
        y.Same y' := by
  obtain ⟨size, rfl⟩ := divides
  obtain rfl := inputs
  rw [Nat.mul_div_cancel_left _ positive]
  refine ⟨_, _, fun r below => ⟨Qwen3MLP.init_eq positive (memory r), fun i row => Qwen3MLP.window_once positive _ _ row,
    Qwen3MLP.load_eq positive below _ _ gateShape upShape downShape (Or.inl rfl),
    Qwen3MLP.load_eq positive below _ _ gateShape upShape downShape (Or.inr rfl),
    Qwen3MLP.merged_same gateShape.2 (memory r), Tensor.Same.refl _⟩, ?_⟩
  rw [Qwen3MLP.unsharded_eq gateShape upShape]
  exact RowParallelLinear.reduce_blocks positive rfl downShape.2
    (fun r _ => Qwen3MLP.localIntermediate_same (memory r)) (fun r _ => Qwen3MLP.product_eq _ _)

theorem mlp_parallel_ranks :
    ∃ loaded : Nat → Qwen3MLP Int, ∃ y y',
      Qwen3MLP.forward (max 0) 2 loaded ⟨1, 2, fun _ k => k - 3⟩ = some y ∧
      Qwen3MLP.unsharded (R := Int) (max 0) ⟨4, 2, fun i j => i - 2 * j⟩ ⟨4, 2, fun i j => i + j⟩
        ⟨2, 4, fun i j => 3 * i + j⟩ ⟨1, 2, fun _ k => k - 3⟩ = some y' ∧ y.Same y' := by
  have gate : Tensor.HasShape (R := Int) ⟨4, 2, fun i j => i - 2 * j⟩ 4 2 := ⟨rfl, rfl⟩
  have up : Tensor.HasShape (R := Int) ⟨4, 2, fun i j => i + j⟩ 4 2 := ⟨rfl, rfl⟩
  have down : Tensor.HasShape (R := Int) ⟨2, 4, fun i j => 3 * i + j⟩ 2 4 := ⟨rfl, rfl⟩
  have input : (Tensor.mk 1 2 (fun _ k => (k : Int) - 3)).cols = 2 := rfl
  obtain ⟨-, loaded, -, same⟩ := mlp_parallel (max 0) (show 0 < 2 by decide) (show 2 ∣ 4 by decide) gate up down input
    (fun _ _ _ => 0)
  exact ⟨loaded, same⟩

end NanoVllm
