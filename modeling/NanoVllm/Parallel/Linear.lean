import NanoVllm.Model.Linear

set_option autoImplicit false

namespace NanoVllm

open Torch Finset

variable {R : Type} {tpSize size rank rows cols : Nat}

theorem divide_mul (positive : 0 < tpSize) (size : Nat) : divide (tpSize * size) tpSize = some size := by
  simp [divide, positive.ne', Nat.mul_div_cancel_left _ positive]

def Covers (window : Nat × Nat) (row : Nat) : Prop := window.1 ≤ row ∧ row < window.1 + window.2

instance (window : Nat × Nat) (row : Nat) : Decidable (Covers window row) := inferInstanceAs (Decidable (_ ∧ _))

namespace RowParallelLinear

theorem init_eq (positive : 0 < tpSize) (memory : Nat → Nat → R) (outputSize : Nat) :
    init rank tpSize memory (tpSize * size) outputSize false =
      some ⟨rank, tpSize, ⟨outputSize, size, memory⟩, none⟩ := by
  rw [init, divide_mul positive]
  rfl

theorem load_eq (below : rank < tpSize) {loadedWeight : Tensor R} (shape : loadedWeight.HasShape rows (tpSize * size))
    (memory : Nat → Nat → R) (bias : Option (Tensor R)) :
    load ⟨rank, tpSize, ⟨rows, size, memory⟩, bias⟩ loadedWeight =
      some ⟨rank, tpSize, loadedWeight.colBlock size rank, bias⟩ := by
  obtain ⟨rfl, cols⟩ := shape
  simp only [load, weightLoader, Tensor.narrowCols_block cols below, Option.bind_eq_bind, Option.bind_some,
    Tensor.copy, Tensor.colBlock, and_self, if_true]
  rfl

theorem product_eq [NonUnitalNonAssocSemiring R] (rank tpSize : Nat) (weight x : Tensor R) :
    product ⟨rank, tpSize, weight, none⟩ x = x.linear weight none := by
  rw [product, ite_self]

theorem reduce_blocks [NonUnitalNonAssocSemiring R] (positive : 0 < tpSize) {x weight : Tensor R}
    (shape : x.cols = tpSize * size) (shape' : weight.cols = tpSize * size) {part : Nat → Tensor R}
    (parts : ∀ r < tpSize, (part r).Same (x.colBlock size r)) {y : Nat → Option (Tensor R)}
    (each : ∀ r < tpSize, y r = (part r).linear (weight.colBlock size r) none) :
    ∃ out out', reduceRanks tpSize y = some out ∧ x.linear weight none = some out' ∧ out.Same out' := by
  have products : ∀ r < tpSize, y r = some ⟨(part r).rows, weight.rows,
      fun i j => ∑ k ∈ range (part r).cols, (part r).entry i k * (weight.colBlock size r).entry j k⟩ :=
    fun r below => (each r below).trans (Tensor.linear_eq (parts r below).cols)
  have shapes : ∀ r < tpSize, Tensor.HasShape
      ⟨(part r).rows, weight.rows, fun i j =>
        ∑ k ∈ range (part r).cols, (part r).entry i k * (weight.colBlock size r).entry j k⟩ x.rows weight.rows :=
    fun r below => ⟨(parts r below).rows, rfl⟩
  refine ⟨_, _, reduceRanks_eq positive products shapes, Tensor.linear_eq (shape.trans shape'.symm), rfl, rfl, ?_⟩
  intro i row j _
  have rank (r : Nat) (below : r < tpSize) :
      ∑ k ∈ range (part r).cols, (part r).entry i k * (weight.colBlock size r).entry j k =
        ∑ k ∈ range size, (x.colBlock size r).entry i k * (weight.colBlock size r).entry j k := by
    have same := parts r below
    have width : (part r).cols = size := same.cols
    rw [width]
    refine sum_congr rfl (fun k inside => ?_)
    rw [same.entry i (by rwa [same.rows]) k (by rwa [width, ← mem_range])]
  dsimp only
  rw [shape, ← Tensor.sum_linear_blocks]
  exact sum_congr rfl (fun r listed => rank r (mem_range.mp listed))

end RowParallelLinear

end NanoVllm
