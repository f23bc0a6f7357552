import Mathlib.Algebra.BigOperators.Group.Finset.Basic
import Mathlib.Algebra.BigOperators.Ring.Finset
import Mathlib.Tactic.Ring
import NanoVllm.Shared.Python

set_option autoImplicit false

namespace Torch

open Python Finset

/-- A tensor with two dimensions. What `entry` gives outside the shape stands for nothing. -/
structure Tensor (R : Type) where
  rows : Nat
  cols : Nat
  entry : Nat → Nat → R

-- The start and the length of `chunk(count)[index]` along a dimension of the given size.
def chunkWindow (size count index : Nat) : Option (Nat × Nat) :=
  if count = 0 then none
  else if size = 0 then if index < count then some (0, 0) else none
  else
    let start := index * pagesFor count size
    if start < size then some (start, min (pagesFor count size) (size - start)) else none

def onRanks {α : Type} (worldSize : Nat) (x : Nat → Option α) : Option (List α) :=
  (List.range worldSize).mapM x

namespace Tensor

variable {R : Type}

def HasShape (x : Tensor R) (rows cols : Nat) : Prop := x.rows = rows ∧ x.cols = cols

structure Same (x y : Tensor R) : Prop where
  rows : x.rows = y.rows
  cols : x.cols = y.cols
  entry : ∀ i < x.rows, ∀ j < x.cols, x.entry i j = y.entry i j

-- `x.narrow(0, start, length)` and `x.narrow(1, start, length)`
def narrowRows (x : Tensor R) (start length : Nat) : Option (Tensor R) :=
  if start + length ≤ x.rows then some ⟨length, x.cols, fun i j => x.entry (start + i) j⟩ else none

def narrowCols (x : Tensor R) (start length : Nat) : Option (Tensor R) :=
  if start + length ≤ x.cols then some ⟨x.rows, length, fun i j => x.entry i (start + j)⟩ else none

def chunkRows (x : Tensor R) (count index : Nat) : Option (Tensor R) := do
  let window ← chunkWindow x.rows count index
  x.narrowRows window.1 window.2

def chunkCols (x : Tensor R) (count index : Nat) : Option (Tensor R) := do
  let window ← chunkWindow x.cols count index
  x.narrowCols window.1 window.2

-- `x.copy_(y)`, for tensors of one shape
def copy (x y : Tensor R) : Option (Tensor R) :=
  if x.rows = y.rows ∧ x.cols = y.cols then some { x with entry := y.entry } else none

-- `x.narrow(0, start, length).copy_(y)`, with what it leaves in `x`
def copyRows (x : Tensor R) (start length : Nat) (y : Tensor R) : Option (Tensor R) := do
  let view ← x.narrowRows start length
  let view ← view.copy y
  pure { x with
    entry := fun i j => if start ≤ i ∧ i < start + length then view.entry (i - start) j else x.entry i j }

def map (f : R → R) (x : Tensor R) : Tensor R := { x with entry := fun i j => f (x.entry i j) }

-- `x * y`, for tensors of one shape
def mul [Mul R] (x y : Tensor R) : Option (Tensor R) :=
  if x.rows = y.rows ∧ x.cols = y.cols then some { x with entry := fun i j => x.entry i j * y.entry i j } else none

-- `F.linear(x, weight, bias)`; a bias has one column.
def linear [NonUnitalNonAssocSemiring R] (x weight : Tensor R) (bias : Option (Tensor R)) : Option (Tensor R) :=
  if x.cols = weight.cols ∧ ∀ b ∈ bias, b.rows = weight.rows then
    some
      { rows := x.rows
        cols := weight.rows
        entry := fun i j =>
          (∑ k ∈ Finset.range x.cols, x.entry i k * weight.entry j k) + (bias.map (fun b => b.entry j 0)).getD 0 }
  else none

-- The tensor that `dist.all_reduce` leaves on each rank.
def allReduce [AddCommMonoid R] : List (Tensor R) → Option (Tensor R)
  | [] => none
  | y :: rest =>
      if ∀ z ∈ rest, z.rows = y.rows ∧ z.cols = y.cols then
        some { y with entry := fun i j => ((y :: rest).map (fun z => z.entry i j)).sum }
      else none

-- `torch.cat(xs, -1)`
def cat : List (Tensor R) → Option (Tensor R)
  | [] => none
  | [x] => some x
  | x :: next :: rest => do
      let y ← cat (next :: rest)
      if x.rows = y.rows then
        some ⟨x.rows, x.cols + y.cols, fun i j => if j < x.cols then x.entry i j else y.entry i (j - x.cols)⟩
      else none

-- `x[indices]`; negative indices count from the end.
def select (x : Tensor R) (indices : List Int) : Option (Tensor R) :=
  if ∀ i ∈ indices, -(x.rows : Int) ≤ i ∧ i < x.rows then
    some ⟨indices.length, x.cols, fun t c =>
      x.entry (if indices.getD t 0 < 0 then indices.getD t 0 + x.rows else indices.getD t 0).toNat c⟩
  else none

-- `F.embedding(indices, x)`
def embedding (indices : List Int) (x : Tensor R) : Option (Tensor R) :=
  if ∀ i ∈ indices, 0 ≤ i ∧ i < x.rows then
    some ⟨indices.length, x.cols, fun t c => x.entry (indices.getD t 0).toNat c⟩
  else none

end Tensor

def reduceRanks {R : Type} [AddCommMonoid R] (worldSize : Nat) (y : Nat → Option (Tensor R)) : Option (Tensor R) := do
  let ys ← onRanks worldSize y
  if worldSize > 1 then Tensor.allReduce ys else ys.head?

section Windows

variable {R : Type} {count size index : Nat}

theorem chunkWindow_blocks (below : index < count) :
    chunkWindow (count * size) count index = some (index * size, size) := by
  have some' : count ≠ 0 := by omega
  unfold chunkWindow
  rw [if_neg some']
  by_cases none : size = 0
  · simp [none, below]
  · have positive : count * size ≠ 0 := Nat.mul_ne_zero some' none
    have each : pagesFor count (count * size) = size := by
      rw [Nat.mul_comm]
      exact pagesFor_mul (Nat.pos_of_ne_zero some')
    have inside : (index + 1) * size ≤ count * size := Nat.mul_le_mul_right size below
    rw [Nat.succ_mul] at inside
    rw [if_neg positive, each, if_pos (by omega), Nat.min_eq_left (by omega)]

theorem sum_blocks [AddCommMonoid R] (f : Nat → R) (count size : Nat) :
    ∑ r ∈ range count, ∑ k ∈ range size, f (r * size + k) = ∑ k ∈ range (count * size), f k := by
  induction count with
  | zero => simp
  | succ count ih => rw [sum_range_succ, ih, Nat.succ_mul, sum_range_add]

theorem mapM_some {ι α : Type} {x : ι → Option α} {y : ι → α} {is : List ι} (each : ∀ i ∈ is, x i = some (y i)) :
    is.mapM x = some (is.map y) := by
  induction is with
  | nil => rfl
  | cons i rest ih =>
      have later := ih (fun j listed => each j (List.mem_cons_of_mem i listed))
      rw [List.mapM_cons, each i (List.mem_cons_self ..), later]
      rfl

theorem onRanks_eq {α : Type} {x : Nat → Option α} {y : Nat → α} (each : ∀ r < count, x r = some (y r)) :
    onRanks count x = some ((List.range count).map y) :=
  mapM_some (fun r listed => each r (List.mem_range.mp listed))

end Windows

namespace Tensor

variable {R : Type} {x y z : Tensor R} {rows cols start length count size index : Nat}

@[refl] theorem Same.refl (x : Tensor R) : x.Same x := ⟨rfl, rfl, fun _ _ _ _ => rfl⟩

theorem Same.symm (h : x.Same y) : y.Same x where
  rows := h.rows.symm
  cols := h.cols.symm
  entry i row j col := (h.entry i (h.rows ▸ row) j (h.cols ▸ col)).symm

theorem Same.trans (h : x.Same y) (h' : y.Same z) : x.Same z where
  rows := h.rows.trans h'.rows
  cols := h.cols.trans h'.cols
  entry i row j col := (h.entry i row j col).trans (h'.entry i (h.rows ▸ row) j (h.cols ▸ col))

theorem narrowRows_eq (within : start + length ≤ x.rows) :
    x.narrowRows start length = some ⟨length, x.cols, fun i j => x.entry (start + i) j⟩ := if_pos within

theorem narrowCols_eq (within : start + length ≤ x.cols) :
    x.narrowCols start length = some ⟨x.rows, length, fun i j => x.entry i (start + j)⟩ := if_pos within

-- The block of `size` rows at `index`.
def rowBlock (x : Tensor R) (size index : Nat) : Tensor R := ⟨size, x.cols, fun i j => x.entry (index * size + i) j⟩

def colBlock (x : Tensor R) (size index : Nat) : Tensor R := ⟨x.rows, size, fun i j => x.entry i (index * size + j)⟩

-- The rows of `x`, then those of `y`.
def stack (x y : Tensor R) : Tensor R :=
  ⟨x.rows + y.rows, x.cols, fun i j => if i < x.rows then x.entry i j else y.entry (i - x.rows) j⟩

theorem block_within (below : index < count) : index * size + size ≤ count * size := by
  rw [← Nat.succ_mul]
  exact Nat.mul_le_mul_right size below

theorem narrowRows_block (whole : x.rows = count * size) (below : index < count) :
    x.narrowRows (index * size) size = some (x.rowBlock size index) :=
  narrowRows_eq (by rw [whole]; exact block_within below)

theorem narrowCols_block (whole : x.cols = count * size) (below : index < count) :
    x.narrowCols (index * size) size = some (x.colBlock size index) :=
  narrowCols_eq (by rw [whole]; exact block_within below)

theorem chunkRows_block (whole : x.rows = count * size) (below : index < count) :
    x.chunkRows count index = some (x.rowBlock size index) := by
  rw [chunkRows, whole, chunkWindow_blocks below]
  exact narrowRows_block whole below

theorem chunkCols_block (whole : x.cols = count * size) (below : index < count) :
    x.chunkCols count index = some (x.colBlock size index) := by
  rw [chunkCols, whole, chunkWindow_blocks below]
  exact narrowCols_block whole below

theorem copyRows_eq (within : start + length ≤ x.rows) (shape : y.HasShape length x.cols) :
    x.copyRows start length y = some { x with
      entry := fun i j => if start ≤ i ∧ i < start + length then y.entry (i - start) j else x.entry i j } := by
  rw [copyRows, narrowRows_eq within]
  simp only [Option.bind_eq_bind, Option.bind_some, copy, shape.1, shape.2, and_self, if_true]
  rfl

section Linear

variable [NonUnitalNonAssocSemiring R] {weight weight' : Tensor R} {bias bias' : Option (Tensor R)}

theorem linear_eq (shape : x.cols = weight.cols) : x.linear weight none =
    some ⟨x.rows, weight.rows, fun i j => ∑ k ∈ range x.cols, x.entry i k * weight.entry j k⟩ := by
  simp [linear, shape]

theorem sum_linear_blocks (x weight : Tensor R) (count size i j : Nat) :
    ∑ r ∈ range count, ∑ k ∈ range size, (x.colBlock size r).entry i k * (weight.colBlock size r).entry j k =
      ∑ k ∈ range (count * size), x.entry i k * weight.entry j k :=
  sum_blocks (fun k => x.entry i k * weight.entry j k) count size

end Linear

theorem allReduce_eq [AddCommMonoid R] {ys : Nat → Tensor R} (some' : 0 < count)
    (shapes : ∀ r < count, (ys r).HasShape rows cols) :
    allReduce ((List.range count).map ys) =
      some ⟨rows, cols, fun i j => ∑ r ∈ range count, (ys r).entry i j⟩ := by
  obtain ⟨rest, rfl⟩ := Nat.exists_eq_succ_of_ne_zero some'.ne'
  have first := shapes 0 some'
  have split : (List.range (rest + 1)).map ys = ys 0 :: ((List.range rest).map Nat.succ).map ys := by
    rw [List.range_succ_eq_map, List.map_cons]
  rw [split, allReduce, if_pos, ← split, first.1, first.2]
  · refine congrArg some (congrArg (Tensor.mk rows cols) (funext₂ (fun i j => ?_)))
    rw [List.map_map]
    rfl
  · simp only [List.map_map, List.mem_map, List.mem_range, Function.comp_apply, forall_exists_index, and_imp]
    rintro z r below rfl
    have later := shapes (r + 1) (Nat.succ_lt_succ below)
    exact ⟨later.1.trans first.1.symm, later.2.trans first.2.symm⟩

theorem cat_eq {ys : Nat → Tensor R} (some' : 0 < count) (start : Nat)
    (shapes : ∀ r, start ≤ r → r < start + count → (ys r).HasShape rows size) :
    ∃ out, cat ((List.range' start count).map ys) = some out ∧ out.HasShape rows (count * size) ∧
      ∀ r < count, ∀ i, ∀ j < size, out.entry i (r * size + j) = (ys (start + r)).entry i j := by
  induction count generalizing start with
  | zero => exact absurd some' (Nat.lt_irrefl 0)
  | succ count ih =>
      have first := shapes start (Nat.le_refl _) (by omega)
      rw [List.range'_succ, List.map_cons]
      cases count with
      | zero =>
          refine ⟨ys start, rfl, ⟨first.1, by rw [first.2]; omega⟩, fun r below i j _ => ?_⟩
          obtain rfl : r = 0 := by omega
          rw [Nat.zero_mul, Nat.zero_add]
          rfl
      | succ count =>
          obtain ⟨rest, run, shape, entries⟩ := ih (Nat.succ_pos _) (start + 1)
            (fun r from' below => shapes r (by omega) (by omega))
          refine ⟨⟨(ys start).rows, (ys start).cols + rest.cols, fun i j =>
            if j < (ys start).cols then (ys start).entry i j else rest.entry i (j - (ys start).cols)⟩, ?_, ?_, ?_⟩
          · rw [List.range'_succ, List.map_cons] at run ⊢
            rw [cat, run, Option.bind_eq_bind, Option.bind_some, if_pos (first.1.trans shape.1.symm)]
          · exact ⟨first.1, by dsimp only; rw [first.2, shape.2]; ring⟩
          · intro r below i j inside
            dsimp only
            rw [first.2]
            cases r with
            | zero =>
                rw [Nat.zero_mul, Nat.zero_add, if_pos inside]
                rfl
            | succ r =>
                have place : (r + 1) * size + j = size + (r * size + j) := by ring
                have rank : start + (r + 1) = start + 1 + r := by omega
                rw [place, if_neg (by omega), Nat.add_sub_cancel_left, entries r (by omega) i j inside, rank]

end Tensor

theorem reduceRanks_eq {R : Type} [AddCommMonoid R] {worldSize rows cols : Nat} (positive : 0 < worldSize)
    {y : Nat → Option (Tensor R)} {z : Nat → Tensor R} (each : ∀ r < worldSize, y r = some (z r))
    (shapes : ∀ r < worldSize, (z r).HasShape rows cols) :
    reduceRanks worldSize y = some ⟨rows, cols, fun i j => ∑ r ∈ range worldSize, (z r).entry i j⟩ := by
  rw [reduceRanks, onRanks_eq each, Option.bind_eq_bind, Option.bind_some]
  split
  · exact Tensor.allReduce_eq positive shapes
  · obtain rfl : worldSize = 1 := by omega
    obtain ⟨rfl, rfl⟩ := shapes 0 positive
    simp only [range_one, sum_singleton]
    rfl

end Torch
