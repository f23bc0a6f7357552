import Mathlib.Algebra.BigOperators.Fin
import NanoVllm.Shared.Torch

set_option autoImplicit false

namespace Torch

open Finset

variable {R : Type} {rows cols n t : Nat}

-- The places of head `head` in a row.
def headOf (headDim : Nat) (row : Nat → R) (head : Nat) (c : Fin headDim) : R := row (head * headDim + c)

def spread [Zero R] (x : Fin n → R) (j : Nat) : R := if inside : j < n then x ⟨j, inside⟩ else 0

def project [NonUnitalNonAssocSemiring R] (weight : Tensor R) (bias : Option (Tensor R)) (x : Fin n → R) (j : Nat) :
    R := (∑ k, x k * weight.entry j k) + (bias.map (fun b => b.entry j 0)).getD 0

namespace Tensor

-- The first `n` entries of a row.
def row (n : Nat) (x : Tensor R) (t : Nat) (c : Fin n) : R := x.entry t c

def rowList (n : Nat) (x : Tensor R) : List (Fin n → R) := (List.range x.rows).map (x.row n)

def ofRows [Zero R] (rows : List (Fin n → R)) : Tensor R := ⟨rows.length, n, fun t => spread (rows.getD t 0)⟩

def mapRows (f : (n : Nat) → (Fin n → R) → Fin n → R) (x : Tensor R) : Tensor R :=
  { x with entry := fun t c => if inside : c < x.cols then f x.cols (x.row x.cols t) ⟨c, inside⟩ else x.entry t c }

-- `x + y`, for tensors of one shape
def add [Add R] (x y : Tensor R) : Option (Tensor R) :=
  if x.rows = y.rows ∧ x.cols = y.cols then some { x with entry := fun i j => x.entry i j + y.entry i j } else none

variable {x y : Tensor R}

@[simp] theorem length_rowList : (x.rowList n).length = x.rows := by simp [rowList]

theorem getElem?_rowList (below : t < x.rows) : (x.rowList n)[t]? = some (x.row n t) := by
  simp [rowList, below]

@[simp] theorem row_ofRows [Zero R] (rows : List (Fin n → R)) (t : Nat) : (ofRows rows).row n t = rows.getD t 0 := by
  funext c
  simp [Tensor.row, ofRows, spread]

theorem Same.row (same : x.Same y) (width : x.cols = n) (below : t < x.rows) : x.row n t = y.row n t :=
  funext (fun c => same.entry t below c (width ▸ c.isLt))

theorem row_mapRows (f : (n : Nat) → (Fin n → R) → Fin n → R) (width : x.cols = n) :
    (x.mapRows f).row n t = f n (x.row n t) := by
  subst width
  funext c
  simp [Tensor.row, mapRows]

theorem mapRows_mapRows (f g : (n : Nat) → (Fin n → R) → Fin n → R) :
    (x.mapRows f).mapRows g = x.mapRows (fun n y => g n (f n y)) := by
  have inner (t : Nat) : (x.mapRows f).row x.cols t = f x.cols (x.row x.cols t) := row_mapRows f rfl
  simp only [mapRows] at inner ⊢
  congr 1
  funext t c
  split
  next inside => rw [inner]
  next => rfl

theorem add_eq [Add R] (shape : x.HasShape rows cols) (shape' : y.HasShape rows cols) :
    ∃ z, x.add y = some z ∧ z.HasShape rows cols ∧ ∀ t, z.row cols t = x.row cols t + y.row cols t := by
  obtain ⟨rfl, rfl⟩ := shape
  exact ⟨_, if_pos ⟨shape'.1.symm, shape'.2.symm⟩, ⟨rfl, rfl⟩, fun t => rfl⟩

section Linear

variable [NonUnitalNonAssocSemiring R] {weight : Tensor R} {bias : Option (Tensor R)}

theorem linear_rows (width : x.cols = n) (shape : weight.cols = n) (biased : ∀ b ∈ bias, b.rows = weight.rows) :
    ∃ z, x.linear weight bias = some z ∧ z.HasShape x.rows weight.rows ∧
      ∀ t j, z.entry t j = Torch.project weight bias (x.row n t) j := by
  subst width
  refine ⟨_, if_pos ⟨shape.symm, biased⟩, ⟨rfl, rfl⟩, fun t j => ?_⟩
  dsimp only
  rw [Finset.sum_range]
  rfl

end Linear

end Tensor

end Torch
