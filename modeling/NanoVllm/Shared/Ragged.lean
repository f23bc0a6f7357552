import Mathlib.Algebra.BigOperators.Group.List.Lemmas
import Mathlib.Algebra.Group.Int.Defs
import Mathlib.Data.Nat.Cast.Basic
import NanoVllm.Shared.Python

set_option autoImplicit false

namespace Torch

open Python

variable {α : Type}

-- The sums of the first entries, from none of them to all of them.
def offsets [Add α] [Zero α] (xs : List α) : List α := xs.scanl (· + ·) 0

-- `torch.cumsum(xs, dim=0)`
def cumsum [Add α] [Zero α] (xs : List α) : List α := (offsets xs).tail

-- `xs[1:] - xs[:-1]`
def diffs [Sub α] (xs : List α) : List α := xs.tail.zipWith (· - ·) xs.dropLast

-- `rows[mask]`, in the order of the rows
def maskedSelect (rows : List (List α)) (mask : List (List Bool)) : List α :=
  (rows.zip mask).flatMap (fun line => ((line.1.zip line.2).filter Prod.snd).map Prod.fst)

-- `row + [pad] * (width - len(row))`
def padded (pad : α) (width : Nat) (row : List α) : List α := row ++ List.replicate (width - row.length) pad

-- The mask of the first `count` of `width` columns.
def columnMask (width count : Nat) : List Bool := (List.range width).map (fun column => decide (column < count))

theorem zero_cons_cumsum [Add α] [Zero α] (xs : List α) : 0 :: cumsum xs = offsets xs := by
  cases xs with
  | nil => rfl
  | cons x xs => rw [cumsum, offsets, List.scanl_cons, List.tail_cons]

@[simp] theorem length_offsets [Add α] [Zero α] (xs : List α) : (offsets xs).length = xs.length + 1 :=
  List.length_scanl

@[simp] theorem getElem_offsets [AddMonoid α] (xs : List α) {i : Nat} (inside : i < (offsets xs).length) :
    (offsets xs)[i] = (xs.take i).sum := by
  simp only [offsets, List.getElem_scanl, List.sum_eq_foldl]

theorem getLast?_offsets [AddMonoid α] (xs : List α) : (offsets xs).getLast? = some xs.sum := by
  rw [offsets, List.getLast?_scanl, List.sum_eq_foldl]

theorem pairwise_offsets (xs : List Nat) : (offsets xs).Pairwise (· ≤ ·) := by
  rw [List.pairwise_iff_getElem]
  intro i j inside inside' before
  rw [getElem_offsets, getElem_offsets, ← Nat.add_sub_cancel' before.le, List.take_add, List.sum_append]
  exact Nat.le_add_right _ _

theorem diffs_offsets [AddCommGroup α] (xs : List α) : diffs (offsets xs) = xs := by
  apply List.ext_getElem
  · simp [diffs]
  · intro i inside inside'
    simp only [diffs, List.getElem_zipWith, List.getElem_tail, List.getElem_dropLast, getElem_offsets]
    rw [List.sum_take_succ xs i inside', add_sub_cancel_left]

theorem getElem_of_diffs {starts : List Int} {n m : Nat} (length : starts.length = n + m + 1)
    (single : ∀ step ∈ (diffs starts).drop n, step = 1) {k : Nat} (within : k ≤ m) : starts[n + k] = starts[n] + k := by
  induction k with
  | zero => simp
  | succ k ih =>
      have inside : k < ((diffs starts).drop n).length := by
        rw [List.length_drop, diffs, List.length_zipWith, List.length_tail, List.length_dropLast]
        omega
      have step := single _ (List.getElem_mem inside)
      simp only [diffs, List.getElem_drop, List.getElem_zipWith, List.getElem_tail, List.getElem_dropLast] at step
      have before := ih (by omega)
      have place : n + (k + 1) = n + k + 1 := by omega
      simp only [place]
      omega

theorem take_offsets [AddMonoid α] (xs : List α) {n : Nat} (within : n ≤ xs.length) :
    (offsets xs).take (n + 1) = offsets (xs.take n) := by
  apply List.ext_getElem
  · simp [within]
  · intro i inside inside'
    simp only [List.length_take, length_offsets] at inside
    rw [List.getElem_take, getElem_offsets, getElem_offsets, List.take_take, Nat.min_eq_left (by omega)]

theorem drop_offsets [AddCommGroup α] (xs : List α) {n : Nat} (within : n ≤ xs.length) :
    ((offsets xs).drop n).map (fun offset => offset - (xs.take n).sum) = offsets (xs.drop n) := by
  apply List.ext_getElem
  · simp only [List.length_map, List.length_drop, length_offsets]
    omega
  · intro i inside inside'
    rw [List.getElem_map, List.getElem_drop, getElem_offsets, getElem_offsets, List.take_add, List.sum_append,
      add_sub_cancel_left]

theorem map_offsets {β : Type} [AddMonoid α] [AddMonoid β] (f : α →+ β) (xs : List α) :
    (offsets xs).map f = offsets (xs.map f) := by
  apply List.ext_getElem
  · simp
  · intro i inside inside'
    simp only [List.getElem_map, getElem_offsets]
    rw [map_list_sum, List.map_take]

theorem map_cast_offsets (xs : List Nat) : (offsets xs).map (Nat.cast : Nat → Int) = offsets (xs.map Nat.cast) :=
  map_offsets (Nat.castAddMonoidHom Int) xs

theorem cast_sum_take (xs : List Nat) (n : Nat) :
    ((xs.take n).sum : Int) = ((xs.map (Nat.cast : Nat → Int)).take n).sum := by
  rw [← List.map_take]
  exact map_list_sum (Nat.castAddMonoidHom Int) _

theorem length_padded {pad : α} {width : Nat} {row : List α} (fits : row.length ≤ width) :
    (padded pad width row).length = width := by
  rw [padded, List.length_append, List.length_replicate]
  omega

@[simp] theorem take_padded (pad : α) (width : Nat) (row : List α) :
    (padded pad width row).take row.length = row := by
  rw [padded, List.take_left]

theorem select_columns {width count : Nat} {row : List α} (length : row.length = width) :
    ((row.zip (columnMask width count)).filter Prod.snd).map Prod.fst = row.take count := by
  subst length
  induction row generalizing count with
  | nil => simp [columnMask]
  | cons x row ih =>
      have mask : columnMask (row.length + 1) count = decide (0 < count) :: columnMask row.length (count - 1) := by
        rw [columnMask, columnMask, List.range_succ_eq_map, List.map_cons, List.map_map]
        refine congrArg _ (List.map_congr_left (fun column _ => ?_))
        simp only [Function.comp_apply, decide_eq_decide]
        omega
      rw [List.length_cons, mask, List.zip_cons_cons]
      cases count with
      | zero => simpa using @ih 0
      | succ count => simp [ih]

theorem select_padded {pad : α} {width : Nat} {row : List α} (fits : row.length ≤ width) :
    (((padded pad width row).zip (columnMask width row.length)).filter Prod.snd).map Prod.fst = row := by
  rw [select_columns (length_padded fits), take_padded]

section Rows

variable {pad : α} {width : Nat} {rows : List (List α)}

theorem maskedSelect_padded (fits : ∀ row ∈ rows, row.length ≤ width) :
    maskedSelect (rows.map (padded pad width)) (rows.map (fun row => columnMask width row.length)) =
      rows.flatten := by
  rw [maskedSelect, List.zip_map', List.flatMap_map, List.flatten_eq_flatMap]
  exact List.flatMap_congr (fun row listed => select_padded (fits row listed))

theorem take_rows_padded :
    ((rows.map (padded pad width)).zip (rows.map List.length)).flatMap (fun row => row.1.take row.2) =
      rows.flatten := by
  rw [List.zip_map', List.flatMap_map, List.flatten_eq_flatMap]
  exact List.flatMap_congr (fun row _ => take_padded pad width row)

theorem slice_flatten {k : Nat} {row : List α} (entry : rows[k]? = some row) :
    slice rows.flatten ((rows.map List.length).take k).sum ((rows.map List.length).take (k + 1)).sum = row := by
  obtain ⟨inside, value⟩ := List.getElem?_eq_some_iff.mp entry
  rw [slice, List.drop_take_succ_flatten_eq_getElem rows k inside, value]

theorem getElem?_flatten {k j : Nat} {row : List α} (entry : rows[k]? = some row) (below : j < row.length) :
    rows.flatten[((rows.map List.length).take k).sum + j]? = row[j]? := by
  have cut := slice_flatten entry
  have inside : j < (slice rows.flatten ((rows.map List.length).take k).sum
      ((rows.map List.length).take (k + 1)).sum).length := by
    rw [cut]
    exact below
  rw [slice, List.length_drop, List.length_take] at inside
  rw [slice] at cut
  rw [← cut, List.getElem?_drop, List.getElem?_take_of_lt (by omega)]

end Rows

theorem le_foldl_max {xs : List Nat} {x : Nat} (listed : x ∈ xs) (least : Nat) : x ≤ xs.foldl max least := by
  rw [List.foldl_max_eq_max (List.ne_nil_of_mem listed)]
  exact (List.le_max_of_mem listed).trans (le_max_right _ _)

end Torch
