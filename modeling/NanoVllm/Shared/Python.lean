import Mathlib.Data.List.Basic
import Mathlib.Logic.Function.Basic
import Mathlib.Tactic.Common
import Mathlib.Tactic.Linarith

set_option autoImplicit false

namespace Python

/-- A `dict`, as the partial map it stands for. -/
abbrev Dict (κ ν : Type) := κ → Option ν

def Dict.empty {κ ν : Type} : Dict κ ν := fun _ => none

def Dict.insert {κ ν : Type} [DecidableEq κ] (d : Dict κ ν) (k : κ) (v : ν) : Dict κ ν :=
  Function.update d k (some v)

def Dict.pop {κ ν : Type} [DecidableEq κ] (d : Dict κ ν) (k : κ) : Dict κ ν :=
  Function.update d k none

def slice {α : Type} (xs : List α) (i j : Nat) : List α := (xs.take j).drop i

def range (start stop step : Nat) : List Nat :=
  (List.range ((stop - start + step - 1) / step)).map (fun i => start + i * step)

def pagesFor (size n : Nat) : Nat := (n + size - 1) / size

section Pages

variable {size n k : Nat}

theorem pagesFor_le (positive : 0 < size) : pagesFor size n ≤ k ↔ n ≤ k * size := by
  unfold pagesFor
  rw [← Nat.lt_succ_iff, Nat.div_lt_iff_lt_mul positive, Nat.succ_mul]
  omega

theorem lt_pagesFor (positive : 0 < size) : k < pagesFor size n ↔ k * size < n := by
  rw [← not_le, pagesFor_le positive, not_le]

@[simp] theorem pagesFor_zero (positive : 0 < size) : pagesFor size 0 = 0 := by
  have := (pagesFor_le (n := 0) (k := 0) positive).mpr (by omega)
  omega

theorem le_pagesFor_mul (positive : 0 < size) : n ≤ pagesFor size n * size :=
  (pagesFor_le positive).mp le_rfl

theorem pagesFor_mono (positive : 0 < size) {m : Nat} (le : n ≤ m) : pagesFor size n ≤ pagesFor size m :=
  (pagesFor_le positive).mpr (le.trans (le_pagesFor_mul positive))

theorem pagesFor_add_mul (positive : 0 < size) : pagesFor size (k * size + n) = k + pagesFor size n := by
  unfold pagesFor
  have split : k * size + n + size - 1 = n + size - 1 + k * size := by omega
  rw [split, Nat.add_mul_div_right _ _ positive, Nat.add_comm]

theorem pagesFor_mul (positive : 0 < size) : pagesFor size (k * size) = k := by
  simpa [positive] using pagesFor_add_mul (n := 0) (k := k) positive

theorem div_le_pagesFor (positive : 0 < size) : n / size ≤ pagesFor size n :=
  Nat.div_le_div_right (by omega)

theorem pagesFor_of_mod (positive : 0 < size) (aligned : n % size = 0) : pagesFor size n = n / size := by
  have whole : n / size * size = n := Nat.div_mul_cancel (Nat.dvd_of_mod_eq_zero aligned)
  rw [← whole, pagesFor_mul positive, Nat.mul_div_cancel _ positive]

theorem pagesFor_of_mod_ne (positive : 0 < size) (partial' : n % size ≠ 0) :
    pagesFor size n = n / size + 1 := by
  have split := Nat.div_add_mod n size
  have below := Nat.mod_lt n positive
  have upper : pagesFor size n ≤ n / size + 1 :=
    (pagesFor_le positive).mpr (by rw [Nat.add_mul, Nat.mul_comm]; omega)
  have lower : n / size < pagesFor size n :=
    (lt_pagesFor positive).mpr (by rw [Nat.mul_comm]; omega)
  omega

theorem pagesFor_pos (positive : 0 < size) (some' : 0 < n) : 0 < pagesFor size n :=
  (lt_pagesFor positive).mpr (by omega)

theorem div_lt_pagesFor (positive : 0 < size) {p : Nat} (below : p < n) : p / size < pagesFor size n :=
  (lt_pagesFor positive).mpr (lt_of_le_of_lt (Nat.div_mul_le_self p size) below)

end Pages

theorem range_pages {size : Nat} (positive : 0 < size) (first stop : Nat) :
    range (first * size) stop size =
      (List.range' first (pagesFor size stop - first)).map (fun k => k * size) := by
  have count : (stop - first * size + size - 1) / size = pagesFor size stop - first := by
    by_cases below : first * size ≤ stop
    · have split : stop = first * size + (stop - first * size) := by omega
      rw [split, pagesFor_add_mul positive]
      unfold pagesFor
      rw [Nat.add_sub_cancel_left, Nat.add_sub_cancel_left]
    · have none : stop - first * size = 0 := by omega
      have few : pagesFor size stop ≤ first := (pagesFor_le positive).mpr (by omega)
      rw [none, Nat.sub_eq_zero_of_le few, Nat.div_eq_of_lt (by omega)]
  rw [range, count, List.range'_eq_map_range, List.map_map]
  apply List.map_congr_left
  intro i _
  simp [Nat.add_mul]

section Slices

variable {α : Type} {xs ys : List α} {i j : Nat}

@[simp] theorem length_slice : (slice xs i j).length = min j xs.length - i := by
  simp [slice]

theorem slice_append (within : j ≤ xs.length) : slice (xs ++ ys) i j = slice xs i j := by
  unfold slice
  rw [List.take_append_of_le_length within]

theorem take_append_slice (le : i ≤ j) : xs.take i ++ slice xs i j = xs.take j := by
  have split := List.take_append_drop i (xs.take j)
  rwa [List.take_take, Nat.min_eq_left le] at split

theorem le_length_of_slice {size k : Nat} (positive : 0 < size)
    (whole : (slice xs (k * size) ((k + 1) * size)).length = size) : (k + 1) * size ≤ xs.length := by
  rw [length_slice, Nat.add_mul] at whole
  rw [Nat.add_mul]
  omega

theorem length_page {size k : Nat} (within : (k + 1) * size ≤ xs.length) :
    (slice xs (k * size) ((k + 1) * size)).length = size := by
  rw [length_slice, Nat.min_eq_left within, Nat.add_mul]
  omega

end Slices

end Python
