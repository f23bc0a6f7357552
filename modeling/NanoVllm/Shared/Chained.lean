import Mathlib.Data.List.Infix
import NanoVllm.Shared.Python

set_option autoImplicit false

namespace Chained

open Python

variable {α β : Type} {f : List α → β → β} {start : β} {size : Nat} {xs ys : List α}

/-- The value of a chain behind the first `k` pages: each page is folded into the value before it. -/
def chained (f : List α → β → β) (start : β) (size : Nat) (xs : List α) : Nat → β
  | 0 => start
  | k + 1 => f (slice xs (k * size) ((k + 1) * size)) (chained f start size xs k)

def values (f : List α → β → β) (start : β) (size : Nat) (xs : List α) : List β :=
  (List.range (xs.length / size)).map (fun k => chained f start size xs (k + 1))

theorem chained_congr {k : Nat} (same : xs.take (k * size) = ys.take (k * size)) :
    chained f start size xs k = chained f start size ys k := by
  induction k with
  | zero => rfl
  | succ k ih =>
      have shorter : k * size ≤ (k + 1) * size := Nat.mul_le_mul_right size (Nat.le_succ k)
      have before : xs.take (k * size) = ys.take (k * size) := by
        have cut := congrArg (List.take (k * size)) same
        rwa [List.take_take, List.take_take, Nat.min_eq_left shorter] at cut
      rw [chained, chained, ih before, slice, slice, same]

theorem chained_grown (grown : xs <+: ys) {k : Nat} (within : k * size ≤ xs.length) :
    chained f start size ys k = chained f start size xs k := by
  obtain ⟨more, rfl⟩ := grown
  exact chained_congr (List.take_append_of_le_length within)

@[simp] theorem length_values : (values f start size xs).length = xs.length / size := by simp [values]

theorem getElem?_values {k : Nat} (below : k < xs.length / size) :
    (values f start size xs)[k]? = some (chained f start size xs (k + 1)) := by
  rw [values, List.getElem?_map, List.getElem?_range below, Option.map_some]

theorem getLast?_values :
    (values f start size xs).getLast?.getD start = chained f start size xs (xs.length / size) := by
  rw [values]
  cases xs.length / size with
  | zero => rfl
  | succ k => simp [List.range_succ]

theorem values_concat (positive : 0 < size) (x : α) : values f start size (xs ++ [x]) =
    if (xs.length + 1) % size = 0 then
      values f start size xs ++
        [f (xs.drop (xs.length / size * size) ++ [x]) ((values f start size xs).getLast?.getD start)]
    else values f start size xs := by
  have grown : xs <+: xs ++ [x] := List.prefix_append ..
  have old : (List.range (xs.length / size)).map (fun k => chained f start size (xs ++ [x]) (k + 1)) =
      values f start size xs := by
    refine List.map_congr_left (fun k listed => chained_grown grown ?_)
    exact (Nat.le_div_iff_mul_le positive).mp (List.mem_range.mp listed)
  split
  next aligned =>
    have divides := Nat.dvd_of_mod_eq_zero aligned
    have next : (xs.length + 1) / size = xs.length / size + 1 := by rw [Nat.succ_div, if_pos divides]
    have edge : (xs.length / size + 1) * size = xs.length + 1 := by
      rw [← next]
      exact Nat.div_mul_cancel divides
    have before : xs.length / size * size ≤ xs.length := Nat.div_mul_le_self _ _
    have page : slice (xs ++ [x]) (xs.length / size * size) ((xs.length / size + 1) * size) =
        xs.drop (xs.length / size * size) ++ [x] := by
      rw [slice, edge, List.take_of_length_le (by simp), List.drop_append_of_le_length before]
    rw [values, List.length_append, List.length_singleton, next, List.range_succ, List.map_append, old,
      List.map_singleton, chained, page, chained_grown grown before, getLast?_values]
  next partial' =>
    have same : (xs.length + 1) / size = xs.length / size := by
      rw [Nat.succ_div, if_neg (fun divides => partial' (Nat.mod_eq_zero_of_dvd divides)), Nat.add_zero]
    rw [values, List.length_append, List.length_singleton, same, old]

end Chained
