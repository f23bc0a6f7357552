import Mathlib.Data.List.Sort
import Mathlib.Order.Basic

set_option autoImplicit false

namespace Python

variable {α β : Type}

/-- `ys = sorted(xs, key=key)`: elements with the same key keep their order. -/
structure StablySorted [LinearOrder β] (key : α → β) (xs ys : List α) : Prop where
  perm : ys.Perm xs
  ascending : ys.Pairwise (fun x y => key x ≤ key y)
  ties : ∀ k, ys.filter (fun x => decide (key x = k)) = xs.filter (fun x => decide (key x = k))

variable [LinearOrder β] {key : α → β} {xs ys : List α}

theorem stablySorted_insertionSort (key : α → β) (xs : List α) :
    StablySorted key xs (xs.insertionSort (fun x y => key x ≤ key y)) := by
  have total : Std.Total (fun x y => key x ≤ key y) := ⟨fun x y => le_total (key x) (key y)⟩
  have trans : IsTrans α (fun x y => key x ≤ key y) := ⟨fun _ _ _ first next => first.trans next⟩
  have perm := List.perm_insertionSort (fun x y => key x ≤ key y) xs
  refine ⟨perm, List.pairwise_insertionSort _ xs, fun k => ?_⟩
  have tied : (xs.filter (fun x => decide (key x = k))).Pairwise (fun x y => key x ≤ key y) := by
    refine List.pairwise_of_forall_mem_list (fun x listed y listed' => ?_)
    rw [of_decide_eq_true (List.mem_filter.mp listed).2, of_decide_eq_true (List.mem_filter.mp listed').2]
  have kept := (List.sublist_insertionSort tied List.filter_sublist).filter (fun x => decide (key x = k))
  rw [List.filter_filter] at kept
  simp only [Bool.and_self] at kept
  exact (kept.eq_of_length (perm.filter _).length_eq.symm).symm

theorem StablySorted.unsorted (h : StablySorted key xs ys) {k : β} (same : ∀ x, key x = k) : ys = xs := by
  have ties := h.ties k
  simpa [same] using ties

end Python
