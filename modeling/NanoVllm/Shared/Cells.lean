import Mathlib.Data.List.Perm.Basic
import Mathlib.Logic.Function.Basic
import Mathlib.Tactic.Common

set_option autoImplicit false

namespace Cells

variable {ι κ α β : Type}

section Turns

variable [DecidableEq κ]

def turn (cell : ι → κ) (act : ι → α → Option α) (cells : κ → Option α) (e : ι) : Option (κ → Option α) := do
  let value ← cells (cell e)
  let value ← act e value
  pure (Function.update cells (cell e) (some value))

def own (cell : ι → κ) (act : ι → α → Option α) (es : List ι) (k : κ) (value : α) : Option α :=
  (es.filter (fun e => cell e = k)).foldlM (fun value e => act e value) value

variable {cell : ι → κ} {act : ι → α → Option α} {cells : κ → Option α} {es : List ι}

theorem foldlM_turn (present : ∀ e ∈ es, (cells (cell e)).isSome = true)
    (each : ∀ k, ∀ value ∈ cells k, (own cell act es k value).isSome = true) :
    es.foldlM (turn cell act) cells = some (fun k => (cells k).bind (own cell act es k)) := by
  induction es generalizing cells with
  | nil => exact congrArg some (funext (fun k => (Option.bind_fun_some (cells k)).symm))
  | cons e rest ih =>
      have cons (k : κ) (value : α) : own cell act (e :: rest) k value =
          if cell e = k then (act e value).bind (own cell act rest k) else own cell act rest k value := by
        unfold own
        split
        next same =>
          rw [List.filter_cons_of_pos (by simpa using same), List.foldlM_cons]
          rfl
        next other => rw [List.filter_cons_of_neg (by simpa using other)]
      obtain ⟨value, held⟩ := Option.isSome_iff_exists.mp (present e (List.mem_cons_self ..))
      have runs := each (cell e) value held
      rw [cons, if_pos rfl] at runs
      cases acted : act e value with
      | none => simp [acted] at runs
      | some value' =>
          rw [acted, Option.bind_some] at runs
          have moved : turn cell act cells e = some (Function.update cells (cell e) (some value')) := by
            simp only [turn, held, acted, Option.bind_eq_bind, Option.bind_some]
            rfl
          rw [List.foldlM_cons, moved, Option.bind_eq_bind, Option.bind_some, ih]
          case present =>
            intro e' later
            by_cases same : cell e' = cell e
            · rw [same, Function.update_self]
              rfl
            · rw [Function.update_of_ne same]
              exact present e' (List.mem_cons_of_mem e later)
          case each =>
            intro k value holds
            by_cases same : k = cell e
            · subst same
              rw [Function.update_self, Option.mem_some_iff] at holds
              exact holds ▸ runs
            · rw [Function.update_of_ne same] at holds
              have later := each k value holds
              rwa [cons, if_neg (Ne.symm same)] at later
          refine congrArg some (funext (fun k => ?_))
          by_cases same : k = cell e
          · subst same
            rw [Function.update_self, held, Option.bind_some, Option.bind_some, cons, if_pos rfl, acted, Option.bind_some]
          · rw [Function.update_of_ne same]
            refine Option.bind_congr (fun value _ => ?_)
            rw [cons, if_neg (Ne.symm same)]

end Turns

variable {f g : β → ι → Option β} {b : β}

theorem foldlM_congr {es : List ι} (same : ∀ e ∈ es, ∀ b, f b e = g b e) : es.foldlM f b = es.foldlM g b := by
  induction es generalizing b with
  | nil => rfl
  | cons e rest ih =>
      rw [List.foldlM_cons, List.foldlM_cons, same e (List.mem_cons_self ..)]
      exact Option.bind_congr (fun _ _ => ih (fun e' later => same e' (List.mem_cons_of_mem e later)))

theorem foldlM_flatten (ess : List (List ι)) : ess.foldlM (fun b es => es.foldlM f b) b = ess.flatten.foldlM f b := by
  induction ess generalizing b with
  | nil => rfl
  | cons es rest ih =>
      rw [List.foldlM_cons, List.flatten_cons, List.foldlM_append]
      exact Option.bind_congr (fun _ _ => ih)

theorem exists_order {f : ι → κ} {ks : List κ} {es : List ι} (perm : ks.Perm (es.map f)) :
    ∃ order : List ι, order.Perm es ∧ ks = order.map f := by
  have images : List.Forall₂ (fun k e => k = f e) (es.map f) es := by
    rw [List.forall₂_map_left_iff, List.forall₂_same]
    exact fun _ _ => rfl
  obtain ⟨order, all, perm'⟩ := List.perm_comp_forall₂ perm images
  refine ⟨order, perm', ?_⟩
  rwa [← List.forall₂_map_right_iff, List.forall₂_eq_eq_eq] at all

theorem eq_of_perm_pair {a b : ι} {es : List ι} (perm : es.Perm [a, b]) : es = [a, b] ∨ es = [b, a] := by
  match es, perm.length_eq, perm with
  | [c, d], _, perm =>
      have listed : c = a ∨ c = b := by simpa using perm.mem_iff.mp (List.mem_cons_self ..)
      rcases listed with rfl | rfl
      · exact Or.inl (congrArg _ (List.perm_singleton.mp ((List.perm_cons _).mp perm)))
      · exact Or.inr (congrArg _ (List.perm_singleton.mp ((List.perm_cons _).mp (perm.trans (List.Perm.swap ..)))))

end Cells
