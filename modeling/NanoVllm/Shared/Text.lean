import Mathlib.Data.List.Infix
import Mathlib.Tactic.Common

set_option autoImplicit false

namespace Python

variable {α : Type} [DecidableEq α]

-- `s.replace(old, new)` for an `old` that is not empty, when `skip` elements of a match are left.
def replaceFrom (old new : List α) : Nat → List α → List α
  | _, [] => []
  | skip + 1, _ :: s => replaceFrom old new skip s
  | 0, x :: s =>
      if old <+: x :: s then new ++ replaceFrom old new (old.length - 1) s else x :: replaceFrom old new 0 s

def replace (old new s : List α) : List α := replaceFrom old new 0 s

section Separated

variable {old new a b : List α} {sep : α} {skip : Nat} {parts : List (List α)}

omit [DecidableEq α] in
theorem prefix_separated (apart : sep ∉ old) : old <+: a ++ sep :: b ↔ old <+: a := by
  induction a generalizing old with
  | nil =>
      cases old with
      | nil => simp
      | cons o old => simp [show o ≠ sep by rintro rfl; simp at apart]
  | cons x a ih =>
      cases old with
      | nil => simp
      | cons o old => simp [ih (List.not_mem_of_not_mem_cons apart)]

omit [DecidableEq α] in
theorem infix_separated (apart : sep ∉ old) : old <:+: a ++ sep :: b ↔ old <:+: a ∨ old <:+: b := by
  induction a with
  | nil =>
      have crossing := prefix_separated (a := []) (b := b) apart
      rw [List.nil_append] at crossing ⊢
      rw [List.infix_cons_iff, crossing]
      simp
  | cons x a ih =>
      have crossing := prefix_separated (a := x :: a) (b := b) apart
      rw [List.cons_append] at crossing ⊢
      rw [List.infix_cons_iff, List.infix_cons_iff, crossing, ih, or_assoc]

theorem replaceFrom_separated (apart : sep ∉ old) (some' : old ≠ []) (within : skip ≤ a.length) :
    replaceFrom old new skip (a ++ sep :: b) = replaceFrom old new skip a ++ sep :: replace old new b := by
  induction a generalizing skip with
  | nil =>
      obtain rfl : skip = 0 := Nat.le_zero.mp within
      have outside : ¬old <+: sep :: b := fun found => some' (by simpa using (prefix_separated (a := []) apart).mp found)
      simp only [List.nil_append, replaceFrom, outside, if_false, replace]
  | cons x a ih =>
      cases skip with
      | succ skip => exact ih (Nat.le_of_succ_le_succ within)
      | zero =>
          have crossing := prefix_separated (a := x :: a) (b := b) apart
          rw [List.cons_append] at crossing ⊢
          by_cases found : old <+: x :: a
          · have fits : old.length - 1 ≤ a.length := by
              have := found.length_le
              simp only [List.length_cons] at this
              omega
            simp only [replaceFrom, crossing, found, if_true, ih fits, List.append_assoc]
          · simp only [replaceFrom, crossing, found, if_false, ih (Nat.zero_le _), List.cons_append]

theorem replace_of_not_infix (absent : ¬old <:+: a) : replace old new a = a := by
  induction a with
  | nil => rfl
  | cons x a ih =>
      rw [List.infix_cons_iff, not_or] at absent
      rw [replace, replaceFrom, if_neg absent.1]
      exact congrArg _ (ih absent.2)

omit [DecidableEq α] in
theorem infix_joined (apart : sep ∉ old) (some' : old ≠ []) :
    old <:+: [sep].intercalate parts ↔ ∃ part ∈ parts, old <:+: part := by
  induction parts with
  | nil => simp [some']
  | cons first rest ih =>
      cases rest with
      | nil => simp
      | cons next rest =>
          rw [List.intercalate_cons_cons, List.append_assoc, List.singleton_append, infix_separated apart, ih]
          simp

theorem replace_joined (apart : sep ∉ old) (some' : old ≠ []) :
    replace old new ([sep].intercalate parts) = [sep].intercalate (parts.map (replace old new)) := by
  induction parts with
  | nil => rfl
  | cons first rest ih =>
      cases rest with
      | nil => simp
      | cons next rest =>
          rw [List.intercalate_cons_cons, List.append_assoc, List.singleton_append, replace,
            replaceFrom_separated apart some' (Nat.zero_le _), ih]
          simp only [List.map_cons, List.intercalate_cons_cons, List.append_assoc, List.singleton_append]
          rfl

end Separated

end Python
