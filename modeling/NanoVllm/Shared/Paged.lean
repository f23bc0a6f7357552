import NanoVllm.Shared.Ragged

set_option autoImplicit false

namespace Paged

open Python Torch

-- The place of token `i` of a sequence on its pages.
def slot (size : Nat) (pages : List Int) (i : Nat) : Int := pages.getD (i / size) (-1) * size + (i % size : Nat)

/-- A sequence of a batch: its queries are the last `count` of its `length` tokens. -/
structure Row where
  count : Nat
  length : Nat
  pages : List Int
  deriving DecidableEq, Repr

namespace Row

-- The places that query `j` of the sequence attends to.
def context (size : Nat) (row : Row) (j : Nat) : List Int :=
  (List.range (row.length - row.count + j + 1)).map (slot size row.pages)

structure Fits (size : Nat) (row : Row) : Prop where
  count : row.count ≤ row.length
  length : 0 < row.length
  pages : row.pages.length = pagesFor size row.length

def filled (size : Nat) (row : Row) : Nat := (row.length - 1) % size + 1

end Row

section Attention

variable {α β : Type} {size : Nat} {attend : α → List Int → β} {rows rows' : List Row} {q : List α}

def attention (size : Nat) (attend : α → List Int → β) : List Row → List α → List β
  | [], _ => []
  | row :: rest, q => (q.take row.count).mapIdx (fun j x => attend x (row.context size j)) ++
      attention size attend rest (q.drop row.count)

theorem attention_append : attention size attend (rows ++ rows') q =
    attention size attend rows (q.take (rows.map Row.count).sum) ++
      attention size attend rows' (q.drop (rows.map Row.count).sum) := by
  induction rows generalizing q with
  | nil => rfl
  | cons row rest ih =>
      have first : (q.take (row.count + (rest.map Row.count).sum)).take row.count = q.take row.count := by
        rw [List.take_take, Nat.min_eq_left (Nat.le_add_right _ _)]
      have later : (q.take (row.count + (rest.map Row.count).sum)).drop row.count =
          (q.drop row.count).take (rest.map Row.count).sum := by
        rw [List.drop_take, Nat.add_sub_cancel_left]
      rw [List.cons_append, attention, attention, ih, List.map_cons, List.sum_cons, first, later, List.drop_drop,
        List.append_assoc]

-- The places that the queries of a batch attend to.
def contexts (size : Nat) (rows : List Row) : List (List Int) :=
  rows.flatMap (fun row => (List.range row.count).map (row.context size))

theorem attention_eq (whole : q.length = (rows.map Row.count).sum) :
    attention size attend rows q = List.zipWith attend q (contexts size rows) := by
  induction rows generalizing q with
  | nil =>
      obtain rfl : q = [] := List.length_eq_zero_iff.mp whole
      rfl
  | cons row rest ih =>
      rw [List.map_cons, List.sum_cons] at whole
      have first : (q.take row.count).length = ((List.range row.count).map (row.context size)).length := by
        rw [List.length_take, List.length_map, List.length_range]
        omega
      have later : (q.drop row.count).length = (rest.map Row.count).sum := by
        rw [List.length_drop]
        omega
      have own : (q.take row.count).mapIdx (fun j x => attend x (row.context size j)) =
          List.zipWith attend (q.take row.count) ((List.range row.count).map (row.context size)) := by
        refine List.ext_getElem (by simp) (fun j _ _ => ?_)
        simp
      have split : contexts size (row :: rest) = (List.range row.count).map (row.context size) ++ contexts size rest :=
        List.flatMap_cons ..
      rw [attention, ih later, own, split, ← List.zipWith_append first, List.take_append_drop]

theorem length_attention (whole : q.length = (rows.map Row.count).sum) :
    (attention size attend rows q).length = q.length := by
  have counts : (contexts size rows).length = (rows.map Row.count).sum := by simp [contexts, List.length_flatMap]
  rw [attention_eq whole, List.length_zipWith, counts, whole, Nat.min_self]

end Attention

end Paged
