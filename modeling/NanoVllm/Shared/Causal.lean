import Mathlib.Data.List.Basic
import Mathlib.Data.List.GetD

set_option autoImplicit false

namespace Causal

/-- A layer over the positions of a sequence. A position keeps an entry, and mixes the entries up to its own. -/
structure Layer (X K : Type) where
  keep : Nat → X → K
  mix : Nat → X → List K → X

theorem getLast?_take_succ {α : Type} {xs : List α} {t : Nat} (below : t < xs.length) :
    (xs.take (t + 1)).getLast? = xs[t]? := by
  rw [List.getLast?_eq_getElem?, List.length_take, Nat.min_eq_left below, Nat.succ_sub_one,
    List.getElem?_take_of_lt (Nat.lt_succ_self t)]

section Passes

variable {X K : Type} {layer : Layer X K} {layers : List (Layer X K)} {xs : List X} {t n : Nat}

namespace Layer

def kept (layer : Layer X K) (xs : List X) : List K := xs.mapIdx layer.keep

def pass (layer : Layer X K) (xs : List X) : List X :=
  xs.mapIdx (fun t x => layer.mix t x ((layer.kept xs).take (t + 1)))

@[simp] theorem length_kept : (layer.kept xs).length = xs.length := List.length_mapIdx

@[simp] theorem length_pass : (layer.pass xs).length = xs.length := List.length_mapIdx

theorem kept_take : layer.kept (xs.take n) = (layer.kept xs).take n := by
  refine List.ext_getElem? (fun t => ?_)
  rw [kept, kept, List.getElem?_mapIdx, List.getElem?_take, List.getElem?_take, List.getElem?_mapIdx]
  split <;> rfl

theorem pass_take : layer.pass (xs.take n) = (layer.pass xs).take n := by
  refine List.ext_getElem? (fun t => ?_)
  rw [pass, pass, List.getElem?_mapIdx, List.getElem?_take, List.getElem?_take, List.getElem?_mapIdx]
  split
  next below =>
    have earlier : (layer.kept (xs.take n)).take (t + 1) = (layer.kept xs).take (t + 1) := by
      rw [kept_take, List.take_take, Nat.min_eq_left below]
    rw [earlier]
  next => rfl

theorem getLast?_pass :
    (layer.pass xs).getLast? = xs.getLast?.map (fun x => layer.mix (xs.length - 1) x (layer.kept xs)) := by
  rw [pass, List.getLast?_mapIdx]
  cases xs with
  | nil => rfl
  | cons x rest =>
      have whole : (layer.kept (x :: rest)).take ((x :: rest).length - 1 + 1) = layer.kept (x :: rest) :=
        List.take_of_length_le (by simp)
      rw [whole]

theorem getLast?_kept : (layer.kept xs).getLast? = xs.getLast?.map (layer.keep (xs.length - 1)) :=
  List.getLast?_mapIdx

end Layer

def run (layers : List (Layer X K)) (xs : List X) : List X := layers.foldl (fun xs layer => layer.pass xs) xs

@[simp] theorem length_run : (run layers xs).length = xs.length := by
  induction layers generalizing xs with
  | nil => rfl
  | cons layer rest ih => exact ih.trans Layer.length_pass

end Passes

structure Overwrites {S V : Type} (places : List S) (values : List V) (before after : S → V) : Prop where
  length : places.length = values.length
  value : ∀ (i : Nat) (s : S) (v : V), places[i]? = some s → values[i]? = some v → after s = v
  rest : ∀ s ∉ places, after s = before s

section Mirrors

variable {A X K S : Type} {layer : Layer X K} {rows : List A → List X} {label label' : S → List A}
  {memory memory' : S → K}

def Mirrors (layer : Layer X K) (rows : List A → List X) (label : S → List A) (memory : S → K) : Prop :=
  ∀ s, label s ≠ [] → (layer.kept (rows (label s))).getLast? = some (memory s)

theorem Mirrors.unlabelled (memory : S → K) : Mirrors layer rows (fun _ => []) memory := fun _ some' => absurd rfl some'

theorem Mirrors.written (h : Mirrors layer rows label memory) {places : List S} {sequences : List (List A)}
    {entries : List K} (labels : Overwrites places sequences label label')
    (writes : Overwrites places entries memory memory')
    (each : ∀ (i : Nat) (ts : List A) (k : K), sequences[i]? = some ts → entries[i]? = some k →
      (layer.kept (rows ts)).getLast? = some k) : Mirrors layer rows label' memory' := by
  intro s some'
  by_cases listed : s ∈ places
  · obtain ⟨i, place⟩ := List.getElem?_of_mem listed
    have inside : i < places.length := (List.getElem?_eq_some_iff.mp place).1
    have sequence := List.getElem?_eq_getElem (labels.length ▸ inside : i < sequences.length)
    have entry := List.getElem?_eq_getElem (writes.length ▸ inside : i < entries.length)
    rw [labels.value i s _ place sequence, writes.value i s _ place entry]
    exact each i _ _ sequence entry
  · rw [labels.rest s listed] at some' ⊢
    rw [writes.rest s listed]
    exact h s some'

theorem Mirrors.context (h : Mirrors layer rows label memory) {ts : List A} {places : List S}
    (rows_take : ∀ n, rows (ts.take n) = (rows ts).take n) (length : (rows ts).length = ts.length)
    (count : places.length = ts.length)
    (labels : ∀ (j : Nat) (s : S), places[j]? = some s → label s = ts.take (j + 1)) :
    places.map memory = layer.kept (rows ts) := by
  refine List.ext_getElem (by simp [length, count]) (fun j inside inside' => ?_)
  rw [List.length_map] at inside
  have below : j < ts.length := count ▸ inside
  have place := labels j _ (List.getElem?_eq_getElem inside)
  have entry := h places[j] (by rw [place, ne_eq, List.take_eq_nil_iff]; rintro (none | rfl) <;> simp_all)
  rw [place, rows_take, Layer.kept_take, getLast?_take_succ inside', List.getElem?_eq_getElem inside'] at entry
  rw [List.getElem_map]
  exact (Option.some.inj entry).symm

/-- Each layer has a memory that mirrors what it keeps of the rows that the layers before it give. -/
def MirrorsAll (rows : List A → List X) (label : S → List A) : List (Layer X K) → List (S → K) → Prop
  | [], memories => memories = []
  | _ :: _, [] => False
  | layer :: rest, memory :: memories =>
      Mirrors layer rows label memory ∧ MirrorsAll (fun ts => layer.pass (rows ts)) label rest memories

theorem MirrorsAll.unlabelled {layers : List (Layer X K)} {memories : List (S → K)}
    (length : memories.length = layers.length) : MirrorsAll rows (fun _ => []) layers memories := by
  induction layers generalizing rows memories with
  | nil => exact List.length_eq_zero_iff.mp length
  | cons layer rest ih =>
      cases memories with
      | nil => cases length
      | cons memory memories => exact ⟨.unlabelled memory, ih (Nat.succ.inj length)⟩

end Mirrors

end Causal
