import Mathlib.Algebra.BigOperators.Group.List.Basic
import Mathlib.Algebra.Ring.Nat
import Mathlib.Data.List.Nodup
import Mathlib.Tactic.Common

set_option autoImplicit false

namespace Python

structure Items (κ ν : Type) where
  entries : List (κ × ν)
  distinct : (entries.map Prod.fst).Nodup

namespace Items

variable {κ ν : Type}

theorem distinct_appended {entries : List (κ × ν)} {k : κ} (distinct : (entries.map Prod.fst).Nodup)
    (fresh : k ∉ entries.map Prod.fst) (v : ν) : ((entries ++ [(k, v)]).map Prod.fst).Nodup := by
  rw [List.map_append, List.map_singleton, List.nodup_append]
  refine ⟨distinct, List.nodup_singleton k, ?_⟩
  rintro a old b new rfl
  obtain rfl : a = k := List.mem_singleton.mp new
  exact fresh old

variable [DecidableEq κ]

theorem keys_modified (entries : List (κ × ν)) (k : κ) (f : ν → ν) :
    (entries.map (fun e => if e.1 = k then (e.1, f e.2) else e)).map Prod.fst = entries.map Prod.fst := by
  rw [List.map_map]
  refine List.map_congr_left (fun e _ => ?_)
  change (if e.1 = k then (e.1, f e.2) else e).1 = e.1
  split <;> rfl

def empty : Items κ ν := ⟨[], List.nodup_nil⟩

def keys (d : Items κ ν) : List κ := d.entries.map Prod.fst

def values (d : Items κ ν) : List ν := d.entries.map Prod.snd

def get? (d : Items κ ν) (k : κ) : Option ν := d.entries.lookup k

-- `d.get(k, default)`
def getD (d : Items κ ν) (k : κ) (default : ν) : ν := (d.get? k).getD default

-- What is kept under `k` changes, if there is anything.
def modify (d : Items κ ν) (k : κ) (f : ν → ν) : Items κ ν where
  entries := d.entries.map (fun e => if e.1 = k then (e.1, f e.2) else e)
  distinct := by
    rw [keys_modified]
    exact d.distinct

def put (d : Items κ ν) (k : κ) (v : ν) : Items κ ν :=
  if listed : k ∈ d.keys then d.modify k (fun _ => v)
  else ⟨d.entries ++ [(k, v)], distinct_appended d.distinct listed v⟩

variable {d : Items κ ν} {j k : κ} {v : ν}

theorem get?_eq_some : d.get? k = some v ↔ (k, v) ∈ d.entries := by
  obtain ⟨entries, distinct⟩ := d
  unfold get?
  dsimp only
  induction entries with
  | nil => simp
  | cons e rest ih =>
      obtain ⟨k', v'⟩ := e
      obtain ⟨apart, distinct⟩ := List.nodup_cons.mp distinct
      rw [List.lookup_cons, List.mem_cons, Prod.mk.injEq]
      by_cases self : k = k'
      · subst self
        have outside : (k, v) ∉ rest := fun listed => apart (List.mem_map.mpr ⟨_, listed, rfl⟩)
        simp [outside, eq_comm]
      · rw [beq_false_of_ne self]
        simp [self, ih distinct]

theorem get?_eq_none : d.get? k = none ↔ k ∉ d.keys := by
  constructor
  · intro none listed
    obtain ⟨e, member, rfl⟩ := List.mem_map.mp listed
    cases none.symm.trans (get?_eq_some.mpr member)
  · intro outside
    cases found : d.get? k with
    | none => rfl
    | some v => exact absurd (List.mem_map_of_mem (get?_eq_some.mp found)) outside

theorem getD_of_notMem (outside : k ∉ d.keys) (default : ν) : d.getD k default = default := by
  rw [getD, get?_eq_none.mpr outside, Option.getD_none]

@[simp] theorem keys_modify (d : Items κ ν) (k : κ) (f : ν → ν) : (d.modify k f).keys = d.keys :=
  keys_modified d.entries k f

theorem get?_modify (d : Items κ ν) (k j : κ) (f : ν → ν) :
    (d.modify k f).get? j = if j = k then (d.get? j).map f else d.get? j := by
  obtain ⟨entries, distinct⟩ := d
  unfold get? modify
  dsimp only
  induction entries with
  | nil => simp
  | cons e rest ih =>
      obtain ⟨k', v'⟩ := e
      have later := ih (List.nodup_cons.mp distinct).2
      rw [List.map_cons, List.lookup_cons]
      by_cases first : k' = k
      · subst first
        rw [if_pos rfl, List.lookup_cons]
        by_cases self : j = k'
        · subst self
          simp
        · rw [beq_false_of_ne self, if_neg self]
          rw [if_neg self] at later
          exact later
      · rw [if_neg first, List.lookup_cons]
        by_cases self : j = k'
        · subst self
          simp [first]
        · rw [beq_false_of_ne self]
          exact later

theorem entries_put (fresh : k ∉ d.keys) (v : ν) : (d.put k v).entries = d.entries ++ [(k, v)] := by
  rw [put, dif_neg fresh]

theorem keys_put (fresh : k ∉ d.keys) (v : ν) : (d.put k v).keys = d.keys ++ [k] := by
  rw [keys, entries_put fresh, List.map_append]
  rfl

theorem get?_put (d : Items κ ν) (k j : κ) (v : ν) : (d.put k v).get? j = if j = k then some v else d.get? j := by
  by_cases fresh : k ∈ d.keys
  · rw [put, dif_pos fresh, get?_modify]
    by_cases self : j = k
    · subst self
      obtain ⟨w, found⟩ := Option.ne_none_iff_exists'.mp (fun none => get?_eq_none.mp none fresh)
      rw [if_pos rfl, if_pos rfl, found, Option.map_some]
    · rw [if_neg self, if_neg self]
  · unfold get?
    rw [entries_put fresh, List.lookup_append]
    by_cases self : j = k
    · subst self
      have none : d.entries.lookup j = none := get?_eq_none.mpr fresh
      simp [none]
    · have outside : [(k, v)].lookup j = none := by
        rw [List.lookup_cons, beq_false_of_ne self]
        rfl
      rw [outside, Option.or_none, if_neg self]

theorem get?_foldl_modify {keys : List κ} (once : keys.Nodup) (f : κ → ν → ν) (d : Items κ ν) (j : κ) :
    (keys.foldl (fun d k => d.modify k (f k)) d).get? j = (d.get? j).map (if j ∈ keys then f j else id) := by
  induction keys generalizing d with
  | nil => simp
  | cons k rest ih =>
      obtain ⟨apart, once⟩ := List.nodup_cons.mp once
      rw [List.foldl_cons, ih once, get?_modify]
      by_cases self : j = k
      · subst self
        simp [apart]
      · simp [self]

theorem keys_foldl_modify (keys : List κ) (f : κ → ν → ν) (d : Items κ ν) :
    (keys.foldl (fun d k => d.modify k (f k)) d).keys = d.keys := by
  induction keys generalizing d with
  | nil => rfl
  | cons k rest ih => rw [List.foldl_cons, ih, keys_modify]

theorem map_values {α : Type} {f : ν → α} {g : κ → α} (same : ∀ k v, d.get? k = some v → f v = g k) :
    d.values.map f = d.keys.map g := by
  rw [values, keys, List.map_map, List.map_map]
  exact List.map_congr_left (fun e listed => same e.1 e.2 (get?_eq_some.mpr listed))

omit [DecidableEq κ] in
theorem nodup_keys (d : Items κ ν) : d.keys.Nodup := d.distinct

theorem filter_key {α : Type} {xs : List α} {key : α → κ} {x : α} (once : (xs.map key).Nodup) (listed : x ∈ xs) :
    xs.filter (fun y => decide (key y = key x)) = [x] := by
  induction xs with
  | nil => cases listed
  | cons y rest ih =>
      obtain ⟨apart, once⟩ := List.nodup_cons.mp once
      rcases List.mem_cons.mp listed with rfl | later
      · have none : rest.filter (fun y => decide (key y = key x)) = [] :=
          List.filter_eq_nil_iff.mpr (fun z inside same => apart (of_decide_eq_true same ▸ List.mem_map_of_mem inside))
        rw [List.filter_cons_of_pos (by simp), none]
      · have other : key y ≠ key x := fun same => apart (same ▸ List.mem_map_of_mem later)
        rw [List.filter_cons_of_neg (by simpa using other), ih once later]

section Tally

variable {pairs : List (κ × Nat)} {n : Nat}

def tally (pairs : List (κ × Nat)) (d : Items κ Nat) : Items κ Nat :=
  pairs.foldl (fun d e => if e.2 ≠ 0 then d.put e.1 e.2 else d) d

theorem tally_append (first rest : List (κ × Nat)) (d : Items κ Nat) :
    tally (first ++ rest) d = tally rest (tally first d) := List.foldl_append

theorem entries_tally_append {d : Items κ Nat} (once : (pairs.map Prod.fst).Nodup)
    (fresh : ∀ k ∈ pairs.map Prod.fst, k ∉ d.keys) :
    (tally pairs d).entries = d.entries ++ pairs.filter (fun e => decide (e.2 ≠ 0)) := by
  induction pairs generalizing d with
  | nil => exact (List.append_nil _).symm
  | cons e rest ih =>
      obtain ⟨k, n⟩ := e
      obtain ⟨apart, once⟩ := List.nodup_cons.mp once
      obtain ⟨new, later⟩ := List.forall_mem_cons.mp fresh
      rw [tally, List.foldl_cons, ← tally, List.filter_cons]
      by_cases zero : n = 0
      · rw [if_neg (not_not.mpr zero), ih once later]
        simp [zero]
      · rw [if_pos zero, ih once ?_, entries_put new]
        · simp [zero]
        · intro j listed old
          rw [keys_put new, List.mem_append] at old
          rcases old with old | self
          · exact later j listed old
          · exact apart (List.mem_singleton.mp self ▸ listed)

theorem entries_tally (once : (pairs.map Prod.fst).Nodup) :
    (tally pairs empty).entries = pairs.filter (fun e => decide (e.2 ≠ 0)) :=
  (entries_tally_append once (fun _ _ => List.not_mem_nil)).trans (List.nil_append _)

theorem mem_keys_tally (once : (pairs.map Prod.fst).Nodup) :
    k ∈ (tally pairs empty).keys ↔ ∃ n, (k, n) ∈ pairs ∧ n ≠ 0 := by
  rw [keys, entries_tally once]
  simp

theorem getD_tally (once : (pairs.map Prod.fst).Nodup) (listed : (k, n) ∈ pairs) :
    (tally pairs empty).getD k 0 = n := by
  by_cases zero : n = 0
  · subst zero
    refine getD_of_notMem (fun found => ?_) 0
    obtain ⟨m, listed', some'⟩ := (mem_keys_tally once).mp found
    exact some' (congrArg Prod.snd (List.inj_on_of_nodup_map once listed' listed rfl))
  · have found : (tally pairs empty).get? k = some n := by
      rw [get?_eq_some, entries_tally once]
      exact List.mem_filter.mpr ⟨listed, decide_eq_true zero⟩
    rw [getD, found, Option.getD_some]

theorem getD_tally_of_notMem (once : (pairs.map Prod.fst).Nodup) (outside : k ∉ pairs.map Prod.fst) :
    (tally pairs empty).getD k 0 = 0 := by
  refine getD_of_notMem (fun found => ?_) 0
  obtain ⟨n, listed, -⟩ := (mem_keys_tally once).mp found
  exact outside (List.mem_map.mpr ⟨_, listed, rfl⟩)

theorem sum_values_tally (once : (pairs.map Prod.fst).Nodup) :
    (tally pairs empty).values.sum = (pairs.map Prod.snd).sum := by
  rw [values, entries_tally once]
  clear once
  induction pairs with
  | nil => rfl
  | cons e rest ih =>
      rw [List.filter_cons]
      by_cases zero : e.2 = 0
      · simpa [zero] using ih
      · simpa [zero] using ih

end Tally

end Items

end Python
