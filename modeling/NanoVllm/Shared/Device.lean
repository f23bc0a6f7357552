import Mathlib.Data.List.Nodup
import Mathlib.Data.List.Range
import Mathlib.Logic.Function.Basic
import Mathlib.Tactic.Ring
import NanoVllm.Shared.Python

set_option autoImplicit false

namespace Device

open Python

def int32 (x : Int) : Int := x.bmod (2 ^ 32)

def int64 (x : Int) : Int := x.bmod (2 ^ 64)

/-- What an address holds. -/
abbrev Memory (α : Type) := Int → α

def storeAll {α : Type} (memory : Memory α) (stores : List (Int × α)) : Memory α :=
  stores.foldl (fun memory store => Function.update memory store.1 store.2) memory

def Launched {α : Type} (memory : Memory α) (stores : List (Int × α)) (memory' : Memory α) : Prop :=
  ∃ order, order.Perm stores ∧ memory' = storeAll memory order

-- The indices of `for (int64_t i = start; i < stop; i += stride)`; `none` is a loop that `fuel` tests did not end.
def stridedLoop (stop stride : Int) : Nat → Int → Option (List Int)
  | 0, _ => none
  | fuel + 1, i =>
      if i < stop then (stridedLoop stop stride fuel (int64 (i + stride))).map (fun later => i :: later)
      else some []

theorem int32_of_fits {x : Int} (lower : -2 ^ 31 ≤ x) (upper : x < 2 ^ 31) : int32 x = x :=
  Int.bmod_eq_of_le (by omega) (by omega)

theorem int32_lt (x : Int) : int32 x < 2 ^ 31 := Int.bmod_lt (by norm_num)

theorem int64_lt (x : Int) : int64 x < 2 ^ 63 := Int.bmod_lt (by norm_num)

theorem int64_of_fits {x : Int} (lower : -2 ^ 63 ≤ x) (upper : x < 2 ^ 63) : int64 x = x :=
  Int.bmod_eq_of_le (by omega) (by omega)

@[simp] theorem int32_natCast {n : Nat} (fits : n < 2 ^ 31) : int32 n = n := int32_of_fits (by omega) (by omega)

@[simp] theorem int64_natCast {n : Nat} (fits : n < 2 ^ 63) : int64 n = n := int64_of_fits (by omega) (by omega)

section Stores

variable {α : Type} {memory memory' : Memory α} {stores order : List (Int × α)} {a : Int} {v : α}

@[simp] theorem storeAll_nil : storeAll memory [] = memory := rfl

@[simp] theorem storeAll_cons (store : Int × α) : storeAll memory (store :: stores) =
    storeAll (Function.update memory store.1 store.2) stores := rfl

theorem storeAll_of_not_mem (untouched : a ∉ stores.map Prod.fst) : storeAll memory stores a = memory a := by
  induction stores generalizing memory with
  | nil => rfl
  | cons store rest ih =>
      rw [List.map_cons, List.mem_cons, not_or] at untouched
      rw [storeAll_cons, ih untouched.2, Function.update_of_ne untouched.1]

theorem storeAll_of_mem (once : (stores.map Prod.fst).Nodup) (listed : (a, v) ∈ stores) :
    storeAll memory stores a = v := by
  induction stores generalizing memory with
  | nil => cases listed
  | cons store rest ih =>
      rw [List.map_cons, List.nodup_cons] at once
      rw [storeAll_cons]
      rcases List.mem_cons.mp listed with rfl | later
      · rw [storeAll_of_not_mem once.1, Function.update_self]
      · exact ih once.2 later

theorem storeAll_perm (once : (stores.map Prod.fst).Nodup) (perm : order.Perm stores) :
    storeAll memory order = storeAll memory stores := by
  have addresses := perm.map Prod.fst
  funext a
  by_cases touched : a ∈ stores.map Prod.fst
  · obtain ⟨⟨a, v⟩, listed, rfl⟩ := List.mem_map.mp touched
    rw [storeAll_of_mem once listed, storeAll_of_mem (addresses.nodup_iff.mpr once) (perm.mem_iff.mpr listed)]
  · rw [storeAll_of_not_mem touched, storeAll_of_not_mem (mt addresses.mem_iff.mp touched)]

theorem Launched.serial (memory : Memory α) (stores : List (Int × α)) :
    Launched memory stores (storeAll memory stores) := ⟨stores, List.Perm.refl stores, rfl⟩

theorem Launched.eq (launched : Launched memory stores memory') (once : (stores.map Prod.fst).Nodup) :
    memory' = storeAll memory stores := by
  obtain ⟨order, perm, rfl⟩ := launched
  exact storeAll_perm once perm

theorem Launched.untouched (launched : Launched memory stores memory') (untouched : a ∉ stores.map Prod.fst) :
    memory' a = memory a := by
  obtain ⟨order, perm, rfl⟩ := launched
  exact storeAll_of_not_mem (mt (perm.map Prod.fst).mem_iff.mp untouched)

end Stores

section Strides

variable {start stop stride fuel : Nat}

theorem range_of_ge (le : stop ≤ start) (positive : 0 < stride) : range start stop stride = [] := by
  have none : (stop - start + stride - 1) / stride = 0 := by
    rw [Nat.sub_eq_zero_of_le le]
    exact Nat.div_eq_of_lt (by omega)
  rw [range, none]
  rfl

theorem range_of_lt (below : start < stop) (positive : 0 < stride) :
    range start stop stride = start :: range (start + stride) stop stride := by
  have count : (stop - start + stride - 1) / stride = (stop - (start + stride) + stride - 1) / stride + 1 := by
    rw [← Nat.add_div_right _ positive]
    by_cases one : stop ≤ start + stride
    · rw [Nat.sub_eq_zero_of_le one]
      have split : stop - start + stride - 1 = stop - start - 1 + stride := by omega
      rw [split, Nat.add_div_right _ positive, Nat.add_div_right _ positive, Nat.div_eq_of_lt (by omega),
        Nat.div_eq_of_lt (by omega)]
    · congr 1
      omega
  rw [range, range, count, List.range_succ_eq_map, List.map_cons, Nat.zero_mul, Nat.add_zero, List.map_map]
  congr 1
  refine List.map_congr_left (fun k _ => ?_)
  rw [Function.comp_apply, Nat.succ_mul]
  omega

theorem mem_range_strided (positive : 0 < stride) {i : Nat} :
    i ∈ range start stop stride ↔ i < stop ∧ ∃ k, i = start + k * stride := by
  rw [range, List.mem_map]
  constructor
  · rintro ⟨k, listed, rfl⟩
    have below : k < pagesFor stride (stop - start) := List.mem_range.mp listed
    rw [lt_pagesFor positive] at below
    exact ⟨by omega, k, rfl⟩
  · rintro ⟨below, k, rfl⟩
    exact ⟨k, List.mem_range.mpr ((lt_pagesFor positive).mpr (by omega)), rfl⟩

theorem nodup_range_strided (positive : 0 < stride) : (range start stop stride).Nodup := by
  refine List.nodup_range.map (fun k k' same => ?_)
  exact Nat.eq_of_mul_eq_mul_right positive (Nat.add_left_cancel same)

theorem stridedLoop_eq (positive : 0 < stride) (fits : stop + stride ≤ 2 ^ 63) (enough : stop - start < fuel) :
    stridedLoop stop stride fuel start = some ((range start stop stride).map Nat.cast) := by
  induction fuel generalizing start with
  | zero => exact absurd enough (Nat.not_lt_zero _)
  | succ fuel ih =>
      rw [stridedLoop]
      by_cases below : start < stop
      · have next : int64 (start + stride : Int) = (start + stride : Nat) := by
          rw [Nat.cast_add]
          exact int64_of_fits (by omega) (by omega)
        rw [if_pos (Int.ofNat_lt.mpr below), next, ih (by omega), range_of_lt below positive]
        rfl
      · rw [if_neg (mt Int.ofNat_lt.mp below), range_of_ge (not_lt.mp below) positive]
        rfl

theorem flatMap_range_perm (positive : 0 < stride) :
    ((List.range stride).flatMap (fun thread => range thread stop stride)).Perm (List.range stop) := by
  have residue {thread i : Nat} (below : thread < stride) (visited : i ∈ range thread stop stride) :
      i % stride = thread := by
    obtain ⟨-, k, rfl⟩ := (mem_range_strided positive).mp visited
    rw [Nat.add_mul_mod_self_right, Nat.mod_eq_of_lt below]
  have once : ((List.range stride).flatMap (fun thread => range thread stop stride)).Nodup := by
    rw [List.nodup_flatMap]
    refine ⟨fun thread _ => nodup_range_strided positive, List.nodup_range.pairwise_of_forall_ne ?_⟩
    intro thread listed thread' listed' other i visited visited'
    exact other ((residue (List.mem_range.mp listed) visited).symm.trans (residue (List.mem_range.mp listed') visited'))
  rw [List.perm_ext_iff_of_nodup once List.nodup_range]
  intro i
  rw [List.mem_flatMap, List.mem_range]
  constructor
  · rintro ⟨thread, -, visited⟩
    exact ((mem_range_strided positive).mp visited).1
  · intro below
    refine ⟨i % stride, List.mem_range.mpr (Nat.mod_lt i positive),
      (mem_range_strided positive).mpr ⟨below, i / stride, ?_⟩⟩
    rw [Nat.mul_comm]
    exact (Nat.mod_add_div i stride).symm

theorem flatMap_range_blocks (blocks threads : Nat) :
    (List.range blocks).flatMap (fun block => (List.range threads).map (fun thread => block * threads + thread)) =
      List.range (blocks * threads) := by
  induction blocks with
  | zero => simp
  | succ blocks ih =>
      rw [List.range_succ, List.flatMap_append, ih, List.flatMap_singleton, Nat.succ_mul, List.range_add]

end Strides

end Device
