import NanoVllm.Model.KVCacheStore

set_option autoImplicit false

namespace NanoVllm

open Raising Device

section

variable {α : Type} {key value : KVTensor α} {kCache vCache : KVCacheShape} {slotMapping : List Int}

-- No two rows have the same slot, apart from those without one.
def DistinctSlots (slotMapping : List Int) : Prop :=
  ∀ (i j : Nat) (slot : Int), slotMapping[i]? = some slot → slotMapping[j]? = some slot → slot ≠ -1 → i = j

/-- A batch of the store: contiguous NHD caches, and a slot for each row, which is -1 or a place of its own. -/
structure StoreBatch (key value : KVTensor α) (kCache vCache : KVCacheShape) (slotMapping : List Int) : Prop where
  heads_pos : 0 < key.numHeads
  dim_pos : 0 < key.headDim
  value_rows : value.rows = key.rows
  value_heads : value.numHeads = key.numHeads
  value_dim : value.headDim = key.headDim
  key_strides : key.dimStride = 1 ∧ key.headStride = key.headDim
  value_strides : value.dimStride = 1 ∧ value.headStride = key.headDim
  k_cache : kCache.numHeads = key.numHeads ∧ kCache.headDim = key.headDim
  v_cache : vCache.numBlocks = kCache.numBlocks ∧ vCache.blockSize = kCache.blockSize ∧
    vCache.numHeads = key.numHeads ∧ vCache.headDim = key.headDim
  slots : slotMapping.length = key.rows
  inside : ∀ slot ∈ slotMapping, slot ≠ -1 →
    0 ≤ slot ∧ slot < (kCache.numBlocks * kCache.blockSize : Nat) ∧ slot < 2 ^ 31
  distinct : DistinctSlots slotMapping

-- The stores of the rows at their slots, in exact arithmetic.
def rowStores (x : KVTensor α) (slotMapping : List Int) : List (Int × α) :=
  (List.range x.rows).flatMap (fun i => if slotMapping.getD i 0 = -1 then []
    else (List.range x.width).map (fun j : Nat => (slotMapping.getD i 0 * x.width + j, x.row i j)))

structure RowsStored (x : KVTensor α) (slotMapping : List Int) (before after : Memory α) : Prop where
  rows : ∀ (i : Nat) (slot : Int), slotMapping[i]? = some slot → slot ≠ -1 → ∀ j < x.width,
    after (slot * x.width + j) = x.row i j
  rest : ∀ a, (∀ slot ∈ slotMapping, slot ≠ -1 → ¬(slot * x.width ≤ a ∧ a < (slot + 1) * x.width)) → after a = before a

/-- Whatever the caches hold, and in whatever order the programs store, the kernel leaves what the native store does. -/
def StoreAgrees (key value : KVTensor α) (kCache vCache : KVCacheShape) (slotMapping : List Int)
    (caches : KVCaches α) : Prop :=
  ∃ stores native, storeKvcache key value kCache vCache slotMapping = .ok stores ∧
    forwardNative key value kCache vCache slotMapping caches = .ok (some native) ∧
    RowsStored key slotMapping caches.k native.k ∧ RowsStored value slotMapping caches.v native.v ∧
    ∀ k v, Launched caches.k stores.k k → Launched caches.v stores.v v → k = native.k ∧ v = native.v

namespace KVTensor

def withData (x : KVTensor α) (data : Memory α) : KVTensor α := { x with data }

theorem row_eq {x : KVTensor α} (strides : x.dimStride = 1 ∧ x.headStride = x.headDim) (i j : Nat) :
    x.row i j = x.data (i * x.rowStride + j : Nat) := by
  rw [row, strides.1, strides.2, Nat.mul_one, Nat.add_assoc, Nat.div_add_mod']

end KVTensor

section Rows

variable {x : KVTensor α} {a : Int} {i j : Nat} {slot : Int} {v : α}

theorem mem_rowStores : (a, v) ∈ rowStores x slotMapping ↔ ∃ i < x.rows, slotMapping.getD i 0 ≠ -1 ∧
    ∃ j < x.width, a = slotMapping.getD i 0 * x.width + j ∧ v = x.row i j := by
  simp only [rowStores, List.mem_flatMap, List.mem_range]
  refine exists_congr (fun i => and_congr_right (fun _ => ?_))
  split
  next free => simp only [free, List.not_mem_nil, ne_eq, not_true_eq_false, false_and]
  next taken =>
    simp only [List.mem_map, List.mem_range, Prod.mk.injEq, ne_eq, taken, not_false_eq_true, true_and]
    exact exists_congr (fun j => and_congr_right (fun _ => and_congr eq_comm eq_comm))

theorem slot_of_place {width : Nat} {slot' : Int} {j' : Nat} (inside : j < width) (inside' : j' < width)
    (same : slot * width + j = slot' * width + j') : slot = slot' ∧ j = j' := by
  have quotient {s : Int} {k : Nat} (below : k < width) : (s * width + k) / width = s := by
    rw [Int.add_comm, Int.add_mul_ediv_right _ _ (by omega), Int.ediv_eq_zero_of_lt (by omega) (by omega), zero_add]
  have slots : slot = slot' := by
    rw [← quotient (s := slot) inside, same, quotient inside']
  subst slots
  exact ⟨rfl, by omega⟩

theorem slot_entry (below : i < slotMapping.length) : slotMapping[i]? = some (slotMapping.getD i 0) := by
  rw [List.getD_eq_getElem?_getD, List.getElem?_eq_getElem below, Option.getD_some]

theorem nodup_rowStores (length : slotMapping.length = x.rows) (distinct : DistinctSlots slotMapping) :
    ((rowStores x slotMapping).map Prod.fst).Nodup := by
  have entry {i : Nat} (listed : i ∈ List.range x.rows) : slotMapping[i]? = some (slotMapping.getD i 0) :=
    slot_entry (length ▸ List.mem_range.mp listed)
  rw [rowStores, List.map_flatMap, List.nodup_flatMap]
  constructor
  · intro i _
    split
    · exact List.nodup_nil
    · rw [List.map_map]
      refine List.nodup_range.map (fun j j' same => ?_)
      simp only [Function.comp_apply, add_right_inj, Nat.cast_inj] at same
      exact same
  · refine List.nodup_range.pairwise_of_forall_ne (fun i listed i' listed' other => ?_)
    intro a first second
    dsimp only at first second
    split at first
    next => cases first
    next taken =>
      split at second
      next => cases second
      next =>
        simp only [List.map_map, List.mem_map, List.mem_range, Function.comp_apply] at first second
        obtain ⟨j, inside, rfl⟩ := first
        obtain ⟨j', inside', same⟩ := second
        obtain ⟨slots, -⟩ := slot_of_place inside' inside same
        have entry' := entry listed'
        rw [slots] at entry'
        exact other (distinct i i' _ (entry listed) entry' taken)

theorem rowsStored (length : slotMapping.length = x.rows) (distinct : DistinctSlots slotMapping)
    (memory : Memory α) : RowsStored x slotMapping memory (storeAll memory (rowStores x slotMapping)) := by
  constructor
  case rows =>
    intro i slot entry taken j inside
    have below : i < x.rows := length ▸ (List.getElem?_eq_some_iff.mp entry).1
    have value : slotMapping.getD i 0 = slot := by rw [List.getD_eq_getElem?_getD, entry, Option.getD_some]
    refine storeAll_of_mem (nodup_rowStores length distinct) (mem_rowStores.mpr ⟨i, below, ?_, j, inside, ?_, rfl⟩)
    · rw [value]
      exact taken
    · rw [value]
  case rest =>
    intro a outside
    refine storeAll_of_not_mem (fun touched => ?_)
    obtain ⟨⟨a', v⟩, listed, rfl⟩ := List.mem_map.mp touched
    obtain ⟨i, below, taken, j, inside, place, -⟩ := mem_rowStores.mp listed
    have member : slotMapping.getD i 0 ∈ slotMapping := List.mem_of_getElem? (slot_entry (length ▸ below))
    refine outside _ member taken ?_
    rw [place, Int.add_mul, Int.one_mul]
    omega

end Rows

section Native

variable {β γ δ : Type}

theorem flatMap_selectMask (p : β → Bool) (f : β × γ → List δ) {xs : List β} {ys : List γ}
    (length : xs.length = ys.length) :
    ((selectMask xs (xs.map p)).zip (selectMask ys (xs.map p))).flatMap f =
      (xs.zip ys).flatMap (fun e => if p e.1 then f e else []) := by
  induction xs generalizing ys with
  | nil => rfl
  | cons x xs ih =>
      cases ys with
      | nil => cases length
      | cons y ys =>
          have later := ih (Nat.succ.inj length)
          simp only [selectMask] at later
          cases chosen : p x <;>
            simp [selectMask, chosen, later]

theorem zip_range (xs : List β) (default : β) (g : Nat → γ) :
    xs.zip ((List.range xs.length).map g) = (List.range xs.length).map (fun i => (xs.getD i default, g i)) := by
  refine List.ext_getElem (by simp) (fun i inside _ => ?_)
  have below : i < xs.length := by simpa using inside
  simp [List.getElem_zip, List.getD_eq_getElem?_getD, below]

theorem length_selectMask {xs : List β} {ys : List γ} (length : xs.length = ys.length) (mask : List Bool) :
    (selectMask xs mask).length = (selectMask ys mask).length := by
  induction mask generalizing xs ys with
  | nil => simp [selectMask]
  | cons chosen mask ih =>
      cases xs with
      | nil => cases ys <;> simp_all [selectMask]
      | cons x xs =>
          cases ys with
          | nil => cases length
          | cons y ys =>
              have later := ih (Nat.succ.inj length)
              simp only [selectMask, List.length_map] at later
              cases chosen <;> simp [selectMask, later]

end Native

theorem mem_selectMask {β : Type} {p : β → Bool} {xs : List β} {y : β} (listed : y ∈ selectMask xs (xs.map p)) :
    y ∈ xs ∧ p y = true := by
  induction xs with
  | nil => cases listed
  | cons x xs ih =>
      cases chosen : p x with
      | false =>
          simp only [selectMask, List.map_cons, List.zip_cons_cons, chosen, Bool.false_eq_true, not_false_eq_true,
            List.filter_cons_of_neg] at listed
          exact (ih listed).imp_left (List.mem_cons_of_mem x)
      | true =>
          simp only [selectMask, List.map_cons, List.zip_cons_cons, chosen, List.filter_cons_of_pos,
            List.mem_cons] at listed
          rcases listed with rfl | later
          · exact ⟨List.mem_cons_self, chosen⟩
          · exact (ih later).imp_left (List.mem_cons_of_mem x)

theorem indexCopy_eq {x : KVTensor α} {places : Nat} (length : slotMapping.length = x.rows)
    (inside : ∀ slot ∈ slotMapping, slot ≠ -1 → 0 ≤ slot ∧ slot < places) (memory : Memory α) :
    indexCopy places x.width (selectMask slotMapping (slotMapping.map (fun slot => decide (0 ≤ slot))))
      (selectMask ((List.range x.rows).map x.row) (slotMapping.map (fun slot => decide (0 ≤ slot)))) memory =
      some (storeAll memory (rowStores x slotMapping)) := by
  have lengths : slotMapping.length = ((List.range x.rows).map x.row).length := by simp [length]
  have within : ∀ slot ∈ selectMask slotMapping (slotMapping.map (fun slot => decide (0 ≤ slot))),
      0 ≤ slot ∧ slot < places := by
    intro slot listed
    obtain ⟨member, chosen⟩ := mem_selectMask listed
    have positive : 0 ≤ slot := of_decide_eq_true chosen
    exact inside slot member (by omega)
  rw [indexCopy, if_pos ⟨(length_selectMask lengths _).symm, within⟩, flatMap_selectMask _ _ lengths, ← length,
    zip_range slotMapping 0, List.flatMap_map, rowStores, length]
  congr 2
  refine List.flatMap_congr (fun i listed => ?_)
  have member := List.mem_of_getElem? (slot_entry (length ▸ List.mem_range.mp listed))
  by_cases free : slotMapping.getD i 0 = -1
  · simp only [free]
    rfl
  · have positive := (inside _ member free).1
    simp only [positive, decide_true, if_true, free, if_false]

theorem StoreBatch.native (h : StoreBatch key value kCache vCache slotMapping) (caches : KVCaches α) :
    forwardNative key value kCache vCache slotMapping caches =
      .ok (some
        { k := storeAll caches.k (rowStores key slotMapping)
          v := storeAll caches.v (rowStores value slotMapping) }) := by
  have width : value.width = key.width := by rw [KVTensor.width, KVTensor.width, h.value_heads, h.value_dim]
  have positive : 0 < key.width := Nat.mul_pos h.heads_pos h.dim_pos
  have kView : flatRows kCache key.width = some (kCache.numBlocks * kCache.blockSize) := by
    have numel : kCache.numel = kCache.numBlocks * kCache.blockSize * key.width := by
      rw [KVCacheShape.numel, h.k_cache.1, h.k_cache.2, Nat.mul_assoc, KVTensor.width]
    rw [flatRows, numel, if_pos ⟨positive.ne', Nat.mul_mod_left _ _⟩, Nat.mul_div_cancel _ positive]
  have vView : flatRows vCache key.width = some (kCache.numBlocks * kCache.blockSize) := by
    have numel : vCache.numel = kCache.numBlocks * kCache.blockSize * key.width := by
      rw [KVCacheShape.numel, h.v_cache.1, h.v_cache.2.1, h.v_cache.2.2.1, h.v_cache.2.2.2, Nat.mul_assoc,
        KVTensor.width]
    rw [flatRows, numel, if_pos ⟨positive.ne', Nat.mul_mod_left _ _⟩, Nat.mul_div_cancel _ positive]
  have inside : ∀ slot ∈ slotMapping, slot ≠ -1 → 0 ≤ slot ∧ slot < (kCache.numBlocks * kCache.blockSize : Nat) :=
    fun slot listed taken => (h.inside slot listed taken).imp_right And.left
  have kCopy := indexCopy_eq (x := key) h.slots inside caches.k
  have vCopy := indexCopy_eq (x := value) (h.slots.trans h.value_rows.symm) inside caches.v
  rw [width, h.value_rows] at vCopy
  simp only [forwardNative, require_of h.slots, kView, vView, kCopy, vCopy, Option.bind_eq_bind, Option.bind_some,
    h.value_rows, h.value_heads, h.value_dim, and_self, if_true]
  rfl

def SlotFits (width : Nat) (slot : Int) : Prop := (slot + 1) * width ≤ 2 ^ 31

instance (width : Nat) (slot : Int) : Decidable (SlotFits width slot) := inferInstanceAs (Decidable (_ ≤ _))

-- Every element of row `i` has an offset that fits the integers that the kernel computes it in.
def LoadFits (stride width i : Nat) : Prop := i * stride + width ≤ if stride < 2 ^ 31 then 2 ^ 31 else 2 ^ 63

instance (stride width i : Nat) : Decidable (LoadFits stride width i) := inferInstanceAs (Decidable (_ ≤ _))

theorem loadOffset_of_fits {stride width i j : Nat} (fits : LoadFits stride width i) (inside : j < width) :
    loadOffset stride i j = (i * stride + j : Nat) := by
  have start : (i : Int) * stride = (i * stride : Nat) := by rw [Nat.cast_mul]
  unfold LoadFits at fits
  unfold loadOffset
  rw [start, Nat.cast_add]
  split at fits
  next narrow =>
    rw [if_pos narrow, int32_of_fits (x := (i * stride : Nat)) (by omega) (by omega), int32_of_fits (by omega) (by omega)]
  next wide =>
    rw [if_neg wide, int64_of_fits (x := (i * stride : Nat)) (by omega) (by omega), int64_of_fits (by omega) (by omega)]

theorem loadOffset_ne {stride width i : Nat} (beyond : ¬LoadFits stride width i) (positive : 0 < width) :
    loadOffset stride i (width - 1) ≠ (i * stride + (width - 1) : Nat) := by
  unfold LoadFits at beyond
  unfold loadOffset
  split at beyond
  next narrow =>
    rw [if_pos narrow]
    have below := int32_lt (int32 (i * stride) + (width - 1 : Nat))
    omega
  next wide =>
    rw [if_neg wide]
    have below := int64_lt (int64 (i * stride) + (width - 1 : Nat))
    omega

theorem exists_load_differs [Nontrivial α] {stride width i : Nat} (beyond : ¬LoadFits stride width i)
    (positive : 0 < width) :
    ∃ data : Memory α, data (loadOffset stride i (width - 1)) ≠ data (i * stride + (width - 1) : Nat) := by
  obtain ⟨a, b, different⟩ := exists_pair_ne α
  refine ⟨Function.update (fun _ => a) (i * stride + (width - 1) : Nat) b, ?_⟩
  rwa [Function.update_of_ne (loadOffset_ne beyond positive), Function.update_self]

/-- The launch is accepted, and no offset of a row that is stored overflows. -/
structure StoreFits (key value : KVTensor α) (slotMapping : List Int) : Prop where
  lanes : key.width.isPowerOfTwo
  numel : key.width ≤ 2 ^ 20
  grid : key.rows < 2 ^ 31
  slots : ∀ slot ∈ slotMapping, slot ≠ -1 → SlotFits key.width slot
  loads : ∀ i < key.rows, slotMapping.getD i 0 ≠ -1 →
    LoadFits key.rowStride key.width i ∧ LoadFits value.rowStride key.width i

section Kernel

variable {x : KVTensor α} {i : Nat}

theorem storeKvcacheKernel_eq (lower : slotMapping.getD i 0 ≠ -1 → 0 ≤ slotMapping.getD i 0)
    (fits : slotMapping.getD i 0 ≠ -1 → SlotFits x.width (slotMapping.getD i 0)) :
    storeKvcacheKernel x slotMapping x.width i = if slotMapping.getD i 0 = -1 then []
      else (List.range x.width).map (fun j : Nat =>
        (slotMapping.getD i 0 * x.width + j, x.data (loadOffset x.rowStride i j))) := by
  unfold storeKvcacheKernel
  dsimp only
  split
  · rfl
  next taken =>
    have first := Int.mul_nonneg (lower taken) (Int.natCast_nonneg x.width)
    have last := fits taken
    rw [SlotFits, Int.add_mul, Int.one_mul] at last
    refine List.map_congr_left (fun j listed => ?_)
    rw [List.mem_range] at listed
    have start : int32 (slotMapping.getD i 0 * x.width) = slotMapping.getD i 0 * x.width :=
      int32_of_fits (by omega) (by omega)
    rw [start, int32_of_fits (by omega) (by omega)]

theorem storeKvcacheKernel_lt {d : Nat} {store : Int × α} (listed : store ∈ storeKvcacheKernel x slotMapping d i) :
    store.1 < 2 ^ 31 := by
  unfold storeKvcacheKernel at listed
  dsimp only at listed
  split at listed
  · cases listed
  · obtain ⟨j, -, rfl⟩ := List.mem_map.mp listed
    exact int32_lt _

end Kernel

theorem arange_ok {d : Nat} {u : Unit} : arange d = .ok u ↔ d.isPowerOfTwo ∧ d ≤ 2 ^ 20 := by
  constructor
  · intro run
    obtain ⟨_, power, run⟩ := except_bind_ok run
    exact ⟨(except_require_ok _ _ _).mp power, (except_require_ok _ _ _).mp run⟩
  · rintro ⟨power, numel⟩
    rw [arange, require_of power, require_of numel]
    rfl

namespace StoreBatch

theorem width_eq (h : StoreBatch key value kCache vCache slotMapping) : value.width = key.width := by
  rw [KVTensor.width, KVTensor.width, h.value_heads, h.value_dim]

theorem width_pos (h : StoreBatch key value kCache vCache slotMapping) : 0 < key.width :=
  Nat.mul_pos h.heads_pos h.dim_pos

theorem slot_inside (h : StoreBatch key value kCache vCache slotMapping) {i : Nat} (below : i < key.rows) :
    slotMapping.getD i 0 ∈ slotMapping :=
  List.mem_of_getElem? (slot_entry (h.slots ▸ below))

theorem launch (h : StoreBatch key value kCache vCache slotMapping) :
    storeKvcache key value kCache vCache slotMapping = (do
      arange key.width
      require (key.rows < 2 ^ 31) (.overflowError "signed integer is greater than maximum")
      pure
        { k := (List.range key.rows).flatMap (storeKvcacheKernel key slotMapping key.width)
          v := (List.range key.rows).flatMap (storeKvcacheKernel value slotMapping key.width) }) := by
  have dims : key.dimStride = 1 ∧ value.dimStride = 1 := ⟨h.key_strides.1, h.value_strides.1⟩
  have heads : key.headStride = key.headDim ∧ value.headStride = key.headDim :=
    ⟨h.key_strides.2, h.value_strides.2⟩
  have caches : kCache.slotStride = key.numHeads * key.headDim ∧ vCache.slotStride = key.numHeads * key.headDim := by
    simp only [KVCacheShape.slotStride, h.k_cache, h.v_cache, and_self]
  simp only [storeKvcache, require_of dims, require_of heads, require_of caches, require_of h.slots]
  rfl

theorem launch_ok (h : StoreBatch key value kCache vCache slotMapping) {stores : KVStores α} :
    storeKvcache key value kCache vCache slotMapping = .ok stores ↔
      (key.width.isPowerOfTwo ∧ key.width ≤ 2 ^ 20) ∧ key.rows < 2 ^ 31 ∧ stores =
        { k := (List.range key.rows).flatMap (storeKvcacheKernel key slotMapping key.width)
          v := (List.range key.rows).flatMap (storeKvcacheKernel value slotMapping key.width) } := by
  rw [h.launch]
  constructor
  · intro run
    obtain ⟨_, lanes, run⟩ := except_bind_ok run
    obtain ⟨_, grid, run⟩ := except_bind_ok run
    exact ⟨arange_ok.mp lanes, (except_require_ok _ _ _).mp grid, ((except_pure_ok _ _).mp run).symm⟩
  · rintro ⟨lanes, grid, rfl⟩
    rw [arange_ok (u := ()) |>.mpr lanes, except_ok_bind, require_of grid]
    rfl

section Stores

variable {x : KVTensor α}

theorem places (h : StoreBatch key value kCache vCache slotMapping) (rows : x.rows = key.rows)
    (fits : ∀ slot ∈ slotMapping, slot ≠ -1 → SlotFits x.width slot) :
    ((List.range key.rows).flatMap (storeKvcacheKernel x slotMapping x.width)).map Prod.fst =
      (rowStores x slotMapping).map Prod.fst := by
  rw [rowStores, rows, List.map_flatMap, List.map_flatMap]
  refine List.flatMap_congr (fun i listed => ?_)
  have member := h.slot_inside (List.mem_range.mp listed)
  rw [storeKvcacheKernel_eq (fun taken => (h.inside _ member taken).1) (fits _ member)]
  split
  · rfl
  · rw [List.map_map, List.map_map]
    rfl

theorem stores_eq (h : StoreBatch key value kCache vCache slotMapping) (rows : x.rows = key.rows)
    (strides : x.dimStride = 1 ∧ x.headStride = x.headDim)
    (fits : ∀ slot ∈ slotMapping, slot ≠ -1 → SlotFits x.width slot)
    (loads : ∀ i < key.rows, slotMapping.getD i 0 ≠ -1 → LoadFits x.rowStride x.width i) :
    (List.range key.rows).flatMap (storeKvcacheKernel x slotMapping x.width) = rowStores x slotMapping := by
  rw [rowStores, rows]
  refine List.flatMap_congr (fun i listed => ?_)
  have below := List.mem_range.mp listed
  have member := h.slot_inside below
  rw [storeKvcacheKernel_eq (fun taken => (h.inside _ member taken).1) (fits _ member)]
  split
  · rfl
  next taken =>
    refine List.map_congr_left (fun j listed => ?_)
    rw [loadOffset_of_fits (loads i below taken) (List.mem_range.mp listed), KVTensor.row_eq strides]

end Stores

theorem agrees (h : StoreBatch key value kCache vCache slotMapping) (fits : StoreFits key value slotMapping)
    (caches : KVCaches α) : StoreAgrees key value kCache vCache slotMapping caches := by
  have length : slotMapping.length = value.rows := h.slots.trans h.value_rows.symm
  have kStores := h.stores_eq rfl h.key_strides fits.slots (fun i below taken => (fits.loads i below taken).1)
  have vStores := h.stores_eq h.value_rows ⟨h.value_strides.1, h.value_strides.2.trans h.value_dim.symm⟩
    (h.width_eq ▸ fits.slots) (h.width_eq ▸ fun i below taken => (fits.loads i below taken).2)
  rw [h.width_eq] at vStores
  refine ⟨_, _, h.launch_ok.mpr ⟨⟨fits.lanes, fits.numel⟩, fits.grid, rfl⟩, h.native caches,
    rowsStored h.slots h.distinct caches.k, rowsStored length h.distinct caches.v, fun k v kLaunched vLaunched => ?_⟩
  dsimp only at kLaunched vLaunched
  rw [kStores] at kLaunched
  rw [vStores] at vLaunched
  exact ⟨kLaunched.eq (nodup_rowStores h.slots h.distinct), vLaunched.eq (nodup_rowStores length h.distinct)⟩

theorem disagrees (h : StoreBatch key value kCache vCache slotMapping) {i : Nat} {slot : Int}
    (entry : slotMapping[i]? = some slot) (taken : slot ≠ -1) (beyond : ¬SlotFits key.width slot)
    {caches : KVCaches α} (differs : caches.k (slot * key.width + (key.width - 1 : Nat)) ≠ key.row i (key.width - 1)) :
    ¬StoreAgrees key value kCache vCache slotMapping caches := by
  rintro ⟨stores, native, launch, forward, kRows, -, same⟩
  obtain ⟨-, -, rfl⟩ := h.launch_ok.mp launch
  have positive := h.width_pos
  have stored := kRows.rows i slot entry taken (key.width - 1) (by omega)
  obtain ⟨unchanged, -⟩ := same _ _ (Launched.serial caches.k _) (Launched.serial caches.v _)
  rw [← unchanged, storeAll_of_not_mem] at stored
  · exact differs stored
  · intro touched
    obtain ⟨store, listed, place⟩ := List.mem_map.mp touched
    obtain ⟨idx, -, listed⟩ := List.mem_flatMap.mp listed
    have below := storeKvcacheKernel_lt listed
    rw [SlotFits, Int.add_mul, Int.one_mul] at beyond
    omega

theorem misread (h : StoreBatch key value kCache vCache slotMapping) {x : KVTensor α} (rows : x.rows = key.rows)
    (strides : x.dimStride = 1 ∧ x.headStride = x.headDim) (positive : 0 < x.width)
    (fits : ∀ slot ∈ slotMapping, slot ≠ -1 → SlotFits x.width slot) {i : Nat} (below : i < key.rows)
    (taken : slotMapping.getD i 0 ≠ -1)
    (differs : x.data (loadOffset x.rowStride i (x.width - 1)) ≠ x.data (i * x.rowStride + (x.width - 1) : Nat))
    {memory : Memory α} :
    ¬RowsStored x slotMapping memory
      (storeAll memory ((List.range key.rows).flatMap (storeKvcacheKernel x slotMapping x.width))) := by
  intro stored
  have member := h.slot_inside below
  have last : x.width - 1 < x.width := by omega
  have right := stored.rows i _ (slot_entry (h.slots ▸ below)) taken (x.width - 1) last
  have once : (((List.range key.rows).flatMap (storeKvcacheKernel x slotMapping x.width)).map Prod.fst).Nodup := by
    rw [h.places rows fits]
    exact nodup_rowStores (h.slots.trans rows.symm) h.distinct
  rw [KVTensor.row_eq strides] at right
  refine differs ((storeAll_of_mem once (List.mem_flatMap.mpr ⟨i, List.mem_range.mpr below, ?_⟩)).symm.trans right)
  rw [storeKvcacheKernel_eq (fun taken => (h.inside _ member taken).1) (fits _ member), if_neg taken]
  exact List.mem_map.mpr ⟨x.width - 1, List.mem_range.mpr last, rfl⟩

theorem withData (h : StoreBatch key value kCache vCache slotMapping) (keyData valueData : Memory α) :
    StoreBatch (key.withData keyData) (value.withData valueData) kCache vCache slotMapping :=
  ⟨h.heads_pos, h.dim_pos, h.value_rows, h.value_heads, h.value_dim, h.key_strides, h.value_strides, h.k_cache,
    h.v_cache, h.slots, h.inside, h.distinct⟩

end StoreBatch

/-- Whatever the tensors and the caches hold, the kernel agrees with the native store, exactly when its launch is
accepted and no offset of a row that it stores overflows. -/
theorem store_agrees_iff [Nontrivial α] (h : StoreBatch key value kCache vCache slotMapping) :
    (∀ (keyData valueData : Memory α) (caches : KVCaches α),
      StoreAgrees (key.withData keyData) (value.withData valueData) kCache vCache slotMapping caches) ↔
      StoreFits key value slotMapping := by
  constructor
  case mpr =>
    intro fits keyData valueData caches
    exact (h.withData keyData valueData).agrees ⟨fits.lanes, fits.numel, fits.grid, fits.slots, fits.loads⟩ caches
  case mp =>
    intro agrees
    obtain ⟨a, b, different⟩ := exists_pair_ne α
    have slots : ∀ slot ∈ slotMapping, slot ≠ -1 → SlotFits key.width slot := by
      intro slot listed taken
      by_contra beyond
      obtain ⟨i, entry⟩ := List.getElem?_of_mem listed
      exact (h.withData (fun _ => b) value.data).disagrees entry taken beyond different
        (agrees _ _ ⟨fun _ => a, fun _ => a⟩)
    obtain ⟨_, _, launch, -⟩ := agrees (fun _ => a) (fun _ => a) ⟨fun _ => a, fun _ => a⟩
    obtain ⟨⟨lanes, numel⟩, grid, -⟩ := (h.withData _ _).launch_ok.mp launch
    refine ⟨lanes, numel, grid, slots, fun i below taken => ⟨?key, ?value⟩⟩
    case key =>
      by_contra beyond
      obtain ⟨data, differs⟩ := exists_load_differs (α := α) beyond h.width_pos
      have batch := h.withData data value.data
      obtain ⟨stores, native, launch, -, kRows, -, same⟩ := agrees data value.data ⟨fun _ => a, fun _ => a⟩
      obtain ⟨-, -, rfl⟩ := batch.launch_ok.mp launch
      obtain ⟨stored, -⟩ := same _ _ (Launched.serial _ _) (Launched.serial _ _)
      exact batch.misread rfl h.key_strides h.width_pos slots below taken differs (stored ▸ kRows)
    case value =>
      by_contra beyond
      rw [← h.width_eq] at beyond slots
      have positive : 0 < value.width := h.width_eq ▸ h.width_pos
      obtain ⟨data, differs⟩ := exists_load_differs (α := α) beyond positive
      have batch := h.withData key.data data
      obtain ⟨stores, native, launch, -, -, vRows, same⟩ := agrees key.data data ⟨fun _ => a, fun _ => a⟩
      obtain ⟨-, -, rfl⟩ := batch.launch_ok.mp launch
      obtain ⟨-, stored⟩ := same _ _ (Launched.serial _ _) (Launched.serial _ _)
      have width : (key.withData key.data).width = (value.withData data).width := h.width_eq.symm
      dsimp only at stored
      rw [width] at stored
      exact batch.misread (x := value.withData data) h.value_rows
        ⟨h.value_strides.1, h.value_strides.2.trans h.value_dim.symm⟩
        positive slots below taken differs (stored ▸ vRows)

theorem DistinctSlots.of_nodup (once : slotMapping.Nodup) : DistinctSlots slotMapping := by
  intro i j slot first second _
  obtain ⟨inside, rfl⟩ := List.getElem?_eq_some_iff.mp first
  obtain ⟨inside', same⟩ := List.getElem?_eq_some_iff.mp second
  exact ((once.getElem_inj_iff).mp same).symm

-- Rows of `numHeads * headDim` elements without gaps.
def denseRows (rows numHeads headDim : Nat) (data : Memory Int) : KVTensor Int :=
  { rows
    numHeads
    headDim
    rowStride := numHeads * headDim
    headStride := headDim
    dimStride := 1
    data }

theorem StoreBatch.dense {rows numHeads headDim numBlocks blockSize : Nat} (data : Memory Int) (heads : 0 < numHeads)
    (dim : 0 < headDim) (slots : slotMapping.length = rows) (once : slotMapping.Nodup)
    (inside : ∀ slot ∈ slotMapping, slot ≠ -1 → 0 ≤ slot ∧ slot < (numBlocks * blockSize : Nat) ∧ slot < 2 ^ 31) :
    StoreBatch (denseRows rows numHeads headDim data) (denseRows rows numHeads headDim data)
      ⟨numBlocks, blockSize, numHeads, headDim⟩ ⟨numBlocks, blockSize, numHeads, headDim⟩ slotMapping :=
  ⟨heads, dim, rfl, rfl, rfl, ⟨rfl, rfl⟩, ⟨rfl, rfl⟩, ⟨rfl, rfl⟩, ⟨rfl, rfl, rfl, rfl⟩, slots, inside,
    DistinctSlots.of_nodup once⟩

theorem store_agrees_small : StoreAgrees (denseRows 2 2 4 id) (denseRows 2 2 4 id) ⟨1, 4, 2, 4⟩ ⟨1, 4, 2, 4⟩ [3, -1]
    ⟨id, fun place => -place⟩ :=
  (store_agrees_iff (StoreBatch.dense id (by decide) (by decide) rfl (by decide) (by decide))).mpr
    ⟨by decide, by decide, by decide, by decide, by decide⟩ id id _

/-- With 8 heads of 128, slot 2097152 of a cache with 131073 pages of 16 begins at element `2 ^ 31`. -/
theorem store_overflows :
    StoreBatch (denseRows 1 8 128 (fun _ => 1)) (denseRows 1 8 128 (fun _ => 1)) ⟨131073, 16, 8, 128⟩
        ⟨131073, 16, 8, 128⟩ [2097152] ∧
      ¬StoreAgrees (denseRows 1 8 128 (fun _ => 1)) (denseRows 1 8 128 (fun _ => 1)) ⟨131073, 16, 8, 128⟩
        ⟨131073, 16, 8, 128⟩ [2097152] ⟨fun _ => 0, fun _ => 0⟩ := by
  have batch : StoreBatch (denseRows 1 8 128 (fun _ => 1)) (denseRows 1 8 128 (fun _ => 1)) ⟨131073, 16, 8, 128⟩
      ⟨131073, 16, 8, 128⟩ [2097152] :=
    StoreBatch.dense _ (by decide) (by decide) rfl (by decide) (by decide)
  refine ⟨batch, batch.disagrees (i := 0) rfl (by decide) ?_ ?_⟩
  · decide
  · exact zero_ne_one

end

end NanoVllm
