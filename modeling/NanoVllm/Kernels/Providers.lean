import NanoVllm.Kernels.KVCacheStore
import NanoVllm.Model.Decoder

set_option autoImplicit false

namespace NanoVllm

open Python Raising Device Torch

namespace KVCacheStore

variable {R : Type}

-- `native_torch`
def nativeTorch : KVCacheStore R where
  forward key value kCache vCache slotMapping caches := do
    let stored ← forwardNative key value kCache vCache slotMapping caches
    ofTensor stored

-- `native_triton`, where `launch` is the memory after a launch with the given stores.
def nativeTriton (launch : Memory R → List (Int × R) → Memory R) : KVCacheStore R where
  forward key value kCache vCache slotMapping caches := do
    let stores ← storeKvcache key value kCache vCache slotMapping
    pure { k := launch caches.k stores.k, v := launch caches.v stores.v }

/-- What a rank uses its store for: rows that lie so far apart, at most so many at a time, for so many slots. -/
structure Use where
  width : Nat
  keyStride : Nat
  valueStride : Nat
  rows : Nat
  slots : Nat

structure Use.Covers (use : Use) (key value : KVTensor R) (slotMapping : List Int) : Prop where
  width : key.width = use.width
  keyStride : key.rowStride = use.keyStride
  valueStride : value.rowStride = use.valueStride
  rows : key.rows ≤ use.rows
  slots : ∀ slot ∈ slotMapping, slot < (use.slots : Int)

/-- What the kernel needs of the use, for its launches to be accepted and its offsets not to overflow. -/
structure Use.Fits (use : Use) : Prop where
  lanes : use.width.isPowerOfTwo
  numel : use.width ≤ 2 ^ 20
  grid : use.rows < 2 ^ 31
  slots : use.slots * use.width ≤ 2 ^ 31
  loads : ∀ i < use.rows, LoadFits use.keyStride use.width i ∧ LoadFits use.valueStride use.width i

/-- Each row of a batch gets to its slot; the rest of the caches stays. -/
structure Stores (store : KVCacheStore R) (use : Use) : Prop where
  forward : ∀ {key value : KVTensor R} {kCache vCache : KVCacheShape} {slotMapping : List Int},
    StoreBatch key value kCache vCache slotMapping → use.Covers key value slotMapping →
      ∀ caches, ∃ after, store.forward key value kCache vCache slotMapping caches = .ok after ∧
        RowsStored key slotMapping caches.k after.k ∧ RowsStored value slotMapping caches.v after.v

variable {use : Use}

theorem nativeTorch_stores : (nativeTorch : KVCacheStore R).Stores use where
  forward {key value kCache vCache slotMapping} batch _ caches := by
    refine ⟨{ k := storeAll caches.k (rowStores key slotMapping), v := storeAll caches.v (rowStores value slotMapping) },
      ?_, rowsStored batch.slots batch.distinct caches.k,
      rowsStored (batch.slots.trans batch.value_rows.symm) batch.distinct caches.v⟩
    simp only [nativeTorch, batch.native caches, except_ok_bind]
    rfl

theorem Use.Fits.covered (fits : use.Fits) {key value : KVTensor R} {kCache vCache : KVCacheShape}
    {slotMapping : List Int} (batch : StoreBatch key value kCache vCache slotMapping)
    (covers : use.Covers key value slotMapping) : StoreFits key value slotMapping where
  lanes := covers.width ▸ fits.lanes
  numel := covers.width ▸ fits.numel
  grid := covers.rows.trans_lt fits.grid
  slots := by
    intro slot listed taken
    have low := (batch.inside slot listed taken).1
    have high := covers.slots slot listed
    have most : ((use.slots : Int) * use.width) ≤ 2 ^ 31 := by exact_mod_cast fits.slots
    rw [SlotFits, covers.width]
    exact (Int.mul_le_mul_of_nonneg_right (by omega) (Int.natCast_nonneg _)).trans most
  loads := by
    intro i below _
    rw [covers.width, covers.keyStride, covers.valueStride]
    exact fits.loads i (below.trans_le covers.rows)

theorem nativeTriton_stores {launch : Memory R → List (Int × R) → Memory R}
    (launched : ∀ memory stores, Launched memory stores (launch memory stores)) (fits : use.Fits) :
    (nativeTriton launch).Stores use where
  forward {key value kCache vCache slotMapping} batch covers caches := by
    obtain ⟨stores, native, run, -, kRows, vRows, same⟩ := batch.agrees (fits.covered batch covers) caches
    obtain ⟨k, v⟩ := same _ _ (launched caches.k stores.k) (launched caches.v stores.v)
    refine ⟨_, ?_, kRows, vRows⟩
    simp only [nativeTriton, run, except_ok_bind, k, v]
    rfl

end KVCacheStore

end NanoVllm
