import NanoVllm.Inference.Plain
import NanoVllm.Kernels.Providers

set_option autoImplicit false

namespace NanoVllm

open Device Torch Causal

variable {R : Type}

/-- A query token of a batch: the tokens up to it, with the slots of their keys and values. -/
structure Query where
  tokenIds : List Token
  context : List Int

namespace Query

def token (query : Query) : Token := query.tokenIds.getLastD 0

def position (query : Query) : Nat := query.tokenIds.length - 1

def slot (query : Query) : Int := query.context.getLastD (-1)

end Query

/-- A model of which each of `tpSize` ranks has the given part. -/
abbrev ModelShape.times (tpSize : Nat) (part : ModelShape) : ModelShape :=
  { vocabSize := tpSize * part.vocabSize
    hiddenSize := part.hiddenSize
    intermediateSize := tpSize * part.intermediateSize
    heads := ⟨tpSize * part.heads.numHeads, tpSize * part.heads.numKvHeads, part.heads.headSize⟩
    qkvBias := part.qkvBias }

-- The key and the value of one head at a slot, in the caches of a rank.
def KVCaches.headAt (caches : KVCaches R) (heads : HeadShape) (slot : Int) (head : Nat) :
    (Fin heads.headSize → R) × (Fin heads.headSize → R) :=
  let place (c : Fin heads.headSize) : Int := slot * heads.size .k + (head * heads.headSize + c : Nat)
  (fun c => caches.k (place c), fun c => caches.v (place c))

def attendCaches (attention : HeadAttention R) [Zero R] (heads : HeadShape) (caches : KVCaches R)
    (q : Fin (heads.size .q) → R) (slots : List Int) (c : Fin (heads.size .q)) : R :=
  let head := c / heads.headSize
  attention heads.headSize (headOf heads.headSize (spread q) head)
    (slots.map (fun slot => caches.headAt heads slot (head / (heads.numHeads / heads.numKvHeads))))
    ⟨c % heads.headSize, Nat.mod_lt c (Nat.pos_of_mul_pos_left (Nat.zero_lt_of_lt c.isLt))⟩

-- What a slot holds: the heads lie on the ranks, one after the other.
def slotEntry [Zero R] (tpSize : Nat) (heads : HeadShape) (caches : Nat → KVCaches R) (slot : Int) :
    KVEntry R heads.headSize :=
  KVEntry.upTo (tpSize * heads.numKvHeads)
    (fun head => (caches (head / heads.numKvHeads)).headAt heads slot (head % heads.numKvHeads))

section View

variable {x : Tensor R} {numHeads headDim rowStride i j : Nat}

theorem KVTensor.row_view (inside : j < numHeads * headDim) (fits : numHeads * headDim ≤ rowStride) :
    (KVTensor.view x numHeads headDim rowStride).row i j = x.entry i j := by
  have below : j < rowStride := inside.trans_le fits
  rw [KVTensor.row_eq ⟨rfl, rfl⟩]
  simp only [KVTensor.view, Int.toNat_natCast]
  rw [Nat.mul_comm, Nat.mul_add_div (Nat.zero_lt_of_lt below), Nat.mul_add_mod, Nat.div_eq_of_lt below,
    Nat.mod_eq_of_lt below, Nat.add_zero]

end View

section Store

variable {heads : HeadShape} {key value : Tensor R} {before after : KVCaches R} {slots : List Int} {slot : Int}
  {i rows vStride head : Nat}

/-- The caches of a rank after the keys and values of a batch are stored. -/
structure HeadsStored (heads : HeadShape) (key value : Tensor R) (slots : List Int) (before after : KVCaches R) :
    Prop where
  written : ∀ (i : Nat) (slot : Int), slots[i]? = some slot → ∀ head < heads.numKvHeads,
    after.headAt heads slot head =
      (headOf heads.headSize (key.entry i) head, headOf heads.headSize (value.entry i) head)
  rest : ∀ slot ∉ slots, ∀ head < heads.numKvHeads, after.headAt heads slot head = before.headAt heads slot head

theorem head_inside {count headSize c : Nat} (below : head < count) (place : c < headSize) :
    head * headSize + c < count * headSize :=
  (Nat.add_lt_add_left place _).trans_le (by rw [← Nat.succ_mul]; exact Nat.mul_le_mul_right _ below)

theorem RowsStored.atHead {memory memory' : Memory R}
    (stored : RowsStored (.view key heads.numKvHeads heads.headSize vStride) slots memory memory')
    (fits : heads.size .k ≤ vStride) (real : ∀ slot ∈ slots, slot ≠ -1) {c : Nat} (below : head < heads.numKvHeads)
    (place : c < heads.headSize) :
    (∀ (i : Nat) (slot : Int), slots[i]? = some slot →
      memory' (slot * heads.size .k + (head * heads.headSize + c : Nat)) = key.entry i (head * heads.headSize + c)) ∧
    ∀ slot ∉ slots, memory' (slot * heads.size .k + (head * heads.headSize + c : Nat)) =
      memory (slot * heads.size .k + (head * heads.headSize + c : Nat)) := by
  have inside : head * heads.headSize + c < heads.size .k := head_inside below place
  constructor
  · intro i slot entry
    have row := stored.rows i slot entry (real slot (List.mem_of_getElem? entry)) _ inside
    exact row.trans (KVTensor.row_view inside fits)
  · intro slot outside
    refine stored.rest _ (fun slot' listed _ within => outside ?_)
    have width : ((KVTensor.view key heads.numKvHeads heads.headSize vStride).width : Int) = heads.size .k := rfl
    rw [width, Int.add_mul, Int.one_mul] at within
    obtain ⟨offset, same⟩ := Int.eq_ofNat_of_zero_le (Int.sub_nonneg.mpr within.1)
    have small : offset < heads.size .k := by omega
    obtain ⟨rfl, -⟩ := slot_of_place inside small
      (show slot * (heads.size .k : Nat) + ((head * heads.headSize + c : Nat) : Int) =
        slot' * (heads.size .k : Nat) + offset by omega)
    exact listed

-- A rank stores rows of keys and, within the rows of `qkv`, of values.
def HeadShape.storeUse (heads : HeadShape) (rows slots : Nat) : KVCacheStore.Use where
  width := heads.size .k
  keyStride := heads.size .k
  valueStride := heads.size .q + heads.size .k + heads.size .k
  rows
  slots

theorem KVCacheStore.Stores.stored {store : KVCacheStore R} {cacheShape : KVCacheShape} {limit : Nat}
    (stores : store.Stores (heads.storeUse limit (cacheShape.numBlocks * cacheShape.blockSize)))
    (heads_pos : 0 < heads.numKvHeads) (dim_pos : 0 < heads.headSize)
    (keyRows : key.rows = rows) (valueRows : value.rows = rows) (few : rows ≤ limit)
    (cacheHeads : cacheShape.numHeads = heads.numKvHeads ∧ cacheShape.headDim = heads.headSize)
    (length : slots.length = rows) (once : slots.Nodup)
    (inside : ∀ slot ∈ slots, 0 ≤ slot ∧ slot < (cacheShape.numBlocks * cacheShape.blockSize : Nat) ∧ slot < 2 ^ 31)
    (caches : KVCaches R) :
    ∃ after, store.forward (.view key heads.numKvHeads heads.headSize (heads.size .k))
        (.view value heads.numKvHeads heads.headSize (heads.size .q + heads.size .k + heads.size .k)) cacheShape
        cacheShape slots caches = .ok after ∧
      HeadsStored heads key value slots caches after := by
  have batch : StoreBatch (KVTensor.view key heads.numKvHeads heads.headSize (heads.size .k))
      (KVTensor.view value heads.numKvHeads heads.headSize (heads.size .q + heads.size .k + heads.size .k)) cacheShape
      cacheShape slots :=
    ⟨heads_pos, dim_pos, valueRows.trans keyRows.symm, rfl, rfl, ⟨rfl, rfl⟩, ⟨rfl, rfl⟩, cacheHeads,
      ⟨rfl, rfl, cacheHeads⟩, length.trans keyRows.symm, fun slot listed _ => inside slot listed,
      DistinctSlots.of_nodup once⟩
  obtain ⟨after, run, kRows, vRows⟩ := stores.forward batch
    ⟨rfl, rfl, rfl, keyRows.trans_le few, fun slot listed => (inside slot listed).2.1⟩ caches
  have stride : heads.size .k ≤ heads.size .q + heads.size .k + heads.size .k := by omega
  have real : ∀ slot ∈ slots, slot ≠ -1 := fun slot listed => by
    have low := (inside slot listed).1
    omega
  refine ⟨after, run, ?_, ?_⟩
  · intro i slot entry head below
    refine Prod.ext (funext (fun c => ?_)) (funext (fun c => ?_))
    · exact (kRows.atHead le_rfl real below c.isLt).1 i slot entry
    · exact (vRows.atHead stride real below c.isLt).1 i slot entry
  · intro slot outside head below
    refine Prod.ext (funext (fun c => ?_)) (funext (fun c => ?_))
    · exact (kRows.atHead le_rfl real below c.isLt).2 slot outside
    · exact (vRows.atHead stride real below c.isLt).2 slot outside

end Store

end NanoVllm
