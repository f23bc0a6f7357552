import NanoVllm.Model.Sequence
import NanoVllm.Shared.Device

set_option autoImplicit false

namespace NanoVllm

open Raising Device

-- A tensor with the shape `(rows, num_heads, head_dim)`, by its data pointer and its strides.
structure KVTensor (α : Type) where
  rows : Nat
  numHeads : Nat
  headDim : Nat
  rowStride : Nat
  headStride : Nat
  dimStride : Nat
  data : Memory α

-- The shape of a contiguous cache: `(num_blocks, block_size, num_heads, head_dim)`.
structure KVCacheShape where
  numBlocks : Nat
  blockSize : Nat
  numHeads : Nat
  headDim : Nat

/-- What lies from `k_cache_ptr` and from `v_cache_ptr` on. -/
structure KVCaches (α : Type) where
  k : Memory α
  v : Memory α

namespace KVTensor

variable {α : Type}

def width (x : KVTensor α) : Nat := x.numHeads * x.headDim

-- `x[row].flatten()`
def row (x : KVTensor α) (row j : Nat) : α :=
  x.data (row * x.rowStride + j / x.headDim * x.headStride + j % x.headDim * x.dimStride : Nat)

end KVTensor

namespace KVCacheShape

def numel (cache : KVCacheShape) : Nat := cache.numBlocks * cache.blockSize * cache.numHeads * cache.headDim

-- `k_cache.stride(1)`
def slotStride (cache : KVCacheShape) : Nat := cache.numHeads * cache.headDim

end KVCacheShape

section

variable {α : Type}

-- `idx * stride + tl.arange(0, D)` at `j`. The program id is an `int32`; a stride is one if it fits, else an `int64`.
def loadOffset (stride idx j : Nat) : Int :=
  if stride < 2 ^ 31 then int32 (int32 (idx * stride) + j) else int64 (int64 (idx * stride) + j)

-- The stores of one program to one of the caches. `slot` is an `int32`, and so are the offsets that come from it.
def storeKvcacheKernel (input : KVTensor α) (slotMapping : List Int) (d idx : Nat) : List (Int × α) :=
  let slot := slotMapping.getD idx 0
  if slot = -1 then []
  else
    let loaded (j : Nat) := input.data (loadOffset input.rowStride idx j)
    let cacheOffset (j : Nat) := int32 (int32 (slot * d) + j)
    (List.range d).map (fun j : Nat => (cacheOffset j, loaded j))

-- `tl.arange(0, d)`, for which the compiler takes a power of two of at most `TRITON_MAX_TENSOR_NUMEL`.
def arange (d : Nat) : Except PyError Unit := do
  require d.isPowerOfTwo (.valueError "arange's range must be a power of 2")
  require (d ≤ 2 ^ 20) (.valueError s!"numel ({d}) exceeds triton maximum tensor numel (1048576)")

structure KVStores (α : Type) where
  k : List (Int × α)
  v : List (Int × α)

-- `store_kvcache`
def storeKvcache (key value : KVTensor α) (kCache vCache : KVCacheShape) (slotMapping : List Int) :
    Except PyError (KVStores α) := do
  let n := key.rows
  let d := key.numHeads * key.headDim
  let failed (text : String) := PyError.assertionError .attention text
  require (key.dimStride = 1 ∧ value.dimStride = 1) (failed "key.stride(-1) == 1 and value.stride(-1) == 1")
  require (key.headStride = key.headDim ∧ value.headStride = key.headDim)
    (failed "key.stride(1) == head_dim and value.stride(1) == head_dim")
  require (kCache.slotStride = d ∧ vCache.slotStride = d) (failed "k_cache.stride(1) == D and v_cache.stride(1) == D")
  require (slotMapping.length = n) (failed "slot_mapping.numel() == N")
  arange d
  -- The grid of a launch is made of C integers.
  require (n < 2 ^ 31) (.overflowError "signed integer is greater than maximum")
  pure
    { k := (List.range n).flatMap (storeKvcacheKernel key slotMapping d)
      v := (List.range n).flatMap (storeKvcacheKernel value slotMapping d) }

-- `xs[mask]`
def selectMask {β : Type} (xs : List β) (mask : List Bool) : List β :=
  ((xs.zip mask).filter Prod.snd).map Prod.fst

-- `cache.view(-1, num_heads, head_dim)`, as the number of its rows
def flatRows (cache : KVCacheShape) (width : Nat) : Option Nat :=
  if width ≠ 0 ∧ cache.numel % width = 0 then some (cache.numel / width) else none

-- `flat.index_copy_(0, slots, source)`, for rows of `width` elements
def indexCopy (rows width : Nat) (slots : List Int) (source : List (Nat → α)) (memory : Memory α) : Option (Memory α) :=
  if source.length = slots.length ∧ ∀ slot ∈ slots, 0 ≤ slot ∧ slot < rows then
    some (storeAll memory ((slots.zip source).flatMap (fun entry =>
      (List.range width).map (fun j : Nat => (entry.1 * width + j, entry.2 j)))))
  else none

-- `KVCacheStore.forward_native`; `none` is an operation of a tensor that raises.
def forwardNative (key value : KVTensor α) (kCache vCache : KVCacheShape) (slotMapping : List Int)
    (caches : KVCaches α) : Except PyError (Option (KVCaches α)) := do
  require (slotMapping.length = key.rows) (.valueError "slot_mapping must contain one slot per token")
  let valid := slotMapping.map (fun slot => decide (0 ≤ slot))
  let slots := selectMask slotMapping valid
  let source (x : KVTensor α) := selectMask ((List.range x.rows).map x.row) valid
  pure do
    let kRows ← flatRows kCache key.width
    let vRows ← flatRows vCache key.width
    let k ← indexCopy kRows key.width slots (source key) caches.k
    if value.rows = key.rows ∧ value.numHeads = key.numHeads ∧ value.headDim = key.headDim then
      let v ← indexCopy vRows key.width slots (source value) caches.v
      pure { k, v }
    else none

end

end NanoVllm
