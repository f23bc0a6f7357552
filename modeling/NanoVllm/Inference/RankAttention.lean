import NanoVllm.Inference.Caches

set_option autoImplicit false

namespace NanoVllm

open Python Raising Torch Causal Qwen3Attention QKVParallelLinear

variable {R : Type} {tpSize rank : Nat} {part : ModelShape} {w : LayerWeights R} {layer : Qwen3Attention R}
  {x key value q : Tensor R} {attention : HeadAttention R} {queries : List Query} {query : Query} {t head limit : Nat}

/-- A runtime for the heads of one rank: its store takes `limit` tokens to any slots of its caches. -/
structure AttentionRuntime.Holds {width : Nat} (runtime : AttentionRuntime R width) (heads : HeadShape) (limit : Nat) :
    Prop where
  kv_pos : 0 < heads.numKvHeads
  dim_pos : 0 < heads.headSize
  groups : heads.numKvHeads ∣ heads.numHeads
  cacheHeads : runtime.cacheShape.numHeads = heads.numKvHeads ∧ runtime.cacheShape.headDim = heads.headSize
  int32 : runtime.cacheShape.numBlocks * runtime.cacheShape.blockSize ≤ 2 ^ 31
  stores : runtime.kvStore.Stores
    (heads.storeUse limit (runtime.cacheShape.numBlocks * runtime.cacheShape.blockSize))

/-- The context of a batch with these queries: the backend attends from each of them to its context. -/
structure Batched [Zero R] (attention : HeadAttention R) (heads : HeadShape) (limit : Nat)
    {runtime : AttentionRuntime R (heads.size .q)} (context : AttentionContext runtime) (queries : List Query) :
    Prop where
  few : queries.length ≤ limit
  slots : context.metadata.slotMapping.data = queries.map Query.slot
  once : (queries.map Query.slot).Nodup
  inside : ∀ slot ∈ queries.map Query.slot, 0 ≤ slot ∧
    slot < (runtime.cacheShape.numBlocks * runtime.cacheShape.blockSize : Nat)
  forward : ∀ cacheless caches (q : List (Fin (heads.size .q) → R)), q.length = queries.length →
    runtime.backend.forward cacheless q (some caches) context.plan =
      .ok (List.zipWith (fun x query => attendCaches attention heads caches x query.context) q queries)

section Heads

variable [Ring R]

theorem projection_entry {n : Nat} (cols : x.cols = n) (weight : Tensor R) (bias : Option (Tensor R)) (rows t c : Nat) :
    (projection x weight bias rows).entry t c = Torch.project weight bias (x.row n t) c := by
  subst cols
  simp only [projection, Torch.project, Finset.sum_range]
  rfl

theorem Qwen3Attention.Loaded.project_heads
    (loaded : Loaded rank tpSize part.heads part.qkvBias w.weight w.bias w.o part.hiddenSize layer)
    (cols : x.cols = part.hiddenSize) :
    ∃ piece : QKVShard → Tensor R, layer.project x = some (piece .q, piece .k, piece .v) ∧
      ∀ s, (piece s).HasShape x.rows (part.heads.size s) ∧ ∀ t < x.rows, ∀ head < part.heads.count s,
        headOf part.heads.headSize ((piece s).entry t) head = headOf part.heads.headSize
          (w.projection (part.times tpSize) s (x.row part.hiddenSize t)) (rank * part.heads.count s + head) := by
  rw [← cols] at loaded
  obtain ⟨piece, projected, same⟩ := project_ok loaded
  refine ⟨piece, projected, fun s => ⟨⟨(same s).rows, (same s).cols⟩, fun t row head below => funext (fun c => ?_)⟩⟩
  have inside : head * part.heads.headSize + c < part.heads.size s := head_inside below c.isLt
  have place : rank * part.heads.size s + (head * part.heads.headSize + c) =
      (rank * part.heads.count s + head) * part.heads.headSize + c := by
    rw [HeadShape.size]
    ring
  have width : (piece s).cols = part.heads.size s := (same s).cols
  have entry := (same s).entry t (by rwa [(same s).rows]) _ (by rwa [width])
  rw [headOf, entry, headOf, ← place]
  exact projection_entry cols _ _ (tpSize * part.heads.size s) t _

theorem headOf_rotateHeads (rotaryEmb : RotaryEmbedding R) (norm : RMSNorm R) (qkvBias : Bool) (positions : List Nat)
    (headDim : Nat) (x : Tensor R) (t head : Nat) :
    headOf headDim ((rotateHeads rotaryEmb norm qkvBias positions headDim x).entry t) head =
      rotateHead rotaryEmb norm qkvBias (positions.getD t 0) headDim (headOf headDim (x.entry t) head) := by
  funext c
  have wide : 0 < headDim := Nat.zero_lt_of_lt c.isLt
  have quotient : (head * headDim + c) / headDim = head := by
    rw [Nat.mul_comm, Nat.mul_add_div wide, Nat.div_eq_of_lt c.isLt, Nat.add_zero]
  have remainder : (head * headDim + c) % headDim = c := by
    rw [Nat.mul_comm, Nat.mul_add_mod, Nat.mod_eq_of_lt c.isLt]
  simp only [headOf, rotateHeads, dif_pos wide, quotient, remainder]

end Heads

/-- What the attention of a rank leaves for a batch: `o` is its input of the output projection. -/
structure RankAttended [Ring R] (tpSize rank : Nat) (part : ModelShape) (w : LayerWeights R)
    (attention : HeadAttention R) (queries : List Query) (x : Tensor R) (before after : KVCaches R) (o : Tensor R) :
    Prop where
  shape : o.HasShape x.rows (part.heads.size .q)
  written : ∀ (t : Nat) (query : Query), queries[t]? = some query → ∀ head < part.heads.numKvHeads,
    after.headAt part.heads query.slot head =
      (w.keyHead (part.times tpSize) query.position (x.row part.hiddenSize t) (rank * part.heads.numKvHeads + head),
        w.valueHead (part.times tpSize) (x.row part.hiddenSize t) (rank * part.heads.numKvHeads + head))
  rest : ∀ slot ∉ queries.map Query.slot, ∀ head < part.heads.numKvHeads,
    after.headAt part.heads slot head = before.headAt part.heads slot head
  attended : ∀ entries : Int → KVEntry R part.heads.headSize,
    (∀ slot, ∀ head < part.heads.numKvHeads,
      after.headAt part.heads slot head = entries slot (rank * part.heads.numKvHeads + head)) →
    ∀ (t : Nat) (query : Query), queries[t]? = some query → ∀ c < part.heads.size .q,
      o.entry t c = spread (w.read (part.times tpSize) attention query.position (x.row part.hiddenSize t)
        (query.context.map entries)) (rank * part.heads.size .q + c)

section Attend

variable [Ring R]

theorem Attention.forward_ok {width : Nat} {runtime : AttentionRuntime R width} {context : AttentionContext runtime}
    {q k v : Tensor R} {key value : KVTensor R} {caches after : KVCaches R} {rows : List (Fin width → R)}
    (stored : runtime.kvStore.forward key value runtime.cacheShape runtime.cacheShape
      context.metadata.slotMapping.data caches = .ok after) (columns : q.cols = width)
    (attended : runtime.backend.forward (runtime.cacheless q k v) (q.rowList width) (some after) context.plan =
      .ok rows) :
    Attention.forward context q k v key value (some caches) = .ok (Tensor.ofRows rows, some after) := by
  simp only [Attention.forward, stored, except_ok_bind, pure_bind, require_of columns, attended]
  rfl

theorem attendCaches_eq (positive : 0 < tpSize) (below : rank < tpSize) (kv_pos : 0 < part.heads.numKvHeads)
    (groups : part.heads.numKvHeads ∣ part.heads.numHeads) {caches : KVCaches R} {position : Nat}
    {h : Fin part.hiddenSize → R} {qRow : Fin (part.heads.size .q) → R}
    (rotated : ∀ head < part.heads.numHeads, headOf part.heads.headSize (spread qRow) head =
      w.queryHead (part.times tpSize) position h (rank * part.heads.numHeads + head))
    {entries : Int → KVEntry R part.heads.headSize} (same : ∀ slot, ∀ head < part.heads.numKvHeads,
      caches.headAt part.heads slot head = entries slot (rank * part.heads.numKvHeads + head))
    (slots : List Int) {c : Nat} (place : c < part.heads.size .q) :
    attendCaches attention part.heads caches qRow slots ⟨c, place⟩ =
      spread (w.read (part.times tpSize) attention position h (slots.map entries)) (rank * part.heads.size .q + c) := by
  have wide : 0 < part.heads.headSize := Nat.pos_of_mul_pos_left (Nat.zero_lt_of_lt place)
  have head : c / part.heads.headSize < part.heads.numHeads :=
    Nat.div_lt_of_lt_mul (by rw [Nat.mul_comm]; exact place)
  obtain ⟨group, split⟩ := groups
  have group_pos : 0 < group := Nat.pos_of_mul_pos_left (Nat.zero_lt_of_lt (split ▸ head))
  have ratio : part.heads.numHeads / part.heads.numKvHeads = group := by
    rw [split, Nat.mul_div_cancel_left _ kv_pos]
  have ratio' : tpSize * part.heads.numHeads / (tpSize * part.heads.numKvHeads) = group := by
    rw [Nat.mul_div_mul_left _ _ positive, ratio]
  have kvHead : c / part.heads.headSize / group < part.heads.numKvHeads :=
    Nat.div_lt_of_lt_mul (by rwa [Nat.mul_comm, ← split])
  have whole : rank * part.heads.size .q = part.heads.headSize * (rank * part.heads.numHeads) := by
    simp only [HeadShape.size, HeadShape.count]
    ring
  have column : (rank * part.heads.size .q + c) / part.heads.headSize =
      rank * part.heads.numHeads + c / part.heads.headSize := by
    rw [whole, Nat.mul_add_div wide]
  have offset : (rank * part.heads.size .q + c) % part.heads.headSize = c % part.heads.headSize := by
    rw [whole, Nat.mul_add_mod]
  have kvPlace : (rank * part.heads.numHeads + c / part.heads.headSize) / group =
      rank * part.heads.numKvHeads + c / part.heads.headSize / group := by
    rw [split, Nat.mul_comm part.heads.numKvHeads, kvHead_rank group_pos]
  have inside : rank * part.heads.size .q + c < (part.times tpSize).heads.size .q := by
    rw [HeadShape.size_mul]
    exact (Nat.add_lt_add_left place _).trans_le (Tensor.block_within below)
  have contexts : slots.map (fun slot => caches.headAt part.heads slot (c / part.heads.headSize / group)) =
      (slots.map entries).map (fun entry => entry (rank * part.heads.numKvHeads + c / part.heads.headSize / group)) := by
    rw [List.map_map]
    exact List.map_congr_left (fun slot _ => same slot _ kvHead)
  rw [spread, dif_pos inside]
  simp only [attendCaches, LayerWeights.read, column, offset, ratio, ratio', kvPlace, rotated _ head, contexts]

theorem headOf_spread {heads : HeadShape} (below : head < heads.numHeads) :
    headOf heads.headSize (spread (q.row (heads.size .q) t)) head = headOf heads.headSize (q.entry t) head := by
  funext c
  have inside : head * heads.headSize + c < heads.size .q := head_inside below c.isLt
  rw [headOf, spread, dif_pos inside]
  rfl

theorem Qwen3Attention.attend_eq {width : Nat} {runtime : AttentionRuntime R width} {context : AttentionContext runtime}
    {norms : AttentionNorms R} {positions : List Nat} {caches caches' : Option (KVCaches R)} {q k v o : Tensor R}
    (projected : layer.project x = some (q, k, v))
    (attended : Attention.forward context
      (rotateHeads norms.rotaryEmb norms.qNorm layer.qkvBias positions layer.headDim q)
      (rotateHeads norms.rotaryEmb norms.kNorm layer.qkvBias positions layer.headDim k) v
      (.view (rotateHeads norms.rotaryEmb norms.kNorm layer.qkvBias positions layer.headDim k) layer.numKvHeads
        layer.headDim layer.kvSize)
      (.view v layer.numKvHeads layer.headDim (layer.qSize + layer.kvSize + layer.kvSize)) caches = .ok (o, caches')) :
    layer.attend norms context positions x caches = (do
      let output ← ofTensor (RowParallelLinear.product layer.oProj o)
      pure (output, caches')) := by
  simp only [Qwen3Attention.attend, projected, ofTensor, pure_bind, attended, except_ok_bind]

theorem Qwen3Attention.Loaded.attend (positive : 0 < tpSize) (below : rank < tpSize)
    (loaded : Loaded rank tpSize part.heads part.qkvBias w.weight w.bias w.o part.hiddenSize layer)
    {runtime : AttentionRuntime R (part.heads.size .q)} (holds : runtime.Holds part.heads limit)
    {context : AttentionContext runtime} (batched : Batched attention part.heads limit context queries)
    (inputs : x.HasShape queries.length part.hiddenSize) (caches : KVCaches R) :
    ∃ o after, layer.attend w.norms context (queries.map Query.position) x (some caches) =
        (do let output ← ofTensor (o.linear (w.o.colBlock (part.heads.size .q) rank) none)
            pure (output, some after)) ∧
      RankAttended tpSize rank part w attention queries x caches after o := by
  obtain ⟨piece, projected, pieces⟩ := loaded.project_heads inputs.2
  obtain ⟨entry, bias', rfl, -⟩ := loaded.shape
  have position {t : Nat} {query : Query} (entry : queries[t]? = some query) :
      (queries.map Query.position).getD t 0 = query.position := by
    rw [List.getD_eq_getElem?_getD, List.getElem?_map, entry]
    rfl
  have row {t : Nat} {query : Query} (entry : queries[t]? = some query) : t < x.rows := by
    rw [inputs.1]
    exact (List.getElem?_eq_some_iff.mp entry).1
  have slots (slot : Int) (listed : slot ∈ queries.map Query.slot) :
      0 ≤ slot ∧ slot < (runtime.cacheShape.numBlocks * runtime.cacheShape.blockSize : Nat) ∧ slot < 2 ^ 31 := by
    obtain ⟨low, high⟩ := batched.inside slot listed
    have most : (runtime.cacheShape.numBlocks * runtime.cacheShape.blockSize : Nat) ≤ (2 ^ 31 : Int) := by
      exact_mod_cast holds.int32
    exact ⟨low, high, by omega⟩
  obtain ⟨after, run, stored⟩ := @KVCacheStore.Stores.stored R part.heads
    (rotateHeads w.norms.rotaryEmb w.norms.kNorm part.qkvBias (queries.map Query.position) part.heads.headSize (piece .k))
    (piece .v) _ x.rows _ runtime.cacheShape limit holds.stores holds.kv_pos holds.dim_pos (pieces .k).1.1
    (pieces .v).1.1 (inputs.1.trans_le batched.few) holds.cacheHeads (by rw [List.length_map, inputs.1]) batched.once
    slots caches
  let q := rotateHeads w.norms.rotaryEmb w.norms.qNorm part.qkvBias (queries.map Query.position) part.heads.headSize
    (piece .q)
  have width : q.cols = part.heads.size .q := (pieces .q).1.2
  have count : (q.rowList (part.heads.size .q)).length = queries.length :=
    Tensor.length_rowList.trans ((pieces .q).1.1.trans inputs.1)
  have forward := batched.forward (runtime.cacheless q
    (rotateHeads w.norms.rotaryEmb w.norms.kNorm part.qkvBias (queries.map Query.position) part.heads.headSize
      (piece .k)) (piece .v)) after _ count
  let o := Tensor.ofRows (List.zipWith (fun x query => attendCaches attention part.heads after x query.context)
    (q.rowList (part.heads.size .q)) queries)
  refine ⟨o, after, ?run, ?shape, ?written, ?rest, ?attended⟩
  case run =>
    rw [← batched.slots] at run
    have attended := Attention.forward_ok run width forward
    refine (Qwen3Attention.attend_eq projected attended).trans ?_
    exact congrArg (fun product => ofTensor product >>= _) (RowParallelLinear.product_eq ..)
  case shape =>
    refine ⟨?_, rfl⟩
    change (List.zipWith _ _ _).length = _
    rw [List.length_zipWith, count, Nat.min_self, inputs.1]
  case written =>
    intro t query entry head inside
    have slot : (queries.map Query.slot)[t]? = some query.slot := by
      rw [List.getElem?_map, entry]
      rfl
    rw [stored.written t query.slot slot head inside, headOf_rotateHeads, position entry,
      (pieces .k).2 t (row entry) head inside, (pieces .v).2 t (row entry) head inside]
    rfl
  case rest => exact stored.rest
  case attended =>
    intro entries same t query entry c inside
    have rotated : ∀ head < part.heads.numHeads,
        headOf part.heads.headSize (spread (q.row (part.heads.size .q) t)) head =
          w.queryHead (part.times tpSize) query.position (x.row part.hiddenSize t)
            (rank * part.heads.numHeads + head) := by
      intro head below
      rw [headOf_spread below, headOf_rotateHeads, position entry, (pieces .q).2 t (row entry) head below]
      rfl
    rw [← attendCaches_eq positive below holds.kv_pos holds.groups rotated same query.context inside]
    have line : (q.rowList (part.heads.size .q))[t]? = some (q.row (part.heads.size .q) t) :=
      Tensor.getElem?_rowList ((pieces .q).1.1.symm ▸ row entry)
    have attended : o.row (part.heads.size .q) t =
        attendCaches attention part.heads after (q.row (part.heads.size .q) t) query.context := by
      rw [Tensor.row_ofRows, List.getD_eq_getElem?_getD, List.getElem?_zipWith, line, entry]
      rfl
    exact congrFun attended ⟨c, inside⟩

end Attend

end NanoVllm
