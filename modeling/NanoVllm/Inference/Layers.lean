import NanoVllm.Inference.RankAttention
import NanoVllm.Parallel.Mlp

set_option autoImplicit false

namespace NanoVllm

open Python Raising Torch Causal

variable {R : Type} {tpSize limit : Nat} {part : ModelShape} {w : LayerWeights R} {layer : Qwen3DecoderLayer R}
  {x hiddenStates : Tensor R} {residual : Option (Tensor R)} {attention : HeadAttention R} {queries : List Query}
  {rows n : Nat}

structure LayerLoaded [Zero R] (tpSize : Nat) (part : ModelShape) (w : LayerWeights R) (layer : Qwen3DecoderLayer R) :
    Prop where
  attention : ∀ r < tpSize, Qwen3Attention.Loaded r tpSize part.heads part.qkvBias w.weight w.bias w.o part.hiddenSize
    (layer.selfAttn r)
  mlp : ∀ r < tpSize, ∃ memory, layer.mlp r = Qwen3MLP.onRank r tpSize part.intermediateSize part.hiddenSize
    (Qwen3MLP.merged w.gate w.up part.intermediateSize r memory) (w.down.colBlock part.intermediateSize r)
  oShape : w.o.HasShape part.hiddenSize (tpSize * part.heads.size .q)
  downShape : w.down.HasShape part.hiddenSize (tpSize * part.intermediateSize)
  attnNorms : layer.attnNorms = w.norms
  inputLayernorm : layer.inputLayernorm = w.inputLayernorm
  postAttentionLayernorm : layer.postAttentionLayernorm = w.postAttentionLayernorm

def Lasts {X : Type} (rowsOf : List Token → List X) (queries : List Query) (x : Nat → X) : Prop :=
  ∀ (t : Nat) (query : Query), queries[t]? = some query → (rowsOf query.tokenIds).getLast? = some (x t)

-- One row for each token, which does not depend on the tokens after it.
structure Prefixes {X : Type} (rowsOf : List Token → List X) : Prop where
  length : ∀ tokenIds, (rowsOf tokenIds).length = tokenIds.length
  take : ∀ (n : Nat) (tokenIds : List Token), rowsOf (tokenIds.take n) = (rowsOf tokenIds).take n

structure Labelled (queries : List Query) (label label' : Int → List Token) : Prop where
  writes : Overwrites (queries.map Query.slot) (queries.map Query.tokenIds) label label'
  length : ∀ query ∈ queries, query.context.length = query.tokenIds.length
  context : ∀ query ∈ queries, ∀ (j : Nat) (slot : Int), query.context[j]? = some slot →
    label' slot = query.tokenIds.take (j + 1)

section Norms

variable [Ring R]

-- The sum that the two tensors between two layers stand for.
def streamRow (n : Nat) (hiddenStates : Tensor R) (residual : Option (Tensor R)) (t : Nat) : Fin n → R :=
  match residual with
  | none => hiddenStates.row n t
  | some residual => hiddenStates.row n t + residual.row n t

theorem RMSNorm.row_forward (norm : RMSNorm R) (width : x.cols = n) (t : Nat) :
    (norm.forward x).row n t = norm.rms n (x.row n t) := Tensor.row_mapRows norm.rms width

theorem RMSNorm.forwardInplace_ok (norm : RMSNorm R) {residual : Tensor R} (shape : x.HasShape rows n)
    (shape' : residual.HasShape rows n) :
    ∃ y sum, norm.forwardInplace x residual = some (y, sum) ∧ y.HasShape rows n ∧ sum.HasShape rows n ∧
      ∀ t, sum.row n t = x.row n t + residual.row n t ∧ y.row n t = norm.rms n (sum.row n t) := by
  obtain ⟨sum, added, sumShape, entries⟩ := Tensor.add_eq shape shape'
  refine ⟨norm.forward sum, sum, ?_, sumShape, sumShape, fun t => ⟨entries t, norm.row_forward sumShape.2 t⟩⟩
  rw [RMSNorm.forwardInplace, added]
  rfl

theorem Qwen3DecoderLayer.enter_ok (shape : hiddenStates.HasShape rows n) (shape' : ∀ r ∈ residual, r.HasShape rows n) :
    ∃ y sum, layer.enter hiddenStates residual = .ok (y, sum) ∧ y.HasShape rows n ∧ sum.HasShape rows n ∧
      ∀ t, sum.row n t = streamRow n hiddenStates residual t ∧ y.row n t = layer.inputLayernorm.rms n (sum.row n t) := by
  cases residual with
  | none => exact ⟨_, _, rfl, shape, shape, fun t => ⟨rfl, RMSNorm.row_forward _ shape.2 t⟩⟩
  | some residual =>
      obtain ⟨y, sum, run, yShape, sumShape, entries⟩ :=
        layer.inputLayernorm.forwardInplace_ok shape (shape' residual rfl)
      exact ⟨y, sum, congrArg ofTensor run, yShape, sumShape, entries⟩

end Norms

section Parts

variable [Ring R]

theorem project_none {n : Nat} (weight : Tensor R) (v : Fin n → R) (j : Nat) :
    Torch.project weight none v j = ∑ k, v k * weight.entry j k := by
  simp [Torch.project]

theorem LayerLoaded.mlp_rows (loaded : LayerLoaded tpSize part w layer) (positive : 0 < tpSize) (silu : R → R)
    (shape : x.HasShape rows part.hiddenSize) :
    ∃ y, Qwen3MLP.forward silu tpSize layer.mlp x = some y ∧ y.HasShape rows part.hiddenSize ∧
      ∀ t < rows, y.row part.hiddenSize t = w.feed (part.times tpSize) silu (x.row part.hiddenSize t) := by
  obtain ⟨rfl, cols⟩ := shape
  choose! memory parts using loaded.mlp
  have products : ∀ r < tpSize, (layer.mlp r).product silu x =
      (Qwen3MLP.localIntermediate silu (Qwen3MLP.merged w.gate w.up part.intermediateSize r (memory r)) x
        part.intermediateSize).linear (w.down.colBlock part.intermediateSize r) none := by
    intro r below
    rw [parts r below, ← cols]
    exact Qwen3MLP.product_eq _ _
  obtain ⟨y, y', run, whole, same⟩ := RowParallelLinear.reduce_blocks positive rfl loaded.downShape.2
    (fun r _ => @Qwen3MLP.localIntermediate_same R tpSize part.intermediateSize r w.gate w.up _ x silu (memory r))
    products
  obtain ⟨z, whole', shape', entries⟩ := @Tensor.linear_rows R (tpSize * part.intermediateSize)
    (Qwen3MLP.intermediate silu w.gate w.up x (tpSize * part.intermediateSize)) _ w.down none rfl loaded.downShape.2
    (by simp)
  rw [whole, Option.some.injEq] at whole'
  subst whole'
  refine ⟨y, run, ⟨same.rows.trans shape'.1, same.cols.trans (shape'.2.trans loaded.downShape.1)⟩, fun t row => ?_⟩
  have width : y.cols = part.hiddenSize := same.cols.trans (shape'.2.trans loaded.downShape.1)
  rw [same.row width (same.rows.trans shape'.1 ▸ row)]
  have products (weight : Tensor R) (j : Nat) : ∑ k ∈ Finset.range x.cols, x.entry t k * weight.entry j k =
      Torch.project weight none (x.row part.hiddenSize t) j := by
    rw [cols, project_none, Finset.sum_range]
    rfl
  funext c
  rw [Tensor.row, entries, LayerWeights.feed]
  congr 1
  funext j
  simp only [Tensor.row, Qwen3MLP.intermediate, products]

-- What the heads of all ranks read, one rank after the other.
def readAll (tpSize : Nat) (part : ModelShape) (w : LayerWeights R) (attention : HeadAttention R) (queries : List Query)
    (entries : Int → KVEntry R part.heads.headSize) (x : Tensor R) : Tensor R :=
  { rows := x.rows
    cols := (part.times tpSize).heads.size .q
    entry := fun t c =>
      match queries[t]? with
      | some query => spread (w.read (part.times tpSize) attention query.position (x.row part.hiddenSize t)
          (query.context.map entries)) c
      | none => 0 }

theorem RankAttended.same {rank : Nat} {before after : KVCaches R} {o : Tensor R}
    {entries : Int → KVEntry R part.heads.headSize}
    (attended : RankAttended tpSize rank part w attention queries x before after o) (rows : x.rows = queries.length)
    (same : ∀ slot, ∀ head < part.heads.numKvHeads,
      after.headAt part.heads slot head = entries slot (rank * part.heads.numKvHeads + head)) :
    o.Same ((readAll tpSize part w attention queries entries x).colBlock (part.heads.size .q) rank) := by
  refine ⟨attended.shape.1, attended.shape.2, fun t row c col => ?_⟩
  have entry := List.getElem?_eq_getElem (show t < queries.length by rw [← rows, ← attended.shape.1]; exact row)
  have inside : c < part.heads.size .q := attended.shape.2 ▸ col
  rw [attended.attended entries same t _ entry c inside]
  simp only [Tensor.colBlock, readAll, entry]

theorem slotEntry_rank {rank : Nat} (below : rank < tpSize) (heads : HeadShape) (caches : Nat → KVCaches R) (slot : Int)
    {head : Nat} (inside : head < heads.numKvHeads) :
    (caches rank).headAt heads slot head = slotEntry tpSize heads caches slot (rank * heads.numKvHeads + head) := by
  have within : rank * heads.numKvHeads + head < tpSize * heads.numKvHeads :=
    (Nat.add_lt_add_left inside _).trans_le (Tensor.block_within below)
  have quotient : (rank * heads.numKvHeads + head) / heads.numKvHeads = rank := by
    rw [Nat.mul_comm, Nat.mul_add_div (Nat.zero_lt_of_lt inside), Nat.div_eq_of_lt inside, Nat.add_zero]
  have remainder : (rank * heads.numKvHeads + head) % heads.numKvHeads = head := by
    rw [Nat.mul_comm, Nat.mul_add_mod, Nat.mod_eq_of_lt inside]
  rw [slotEntry, KVEntry.upTo, if_pos within, quotient, remainder]

theorem slotEntry_overwrites (kv_pos : 0 < part.heads.numKvHeads) {caches caches' : Nat → KVCaches R} {o : Nat → Tensor R}
    (attended : ∀ r < tpSize, RankAttended tpSize r part w attention queries x (caches r) (caches' r) (o r)) :
    Overwrites (queries.map Query.slot)
      (queries.mapIdx (fun t query => w.entryOf (part.times tpSize) query.position (x.row part.hiddenSize t)))
      (slotEntry tpSize part.heads caches) (slotEntry tpSize part.heads caches') := by
  have place {head : Nat} (inside : head < tpSize * part.heads.numKvHeads) :
      head / part.heads.numKvHeads < tpSize ∧ head % part.heads.numKvHeads < part.heads.numKvHeads :=
    ⟨Nat.div_lt_of_lt_mul (by rwa [Nat.mul_comm]), Nat.mod_lt head kv_pos⟩
  constructor
  case length => simp
  case value =>
    intro t slot entry slotted value
    rw [List.getElem?_map, Option.map_eq_some_iff] at slotted
    obtain ⟨query, listed, rfl⟩ := slotted
    rw [List.getElem?_mapIdx, listed, Option.map_some, Option.some.injEq] at value
    subst value
    funext head
    rw [slotEntry, LayerWeights.entryOf, KVEntry.upTo, KVEntry.upTo]
    split
    next inside =>
      rw [(attended _ (place inside).1).written t query listed _ (place inside).2, Nat.div_add_mod']
    next => rfl
  case rest =>
    intro slot outside
    funext head
    rw [slotEntry, slotEntry, KVEntry.upTo, KVEntry.upTo]
    split
    next inside => exact (attended _ (place inside).1).rest slot outside _ (place inside).2
    next => rfl

theorem LayerLoaded.attention_rows (loaded : LayerLoaded tpSize part w layer) (positive : 0 < tpSize)
    {runtime : AttentionRuntime R (part.heads.size .q)} (holds : runtime.Holds part.heads limit)
    {context : AttentionContext runtime} (batched : Batched attention part.heads limit context queries)
    (shape : x.HasShape queries.length part.hiddenSize) (caches : Nat → KVCaches R) :
    ∃ output caches', layer.attention tpSize context (queries.map Query.position) x (fun r => some (caches r)) =
        .ok (output, fun r => some (caches' r)) ∧
      output.HasShape queries.length part.hiddenSize ∧
      (∀ (t : Nat) (query : Query), queries[t]? = some query → output.row part.hiddenSize t =
        w.attend (part.times tpSize) attention query.position (x.row part.hiddenSize t)
          (query.context.map (slotEntry tpSize part.heads caches'))) ∧
      Overwrites (queries.map Query.slot)
        (queries.mapIdx (fun t query => w.entryOf (part.times tpSize) query.position (x.row part.hiddenSize t)))
        (slotEntry tpSize part.heads caches) (slotEntry tpSize part.heads caches') := by
  have ranks (r : Nat) (below : r < tpSize) :=
    (loaded.attention r below).attend positive below holds batched shape (caches r)
  have : Nonempty (Tensor R) := ⟨x⟩
  have : Nonempty (KVCaches R) := ⟨caches 0⟩
  choose! o after each attended using ranks
  have products (r : Nat) (below : r < tpSize) :
      ∃ y, (o r).linear (w.o.colBlock (part.heads.size .q) r) none = some y :=
    ⟨_, Tensor.linear_eq (attended r below).shape.2⟩
  choose! y product using products
  have run : (List.range tpSize).mapM (fun r => (layer.selfAttn r).attend layer.attnNorms context
      (queries.map Query.position) x (some (caches r))) =
      .ok ((List.range tpSize).map (fun r => (y r, some (after r)))) := by
    refine mapM_eq (fun r listed => ?_)
    have below := List.mem_range.mp listed
    rw [loaded.attnNorms, each r below, product r below]
    rfl
  let caches' (r : Nat) : KVCaches R := if r < tpSize then after r else caches r
  have own {r : Nat} (below : r < tpSize) : caches' r = after r := if_pos below
  have attended' (r : Nat) (below : r < tpSize) :
      RankAttended tpSize r part w attention queries x (caches r) (caches' r) (o r) := own below ▸ attended r below
  have reduced (r : Nat) (below : r < tpSize) :
      (((List.range tpSize).map (fun r => (y r, some (after r))))[r]?.map Prod.fst : Option (Tensor R)) =
        (o r).linear (w.o.colBlock (part.heads.size .q) r) none := by
    rw [product r below, List.getElem?_map, List.getElem?_range below]
    rfl
  obtain ⟨output, whole, reduction, projected, same⟩ := RowParallelLinear.reduce_blocks positive
    (show (readAll tpSize part w attention queries (slotEntry tpSize part.heads caches') x).cols = _ from
      HeadShape.size_mul .q) loaded.oShape.2
    (fun r below => (attended' r below).same shape.1 (fun slot head inside => slotEntry_rank below _ _ slot inside))
    reduced
  obtain ⟨whole', projected', wholeShape, entries⟩ := @Tensor.linear_rows R ((part.times tpSize).heads.size .q)
    (readAll tpSize part w attention queries (slotEntry tpSize part.heads caches') x) _ w.o none rfl
    (loaded.oShape.2.trans (HeadShape.size_mul .q).symm) (by simp)
  rw [projected, Option.some.injEq] at projected'
  subst projected'
  have rows : output.rows = queries.length := same.rows.trans (wholeShape.1.trans shape.1)
  have width : output.cols = part.hiddenSize := same.cols.trans (wholeShape.2.trans loaded.oShape.1)
  refine ⟨output, caches', ?run, ⟨rows, width⟩, ?rows, slotEntry_overwrites holds.kv_pos attended'⟩
  case run =>
    have held : (fun r => (((List.range tpSize).map (fun r => (y r, some (after r))))[r]?.map Prod.snd).getD
        (some (caches r))) = fun r => some (caches' r) := by
      funext r
      by_cases below : r < tpSize
      · rw [own below, List.getElem?_map, List.getElem?_range below]
        rfl
      · rw [List.getElem?_eq_none (by simpa using below), show caches' r = caches r from if_neg below]
        rfl
    rw [Qwen3DecoderLayer.attention, run, except_ok_bind, reduction]
    exact congrArg (fun held => Except.ok (output, held)) held
  case rows =>
    intro t query entry
    rw [same.row width (rows ▸ (List.getElem?_eq_some_iff.mp entry).1)]
    funext c
    rw [Tensor.row, entries, LayerWeights.attend]
    congr 1
    funext j
    simp only [Tensor.row, readAll, entry, spread, j.isLt, dif_pos]

/-- One decoder layer on all ranks is the plain layer: it takes the last position of each query's sequence, and the
caches go on to hold what the sequences keep. -/
theorem LayerLoaded.forward_plain (loaded : LayerLoaded tpSize part w layer) (positive : 0 < tpSize) (silu : R → R)
    {runtime : AttentionRuntime R (part.heads.size .q)} (holds : runtime.Holds part.heads limit)
    {context : AttentionContext runtime} (batched : Batched attention part.heads limit context queries)
    {label label' : Int → List Token} (labelled : Labelled queries label label')
    (shape : hiddenStates.HasShape queries.length part.hiddenSize)
    (shape' : ∀ r ∈ residual, r.HasShape queries.length part.hiddenSize)
    {rowsOf : List Token → List (Fin part.hiddenSize → R)} (prefixes : Prefixes rowsOf)
    (stream : Lasts rowsOf queries (streamRow part.hiddenSize hiddenStates residual))
    {caches : Nat → KVCaches R}
    (mirror : Mirrors (w.plain (part.times tpSize) silu attention) rowsOf label (slotEntry tpSize part.heads caches)) :
    ∃ hiddenStates' residual' caches', layer.forward silu tpSize context (queries.map Query.position) hiddenStates
        residual (fun r => some (caches r)) = .ok (hiddenStates', residual', fun r => some (caches' r)) ∧
      hiddenStates'.HasShape queries.length part.hiddenSize ∧ residual'.HasShape queries.length part.hiddenSize ∧
      Lasts (fun tokenIds => (w.plain (part.times tpSize) silu attention).pass (rowsOf tokenIds)) queries
        (streamRow part.hiddenSize hiddenStates' (some residual')) ∧
      Mirrors (w.plain (part.times tpSize) silu attention) rowsOf label' (slotEntry tpSize part.heads caches') := by
  obtain ⟨x, sum, first, xShape, sumShape, normed⟩ := layer.enter_ok shape shape'
  obtain ⟨attended, caches', run, attendedShape, attendedRows, writes⟩ :=
    loaded.attention_rows positive holds batched xShape caches
  obtain ⟨x', sum', second, xShape', sumShape', normed'⟩ :=
    layer.postAttentionLayernorm.forwardInplace_ok attendedShape sumShape
  obtain ⟨y, mlp, yShape, mlpRows⟩ := loaded.mlp_rows positive silu xShape'
  have last {t : Nat} {query : Query} (entry : queries[t]? = some query) :
      (rowsOf query.tokenIds).getLast? = some (sum.row part.hiddenSize t) := by
    rw [stream t query entry, (normed t).1]
  have row (t : Nat) : x.row part.hiddenSize t =
      w.inputLayernorm.rms part.hiddenSize (sum.row part.hiddenSize t) := by
    rw [(normed t).2, loaded.inputLayernorm]
  have mirror' : Mirrors (w.plain (part.times tpSize) silu attention) rowsOf label'
      (slotEntry tpSize part.heads caches') := by
    refine mirror.written labelled.writes writes (fun t tokenIds entry sequence kept => ?_)
    rw [List.getElem?_map, Option.map_eq_some_iff] at sequence
    obtain ⟨query, listed, rfl⟩ := sequence
    rw [List.getElem?_mapIdx, listed, Option.map_some, Option.some.injEq] at kept
    rw [Layer.getLast?_kept, last listed, prefixes.length, ← kept, row]
    rfl
  refine ⟨y, sum', caches', ?run, yShape, sumShape', ?last, mirror'⟩
  case run =>
    simp only [Qwen3DecoderLayer.forward, first, except_ok_bind, run, second, ofTensor, mlp, pure_bind]
    rfl
  case last =>
    intro t query entry
    have contexts := mirror'.context (fun n => prefixes.take n query.tokenIds) (prefixes.length _)
      (labelled.length query (List.mem_of_getElem? entry)) (labelled.context query (List.mem_of_getElem? entry))
    have inside : t < queries.length := (List.getElem?_eq_some_iff.mp entry).1
    have mid : sum'.row part.hiddenSize t = sum.row part.hiddenSize t +
        w.attend (part.times tpSize) attention query.position
          (w.inputLayernorm.rms part.hiddenSize (sum.row part.hiddenSize t))
          ((w.plain (part.times tpSize) silu attention).kept (rowsOf query.tokenIds)) := by
      rw [(normed' t).1, attendedRows t query entry, contexts, row, add_comm]
    have value : streamRow part.hiddenSize y (some sum') t =
        (w.plain (part.times tpSize) silu attention).mix query.position (sum.row part.hiddenSize t)
          ((w.plain (part.times tpSize) silu attention).kept (rowsOf query.tokenIds)) := by
      rw [streamRow, mlpRows t inside, (normed' t).2, loaded.postAttentionLayernorm, mid, add_comm]
      rfl
    rw [Layer.getLast?_pass, last entry, prefixes.length, value]
    rfl

end Parts

end NanoVllm
