import Mathlib.Tactic.Ring
import NanoVllm.Model.Qwen3
import NanoVllm.Parallel.Linear

set_option autoImplicit false

namespace NanoVllm

open Torch Finset

variable {R : Type} {tpSize rank hidden numHeads numKvHeads headSize cols : Nat}

structure HeadShape where
  numHeads : Nat
  numKvHeads : Nat
  headSize : Nat

namespace HeadShape

def count (heads : HeadShape) : QKVShard → Nat
  | .q => heads.numHeads
  | .k | .v => heads.numKvHeads

-- The rows of a shard on a rank, and where they start in the packed parameter.
def size (heads : HeadShape) (s : QKVShard) : Nat := heads.count s * heads.headSize

def offset (heads : HeadShape) : QKVShard → Nat
  | .q => 0
  | .k => heads.size .q
  | .v => heads.size .q + heads.size .k

def total (heads : HeadShape) : Nat := heads.size .q + heads.size .k + heads.size .v

-- The heads of each of `tpSize` ranks.
def shard (whole : HeadShape) (tpSize : Nat) : HeadShape :=
  ⟨whole.numHeads / tpSize, whole.numKvHeads / tpSize, whole.headSize⟩

variable {heads : HeadShape}

theorem shard_mul (positive : 0 < tpSize) :
    (HeadShape.mk (tpSize * numHeads) (tpSize * numKvHeads) headSize).shard tpSize =
    ⟨numHeads, numKvHeads, headSize⟩ := by
  rw [shard, Nat.mul_div_cancel_left _ positive, Nat.mul_div_cancel_left _ positive]

theorem size_mul (s : QKVShard) : (HeadShape.mk (tpSize * numHeads) (tpSize * numKvHeads) headSize).size s =
    tpSize * (HeadShape.mk numHeads numKvHeads headSize).size s := by
  cases s
  all_goals exact Nat.mul_assoc ..

theorem within (heads : HeadShape) (s : QKVShard) : heads.offset s + heads.size s ≤ heads.total := by
  cases s <;> simp only [offset, total] <;> omega

theorem apart {s s' : QKVShard} {i : Nat} (covers : Covers (heads.offset s, heads.size s) i)
    (covers' : Covers (heads.offset s', heads.size s') i) : s = s' := by
  have same : heads.size .v = heads.size .k := rfl
  cases s <;> cases s' <;> simp only [Covers, offset] at covers covers' <;> first | rfl | omega

end HeadShape

namespace QKVParallelLinear

def onRank (rank tpSize : Nat) (heads : HeadShape) (weight : Tensor R) (bias : Option (Tensor R)) :
    QKVParallelLinear R :=
  { tpRank := rank
    tpSize
    weight
    bias
    headSize := heads.headSize
    numHeads := heads.numHeads
    numKvHeads := heads.numKvHeads }

variable {heads : HeadShape}

theorem window_eq (weight : Tensor R) (bias : Option (Tensor R)) (s : QKVShard) :
    (onRank rank tpSize heads weight bias).window s = (heads.offset s, heads.size s) := by
  cases s <;> rfl

theorem weightLoader_eq (below : rank < tpSize) (weight : Tensor R) (bias : Option (Tensor R)) (s : QKVShard)
    {loadedWeight : Tensor R} (shape : loadedWeight.HasShape (tpSize * heads.size s) cols) (entry : Nat → Nat → R) :
    (onRank rank tpSize heads weight bias).weightLoader ⟨heads.total, cols, entry⟩ loadedWeight s =
      some ⟨heads.total, cols, fun i j =>
        if Covers (heads.offset s, heads.size s) i then
          loadedWeight.entry (rank * heads.size s + (i - heads.offset s)) j
        else entry i j⟩ := by
  obtain ⟨rows, rfl⟩ := shape
  have copied := Tensor.copyRows_eq (x := ⟨heads.total, loadedWeight.cols, entry⟩)
    (y := loadedWeight.rowBlock (heads.size s) rank) (heads.within s) ⟨rfl, rfl⟩
  have chunk : loadedWeight.chunkRows (onRank rank tpSize heads weight bias).tpSize
      (onRank rank tpSize heads weight bias).tpRank = some (loadedWeight.rowBlock (heads.size s) rank) :=
    Tensor.chunkRows_block rows below
  rw [weightLoader, window_eq, chunk, Option.bind_eq_bind, Option.bind_some]
  exact copied

def Packed (rank : Nat) (heads : HeadShape) (shards : List (QKVShard × Tensor R)) (entry : Nat → Nat → R) : Prop :=
  ∀ s ∈ shards, ∀ i < heads.size s.1, ∀ j, entry (heads.offset s.1 + i) j = s.2.entry (rank * heads.size s.1 + i) j

theorem loads_packed (below : rank < tpSize) (weight : Tensor R) (bias : Option (Tensor R))
    {shards : List (QKVShard × Tensor R)} (once : (shards.map Prod.fst).Nodup)
    (shapes : ∀ s ∈ shards, s.2.HasShape (tpSize * heads.size s.1) cols) (entry : Nat → Nat → R) :
    ∃ entry', shards.foldlM
        (fun param s => (onRank rank tpSize heads weight bias).weightLoader param s.2 s.1) ⟨heads.total, cols, entry⟩ =
      some ⟨heads.total, cols, entry'⟩ ∧ Packed rank heads shards entry' ∧
      ∀ i j, (∀ s ∈ shards, ¬Covers (heads.offset s.1, heads.size s.1) i) → entry' i j = entry i j := by
  induction shards generalizing entry with
  | nil => exact ⟨entry, rfl, by simp [Packed], fun _ _ _ => rfl⟩
  | cons s rest ih =>
      rw [List.map_cons, List.nodup_cons] at once
      have first := weightLoader_eq below weight bias s.1 (shapes s (List.mem_cons_self ..)) entry
      obtain ⟨entry', run, packed, others⟩ := ih once.2
        (fun s' later => shapes s' (List.mem_cons_of_mem s later))
        (fun i j => if Covers (heads.offset s.1, heads.size s.1) i then
          s.2.entry (rank * heads.size s.1 + (i - heads.offset s.1)) j else entry i j)
      refine ⟨entry', ?_, ?_, ?_⟩
      · rw [List.foldlM_cons, first, Option.bind_eq_bind, Option.bind_some]
        exact run
      · intro s' listed i inside j
        rcases List.mem_cons.mp listed with rfl | later
        · have covers : Covers (heads.offset s'.1, heads.size s'.1) (heads.offset s'.1 + i) :=
            ⟨Nat.le_add_right .., Nat.add_lt_add_left inside _⟩
          rw [others, if_pos covers, Nat.add_sub_cancel_left]
          intro s later covers'
          exact once.1 (HeadShape.apart covers covers' ▸ List.mem_map_of_mem later)
        · exact packed s' later i inside j
      · intro i j outside
        rw [others i j (fun s' later => outside s' (List.mem_cons_of_mem s later)),
          if_neg (outside s (List.mem_cons_self ..))]

theorem load_run {self : QKVParallelLinear R} {shards : List (QKVShard × Tensor R)} {weight : Tensor R}
    (run : shards.foldlM (fun param s => self.weightLoader param s.2 s.1) self.weight = some weight) :
    shards.foldlM load self = some { self with weight } := by
  induction shards generalizing self with
  | nil =>
      cases run
      rfl
  | cons s rest ih =>
      rw [List.foldlM_cons, Option.bind_eq_bind, Option.bind_eq_some_iff] at run ⊢
      obtain ⟨param, first, later⟩ := run
      refine ⟨{ self with weight := param }, ?_, @ih { self with weight := param } later⟩
      rw [load, first]
      rfl

theorem loadBias_run {self : QKVParallelLinear R} {shards : List (QKVShard × Tensor R)} {bias bias' : Tensor R}
    (has : self.bias = some bias)
    (run : shards.foldlM (fun param s => self.weightLoader param s.2 s.1) bias = some bias') :
    shards.foldlM loadBias self = some { self with bias := some bias' } := by
  induction shards generalizing self bias with
  | nil =>
      cases run
      rw [← has]
      rfl
  | cons s rest ih =>
      rw [List.foldlM_cons, Option.bind_eq_bind, Option.bind_eq_some_iff] at run ⊢
      obtain ⟨param, first, later⟩ := run
      refine ⟨{ self with bias := some param }, ?_, @ih { self with bias := some param } param rfl later⟩
      rw [loadBias, has, Option.bind_eq_bind, Option.bind_some, first]
      rfl

theorem init_eq (positive : 0 < tpSize) (memory : Nat → Nat → R) (heads : HeadShape) (some' : 0 < heads.numKvHeads)
    (bias : Bool) :
    init rank tpSize memory hidden heads.headSize (tpSize * heads.numHeads) (some (tpSize * heads.numKvHeads)) bias =
      some (onRank rank tpSize heads ⟨heads.total, hidden, memory⟩
        (if bias then some ⟨heads.total, 1, memory⟩ else none)) := by
  have kvHeads : tpSize * heads.numKvHeads ≠ 0 := (Nat.mul_pos positive some').ne'
  have total : (tpSize * heads.numHeads + 2 * (tpSize * heads.numKvHeads)) * heads.headSize =
      tpSize * heads.total := by
    simp only [HeadShape.total, HeadShape.size, HeadShape.count]
    ring
  simp only [init, kvHeads, if_false, divide_mul positive, Option.bind_eq_bind, Option.bind_some,
    ColumnParallelLinear.init, total]
  rfl

end QKVParallelLinear

section Heads

variable {ops : HeadOps R} {positions : Nat → Nat} {tokens group : Nat} {qkvBias : Bool} {q k v q' k' v' : Tensor R}

theorem headView_block {x x' : Tensor R} {heads head : Nat} (rows : x.rows = tokens)
    (same : x.Same (x'.colBlock (heads * headSize) rank)) (below : head < heads) :
    headView tokens headSize x head = headView tokens headSize x' (rank * heads + head) := by
  funext t c
  have inside : head * headSize + c < heads * headSize :=
    (Nat.add_lt_add_left c.isLt _).trans_le (by rw [← Nat.succ_mul]; exact Nat.mul_le_mul_right _ below)
  have place : rank * (heads * headSize) + (head * headSize + c) = (rank * heads + head) * headSize + c := by ring
  have entry := same.entry t (by rw [rows]; exact t.isLt) (head * headSize + c) (by rw [same.cols]; exact inside)
  rw [headView, headView, entry, ← place]
  rfl

theorem kvHead_rank {kvHeads head : Nat} (group_pos : 0 < group) (rank : Nat) :
    (rank * (group * kvHeads) + head) / group = rank * kvHeads + head / group := by
  have split : rank * (group * kvHeads) + head = head + group * (rank * kvHeads) := by ring
  rw [split, Nat.add_mul_div_left _ _ group_pos, Nat.add_comm]

theorem group_eq {kvHeads : Nat} (positive : 0 < tpSize) (some' : 0 < kvHeads) :
    tpSize * (group * kvHeads) / (tpSize * kvHeads) = group := by
  rw [Nat.mul_div_mul_left _ _ positive, Nat.mul_div_cancel _ some']

theorem attendHeads_same [Zero R] {heads : HeadShape} (positive : 0 < tpSize) (some' : 0 < heads.numKvHeads)
    (groups : heads.numHeads = group * heads.numKvHeads) (qRows : q.rows = tokens) (kRows : k.rows = tokens)
    (vRows : v.rows = tokens) (qSame : q.Same (q'.colBlock (heads.size .q) rank))
    (kSame : k.Same (k'.colBlock (heads.size .k) rank)) (vSame : v.Same (v'.colBlock (heads.size .v) rank)) :
    (attendHeads ops positions tokens heads.numHeads heads.numKvHeads heads.headSize qkvBias q k v).Same
      ((attendHeads ops positions tokens (tpSize * heads.numHeads) (tpSize * heads.numKvHeads) heads.headSize qkvBias
        q' k' v').colBlock (heads.size .q) rank) := by
  refine ⟨rfl, rfl, fun t row c col => ?_⟩
  have row : t < tokens := row
  have col : c < heads.numHeads * heads.headSize := col
  have wide : 0 < heads.headSize := Nat.pos_of_mul_pos_left (Nat.zero_lt_of_lt col)
  have head : c / heads.headSize < heads.numHeads := Nat.div_lt_of_lt_mul (by rwa [Nat.mul_comm])
  have group_pos : 0 < group := by
    rcases Nat.eq_zero_or_pos group with rfl | positive
    · simp [groups] at head
    · exact positive
  have kvHead : c / heads.headSize / group < heads.numKvHeads :=
    Nat.div_lt_of_lt_mul (by rwa [← groups])
  have column : (rank * (heads.numHeads * heads.headSize) + c) / heads.headSize =
      rank * heads.numHeads + c / heads.headSize := by
    rw [Nat.mul_comm heads.numHeads, kvHead_rank wide]
  have place : (rank * (heads.numHeads * heads.headSize) + c) % heads.headSize = c % heads.headSize := by
    have split : rank * (heads.numHeads * heads.headSize) = heads.headSize * (rank * heads.numHeads) := by ring
    rw [split, Nat.mul_add_mod]
  have ratio : heads.numHeads / heads.numKvHeads = group := by
    rw [groups, Nat.mul_div_cancel _ some']
  have ratio' : tpSize * heads.numHeads / (tpSize * heads.numKvHeads) = group := by
    rw [groups, group_eq positive some']
  have kvPlace : (rank * heads.numHeads + c / heads.headSize) / group =
      rank * heads.numKvHeads + c / heads.headSize / group := by
    rw [groups, kvHead_rank group_pos]
  have inside : t < tokens ∧ 0 < heads.headSize := ⟨row, wide⟩
  simp only [attendHeads, Tensor.colBlock, HeadShape.size, HeadShape.count, dif_pos inside, column, place, ratio,
    ratio', kvPlace,
    headView_block qRows qSame head, headView_block kRows kSame kvHead, headView_block vRows vSame kvHead]

end Heads

def allShards (loaded : QKVShard → Tensor R) : List (QKVShard × Tensor R) :=
  [(.q, loaded .q), (.k, loaded .k), (.v, loaded .v)]

theorem mem_allShards (loaded : QKVShard → Tensor R) (s : QKVShard) : (s, loaded s) ∈ allShards loaded := by
  cases s <;> simp [allShards]

namespace QKVParallelLinear

variable {heads : HeadShape}

theorem loads_all (below : rank < tpSize) (weight : Tensor R) (bias : Option (Tensor R)) {loaded : QKVShard → Tensor R}
    (shapes : ∀ s, (loaded s).HasShape (tpSize * heads.size s) cols) {shards : List (QKVShard × Tensor R)}
    (order : shards.Perm (allShards loaded)) (entry : Nat → Nat → R) :
    ∃ entry', shards.foldlM
        (fun param s => (onRank rank tpSize heads weight bias).weightLoader param s.2 s.1) ⟨heads.total, cols, entry⟩ =
      some ⟨heads.total, cols, entry'⟩ ∧ Packed rank heads (allShards loaded) entry' := by
  have once : (shards.map Prod.fst).Nodup := (order.map Prod.fst).nodup_iff.mpr (by simp [allShards])
  have each : ∀ s ∈ shards, s.2.HasShape (tpSize * heads.size s.1) cols := by
    intro s listed
    have listed := order.mem_iff.mp listed
    simp only [allShards, List.mem_cons, List.not_mem_nil, or_false] at listed
    rcases listed with rfl | rfl | rfl
    all_goals exact shapes _
  obtain ⟨entry', run, packed, -⟩ := loads_packed below weight bias once each entry
  exact ⟨entry', run, fun s listed => packed s (order.mem_iff.mpr listed)⟩

variable [NonUnitalNonAssocSemiring R] {x : Tensor R}

-- The projection of a shard with its whole weight.
def projection (x weight : Tensor R) (bias : Option (Tensor R)) (rows : Nat) : Tensor R :=
  ⟨x.rows, rows, fun t c =>
    (∑ k ∈ range x.cols, x.entry t k * weight.entry c k) + (bias.map (fun b => b.entry c 0)).getD 0⟩

theorem linear_projection {weight : Tensor R} {bias : Option (Tensor R)} {rows : Nat}
    (shape : weight.HasShape rows x.cols)
    (biased : ∀ b ∈ bias, b.rows = rows) : x.linear weight bias = some (projection x weight bias rows) := by
  obtain ⟨rfl, cols⟩ := shape
  exact if_pos ⟨cols.symm, biased⟩

end QKVParallelLinear

namespace Qwen3Attention

open QKVParallelLinear

variable {heads : HeadShape} {qkvBias : Bool} {weight bias : QKVShard → Tensor R} {o x : Tensor R}

def onRank (rank tpSize : Nat) (heads : HeadShape) (qkvBias : Bool) (weight : Tensor R) (bias : Option (Tensor R))
    (o : Tensor R) : Qwen3Attention R :=
  { numHeads := heads.numHeads
    numKvHeads := heads.numKvHeads
    headDim := heads.headSize
    qSize := heads.size .q
    kvSize := heads.size .k
    qkvBias
    qkvProj := QKVParallelLinear.onRank rank tpSize heads weight bias
    oProj := ⟨rank, tpSize, o, none⟩ }

-- The parameters of a rank before they are loaded.
def created (rank tpSize : Nat) (heads : HeadShape) (hidden : Nat) (qkvBias : Bool) (memory : Nat → Nat → R) :
    Qwen3Attention R :=
  onRank rank tpSize heads qkvBias ⟨heads.total, hidden, memory⟩
    (if qkvBias then some ⟨heads.total, 1, memory⟩ else none) ⟨hidden, heads.size .q, memory⟩

theorem init_eq (positive : 0 < tpSize) (heads : HeadShape) (some' : 0 < heads.numKvHeads) (memory : Nat → Nat → R)
    {headDim : Option Nat}
    (dim : headDimOf hidden (tpSize * heads.numHeads) headDim = heads.headSize) :
    init rank tpSize memory hidden (tpSize * heads.numHeads) (tpSize * heads.numKvHeads) headDim qkvBias =
      some (created rank tpSize heads hidden qkvBias memory) := by
  have inputs : tpSize * heads.numHeads * heads.headSize = tpSize * heads.size .q := Nat.mul_assoc ..
  simp only [init, divide_mul positive, Option.bind_eq_bind, Option.bind_some, dim, inputs,
    QKVParallelLinear.init_eq positive memory heads some', RowParallelLinear.init_eq positive]
  rfl

-- The bias of a shard, when the projection has one.
def biasOf (qkvBias : Bool) (bias : QKVShard → Tensor R) (s : QKVShard) : Option (Tensor R) :=
  if qkvBias then some (bias s) else none

structure Loaded [Zero R] (rank tpSize : Nat) (heads : HeadShape) (qkvBias : Bool) (weight bias : QKVShard → Tensor R)
    (o : Tensor R) (hidden : Nat) (layer : Qwen3Attention R) : Prop where
  shape : ∃ entry bias', layer = onRank rank tpSize heads qkvBias ⟨heads.total, hidden, entry⟩ bias'
      (o.colBlock (heads.size .q) rank) ∧ Packed rank heads (allShards weight) entry ∧
    (∀ b ∈ bias', b.rows = heads.total) ∧ ∀ s, ∀ i < heads.size s,
      (bias'.map (fun b => b.entry (heads.offset s + i) 0)).getD 0 =
        ((biasOf qkvBias bias s).map (fun b => b.entry (rank * heads.size s + i) 0)).getD 0

theorem Loaded.rows [Zero R] {layer : Qwen3Attention R}
    (loaded : Loaded rank tpSize heads qkvBias weight bias o hidden layer) :
    layer.qkvProj.weight.rows = heads.total ∧
      ∀ s, ∀ head < heads.count s, ∀ c < heads.headSize, ∀ k,
        layer.qkvProj.weight.entry (heads.offset s + (head * heads.headSize + c)) k =
          (weight s).entry ((rank * heads.count s + head) * heads.headSize + c) k := by
  obtain ⟨entry, bias', rfl, packed, -⟩ := loaded.shape
  refine ⟨rfl, fun s head inside c place k => ?_⟩
  have within : head * heads.headSize + c < heads.size s :=
    (Nat.add_lt_add_left place _).trans_le (by rw [← Nat.succ_mul]; exact Nat.mul_le_mul_right _ inside)
  have row := packed _ (mem_allShards weight s) _ within k
  have split : rank * heads.size s + (head * heads.headSize + c) =
      (rank * heads.count s + head) * heads.headSize + c := by
    rw [HeadShape.size]
    ring
  rw [← split]
  exact row

theorem load_ok [Zero R] (below : rank < tpSize) (memory : Nat → Nat → R)
    (weightShapes : ∀ s, (weight s).HasShape (tpSize * heads.size s) hidden)
    (biasShapes : ∀ s, (bias s).HasShape (tpSize * heads.size s) 1) (oShape : o.HasShape hidden (tpSize * heads.size .q))
    {weights biases : List (QKVShard × Tensor R)} (order : weights.Perm (allShards weight))
    (biasOrder : biases.Perm (if qkvBias then allShards bias else [])) :
    ∃ layer, (created rank tpSize heads hidden qkvBias memory).load weights biases o = some layer ∧
      Loaded rank tpSize heads qkvBias weight bias o hidden layer := by
  obtain ⟨entry, run, packed⟩ := loads_all below ⟨heads.total, hidden, memory⟩
    (if qkvBias then some ⟨heads.total, 1, memory⟩ else none) weightShapes order memory
  have weightRun := @load_run _ (created rank tpSize heads hidden qkvBias memory).qkvProj _ _ run
  have oRun : RowParallelLinear.load (created rank tpSize heads hidden qkvBias memory).oProj o =
      some ⟨rank, tpSize, o.colBlock (heads.size .q) rank, none⟩ := RowParallelLinear.load_eq below oShape memory none
  cases qkvBias with
  | false =>
      obtain rfl : biases = [] := biasOrder.eq_nil
      refine ⟨_, ?_, ⟨entry, none, rfl, packed, by simp, by simp [biasOf]⟩⟩
      simp only [load, weightRun, Option.bind_eq_bind, Option.bind_some, List.foldlM_nil, Option.pure_def, oRun]
      rfl
  | true =>
      obtain ⟨entry', run', packed'⟩ := loads_all below ⟨heads.total, hidden, entry⟩ (some ⟨heads.total, 1, memory⟩)
        biasShapes biasOrder memory
      have biasRun : biases.foldlM loadBias { (created rank tpSize heads hidden true memory).qkvProj with
            weight := ⟨heads.total, hidden, entry⟩ } =
          some (QKVParallelLinear.onRank rank tpSize heads ⟨heads.total, hidden, entry⟩
            (some ⟨heads.total, 1, entry'⟩)) := loadBias_run rfl run'
      refine ⟨_, ?_, ⟨entry, some ⟨heads.total, 1, entry'⟩, rfl, packed, by simp, fun s i inside => ?_⟩⟩
      · simp only [load, weightRun, Option.bind_eq_bind, Option.bind_some, Option.pure_def, oRun, biasRun]
        rfl
      · simp only [biasOf, if_true, Option.map_some, Option.getD_some]
        exact packed' _ (mem_allShards bias s) i inside 0

section Product

variable [NonUnitalNonAssocSemiring R] {layer : Qwen3Attention R}

theorem project_ok (loaded : Loaded rank tpSize heads qkvBias weight bias o x.cols layer) :
    ∃ piece : QKVShard → Tensor R, layer.project x = some (piece .q, piece .k, piece .v) ∧
      ∀ s, (piece s).Same ((projection x (weight s) (biasOf qkvBias bias s) (tpSize * heads.size s)).colBlock
        (heads.size s) rank) := by
  obtain ⟨entry, bias', rfl, packed, biasRows, biases⟩ := loaded.shape
  let qkv := projection x ⟨heads.total, x.cols, entry⟩ bias' heads.total
  have projected : ColumnParallelLinear.forward (QKVParallelLinear.onRank rank tpSize heads
      ⟨heads.total, x.cols, entry⟩ bias').toLinearBase x = some qkv := linear_projection ⟨rfl, rfl⟩ biasRows
  have piece (s : QKVShard) := Tensor.narrowCols_eq (x := qkv) (heads.within s)
  have total : heads.size .q + heads.size .k + heads.size .k = qkv.cols := rfl
  refine ⟨fun s => ⟨x.rows, heads.size s, fun t c => qkv.entry t (heads.offset s + c)⟩, ?_, ?_⟩
  · have q : qkv.narrowCols 0 (heads.size .q) = _ := piece .q
    have k : qkv.narrowCols (heads.size .q) (heads.size .k) = _ := piece .k
    have v : qkv.narrowCols (heads.size .q + heads.size .k) (heads.size .k) = _ := piece .v
    unfold project
    refine (congrArg (· >>= _) projected).trans ?_
    refine (if_pos total).trans ?_
    simp only [onRank, Option.bind_eq_bind, q, k, v, Option.bind_some]
    rfl
  · intro s
    refine ⟨rfl, rfl, fun t row c col => ?_⟩
    have rows (k : Nat) := packed _ (mem_allShards weight s) c col k
    simp only [qkv, projection, Tensor.colBlock, rows, biases s c col]

theorem unsharded_eq (ops : HeadOps R) (positions : Nat → Nat) (qkvBias : Bool) (o : Tensor R) {whole : HeadShape}
    (weightShapes : ∀ s, (weight s).HasShape (whole.size s) x.cols)
    (biasShapes : ∀ s, (bias s).HasShape (whole.size s) 1) :
    (∀ s, x.linear (weight s) (biasOf qkvBias bias s) =
      some (projection x (weight s) (biasOf qkvBias bias s) (whole.size s))) ∧
    unsharded ops positions whole.numHeads whole.numKvHeads whole.headSize qkvBias weight (biasOf qkvBias bias) o x =
      (attendHeads ops positions x.rows whole.numHeads whole.numKvHeads whole.headSize qkvBias
        (projection x (weight .q) (biasOf qkvBias bias .q) (whole.size .q))
        (projection x (weight .k) (biasOf qkvBias bias .k) (whole.size .k))
        (projection x (weight .v) (biasOf qkvBias bias .v) (whole.size .v))).linear o none := by
  have each (s : QKVShard) : x.linear (weight s) (biasOf qkvBias bias s) =
      some (projection x (weight s) (biasOf qkvBias bias s) (whole.size s)) := by
    refine linear_projection (weightShapes s) (fun b has => ?_)
    cases qkvBias with
    | false => cases has
    | true =>
        cases has
        exact (biasShapes s).1
  refine ⟨each, ?_⟩
  simp only [unsharded, each, Option.bind_eq_bind, Option.bind_some]

theorem product_ok (ops : HeadOps R) (positions : Nat → Nat) {group : Nat} (positive : 0 < tpSize)
    (some' : 0 < heads.numKvHeads) (groups : heads.numHeads = group * heads.numKvHeads)
    (loaded : Loaded rank tpSize heads qkvBias weight bias o x.cols layer) :
    ∃ part, layer.product ops positions x = Tensor.linear part (o.colBlock (heads.size .q) rank) none ∧
      part.Same ((attendHeads ops positions x.rows (tpSize * heads.numHeads) (tpSize * heads.numKvHeads) heads.headSize
        qkvBias (projection x (weight .q) (biasOf qkvBias bias .q) (tpSize * heads.size .q))
        (projection x (weight .k) (biasOf qkvBias bias .k) (tpSize * heads.size .k))
        (projection x (weight .v) (biasOf qkvBias bias .v) (tpSize * heads.size .v))).colBlock (heads.size .q) rank) := by
  obtain ⟨piece, projected, same⟩ := project_ok loaded
  obtain ⟨entry, bias', rfl, -⟩ := loaded.shape
  refine ⟨_, ?_, attendHeads_same positive some' groups (same .q).rows (same .k).rows (same .v).rows (same .q) (same .k)
    (same .v)⟩
  rw [product, projected]
  exact RowParallelLinear.product_eq ..

end Product

end Qwen3Attention

/-- The tensor-parallel attention block computes the block of one device. -/
theorem attention_parallel [CommRing R] (ops : HeadOps R) (positions : Nat → Nat) (positive : 0 < tpSize)
    {whole : HeadShape} (divides : tpSize ∣ whole.numHeads) (kvDivides : tpSize ∣ whole.numKvHeads)
    (groups : whole.numKvHeads ∣ whole.numHeads) (some' : 0 < whole.numKvHeads) {headDim : Option Nat}
    (dim : Qwen3Attention.headDimOf hidden whole.numHeads headDim = whole.headSize) (qkvBias : Bool)
    {weight bias : QKVShard → Tensor R} {o x : Tensor R} (weightShapes : ∀ s, (weight s).HasShape (whole.size s) hidden)
    (biasShapes : ∀ s, (bias s).HasShape (whole.size s) 1) (oShape : o.HasShape hidden (whole.size .q))
    (inputs : x.cols = hidden) {weights biases : List (QKVShard × Tensor R)} (order : weights.Perm (allShards weight))
    (biasOrder : biases.Perm (if qkvBias then allShards bias else [])) (memory : Nat → Nat → Nat → R) :
    ∃ created loaded : Nat → Qwen3Attention R,
      (∀ r < tpSize,
        Qwen3Attention.init r tpSize (memory r) hidden whole.numHeads whole.numKvHeads headDim qkvBias =
          some (created r) ∧
        (created r).load weights biases o = some (loaded r) ∧
        (loaded r).qkvProj.weight.rows = (whole.shard tpSize).total ∧
        (∀ s, ∀ head < (whole.shard tpSize).count s, ∀ c < whole.headSize, ∀ k,
          (loaded r).qkvProj.weight.entry ((whole.shard tpSize).offset s + (head * whole.headSize + c)) k =
            (weight s).entry ((r * (whole.shard tpSize).count s + head) * whole.headSize + c) k) ∧
        (∀ head < (whole.shard tpSize).numHeads,
          head / ((whole.shard tpSize).numHeads / (whole.shard tpSize).numKvHeads) < (whole.shard tpSize).numKvHeads ∧
          (r * (whole.shard tpSize).numHeads + head) / (whole.numHeads / whole.numKvHeads) =
            r * (whole.shard tpSize).numKvHeads +
              head / ((whole.shard tpSize).numHeads / (whole.shard tpSize).numKvHeads)) ∧
        ∃ piece projected : QKVShard → Tensor R, (loaded r).project x = some (piece .q, piece .k, piece .v) ∧
          ∀ s, x.linear (weight s) (Qwen3Attention.biasOf qkvBias bias s) = some (projected s) ∧
            (piece s).Same ((projected s).colBlock ((whole.shard tpSize).size s) r)) ∧
      ∃ y y', Qwen3Attention.forward ops positions tpSize loaded x = some y ∧
        Qwen3Attention.unsharded ops positions whole.numHeads whole.numKvHeads whole.headSize qkvBias weight
          (Qwen3Attention.biasOf qkvBias bias) o x = some y' ∧ y.Same y' := by
  obtain rfl := inputs
  obtain ⟨projected, output⟩ := Qwen3Attention.unsharded_eq ops positions qkvBias o weightShapes biasShapes
  obtain ⟨numHeads, numKvHeads, headSize⟩ := whole
  obtain ⟨numHeads, rfl⟩ := divides
  obtain ⟨numKvHeads, rfl⟩ := kvDivides
  simp only [HeadShape.size_mul] at weightShapes biasShapes oShape projected output
  rw [HeadShape.shard_mul positive]
  have kvHeads : 0 < numKvHeads := Nat.pos_of_mul_pos_left some'
  obtain ⟨group, rfl⟩ := Nat.dvd_of_mul_dvd_mul_left positive groups
  have ranks : ∀ r < tpSize, ∃ layer, (Qwen3Attention.created r tpSize ⟨numKvHeads * group, numKvHeads, headSize⟩ x.cols
        qkvBias (memory r)).load weights biases o = some layer ∧
      Qwen3Attention.Loaded r tpSize ⟨numKvHeads * group, numKvHeads, headSize⟩ qkvBias weight bias o x.cols layer :=
    fun r below => Qwen3Attention.load_ok below (memory r) weightShapes biasShapes oShape order biasOrder
  have : Nonempty (Qwen3Attention R) := ⟨Qwen3Attention.created 0 tpSize ⟨0, 0, 0⟩ 0 false (memory 0)⟩
  choose! loaded load ok using ranks
  have products (r : Nat) (below : r < tpSize) :=
    Qwen3Attention.product_ok ops positions positive kvHeads (Nat.mul_comm ..) (ok r below)
  have : Nonempty (Tensor R) := ⟨x⟩
  choose! part each same using products
  refine ⟨_, loaded, fun r below => ⟨Qwen3Attention.init_eq positive ⟨numKvHeads * group, numKvHeads, headSize⟩ kvHeads
    (memory r) dim, load r below, (ok r below).rows.1, (ok r below).rows.2, ?groups, ?pieces⟩, ?output⟩
  case groups =>
    intro head inside
    have group_pos : 0 < group := Nat.pos_of_mul_pos_left (Nat.zero_lt_of_lt inside)
    rw [Nat.mul_comm numKvHeads group, Nat.mul_div_cancel _ kvHeads]
    dsimp only
    rw [group_eq positive kvHeads]
    exact ⟨Nat.div_lt_of_lt_mul (by rwa [Nat.mul_comm]), kvHead_rank group_pos r⟩
  case pieces =>
    obtain ⟨piece, split, same⟩ := Qwen3Attention.project_ok (ok r below)
    exact ⟨piece, _, split, fun s => ⟨projected s, same s⟩⟩
  case output =>
    rw [output]
    exact RowParallelLinear.reduce_blocks positive (Nat.mul_assoc ..) oShape.2 same each

def groupedOps : HeadOps Int where
  qNorm _ head := head
  kNorm _ head := head
  rotary _ position head c := head c + position
  attn _ _ q k v t c := q t c * k t c - v t c

def groupedShards (cols : Nat) (s : QKVShard) : Tensor Int := ⟨(HeadShape.mk 4 2 1).size s, cols, fun i j => 2 * i - j⟩

theorem attention_parallel_grouped :
    ∃ loaded : Nat → Qwen3Attention Int, ∃ y y',
      Qwen3Attention.forward groupedOps id 2 loaded ⟨3, 2, fun t k => t + k⟩ = some y ∧
      Qwen3Attention.unsharded groupedOps id 4 2 1 true (groupedShards 2)
        (Qwen3Attention.biasOf true (groupedShards 1)) ⟨2, 4, fun i j => i - j⟩ ⟨3, 2, fun t k => t + k⟩ = some y' ∧
      y.Same y' := by
  have o : Tensor.HasShape (R := Int) ⟨2, 4, fun i j => i - j⟩ 2 4 := ⟨rfl, rfl⟩
  have input : (Tensor.mk 3 2 (fun t k => (t : Int) + k)).cols = 2 := rfl
  obtain ⟨-, loaded, -, same⟩ := @attention_parallel Int 2 2 _ groupedOps id (by decide) ⟨4, 2, 1⟩ (by decide) (by decide)
    (by decide) (by decide) (some 1) rfl true (groupedShards 2) (groupedShards 1) _ _ (fun _ => ⟨rfl, rfl⟩)
    (fun _ => ⟨rfl, rfl⟩) o input [(.v, groupedShards 2 .v), (.k, groupedShards 2 .k), (.q, groupedShards 2 .q)]
    (allShards (groupedShards 1)) (List.reverse_perm (allShards (groupedShards 2))) (List.Perm.refl _) (fun _ _ _ => 0)
  exact ⟨loaded, same⟩

end NanoVllm
