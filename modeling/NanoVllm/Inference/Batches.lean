import NanoVllm.Attention.Backends
import NanoVllm.Inference.Model
import NanoVllm.Runs.Slots

set_option autoImplicit false

namespace NanoVllm

open Python Raising Torch Paged Causal

variable {R : Type} {size n : Nat} {seqs : List Sequence} {seq : Sequence}

-- The query at a position of a sequence, on the pages of its block table.
def Query.at (size : Nat) (seq : Sequence) (position : Nat) : Query :=
  { tokenIds := seq.tokenIds.take (position + 1)
    context := (List.range (position + 1)).map (ModelRunner.slotAt size seq) }

def queriesOf (size : Nat) (seqs : List Sequence) : List Query :=
  seqs.flatMap (fun seq => (List.range' seq.numCachedTokens seq.numNewTokens).map (Query.at size seq))

section Queries

variable {position : Nat}

theorem mem_queriesOf {query : Query} : query ∈ queriesOf size seqs ↔
    ∃ seq ∈ seqs, ∃ position, seq.numCachedTokens ≤ position ∧ position < seq.numContextTokens ∧
      query = .at size seq position := by
  simp only [queriesOf, List.mem_flatMap, List.mem_map, List.mem_range'_1, Sequence.numContextTokens, and_assoc, eq_comm]

theorem map_queriesOf {β : Type} (f : Query → β) : (queriesOf size seqs).map f =
    seqs.flatMap (fun seq => (List.range' seq.numCachedTokens seq.numNewTokens).map (fun p => f (.at size seq p))) := by
  simp only [queriesOf, List.map_flatMap, List.map_map]
  rfl

@[simp] theorem Query.slot_at : (Query.at size seq position).slot = ModelRunner.slotAt size seq position := by
  simp [Query.slot, Query.at, List.range_succ]

theorem Query.position_at (inside : position < seq.tokenIds.length) :
    (Query.at size seq position).position = position := by
  simp only [Query.position, Query.at, List.length_take]
  omega

theorem Query.token_at (inside : position < seq.tokenIds.length) :
    (Query.at size seq position).token = seq.tokenIds[position] := by
  simp only [Query.token, Query.at]
  rw [List.getLastD_eq_getLast?, getLast?_take_succ inside, List.getElem?_eq_getElem inside]
  rfl

end Queries

namespace Packable

theorem length_queries : (queriesOf size seqs).length = (seqs.map Sequence.numNewTokens).sum := by
  simp [queriesOf, List.length_flatMap]

theorem queries_slots (h : Packable size seqs n) :
    (queriesOf size seqs).map Query.slot = seqs.flatMap (ModelRunner.seqSlots size) := by
  rw [map_queriesOf]
  refine List.flatMap_congr (fun seq listed => ?_)
  rw [ModelRunner.seqSlots_eq (h.block seq listed) h.size_pos (h.pages seq listed) (h.new seq listed)]
  exact List.map_congr_left (fun p _ => Query.slot_at)

theorem query_inside (h : Packable size seqs n) (listed : seq ∈ seqs) {p : Nat}
    (query : p ∈ List.range' seq.numCachedTokens seq.numNewTokens) : p < seq.tokenIds.length :=
  (List.mem_range'_1.mp query).2.trans_le (h.within seq listed)

theorem queries_positions (h : Packable size seqs n) :
    (queriesOf size seqs).map Query.position = (ModelRunner.packed size seqs n).positions := by
  rw [map_queriesOf]
  refine List.flatMap_congr (fun seq listed => ?_)
  conv_rhs => rw [← List.map_id (List.range' _ _)]
  exact List.map_congr_left (fun p query => Query.position_at (h.query_inside listed query))

theorem queries_tokens (h : Packable size seqs n) :
    (queriesOf size seqs).map Query.token = (ModelRunner.packed size seqs n).inputIds := by
  rw [map_queriesOf]
  refine List.flatMap_congr (fun seq listed => ?_)
  refine List.ext_getElem ?_ (fun j inside inside' => ?_)
  · rw [h.length_slice listed, List.length_map, List.length_range']
  · have within := h.within seq listed
    rw [List.length_map, List.length_range'] at inside
    rw [Sequence.numContextTokens] at within
    rw [List.getElem_map, List.getElem_range', Nat.one_mul, Query.token_at (by omega)]
    simp only [slice, List.getElem_drop, List.getElem_take]

theorem queries_contexts (h : Packable size seqs n) :
    contexts size (seqs.map Sequence.pagedRow) = (queriesOf size seqs).map Query.context := by
  rw [map_queriesOf, contexts, List.flatMap_map]
  refine List.flatMap_congr (fun seq listed => ?_)
  rw [List.range'_eq_map_range, List.map_map]
  refine List.map_congr_left (fun j query => ?_)
  have below : j < seq.numNewTokens := List.mem_range.mp query
  have length : seq.pagedRow.length - seq.pagedRow.count = seq.numCachedTokens := Nat.add_sub_cancel ..
  rw [Row.context, length, Function.comp_apply, Query.at]
  refine List.map_congr_left (fun p earlier => ?_)
  have page : p / size < seq.blockTable.length := by
    rw [h.pages seq listed]
    exact div_lt_pagesFor h.size_pos (by rw [List.mem_range] at earlier; rw [Sequence.numContextTokens]; omega)
  rw [ModelRunner.slotAt, List.getElem?_eq_getElem page, Paged.slot, List.getD_eq_getElem?_getD]
  simp [Sequence.pagedRow, Sequence.pageRow, page, slotOf]

theorem queries_writes : (queriesOf size seqs).map Query.tokenIds = queryContexts seqs := map_queriesOf Query.tokenIds

theorem slots_inside (h : Packable size seqs n) {numBlocks : Nat}
    (bounded : ∀ seq ∈ seqs, ∀ b ∈ seq.blockTable, b < numBlocks) :
    ∀ slot ∈ seqs.flatMap (ModelRunner.seqSlots size), 0 ≤ slot ∧ slot < (numBlocks * size : Nat) := by
  intro slot listed
  obtain ⟨seq, member, listed⟩ := List.mem_flatMap.mp listed
  rw [ModelRunner.seqSlots_eq (h.block seq member) h.size_pos (h.pages seq member) (h.new seq member)] at listed
  obtain ⟨p, query, rfl⟩ := List.mem_map.mp listed
  have page : p / size < seq.blockTable.length := by
    rw [h.pages seq member]
    exact div_lt_pagesFor h.size_pos (List.mem_range'_1.mp query).2
  have block := bounded seq member _ (List.getElem_mem page)
  have offset := Nat.mod_lt p h.size_pos
  have within : seq.blockTable[p / size] * size + p % size < numBlocks * size :=
    (Nat.add_lt_add_left offset _).trans_le (Tensor.block_within block)
  rw [ModelRunner.slotAt, List.getElem?_eq_getElem page]
  simp only [slotOf]
  exact ⟨Int.natCast_nonneg _, by exact_mod_cast within⟩

theorem batched (h : Packable size seqs n) [Zero R] {attention : HeadAttention R} {heads : HeadShape}
    {runtime : AttentionRuntime R (heads.size .q)}
    (computes : runtime.backend.Computes size (attendCaches attention heads))
    (once : (seqs.flatMap (ModelRunner.seqSlots size)).Nodup)
    (bounded : ∀ seq ∈ seqs, ∀ b ∈ seq.blockTable, b < runtime.cacheShape.numBlocks) {limit : Nat}
    (few : (seqs.map Sequence.numNewTokens).sum ≤ limit) (paged : runtime.cacheShape.blockSize = size) :
    ∃ plan, runtime.backend.buildPlan (ModelRunner.packed size seqs n).attentionMetadata = .ok plan ∧
      Batched attention heads limit
        (⟨(ModelRunner.packed size seqs n).attentionMetadata, plan⟩ : AttentionContext runtime)
        (queriesOf size seqs) := by
  obtain ⟨plan, built, run⟩ := @computes.forward _ _ true h
  refine ⟨plan, built, length_queries.trans_le few, h.queries_slots.symm, ?once, ?inside, ?forward⟩
  case once => rwa [h.queries_slots]
  case inside =>
    rw [h.queries_slots, paged]
    exact h.slots_inside bounded
  case forward =>
    intro cacheless caches q length
    rw [length_queries] at length
    rw [run cacheless caches q length, attention_eq (by rwa [counts_pagedRow]), h.queries_contexts,
      List.zipWith_map_right]

end Packable

section Labels

variable {label : Cache} {slots : List Int} {values : List (List Token)}

theorem writeSlots_of_not_mem {writes : List (Int × List Token)} {slot : Int} (outside : ∀ w ∈ writes, w.1 ≠ slot) :
    writeSlots label writes slot = label slot := by
  induction writes generalizing label with
  | nil => rfl
  | cons w rest ih =>
      have here := outside w (List.mem_cons_self ..)
      rw [writeSlots, ih (fun w later => outside w (List.mem_cons_of_mem _ later))]
      split
      · rfl
      · rw [Function.update_of_ne here.symm]

theorem writeSlots_overwrites (length : slots.length = values.length) (once : slots.Nodup)
    (real : ∀ slot ∈ slots, slot ≠ -1) : Overwrites slots values label (writeSlots label (slots.zip values)) := by
  constructor
  case length => exact length
  case value =>
    intro i slot value place entry
    have pair : (slots.zip values)[i]? = some (slot, value) := by
      rw [List.getElem?_zip_eq_some]
      exact ⟨place, entry⟩
    rcases writeSlots_value label (slots.zip values) (real slot (List.mem_of_getElem? place)) with
      ⟨w, listed, same, written⟩ | ⟨none, -⟩
    · obtain ⟨j, pair'⟩ := List.getElem?_of_mem listed
      obtain ⟨place', entry'⟩ := List.getElem?_zip_eq_some.mp pair'
      have inside := (List.getElem?_eq_some_iff.mp place).1
      obtain rfl : i = j := (List.getElem?_inj inside once).mp (place.trans (same ▸ place').symm)
      rw [written]
      exact Option.some.inj (entry'.symm.trans entry)
    · exact absurd rfl (none _ (List.mem_of_getElem? pair))
  case rest =>
    intro slot outside
    refine writeSlots_of_not_mem (fun w listed same => outside ?_)
    exact same ▸ (List.of_mem_zip listed).1

theorem Packable.labelled (h : Packable size seqs n) (once : (seqs.flatMap (ModelRunner.seqSlots size)).Nodup)
    (bounded : ∀ slot ∈ seqs.flatMap (ModelRunner.seqSlots size), 0 ≤ slot)
    (resident : ∀ seq ∈ seqs, ∀ p < seq.numContextTokens,
      execute label (ModelRunner.packed size seqs n) seqs (ModelRunner.slotAt size seq p) = seq.tokenIds.take (p + 1)) :
    Labelled (queriesOf size seqs) label (execute label (ModelRunner.packed size seqs n) seqs) := by
  constructor
  case writes =>
    rw [h.queries_slots, queries_writes]
    refine writeSlots_overwrites ?_ once (fun slot listed => ?_)
    · rw [← h.queries_slots, ← queries_writes, List.length_map, List.length_map]
    · have positive := bounded slot listed
      omega
  case length =>
    intro query listed
    obtain ⟨seq, member, p, -, below, rfl⟩ := mem_queriesOf.mp listed
    have within := h.within seq member
    simp only [Query.at, List.length_map, List.length_range, List.length_take]
    omega
  case context =>
    intro query listed j slot place
    obtain ⟨seq, member, p, -, below, rfl⟩ := mem_queriesOf.mp listed
    simp only [Query.at, List.getElem?_map, Option.map_eq_some_iff] at place
    obtain ⟨j', entry, rfl⟩ := place
    obtain ⟨inside, rfl⟩ := List.getElem?_eq_some_iff.mp entry
    rw [List.length_range] at inside
    rw [List.getElem_range, resident seq member j (by omega), Query.at, List.take_take, Nat.min_eq_left (by omega)]

end Labels

end NanoVllm
