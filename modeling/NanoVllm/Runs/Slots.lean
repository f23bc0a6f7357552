import NanoVllm.Runs.Metadata
import NanoVllm.Steps.Evolves

set_option autoImplicit false

namespace NanoVllm

open Python Raising Torch

/-- The packed arrays of a batch: sequence `r` owns the entries between its offsets in `query_start_loc`, which hold its
query tokens in order, with their positions and the slots of its block table; no slot is given twice. -/
structure PacksExactly (size : Nat) (seqs : List Sequence) (input : ModelRunner.ModelInput) : Prop where
  common : ∃ total, input.queryStartLoc.getLast? = some total ∧ input.inputIds.length = total ∧
    input.positions.length = total ∧ input.slotMapping.length = total
  rows : input.queryStartLoc.length = seqs.length + 1 ∧ input.queryStartLoc.head? = some 0
  row : ∀ r seq, seqs[r]? = some seq → ∃ first, input.queryStartLoc[r]? = some first ∧
    input.queryStartLoc[r + 1]? = some (first + seq.numNewTokens) ∧ ∀ j < seq.numNewTokens,
      input.positions[first + j]? = some (seq.numCachedTokens + j) ∧
      (∃ token, seq.tokenIds[seq.numCachedTokens + j]? = some token ∧ input.inputIds[first + j]? = some token) ∧
      ∃ b, seq.blockTable[(seq.numCachedTokens + j) / size]? = some b ∧
        input.slotMapping[first + j]? = some ((b * size + (seq.numCachedTokens + j) % size : Nat) : Int)
  once : input.slotMapping.Nodup

section Slots

open Scheduler

variable {cache : Cache} {xxh64 : XxHash} {config : Config} {s t u : Scheduler} {ids : Finset SeqId}
  {batch prefill : List SeqId} {size n : Nat} {seqs : List Sequence}

namespace Packable

theorem packed_row {α : Type} {f : Sequence → List α} (lengths : ∀ seq ∈ seqs, (f seq).length = seq.numNewTokens)
    {r : Nat} {seq : Sequence} (entry : seqs[r]? = some seq) {j : Nat} (below : j < seq.numNewTokens) :
    (seqs.flatMap f)[((seqs.map Sequence.numNewTokens).take r).sum + j]? = (f seq)[j]? := by
  have row : (seqs.map f)[r]? = some (f seq) := by
    rw [List.getElem?_map, entry]
    rfl
  have widths : (seqs.map f).map List.length = seqs.map Sequence.numNewTokens := by
    rw [List.map_map]
    exact List.map_congr_left lengths
  rw [List.flatMap_def, ← widths]
  exact getElem?_flatten row (lengths seq (List.mem_of_getElem? entry) ▸ below)

theorem packsExactly (h : Packable size seqs n) (once : (seqs.flatMap (ModelRunner.seqSlots size)).Nodup) :
    PacksExactly size seqs (ModelRunner.packed size seqs n) := by
  have starts : (ModelRunner.packed size seqs n).queryStartLoc = offsets (seqs.map Sequence.numNewTokens) := rfl
  have offset (k : Nat) (inside : k ≤ seqs.length) : (ModelRunner.packed size seqs n).queryStartLoc[k]? =
      some ((seqs.map Sequence.numNewTokens).take k).sum := by
    rw [starts, List.getElem?_eq_getElem (by simp; omega), getElem_offsets]
  constructor
  case common =>
    refine ⟨(seqs.map Sequence.numNewTokens).sum, ?_, h.length_inputIds, length_positions, h.length_slotMapping⟩
    rw [starts, getLast?_offsets]
  case rows =>
    rw [List.head?_eq_getElem?, offset 0 (Nat.zero_le _), starts]
    simp
  case row =>
    intro r seq entry
    have listed := List.mem_of_getElem? entry
    obtain ⟨inside, value⟩ := List.getElem?_eq_some_iff.mp entry
    have next := List.sum_take_succ (seqs.map Sequence.numNewTokens) r (by simpa using inside)
    rw [List.getElem_map, value] at next
    refine ⟨_, offset r inside.le, next ▸ offset (r + 1) inside, fun j below => ⟨?_, ?_, ?_⟩⟩
    · refine (packed_row (fun seq _ => List.length_range') entry below).trans ?_
      rw [List.getElem?_range' below, Nat.one_mul]
    · have short : seq.numCachedTokens + j < seq.tokenIds.length := by
        have within := h.within seq listed
        rw [Sequence.numContextTokens] at within
        omega
      refine ⟨seq.tokenIds[seq.numCachedTokens + j], List.getElem?_eq_getElem short, ?_⟩
      refine (packed_row (fun seq listed => h.length_slice listed) entry below).trans ?_
      rw [slice, List.getElem?_drop, List.getElem?_take_of_lt (by rw [Sequence.numContextTokens]; omega),
        List.getElem?_eq_getElem short]
    · have page : (seq.numCachedTokens + j) / size < seq.blockTable.length := by
        rw [h.pages seq listed]
        exact div_lt_pagesFor h.size_pos (by rw [Sequence.numContextTokens]; omega)
      refine ⟨seq.blockTable[(seq.numCachedTokens + j) / size], List.getElem?_eq_getElem page, ?_⟩
      refine (packed_row (fun seq listed => h.length_seqSlots listed) entry below).trans ?_
      rw [ModelRunner.seqSlots_eq (h.block seq listed) h.size_pos (h.pages seq listed) (h.new seq listed),
        List.getElem?_map, List.getElem?_range' below, Nat.one_mul, Option.map_some, ModelRunner.slotAt,
        List.getElem?_eq_getElem page]
      rfl
  case once => exact once

theorem slots_nodup (h : Packable size seqs n) (tables : ∀ seq ∈ seqs, seq.blockTable.Nodup)
    (alone : seqs.Pairwise (fun seq seq' => ∀ k l b, seq.blockTable[k]? = some b → seq'.blockTable[l]? = some b →
      seq.numCachedTokens < (k + 1) * size → seq'.numCachedTokens < (l + 1) * size → False)) :
    (seqs.flatMap (ModelRunner.seqSlots size)).Nodup := by
  have slots (seq : Sequence) (listed : seq ∈ seqs) : ModelRunner.seqSlots size seq =
      (List.range' seq.numCachedTokens seq.numNewTokens).map (ModelRunner.slotAt size seq) :=
    ModelRunner.seqSlots_eq (h.block seq listed) h.size_pos (h.pages seq listed) (h.new seq listed)
  have page (seq : Sequence) (listed : seq ∈ seqs) (position : Nat)
      (query : position ∈ List.range' seq.numCachedTokens seq.numNewTokens) :
      (∃ b, seq.blockTable[position / size]? = some b ∧
        ModelRunner.slotAt size seq position = slotOf size b (position % size)) ∧
      seq.numCachedTokens < (position / size + 1) * size := by
    obtain ⟨above, below⟩ := List.mem_range'_1.mp query
    have inside : position / size < seq.blockTable.length := by
      rw [h.pages seq listed]
      exact div_lt_pagesFor h.size_pos below
    refine ⟨⟨seq.blockTable[position / size], List.getElem?_eq_getElem inside, ?_⟩, ?_⟩
    · rw [ModelRunner.slotAt, List.getElem?_eq_getElem inside]
    · exact above.trans_lt ((Nat.div_lt_iff_lt_mul h.size_pos).mp (Nat.lt_succ_self _))
  rw [List.nodup_flatMap]
  constructor
  · intro seq listed
    rw [slots seq listed, List.nodup_map_iff_inj_on List.nodup_range']
    intro position query position' query' same
    obtain ⟨⟨b, entry, value⟩, -⟩ := page seq listed position query
    obtain ⟨entry', offset⟩ := ModelRunner.slotAt_eq (Nat.mod_lt _ h.size_pos) (same.symm.trans value)
    have block : position' / size = position / size := by
      have inside := (List.getElem?_eq_some_iff.mp entry').1
      exact (List.getElem?_inj inside (tables seq listed)).mp (entry'.trans entry.symm)
    rw [← Nat.div_add_mod position size, ← block, ← offset, Nat.div_add_mod]
  · refine alone.imp_of_mem (fun {seq seq'} listed listed' apart => ?_)
    change List.Disjoint _ _
    rw [List.disjoint_left, slots seq listed, slots seq' listed']
    intro slot owned owned'
    obtain ⟨position, query, rfl⟩ := List.mem_map.mp owned
    obtain ⟨position', query', same⟩ := List.mem_map.mp owned'
    obtain ⟨⟨b, entry, value⟩, open'⟩ := page seq listed position query
    obtain ⟨entry', -⟩ := ModelRunner.slotAt_eq (Nat.mod_lt _ h.size_pos) (same.trans value)
    exact apart _ _ b entry entry' open' (page seq' listed' position' query').2

end Packable

/-- Every batch of a reachable state is packed exactly. -/
theorem packing_exact (past : Reachable xxh64 config s ids) (run : schedule s = .ok batch t) :
    ∃ input, ModelRunner.prepareModelInput config.kvcacheBlockSize (batch.map t.seqs) t.numScheduledPrefillSeqs =
        .ok input ∧ PacksExactly config.kvcacheBlockSize (batch.map t.seqs) input := by
  obtain ⟨packable, prepared⟩ := past.packable run
  obtain ⟨cache, inv, same⟩ := past.inv
  obtain ⟨prefill, input, scheduled⟩ := inv.scheduled run
  have shape := scheduled.shape
  have size : t.blockManager.blockSize = config.kvcacheBlockSize := by
    rw [shape.size, scheduled.config, same]
  have members (i : SeqId) (listed : i ∈ batch) : i ∈ ids := by
    rw [scheduled.order] at listed
    exact (shape.member listed).1
  have once : batch.Nodup := scheduled.order ▸ shape.once
  obtain ⟨chain, kept⟩ := shape.kept
  obtain ⟨u, calls, -, inv', traced, listed⟩ := inv.schedule_traced run
  have exclusive := traced.exclusive inv'.exclusive (fun call called => members _ (listed call called))
  refine ⟨_, prepared, packable.packsExactly (packable.slots_nodup ?_ ?_)⟩
  · exact List.forall_mem_map.mpr (fun i listed => kept.held.accounting.table_nodup i (members i listed))
  · rw [List.pairwise_map]
    refine once.imp_of_mem (fun {i j} listedI listedJ other k l b entry entry' open' open'' => other ?_)
    rw [← size] at open' open''
    exact exclusive.alone i (members i listedI) j (members j listedJ) k l b entry entry' open' open''

-- Three requests share page 0: two of them are admitted in one step, the second with a page of the first.
theorem packing_exact_shared :
    ∃ s t input, Reachable pageHash pagedConfig s {0, 1, 2} ∧ schedule s = .ok [1, 2, 0] t ∧
      [1, 2, 0].map (fun i => (t.seqs i).blockTable) = [[0, 2, 3], [0, 2, 4, 5], [0, 1]] ∧
      ModelRunner.prepareModelInput 2 ([1, 2, 0].map t.seqs) t.numScheduledPrefillSeqs = .ok input ∧
      PacksExactly 2 ([1, 2, 0].map t.seqs) input ∧
      input.slotMapping = [4, 5, 6, 8, 9, 10, 3] := by
  have start : Scheduler.init pagedConfig = .ok _ := rfl
  have past := Reachable.play pageHash start
    [.add 0 [1, 2, 3] {}, .step [11], .add 1 [1, 2, 4, 5, 6] {}, .add 2 [1, 2, 4, 5, 7, 8, 9] {}] (by decide)
    (run_final (by decide +kernel))
  obtain ⟨input, prepared, exactly⟩ := packing_exact past (run_value (a := [1, 2, 0]) (by decide +kernel))
  refine ⟨_, _, input, past, run_value (by decide +kernel), by decide +kernel, prepared, exactly, ?_⟩
  have packed := (past.packable (run_value (a := [1, 2, 0]) (by decide +kernel))).2
  rw [Except.ok.inj (prepared.symm.trans packed)]
  decide +kernel

end Slots

end NanoVllm
