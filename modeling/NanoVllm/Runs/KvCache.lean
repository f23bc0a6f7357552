import NanoVllm.Runs.Packing

set_option autoImplicit false

namespace NanoVllm

open Python Raising

def writeSlots (cache : Cache) : List (Int × List Token) → Cache
  | [] => cache
  | (slot, tokens) :: rest => writeSlots (if slot = -1 then cache else Function.update cache slot tokens) rest

-- The tokens up to each query token, in packing order.
def queryContexts (seqs : List Sequence) : List (List Token) :=
  seqs.flatMap (fun seq =>
    (List.range' seq.numCachedTokens seq.numNewTokens).map (fun position => seq.tokenIds.take (position + 1)))

def execute (cache : Cache) (input : ModelRunner.ModelInput) (seqs : List Sequence) : Cache :=
  writeSlots cache (input.slotMapping.zip (queryContexts seqs))

theorem writeSlots_value (cache : Cache) (writes : List (Int × List Token)) {slot : Int} (real : slot ≠ -1) :
    (∃ w ∈ writes, w.1 = slot ∧ writeSlots cache writes slot = w.2) ∨
      ((∀ w ∈ writes, w.1 ≠ slot) ∧ writeSlots cache writes slot = cache slot) := by
  induction writes generalizing cache with
  | nil => exact Or.inr ⟨by simp, rfl⟩
  | cons w rest ih =>
      obtain ⟨place, tokens⟩ := w
      simp only [writeSlots]
      rcases ih (if place = -1 then cache else Function.update cache place tokens) with
        ⟨w, later, same, value⟩ | ⟨none, value⟩
      · exact Or.inl ⟨w, List.mem_cons_of_mem _ later, same, value⟩
      · rw [value]
        by_cases here : place = slot
        · left
          refine ⟨(place, tokens), List.mem_cons_self .., here, ?_⟩
          rw [here, if_neg real, Function.update_self]
        · right
          constructor
          · intro w listed
            rcases List.mem_cons.mp listed with rfl | later
            · exact here
            · exact none w later
          · split
            · rfl
            · rw [Function.update_of_ne (Ne.symm here)]

theorem zip_flatMap {α β γ : Type} (xs : List α) (f : α → List β) (g : α → List γ)
    (lengths : ∀ x ∈ xs, (f x).length = (g x).length) :
    (xs.flatMap f).zip (xs.flatMap g) = xs.flatMap (fun x => (f x).zip (g x)) := by
  induction xs with
  | nil => rfl
  | cons x rest ih =>
      rw [List.flatMap_cons, List.flatMap_cons, List.flatMap_cons,
        List.zip_append (lengths x (List.mem_cons_self ..)),
        ih (fun y later => lengths y (List.mem_cons_of_mem x later))]

section Batch

open ModelRunner

variable {cache : Cache} {t : Scheduler} {ids : Finset SeqId} {prefill : List SeqId}

namespace Batch

theorem seqSlots (h : Batch cache t ids prefill) {i : SeqId} (scheduled : i ∈ prefill ++ t.running) :
    ModelRunner.seqSlots t.blockManager.blockSize (t.seqs i) =
      (List.range' (t.seqs i).numCachedTokens (t.seqs i).numNewTokens).map
        (slotAt t.blockManager.blockSize (t.seqs i)) := by
  obtain ⟨chain, kept⟩ := h.kept
  have member := (h.member scheduled).1
  exact seqSlots_eq (kept.held.wf i member).block kept.size_pos (kept.covered i member).length
    (h.scheduled i scheduled).2

theorem paged (h : Batch cache t ids prefill) {i : SeqId} (scheduled : i ∈ prefill ++ t.running) :
    (t.seqs i).blockTable ≠ [] := by
  obtain ⟨chain, kept⟩ := h.kept
  have length : (t.seqs i).blockTable.length = pagesFor t.blockManager.blockSize (t.seqs i).numContextTokens :=
    (kept.covered i (h.member scheduled).1).length
  have positive : 0 < (t.seqs i).numContextTokens :=
    Nat.lt_of_lt_of_le (h.scheduled i scheduled).2 (Nat.le_add_left _ _)
  refine List.ne_nil_of_length_pos ?_
  rw [length]
  exact pagesFor_pos kept.size_pos positive

theorem written (h : Batch cache t ids prefill) {input : ModelInput}
    (slots : input.slotMapping =
      ((prefill ++ t.running).map t.seqs).flatMap (ModelRunner.seqSlots t.blockManager.blockSize)) :
    Written cache (execute cache input ((prefill ++ t.running).map t.seqs)) t.pool (prefill ++ t.running) := by
  have writes : input.slotMapping.zip (queryContexts ((prefill ++ t.running).map t.seqs)) =
      (prefill ++ t.running).flatMap (fun i =>
        (List.range' (t.seqs i).numCachedTokens (t.seqs i).numNewTokens).map (fun position =>
          (slotAt t.blockManager.blockSize (t.seqs i) position, (t.seqs i).tokenIds.take (position + 1)))) := by
    rw [slots, queryContexts, List.flatMap_map, List.flatMap_map, zip_flatMap]
    · refine List.flatMap_congr (fun i scheduled => ?_)
      rw [h.seqSlots scheduled, List.zip_map']
    · intro i scheduled
      rw [h.seqSlots scheduled]
      simp
  obtain ⟨chain, kept⟩ := h.kept
  have positive : 0 < t.blockManager.blockSize := kept.size_pos
  intro b o below
  change o < t.blockManager.blockSize at below
  have real : slotOf t.blockManager.blockSize b o ≠ -1 := by
    rw [slotOf]
    omega
  rcases writeSlots_value cache (input.slotMapping.zip (queryContexts ((prefill ++ t.running).map t.seqs))) real with
    ⟨w, listed, same, value⟩ | ⟨none, value⟩
  · left
    rw [writes, List.mem_flatMap] at listed
    obtain ⟨i, scheduled, listed⟩ := listed
    obtain ⟨position, inside, rfl⟩ := List.mem_map.mp listed
    rw [List.mem_range'_1] at inside
    obtain ⟨entry, offset⟩ := slotAt_eq below same
    have place := Nat.div_add_mod' position t.blockManager.blockSize
    rw [offset] at place
    refine ⟨i, scheduled, position / t.blockManager.blockSize, entry, ?_, ?_, ?_⟩
    · change _ ≤ position / t.blockManager.blockSize * t.blockManager.blockSize + o
      rw [place]
      exact inside.1
    · change position / t.blockManager.blockSize * t.blockManager.blockSize + o < _
      rw [place]
      exact inside.2
    · change _ = (t.seqs i).tokenIds.take (position / t.blockManager.blockSize * t.blockManager.blockSize + o + 1)
      rw [place]
      exact value
  · right
    refine ⟨fun i scheduled pending => ?_, value⟩
    obtain ⟨k, entry, from', inside⟩ := pending
    change (t.seqs i).blockTable[k]? = some b at entry
    change (t.seqs i).numCachedTokens ≤ k * t.blockManager.blockSize + o at from'
    change k * t.blockManager.blockSize + o < (t.seqs i).numContextTokens at inside
    have listed : (slotAt t.blockManager.blockSize (t.seqs i) (k * t.blockManager.blockSize + o),
        (t.seqs i).tokenIds.take (k * t.blockManager.blockSize + o + 1)) ∈
        input.slotMapping.zip (queryContexts ((prefill ++ t.running).map t.seqs)) := by
      rw [writes, List.mem_flatMap]
      refine ⟨i, scheduled, List.mem_map.mpr ⟨k * t.blockManager.blockSize + o, ?_, rfl⟩⟩
      rw [List.mem_range'_1]
      exact ⟨from', inside⟩
    exact none _ listed (slotAt_page positive entry below)

theorem packs (h : Batch cache t ids prefill) :
    prepareModelInput t.blockManager.blockSize ((prefill ++ t.running).map t.seqs) t.numScheduledPrefillSeqs =
      .ok (packed t.blockManager.blockSize ((prefill ++ t.running).map t.seqs) t.numScheduledPrefillSeqs) := by
  have some' : (prefill ++ t.running).map t.seqs ≠ [] := by simpa using h.some'
  have count : t.numScheduledPrefillSeqs ≤ ((prefill ++ t.running).map t.seqs).length := by
    rw [h.counted]
    simp
  have decode : ∀ seq ∈ ((prefill ++ t.running).map t.seqs).drop t.numScheduledPrefillSeqs,
      seq.numNewTokens = 1 := by
    intro seq listed
    rw [h.counted, List.map_append, List.drop_left' (by simp)] at listed
    obtain ⟨i, runs, rfl⟩ := List.mem_map.mp listed
    exact (h.running i runs).2.1
  have tables : ∀ seq ∈ (prefill ++ t.running).map t.seqs, seq.blockTable ≠ [] := by
    intro seq listed
    obtain ⟨i, scheduled, rfl⟩ := List.mem_map.mp listed
    exact h.paged scheduled
  exact prepareModelInput_ok some' count decode tables

theorem prepare (h : Batch cache t ids prefill) :
    ∃ input logitsIndices, prepareModelInput t.blockManager.blockSize ((prefill ++ t.running).map t.seqs)
        t.numScheduledPrefillSeqs = .ok input ∧
      input.slotMapping =
        ((prefill ++ t.running).map t.seqs).flatMap (ModelRunner.seqSlots t.blockManager.blockSize) ∧
      input.seqNeedComputeLogits = some logitsIndices ∧ LogitsOf t (prefill ++ t.running) logitsIndices := by
  refine ⟨_, _, h.packs, rfl, rfl, ?_, fun k => ?_⟩
  · refine List.Nodup.sublist (List.Sublist.map Prod.snd List.filter_sublist) ?_
    rw [List.zipIdx_map_snd]
    exact List.nodup_range' ..
  · simp only [List.mem_map, List.mem_filter, needsLogits, Bool.and_eq_true, decide_eq_true_eq]
    constructor
    · rintro ⟨⟨seq, k'⟩, ⟨listed, complete, -⟩, rfl⟩
      rw [List.mem_zipIdx_iff_getElem?, List.getElem?_map, Option.map_eq_some_iff] at listed
      obtain ⟨i, entry, rfl⟩ := listed
      exact ⟨i, entry, complete.symm⟩
    · rintro ⟨i, entry, complete⟩
      refine ⟨(t.seqs i, k), ⟨?_, complete.symm, ?_⟩, rfl⟩
      · rw [List.mem_zipIdx_iff_getElem?, List.getElem?_map, entry]
        rfl
      · simpa using h.paged (List.mem_of_getElem? entry)

end Batch

end Batch

end NanoVllm
