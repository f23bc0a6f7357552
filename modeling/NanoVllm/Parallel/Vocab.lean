import NanoVllm.Model.EmbedHead

set_option autoImplicit false

namespace NanoVllm

open Torch Finset

variable {R : Type} {tpSize size rank dim : Nat}

namespace VocabParallelEmbedding

-- The layer on one rank, whose partition has `size` tokens.
def onRank (rank tpSize size : Nat) (weight : Tensor R) : VocabParallelEmbedding R :=
  { tpRank := rank
    tpSize
    numEmbeddings := tpSize * size
    numEmbeddingsPerPartition := size
    vocabStartIdx := size * rank
    vocabEndIdx := size * rank + size
    weight }

theorem init_eq (positive : 0 < tpSize) (memory : Nat → Nat → R) :
    init rank tpSize memory (tpSize * size) dim = some (onRank rank tpSize size ⟨size, dim, memory⟩) := by
  simp only [init, positive.ne', ne_eq, not_false_eq_true, Nat.mul_mod_right, and_self, if_true,
    Nat.mul_div_cancel_left _ positive]
  rfl

theorem load_eq (below : rank < tpSize) {weight : Tensor R} (shape : weight.HasShape (tpSize * size) dim)
    (memory : Nat → Nat → R) : (onRank rank tpSize size ⟨size, dim, memory⟩).load weight =
      some (onRank rank tpSize size (weight.rowBlock size rank)) := by
  obtain ⟨rows, rfl⟩ := shape
  simp only [load, weightLoader, onRank, Tensor.narrowRows_block rows below, Option.bind_eq_bind, Option.bind_some,
    Tensor.copy, Tensor.rowBlock, and_self, if_true]
  rfl

variable {weight : Tensor R} {token : Nat}

theorem mask_iff (positive : 0 < size) : (onRank rank tpSize size weight).mask token = true ↔ token / size = rank := by
  unfold mask
  rw [Bool.and_eq_true, decide_eq_true_iff, decide_eq_true_iff, Nat.div_eq_iff positive]
  simp only [onRank, Nat.cast_le, Nat.cast_lt, Nat.mul_comm size]
  omega

theorem localIndex_inside (below : rank < tpSize) (inside : token < tpSize * size) :
    0 ≤ (onRank rank tpSize size weight).localIndex token ∧
      (onRank rank tpSize size weight).localIndex token < size := by
  have positive : 0 < size := Nat.pos_of_mul_pos_left (Nat.zero_lt_of_lt inside)
  unfold localIndex
  split
  next several =>
    split
    next masked =>
      have place := (mask_iff positive).mp masked
      have split := Nat.div_add_mod token size
      have low := Nat.mod_lt token positive
      rw [place] at split
      simp only [onRank]
      omega
    next => omega
  next single =>
    have one : tpSize = 1 := by
      simp only [onRank] at single
      omega
    rw [one, Nat.one_mul] at inside
    omega

theorem localIndex_place (positive : 0 < size) (below : rank < tpSize) (place : token / size = rank) :
    rank * size + ((onRank rank tpSize size weight).localIndex token).toNat = token := by
  have split := Nat.div_add_mod token size
  rw [place, Nat.mul_comm] at split
  unfold localIndex
  split
  next several =>
    rw [if_pos ((mask_iff positive).mpr place)]
    simp only [onRank, Nat.mul_comm size]
    omega
  next single =>
    have first : rank = 0 := by
      simp only [onRank] at single
      omega
    rw [first, Nat.zero_mul, Nat.zero_add, Int.toNat_natCast]

section Lookup

variable [CommRing R] {x : List Int}

theorem lookup_ok (below : rank < tpSize) (weight : Tensor R)
    (inside : ∀ v ∈ x, 0 ≤ v ∧ v < (tpSize * size : Nat)) :
    ∃ y, (onRank rank tpSize size (weight.rowBlock size rank)).lookup x = some y ∧ y.HasShape x.length weight.cols ∧
      ∀ t < x.length, ∀ c, y.entry t c =
        if (x.getD t 0).toNat / size = rank then weight.entry (x.getD t 0).toNat c else 0 := by
  have rows : ∀ v ∈ x.map (onRank rank tpSize size (weight.rowBlock size rank)).localIndex,
      0 ≤ v ∧ v < (weight.rowBlock size rank).rows := by
    simp only [List.mem_map, forall_exists_index, and_imp, forall_apply_eq_imp_iff₂]
    intro v listed
    obtain ⟨low, high⟩ := inside v listed
    obtain ⟨token, rfl⟩ := Int.eq_ofNat_of_zero_le low
    exact localIndex_inside below (by exact_mod_cast high)
  have looked : Tensor.embedding (x.map (onRank rank tpSize size (weight.rowBlock size rank)).localIndex)
      (onRank rank tpSize size (weight.rowBlock size rank)).weight = some _ := if_pos rows
  have entry (t : Nat) (row : t < x.length) : ∃ token : Nat, x.getD t 0 = token ∧ token < tpSize * size ∧
      (x.map (onRank rank tpSize size (weight.rowBlock size rank)).localIndex).getD t 0 =
        (onRank rank tpSize size (weight.rowBlock size rank)).localIndex token := by
    have value : x.getD t 0 = x[t] := by simp [List.getD, row]
    obtain ⟨low, high⟩ := inside x[t] (List.getElem_mem row)
    obtain ⟨token, same⟩ := Int.eq_ofNat_of_zero_le low
    refine ⟨token, value.trans same, by rw [same] at high; exact_mod_cast high, ?_⟩
    simp [List.getD, row, same]
  have own (token : Nat) (positive : 0 < size) (place : token / size = rank) (c : Nat) :
      (weight.rowBlock size rank).entry
        ((onRank rank tpSize size (weight.rowBlock size rank)).localIndex token).toNat c = weight.entry token c :=
    congrArg (weight.entry · c) (localIndex_place positive below place)
  rw [lookup, looked, Option.bind_eq_bind, Option.bind_some]
  by_cases several : (onRank rank tpSize size (weight.rowBlock size rank)).tpSize > 1
  · rw [if_pos several]
    refine ⟨_, rfl, ⟨List.length_map .., rfl⟩, fun t row c => ?_⟩
    obtain ⟨token, same, within, index⟩ := entry t row
    have positive : 0 < size := Nat.pos_of_mul_pos_left (Nat.zero_lt_of_lt within)
    dsimp only
    rw [same, index, Int.toNat_natCast]
    by_cases place : token / size = rank
    · rw [if_pos ((mask_iff positive).mpr place), if_pos place, one_mul]
      exact own token positive place c
    · rw [if_neg (fun masked => place ((mask_iff positive).mp masked)), if_neg place, zero_mul]
  · rw [if_neg several]
    refine ⟨_, rfl, ⟨List.length_map .., rfl⟩, fun t row c => ?_⟩
    obtain ⟨token, same, within, index⟩ := entry t row
    have positive : 0 < size := Nat.pos_of_mul_pos_left (Nat.zero_lt_of_lt within)
    have one : tpSize = 1 := by
      simp only [onRank] at several
      omega
    have place : token / size = rank := by
      rw [one, Nat.one_mul] at within
      rw [Nat.div_eq_of_lt within]
      omega
    dsimp only
    rw [same, index, Int.toNat_natCast, if_pos place]
    exact own token positive place c

theorem forward_ok (positive : 0 < tpSize) {weight : Tensor R} (shape : weight.rows = tpSize * size)
    (inside : ∀ v ∈ x, 0 ≤ v ∧ v < (tpSize * size : Nat)) {layers : Nat → VocabParallelEmbedding R}
    (loaded : ∀ r < tpSize, layers r = onRank r tpSize size (weight.rowBlock size r)) :
    ∃ y y', forward tpSize layers x = some y ∧ Tensor.embedding x weight = some y' ∧ y.Same y' := by
  have ranks (r : Nat) (below : r < tpSize) := lookup_ok below weight inside
  have : Nonempty (Tensor R) := ⟨weight⟩
  choose! part each shapes entries using ranks
  have lookups : ∀ r < tpSize, (layers r).lookup x = some (part r) := fun r below => by
    rw [loaded r below]
    exact each r below
  have known : ∀ v ∈ x, 0 ≤ v ∧ v < weight.rows := by rwa [shape]
  refine ⟨_, _, reduceRanks_eq positive lookups shapes, if_pos known, rfl, rfl, fun t row c _ => ?_⟩
  have row : t < x.length := row
  dsimp only
  rw [sum_congr rfl (fun r listed => entries r (mem_range.mp listed) t row c), sum_ite_eq, if_pos]
  obtain ⟨low, high⟩ := inside x[t] (List.getElem_mem row)
  have value : x.getD t 0 = x[t] := by simp [List.getD, row]
  rw [mem_range, value]
  exact Nat.div_lt_of_lt_mul (by rw [Nat.mul_comm]; omega)

end Lookup

end VocabParallelEmbedding

namespace ParallelLMHead

open VocabParallelEmbedding

variable [CommRing R] {x : Tensor R}

theorem forward_ok (positive : 0 < tpSize) {weight : Tensor R} (shape : weight.HasShape (tpSize * size) x.cols)
    {layers : Nat → VocabParallelEmbedding R}
    (loaded : ∀ r < tpSize, layers r = onRank r tpSize size (weight.rowBlock size r)) {queryStartLoc : List Nat}
    {rows : Option (List Nat)} {indices : List Int} {selected : Tensor R}
    (last : lastIndices queryStartLoc rows = some indices) (taken : x.select indices = some selected) :
    ∃ logits logits', forward tpSize layers (some queryStartLoc) rows x 0 = some (some logits) ∧
      selected.linear weight none = some logits' ∧ logits.Same logits' ∧
      logits.HasShape selected.rows (tpSize * size) := by
  have cols : selected.cols = x.cols := by
    unfold Tensor.select at taken
    split at taken <;> cases taken
    rfl
  have ranks : ∀ r < tpSize, localLogits (layers r) (some queryStartLoc) rows x = some
      ⟨selected.rows, size, fun t v => ∑ k ∈ range selected.cols, selected.entry t k * weight.entry (r * size + v)
        k⟩ := by
    intro r below
    rw [loaded r below, localLogits]
    simp only [Option.bind_eq_bind, Option.bind_some, last, taken]
    exact Tensor.linear_eq (cols.trans shape.2.symm)
  have gathered : ∃ logits, forward tpSize layers (some queryStartLoc) rows x 0 = some (some logits) ∧
      logits.HasShape selected.rows (tpSize * size) ∧ ∀ r < tpSize, ∀ t, ∀ v < size, logits.entry t (r * size + v) =
        ∑ k ∈ range selected.cols, selected.entry t k * weight.entry (r * size + v) k := by
    rw [forward, onRanks_eq ranks, Option.bind_eq_bind, Option.bind_some]
    by_cases several : tpSize > 1
    · let parts (r : Nat) : Tensor R :=
        ⟨selected.rows, size, fun t v => ∑ k ∈ range selected.cols, selected.entry t k * weight.entry (r * size + v) k⟩
      have shapes (r : Nat) (_ : 0 ≤ r) (_ : r < 0 + tpSize) : (parts r).HasShape selected.rows size := ⟨rfl, rfl⟩
      obtain ⟨logits, run, whole, entries⟩ := Tensor.cat_eq positive 0 shapes
      rw [if_pos several, if_pos rfl, List.range_eq_range', run]
      refine ⟨logits, rfl, whole, fun r below t v inside => ?_⟩
      rw [entries r below t v inside, Nat.zero_add]
    · obtain rfl : tpSize = 1 := by omega
      rw [if_neg several]
      refine ⟨_, rfl, ⟨rfl, (Nat.one_mul size).symm⟩, fun r below t v inside => ?_⟩
      obtain rfl : r = 0 := by omega
      simp only [Nat.zero_mul, Nat.zero_add]
  obtain ⟨logits, run, whole, entries⟩ := gathered
  refine ⟨logits, _, run, Tensor.linear_eq (cols.trans shape.2.symm),
    ⟨whole.1, whole.2.trans shape.1.symm, ?_⟩, whole⟩
  intro t row v col
  have col : v < tpSize * size := col.trans_eq whole.2
  have wide : 0 < size := Nat.pos_of_mul_pos_left (Nat.zero_lt_of_lt col)
  have place := Nat.div_add_mod' v size
  have entry := entries (v / size) (Nat.div_lt_of_lt_mul (by rwa [Nat.mul_comm])) t (v % size) (Nat.mod_lt v wide)
  rwa [place] at entry

end ParallelLMHead

/-- The vocabulary-parallel embedding and head compute those of one device. -/
theorem vocab_parallel [CommRing R] (positive : 0 < tpSize) {numEmbeddings : Nat} (divides : tpSize ∣ numEmbeddings)
    {weight : Tensor R} (shape : weight.HasShape numEmbeddings dim) (memory : Nat → Nat → Nat → R) :
    ∃ created loaded : Nat → VocabParallelEmbedding R,
      (∀ r < tpSize, VocabParallelEmbedding.init r tpSize (memory r) numEmbeddings dim = some (created r) ∧
        (created r).load weight = some (loaded r)) ∧
      (∀ x : List Int, (∀ v ∈ x, 0 ≤ v ∧ v < numEmbeddings) →
        (∀ v ∈ x, (∃! r, r < tpSize ∧ (loaded r).mask v = true) ∧
          ∀ r < tpSize, 0 ≤ (loaded r).localIndex v ∧ (loaded r).localIndex v < (loaded r).weight.rows) ∧
        ∃ y y', VocabParallelEmbedding.forward tpSize loaded x = some y ∧ Tensor.embedding x weight = some y' ∧
          y.Same y') ∧
      ∀ (x : Tensor R) (queryStartLoc : List Nat) (rows : Option (List Nat)) (indices : List Int)
        (selected : Tensor R), x.cols = dim → ParallelLMHead.lastIndices queryStartLoc rows = some indices →
        x.select indices = some selected →
        ∃ logits logits', ParallelLMHead.forward tpSize loaded (some queryStartLoc) rows x 0 = some (some logits) ∧
          selected.linear weight none = some logits' ∧ logits.Same logits' ∧
          logits.HasShape selected.rows numEmbeddings := by
  obtain ⟨size, rfl⟩ := divides
  refine ⟨_, fun r => VocabParallelEmbedding.onRank r tpSize size (weight.rowBlock size r), fun r below =>
    ⟨VocabParallelEmbedding.init_eq positive (memory r), VocabParallelEmbedding.load_eq below shape (memory r)⟩,
    fun x inside => ⟨fun v listed => ?_, VocabParallelEmbedding.forward_ok positive shape.1 inside (fun _ _ => rfl)⟩, ?_⟩
  · obtain ⟨low, high⟩ := inside v listed
    obtain ⟨token, rfl⟩ := Int.eq_ofNat_of_zero_le low
    have within : token < tpSize * size := by exact_mod_cast high
    have wide : 0 < size := Nat.pos_of_mul_pos_left (Nat.zero_lt_of_lt within)
    refine ⟨⟨token / size, ⟨Nat.div_lt_of_lt_mul (by rwa [Nat.mul_comm]),
      (VocabParallelEmbedding.mask_iff wide).mpr rfl⟩, fun r masked => ?_⟩,
      fun r below => VocabParallelEmbedding.localIndex_inside below within⟩
    exact ((VocabParallelEmbedding.mask_iff wide).mp masked.2).symm
  · rintro x queryStartLoc rows indices selected rfl last taken
    exact ParallelLMHead.forward_ok positive shape (fun _ _ => rfl) last taken

-- Four tokens on two ranks, and the last rows of two sequences.
theorem vocab_parallel_two :
    ∃ loaded : Nat → VocabParallelEmbedding Int,
      (∃ y y', VocabParallelEmbedding.forward 2 loaded [3, 0, 2] = some y ∧
        Tensor.embedding (R := Int) [3, 0, 2] ⟨4, 2, fun i j => 10 * i + j⟩ = some y' ∧ y.Same y') ∧
      ∃ last logits logits', Tensor.select (R := Int) ⟨3, 2, fun i j => i + j⟩ [0, 2] = some last ∧
        ParallelLMHead.forward 2 loaded (some [0, 1, 3]) none ⟨3, 2, fun i j => i + j⟩ 0 = some (some logits) ∧
        last.linear ⟨4, 2, fun i j => 10 * i + j⟩ none = some logits' ∧ logits.Same logits' ∧ logits.HasShape 2 4 := by
  have shape : Tensor.HasShape (R := Int) ⟨4, 2, fun i j => 10 * i + j⟩ 4 2 := ⟨rfl, rfl⟩
  obtain ⟨-, loaded, -, embeds, head⟩ :=
    vocab_parallel (show 0 < 2 by decide) (show 2 ∣ 4 by decide) shape (fun _ _ _ => 0)
  refine ⟨loaded, (embeds [3, 0, 2] (by decide)).2, ?_⟩
  obtain ⟨logits, logits', gathered, same, equal, size⟩ := head ⟨3, 2, fun i j => i + j⟩ [0, 1, 3] none _ _ rfl rfl rfl
  exact ⟨_, logits, logits', rfl, gathered, same, equal, size⟩

end NanoVllm
