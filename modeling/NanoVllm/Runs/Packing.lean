import NanoVllm.Model.ModelRunner
import NanoVllm.Steps.Advance

set_option autoImplicit false

namespace NanoVllm

open Python Raising

namespace ModelRunner

def slotAt (size : Nat) (seq : Sequence) (position : Nat) : Int :=
  match seq.blockTable[position / size]? with
  | some b => slotOf size b (position % size)
  | none => -1

theorem slotAt_page {size : Nat} {seq : Sequence} {k o : Nat} {b : BlockId} (positive : 0 < size)
    (entry : seq.blockTable[k]? = some b) (below : o < size) :
    slotAt size seq (k * size + o) = slotOf size b o := by
  have page : (k * size + o) / size = k := by
    rw [Nat.mul_comm, Nat.mul_add_div positive, Nat.div_eq_of_lt below, Nat.add_zero]
  have offset : (k * size + o) % size = o := by
    rw [Nat.mul_comm, Nat.mul_add_mod, Nat.mod_eq_of_lt below]
  rw [slotAt, page, entry, offset]

theorem slotAt_eq {size : Nat} {seq : Sequence} {position o : Nat} {b : BlockId} (below : o < size)
    (same : slotAt size seq position = slotOf size b o) :
    seq.blockTable[position / size]? = some b ∧ position % size = o := by
  have positive : 0 < size := by omega
  unfold slotAt at same
  split at same
  next b' entry =>
    obtain ⟨rfl, offset⟩ := slotOf_inj (Nat.mod_lt position positive) below same
    exact ⟨entry, offset⟩
  next =>
    rw [slotOf] at same
    omega

theorem slots_of_page {size : Nat} {seq : Sequence} {k : Nat} {b : BlockId}
    (entry : seq.blockTable[k]? = some b) {first count : Nat} (above : k * size ≤ first)
    (below : first + count ≤ (k + 1) * size) :
    (List.range' (b * size + (first - k * size)) count).map Nat.cast =
      (List.range' first count).map (slotAt size seq) := by
  rw [Nat.add_mul, Nat.one_mul] at below
  apply List.ext_getElem
  · simp
  · intro j inside inside'
    simp only [List.length_map, List.length_range'] at inside
    simp only [List.getElem_map, List.getElem_range', Nat.one_mul]
    have page : (first + j) / size = k :=
      Nat.div_eq_of_lt_le (by omega) (by rw [Nat.add_mul, Nat.one_mul]; omega)
    have offset : (first + j) % size = first - k * size + j := by
      rw [Nat.mod_eq_sub_mul_div, page, Nat.mul_comm size k]
      omega
    rw [slotAt, page, entry, offset]
    simp only [slotOf, Nat.add_assoc]

section Pages

variable {size : Nat} {seq : Sequence} {k b : Nat}

theorem pageSlots_eq (block : seq.blockSize = size) (positive : 0 < size)
    (length : seq.blockTable.length = pagesFor size seq.numContextTokens)
    (entry : seq.blockTable[k]? = some b) (from' : seq.numCachedTokens / size ≤ k) :
    pageSlots size seq (b, k) =
      List.range' (b * size + (max seq.numCachedTokens (k * size) - k * size))
        (min seq.numContextTokens ((k + 1) * size) - max seq.numCachedTokens (k * size)) := by
  have inside : k < pagesFor size seq.numContextTokens := length ▸ (List.getElem?_eq_some_iff.mp entry).1
  have below : k * size < seq.numContextTokens := (lt_pagesFor positive).mp inside
  have cached := Nat.div_add_mod' seq.numCachedTokens size
  have context := Nat.div_add_mod' seq.numContextTokens size
  have small := Nat.mod_lt seq.numCachedTokens positive
  have next : (b + 1) * size = b * size + size := by rw [Nat.add_mul, Nat.one_mul]
  have next' : (k + 1) * size = k * size + size := by rw [Nat.add_mul, Nat.one_mul]
  have start : (if k = seq.numCachedBlocks then b * size + seq.numCachedTokens % seq.blockSize else b * size) =
      b * size + (max seq.numCachedTokens (k * size) - k * size) := by
    rw [Sequence.numCachedBlocks, block]
    split
    next first =>
      rw [← first] at cached
      have low : max seq.numCachedTokens (k * size) = seq.numCachedTokens := Nat.max_eq_left (by omega)
      rw [low]
      omega
    next later =>
      have above : (seq.numCachedTokens / size + 1) * size ≤ k * size := Nat.mul_le_mul_right size (by omega)
      rw [Nat.add_mul, Nat.one_mul] at above
      rw [Nat.max_eq_right (by omega), Nat.sub_self, Nat.add_zero]
  have stop : (if k = seq.blockTable.length - 1 then
        if seq.numContextTokens % size ≠ 0 then b * size + seq.numContextTokens % size else (b + 1) * size
      else (b + 1) * size) = b * size + (min seq.numContextTokens ((k + 1) * size) - k * size) := by
    rw [length, next, next']
    split
    next last =>
      split
      next part =>
        rw [pagesFor_of_mod_ne positive part, Nat.add_sub_cancel] at last
        rw [← last] at context
        have := Nat.mod_lt seq.numContextTokens positive
        omega
      next whole =>
        rw [not_not] at whole
        rw [pagesFor_of_mod positive whole] at last inside
        have edge : seq.numContextTokens / size = k + 1 := by omega
        rw [edge, whole, next'] at context
        omega
    next earlier =>
      have more : (k + 1) * size < seq.numContextTokens := (lt_pagesFor positive).mp (by omega)
      omega
  simp only [pageSlots]
  rw [start, stop]
  congr 1
  omega

theorem slots_from (block : seq.blockSize = size) (positive : 0 < size)
    (length : seq.blockTable.length = pagesFor size seq.numContextTokens) (pages : Nat)
    (count : k + pages = seq.blockTable.length) (from' : seq.numCachedTokens / size ≤ k) :
    ((seq.blockTable.zipIdx.drop k).flatMap (pageSlots size seq)).map Nat.cast =
      (List.range' (max seq.numCachedTokens (k * size))
        (seq.numContextTokens - max seq.numCachedTokens (k * size))).map (slotAt size seq) := by
  have end' : seq.numContextTokens ≤ seq.blockTable.length * size := by
    rw [length]
    exact le_pagesFor_mul positive
  induction pages generalizing k with
  | zero =>
      rw [Nat.add_zero] at count
      subst count
      rw [List.drop_of_length_le (by simp), show seq.numContextTokens -
        max seq.numCachedTokens (seq.blockTable.length * size) = 0 by omega]
      rfl
  | succ pages ih =>
      have inside : k < seq.blockTable.length := by omega
      have entry := List.getElem?_eq_getElem inside
      have later := ih (by omega : k + 1 + pages = _) (by omega)
      have front : seq.blockTable.zipIdx.drop k =
          (seq.blockTable[k], k) :: seq.blockTable.zipIdx.drop (k + 1) := by
        rw [List.drop_eq_getElem_cons (by simpa using inside)]
        simp
      have next' : (k + 1) * size = k * size + size := by rw [Nat.add_mul, Nat.one_mul]
      have early : seq.numCachedTokens < (k + 1) * size :=
        (Nat.div_lt_iff_lt_mul positive).mp (by omega)
      have below : k * size < seq.numContextTokens := (lt_pagesFor positive).mp (length ▸ inside)
      rw [front, List.flatMap_cons, List.map_append, later, pageSlots_eq block positive length entry from',
        slots_of_page entry (Nat.le_max_right _ _) (by omega), ← List.map_append]
      congr 1
      rcases Nat.lt_or_ge ((k + 1) * size) seq.numContextTokens with more | last
      · rw [Nat.min_eq_right more.le, Nat.max_eq_right early.le]
        have join := @List.range'_append (max seq.numCachedTokens (k * size))
          ((k + 1) * size - max seq.numCachedTokens (k * size)) (seq.numContextTokens - (k + 1) * size) 1
        have place : max seq.numCachedTokens (k * size) +
            1 * ((k + 1) * size - max seq.numCachedTokens (k * size)) = (k + 1) * size := by omega
        have total : (k + 1) * size - max seq.numCachedTokens (k * size) +
            (seq.numContextTokens - (k + 1) * size) =
            seq.numContextTokens - max seq.numCachedTokens (k * size) := by omega
        rw [place, total] at join
        exact join
      · rw [Nat.min_eq_left last, show seq.numContextTokens - max seq.numCachedTokens ((k + 1) * size) = 0 by omega]
        simp

theorem seqSlots_eq (block : seq.blockSize = size) (positive : 0 < size)
    (length : seq.blockTable.length = pagesFor size seq.numContextTokens) (some' : 0 < seq.numNewTokens) :
    seqSlots size seq =
      (List.range' seq.numCachedTokens seq.numNewTokens).map (slotAt size seq) := by
  have context : seq.numContextTokens = seq.numCachedTokens + seq.numNewTokens := rfl
  have paged : 0 < seq.blockTable.length := by
    rw [length]
    exact pagesFor_pos positive (by omega)
  have first : seq.numCachedTokens / size < seq.blockTable.length := by
    rw [length]
    exact div_lt_pagesFor positive (by omega)
  have slots := slots_from block positive length (seq.blockTable.length - seq.numCachedTokens / size)
    (by omega) (Nat.le_refl _)
  have low : max seq.numCachedTokens (seq.numCachedTokens / size * size) = seq.numCachedTokens :=
    Nat.max_eq_left (Nat.div_mul_le_self _ _)
  have count : seq.numContextTokens - seq.numCachedTokens = seq.numNewTokens := by omega
  rw [low, count] at slots
  rw [seqSlots, if_neg (List.ne_nil_of_length_pos paged), Sequence.numCachedBlocks, block]
  exact slots

end Pages

def packed (blockSize : Nat) (seqs : List Sequence) (numPrefillSeqs : Nat) : ModelInput :=
  { inputIds := seqs.flatMap (fun seq => slice seq.tokenIds seq.numCachedTokens seq.numContextTokens)
    positions := seqs.flatMap (fun seq => List.range' seq.numCachedTokens seq.numNewTokens)
    numPrefillSeqs
    numDecodeSeqs := seqs.length - numPrefillSeqs
    numPrefillTokens := ((seqs.take numPrefillSeqs).map Sequence.numNewTokens).sum
    numDecodeTokens := ((seqs.drop numPrefillSeqs).map Sequence.numNewTokens).sum
    queryStartLoc := (seqs.map Sequence.numNewTokens).scanl (· + ·) 0
    seqLens := seqs.map Sequence.numContextTokens
    slotMapping := seqs.flatMap (seqSlots blockSize)
    blockTables := some (prepareBlockTables seqs)
    maxQLen := (seqs.map Sequence.numNewTokens).foldl max 0
    maxKvLen := (seqs.map Sequence.numContextTokens).foldl max 0
    blockCounts := seqs.map (fun seq => seq.blockTable.length)
    numKvBlocks := (seqs.map (fun seq => seq.blockTable.length)).sum
    numPrefillKvBlocks := ((seqs.take numPrefillSeqs).map (fun seq => seq.blockTable.length)).sum
    seqNeedComputeLogits := some ((seqs.zipIdx.filter (fun entry => needsLogits entry.1)).map Prod.snd) }

theorem prepareModelInput_ok {size numPrefillSeqs : Nat} {seqs : List Sequence} (some' : seqs ≠ [])
    (count : numPrefillSeqs ≤ seqs.length) (decode : ∀ seq ∈ seqs.drop numPrefillSeqs, seq.numNewTokens = 1)
    (tables : ∀ seq ∈ seqs, seq.blockTable ≠ []) :
    prepareModelInput size seqs numPrefillSeqs = .ok (packed size seqs numPrefillSeqs) := by
  have each : ∀ seq ∈ seqs, (!seq.blockTable.isEmpty) = true := fun seq listed => by
    simpa using tables seq listed
  have all : seqs.all (fun seq => !seq.blockTable.isEmpty) = true := List.all_eq_true.mpr each
  have any : seqs.any (fun seq => !seq.blockTable.isEmpty) = true := by
    obtain ⟨seq, listed⟩ := List.exists_mem_of_ne_nil _ some'
    exact List.any_eq_true.mpr ⟨seq, listed, each seq listed⟩
  have same : ¬(seqs.any (fun seq => !seq.blockTable.isEmpty) = true ∧
      ¬seqs.all (fun seq => !seq.blockTable.isEmpty) = true) := fun mixed => mixed.2 all
  simp only [prepareModelInput, require_of some', require_of count, require_of decode, require_of same, pure_bind]
  simp only [any, if_true]
  rfl

end ModelRunner

end NanoVllm
