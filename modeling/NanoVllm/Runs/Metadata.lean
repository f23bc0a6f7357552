import NanoVllm.Model.AttentionBackend
import NanoVllm.Runs.Contract

set_option autoImplicit false

namespace NanoVllm

open Python Raising Torch

namespace IntTensor

variable {x : IntTensor} {value : Int}

theorem item_eq {i : Nat} (entry : x.data[i]? = some value) : x.item i = .ok value := by
  have plain : ¬(i : Int) < 0 := by omega
  rw [item, if_neg plain, Int.toNat_natCast, entry]
  rfl

theorem item_last (last : x.data.getLast? = some value) : x.item (-1) = .ok value := by
  have back : ((-1 : Int) + x.numel).toNat = x.data.length - 1 := by
    rw [numel]
    omega
  rw [item, if_pos (by decide), back, ← List.getLast?_eq_getElem?, last]
  rfl

end IntTensor

structure Packable (size : Nat) (seqs : List Sequence) (numPrefillSeqs : Nat) : Prop where
  size_pos : 0 < size
  some' : seqs ≠ []
  count : numPrefillSeqs ≤ seqs.length
  block : ∀ seq ∈ seqs, seq.blockSize = size
  new : ∀ seq ∈ seqs, 0 < seq.numNewTokens
  decode : ∀ seq ∈ seqs.drop numPrefillSeqs, seq.numNewTokens = 1
  pages : ∀ seq ∈ seqs, seq.blockTable.length = pagesFor size seq.numContextTokens
  within : ∀ seq ∈ seqs, seq.numContextTokens ≤ seq.tokenIds.length

def Sequence.pageRow (seq : Sequence) : List Int := seq.blockTable.map Nat.cast

@[simp] theorem Sequence.length_pageRow (seq : Sequence) : seq.pageRow.length = seq.blockTable.length := by
  simp [pageRow]

-- The metadata of a batch, as `prepare_model_input` builds it when `trusted` holds.
def metadataOf (trusted : Bool) (size : Nat) (seqs : List Sequence) (numPrefillSeqs : Nat) :
    CommonAttentionMetadata :=
  { (ModelRunner.packed size seqs numPrefillSeqs).attentionMetadata with trusted }

def pagesOf (seqs : List Sequence) (numPrefillSeqs : Nat) : FlashInferBackend.Pages :=
  { kvIndptr := cudaTensor ((offsets (seqs.map (fun seq => seq.blockTable.length))).map Nat.cast)
    pageIndices := cudaTensor (seqs.map Sequence.pageRow).flatten
    numPages := ((seqs.map (fun seq => seq.blockTable.length)).sum : Nat)
    numPrefillPages := (((seqs.take numPrefillSeqs).map (fun seq => seq.blockTable.length)).sum : Nat) }

def batchTypeOf (seqs : List Sequence) (numPrefillSeqs : Nat) : BatchType :=
  if numPrefillSeqs = 0 then .pureDecode else if numPrefillSeqs = seqs.length then .purePrefill else .mixed

-- What `build_metadata` makes of the batch.
def flashInferOf (size : Nat) (seqs : List Sequence) (numPrefillSeqs : Nat) : FlashInferMetadata :=
  { queryStartLoc := cudaTensor ((offsets (seqs.map Sequence.numNewTokens)).map Nat.cast)
    kvIndptr := some (pagesOf seqs numPrefillSeqs).kvIndptr
    pageIndices := some (pagesOf seqs numPrefillSeqs).pageIndices
    lastPageLen := some (cudaTensor (seqs.map (fun seq => ((seq.numContextTokens : Int) - 1) % size + 1)))
    numPages := (pagesOf seqs numPrefillSeqs).numPages
    numPrefillPages := (pagesOf seqs numPrefillSeqs).numPrefillPages }

/-- Row `r` of the pages is the block table of sequence `r`, and its last page ends at the length in `seqLens`. -/
structure PageCsr (size : Nat) (seqs : List Sequence) (seqLens kvIndptr pageIndices lastPageLen : List Int) :
    Prop where
  rows : kvIndptr.length = seqs.length + 1 ∧ lastPageLen.length = seqs.length
  row : ∀ r seq, seqs[r]? = some seq → ∃ first last filled : Nat, kvIndptr[r]? = some (first : Int) ∧
    kvIndptr[r + 1]? = some (last : Int) ∧ slice pageIndices first last = seq.pageRow ∧
    lastPageLen[r]? = some (filled : Int) ∧ 1 ≤ filled ∧ filled ≤ size ∧
    seqLens[r]? = some (((last - first - 1) * size + filled : Nat) : Int)

-- The block tables of a batch, padded to the longest of them.
def widest (seqs : List Sequence) : Nat := (seqs.map (fun seq => seq.blockTable.length)).foldl max 0

def tablesOf (seqs : List Sequence) : IntMatrix :=
  ⟨.int32, .cuda, widest seqs, (seqs.map Sequence.pageRow).map (padded (-1) (widest seqs))⟩

namespace Packable

variable {size : Nat} {seqs : List Sequence} {n : Nat} {trusted : Bool}

theorem numSeqs (h : Packable size seqs n) : (metadataOf trusted size seqs n).numSeqs = seqs.length := by
  have count := h.count
  change (n : Int) + ((seqs.length - n : Nat) : Int) = seqs.length
  omega

theorem length_pos (h : Packable size seqs n) : 0 < seqs.length := List.length_pos_iff.mpr h.some'

theorem numDecodeTokens (h : Packable size seqs n) :
    ((seqs.drop n).map Sequence.numNewTokens).sum = seqs.length - n := by
  rw [List.map_congr_left h.decode, List.map_const', List.sum_replicate_nat, Nat.mul_one, List.length_drop]

theorem numQueryTokens : (metadataOf trusted size seqs n).numQueryTokens =
    ((seqs.map Sequence.numNewTokens).sum : Nat) := by
  change (((seqs.take n).map Sequence.numNewTokens).sum : Int) +
    (((seqs.drop n).map Sequence.numNewTokens).sum : Nat) = _
  rw [← Nat.cast_add, ← List.sum_append, ← List.map_append, List.take_append_drop]

theorem length_seqSlots (h : Packable size seqs n) {seq : Sequence} (listed : seq ∈ seqs) :
    (ModelRunner.seqSlots size seq).length = seq.numNewTokens := by
  rw [ModelRunner.seqSlots_eq (h.block seq listed) h.size_pos (h.pages seq listed) (h.new seq listed)]
  simp

theorem length_slotMapping (h : Packable size seqs n) :
    (seqs.flatMap (ModelRunner.seqSlots size)).length = (seqs.map Sequence.numNewTokens).sum := by
  rw [List.length_flatMap, List.map_congr_left (fun seq listed => h.length_seqSlots listed)]

theorem prepared (h : Packable size seqs n) :
    ModelRunner.prepareModelInput size seqs n = .ok (ModelRunner.packed size seqs n) := by
  refine ModelRunner.prepareModelInput_ok h.some' h.count h.decode (fun seq listed => ?_)
  have page : 0 < seq.blockTable.length := by
    rw [h.pages seq listed]
    exact pagesFor_pos h.size_pos (Nat.add_pos_right _ (h.new seq listed))
  exact List.length_pos_iff.mp page

theorem length_slice (h : Packable size seqs n) {seq : Sequence} (listed : seq ∈ seqs) :
    (slice seq.tokenIds seq.numCachedTokens seq.numContextTokens).length = seq.numNewTokens := by
  have within := h.within seq listed
  rw [slice, List.length_drop, List.length_take, Nat.min_eq_left within, Sequence.numContextTokens]
  omega

theorem length_inputIds (h : Packable size seqs n) :
    (ModelRunner.packed size seqs n).inputIds.length = (seqs.map Sequence.numNewTokens).sum := by
  change (seqs.flatMap _).length = _
  rw [List.length_flatMap, List.map_congr_left (fun seq listed => h.length_slice listed)]

theorem length_positions :
    (ModelRunner.packed size seqs n).positions.length = (seqs.map Sequence.numNewTokens).sum := by
  change (seqs.flatMap _).length = _
  rw [List.length_flatMap]
  exact congrArg List.sum (List.map_congr_left (fun seq _ => List.length_range' ..))

theorem validInts : (intFields (metadataOf trusted size seqs n)).forM validateInt = .ok () := by
  refine forM_ok (fun field listed => ?_)
  have natural : 0 ≤ field.2 := by
    simp only [intFields, List.mem_cons, List.not_mem_nil, or_false] at listed
    rcases listed with rfl | rfl | rfl | rfl | rfl | rfl | rfl | rfl <;> exact Int.natCast_nonneg _
  exact require_of natural _

theorem validTensors : (tensorFields (metadataOf trusted size seqs n)).forM (validateTensor true) = .ok () := by
  refine forM_ok (fun field listed => ?_)
  have made : ∃ data, field.2 = cudaTensor data := by
    simp only [tensorFields, List.mem_cons, List.not_mem_nil, or_false] at listed
    rcases listed with rfl | rfl | rfl <;> exact ⟨_, rfl⟩
  obtain ⟨data, made⟩ := made
  rw [validateTensor, made]
  rfl

theorem queryStartLoc_data : (metadataOf trusted size seqs n).queryStartLoc.data =
    offsets ((seqs.map Sequence.numNewTokens).map Nat.cast) := map_cast_offsets _

theorem numel_queryStartLoc : (metadataOf trusted size seqs n).queryStartLoc.numel = seqs.length + 1 := by
  rw [IntTensor.numel, queryStartLoc_data]
  simp

theorem validValues (h : Packable size seqs n) : validateValues (metadataOf trusted size seqs n) = .ok () := by
  have first : (metadataOf trusted size seqs n).queryStartLoc.item 0 = .ok 0 := by
    refine IntTensor.item_eq (i := 0) ?_
    rw [queryStartLoc_data, List.getElem?_eq_getElem (by simp), getElem_offsets]
    rfl
  have last : (metadataOf trusted size seqs n).queryStartLoc.item (-1) =
      .ok (metadataOf trusted size seqs n).numQueryTokens := by
    refine IntTensor.item_last ?_
    rw [queryStartLoc_data, getLast?_offsets, numQueryTokens]
    exact congrArg some (map_list_sum (Nat.castAddMonoidHom Int) _).symm
  have decode : ∀ length ∈ (diffs (metadataOf trusted size seqs n).queryStartLoc.data).drop
      (metadataOf trusted size seqs n).numPrefillSeqs.toNat, length = 1 := by
    intro length listed
    rw [queryStartLoc_data, diffs_offsets, List.map_map, ← List.map_drop] at listed
    obtain ⟨seq, member, rfl⟩ := List.mem_map.mp listed
    exact congrArg Nat.cast (h.decode seq member)
  have positive : ∀ length ∈ (metadataOf trusted size seqs n).seqLens.data, 0 < length := by
    intro length listed
    change length ∈ (seqs.map Sequence.numContextTokens).map Nat.cast at listed
    rw [List.map_map] at listed
    obtain ⟨seq, member, rfl⟩ := List.mem_map.mp listed
    have new := h.new seq member
    exact Nat.cast_pos.mpr (by rw [Sequence.numContextTokens]; omega)
  rw [validateValues, first, except_ok_bind, require_of rfl, pure_bind, last, except_ok_bind, require_of rfl,
    pure_bind, require_of (fun _ => decode), pure_bind, require_of positive]
  rfl

theorem validate (h : Packable size seqs n) :
    validateCommonMetadata (metadataOf trusted size seqs n) true = .ok () := by
  have numSeqs : (metadataOf trusted size seqs n).numSeqs = seqs.length := h.numSeqs
  have some' : 0 < (metadataOf trusted size seqs n).numSeqs := by
    rw [numSeqs]
    exact Nat.cast_pos.mpr h.length_pos
  have decode : (metadataOf trusted size seqs n).numDecodeTokens = (metadataOf trusted size seqs n).numDecodeSeqs :=
    congrArg Nat.cast h.numDecodeTokens
  have starts : ((metadataOf trusted size seqs n).queryStartLoc.numel : Int) =
      (metadataOf trusted size seqs n).numSeqs + 1 := by
    rw [numel_queryStartLoc, numSeqs]
    rfl
  have lens : ((metadataOf trusted size seqs n).seqLens.numel : Int) = (metadataOf trusted size seqs n).numSeqs := by
    rw [numSeqs]
    exact congrArg Nat.cast (by simp [metadataOf, ModelRunner.packed, ModelRunner.ModelInput.attentionMetadata,
      cudaTensor, IntTensor.numel])
  have slots : ((metadataOf trusted size seqs n).slotMapping.numel : Int) =
      (metadataOf trusted size seqs n).numQueryTokens := by
    rw [numQueryTokens]
    exact congrArg Nat.cast h.length_slotMapping
  have values : (if (metadataOf trusted size seqs n).trusted then pure ()
      else validateValues (metadataOf trusted size seqs n)) = (.ok () : Except PyError Unit) := by
    rw [h.validValues]
    exact ite_self _
  have tables : (ModelRunner.prepareBlockTables seqs).length = seqs.length := by
    simp [ModelRunner.prepareBlockTables]
  rw [validateCommonMetadata, validInts, except_ok_bind, require_of some', pure_bind, require_of decode, pure_bind,
    validTensors, except_ok_bind, require_of starts, pure_bind, require_of lens, pure_bind, require_of slots,
    pure_bind, values, except_ok_bind]
  change validateBlockTables _ true _ = _
  rw [validateBlockTables, require_of rfl, pure_bind, require_of, pure_bind, require_of]
  · rfl
  · exact fun _ => rfl
  · rw [numSeqs]
    exact congrArg Nat.cast tables

theorem fits {row : List Int} (listed : row ∈ seqs.map Sequence.pageRow) : row.length ≤ widest seqs := by
  obtain ⟨seq, member, rfl⟩ := List.mem_map.mp listed
  rw [Sequence.length_pageRow]
  exact le_foldl_max (List.mem_map_of_mem (f := fun seq : Sequence => seq.blockTable.length) member) 0

theorem blockTables (h : Packable size seqs n) :
    (metadataOf trusted size seqs n).blockTables = some (tablesOf seqs) := by
  have rows : ModelRunner.prepareBlockTables seqs = (tablesOf seqs).rows := by
    simp only [ModelRunner.prepareBlockTables, tablesOf, List.map_map]
    refine List.map_congr_left (fun seq _ => ?_)
    simp only [Function.comp_apply, padded, Sequence.length_pageRow]
    rfl
  have columns : ((tablesOf seqs).rows.headD []).length = widest seqs := by
    obtain ⟨seq, rest, rfl⟩ := List.exists_cons_of_ne_nil h.some'
    exact length_padded (fits (List.mem_map_of_mem (List.mem_cons_self ..)))
  change some (IntMatrix.mk _ _ _ _) = _
  rw [rows, columns]
  rfl

theorem pageRow_pos (h : Packable size seqs n) {seq : Sequence} (listed : seq ∈ seqs) :
    0 < seq.blockTable.length := by
  have new := h.new seq listed
  rw [h.pages seq listed]
  exact pagesFor_pos h.size_pos (by rw [Sequence.numContextTokens]; omega)

theorem trustedPages (h : Packable size seqs n) :
    FlashInferBackend.trustedPages (metadataOf trusted size seqs n) (tablesOf seqs) = .ok (pagesOf seqs n) := by
  have counts : (metadataOf trusted size seqs n).blockCounts =
      (seqs.map (fun seq => seq.blockTable.length)).map Nat.cast := rfl
  have length : ((metadataOf trusted size seqs n).blockCounts.length : Int) =
      (metadataOf trusted size seqs n).numSeqs := by
    rw [h.numSeqs, counts]
    simp
  have valid : ∀ count ∈ (metadataOf trusted size seqs n).blockCounts,
      0 < count ∧ count ≤ (tablesOf seqs).columns := by
    intro count listed
    rw [counts, List.map_map] at listed
    obtain ⟨seq, member, rfl⟩ := List.mem_map.mp listed
    have fits := fits (List.mem_map_of_mem (f := Sequence.pageRow) member)
    rw [Sequence.length_pageRow] at fits
    exact ⟨Nat.cast_pos.mpr (h.pageRow_pos member), Nat.cast_le.mpr fits⟩
  have indptr : offsets (metadataOf trusted size seqs n).blockCounts =
      (offsets (seqs.map (fun seq => seq.blockTable.length))).map Nat.cast := (map_cast_offsets _).symm
  have indices : ((tablesOf seqs).rows.zip (metadataOf trusted size seqs n).blockCounts).flatMap
      (fun row => row.1.take row.2.toNat) = (seqs.map Sequence.pageRow).flatten := by
    have rows := @take_rows_padded _ (-1 : Int) (widest seqs) (seqs.map Sequence.pageRow)
    rw [← rows]
    simp only [counts, tablesOf, List.map_map, List.zip_map', List.flatMap_map, Function.comp_apply,
      Sequence.length_pageRow, Int.toNat_natCast]
  have total : (pagesOf seqs n).kvIndptr.item (-1) = .ok (metadataOf trusted size seqs n).numKvBlocks := by
    refine IntTensor.item_last ?_
    change ((offsets _).map Nat.cast).getLast? = _
    rw [List.getLast?_map, getLast?_offsets]
    rfl
  have front : (pagesOf seqs n).kvIndptr.item (metadataOf trusted size seqs n).numPrefillSeqs =
      .ok (metadataOf trusted size seqs n).numPrefillKvBlocks := by
    refine IntTensor.item_eq (i := n) ?_
    change ((offsets _).map Nat.cast)[n]? = _
    have inside : n < (offsets (seqs.map (fun seq => seq.blockTable.length))).length := by
      rw [length_offsets, List.length_map]
      exact Nat.lt_succ_of_le h.count
    rw [List.getElem?_map, List.getElem?_eq_getElem inside, getElem_offsets, ← List.map_take]
    rfl
  rw [FlashInferBackend.trustedPages, require_of length, pure_bind, require_of valid, pure_bind]
  simp only [indptr, indices]
  change (IntTensor.item (pagesOf seqs n).kvIndptr (-1) >>= _) = _
  rw [total, except_ok_bind, require_of rfl, pure_bind]
  change (IntTensor.item (pagesOf seqs n).kvIndptr _ >>= _) = _
  rw [front, except_ok_bind, require_of rfl, pure_bind]
  rfl

theorem countedPages (h : Packable size seqs n) :
    FlashInferBackend.countedPages size (metadataOf trusted size seqs n) (tablesOf seqs) = .ok (pagesOf seqs n) := by
  have lens : (metadataOf trusted size seqs n).seqLens.data = (seqs.map Sequence.numContextTokens).map Nat.cast := rfl
  have counts : (metadataOf trusted size seqs n).seqLens.data.map (fun length => (length + size - 1) / (size : Int)) =
      (seqs.map (fun seq => seq.blockTable.length)).map Nat.cast := by
    rw [lens, List.map_map, List.map_map, List.map_map]
    refine List.map_congr_left (fun seq listed => ?_)
    have positive := h.size_pos
    have up : (seq.numContextTokens : Int) + size - 1 = ((seq.numContextTokens + size - 1 : Nat) : Int) := by omega
    simp only [Function.comp_apply]
    rw [up, h.pages seq listed, pagesFor, Int.natCast_div]
  have mask : ((seqs.map (fun seq => seq.blockTable.length)).map (Nat.cast : Nat → Int)).map (fun count =>
      (List.range (tablesOf seqs).columns).map (fun (column : Nat) => decide ((column : Int) < count))) =
      (seqs.map Sequence.pageRow).map (fun row => columnMask (widest seqs) row.length) := by
    simp only [List.map_map]
    refine List.map_congr_left (fun seq _ => ?_)
    simp only [Function.comp_apply, columnMask, tablesOf, Sequence.length_pageRow, Nat.cast_lt]
  have indices : maskedSelect (tablesOf seqs).rows
      ((seqs.map Sequence.pageRow).map (fun row => columnMask (widest seqs) row.length)) =
      (seqs.map Sequence.pageRow).flatten := maskedSelect_padded (fun row listed => fits listed)
  have pages : ∀ page ∈ (seqs.map Sequence.pageRow).flatten, (0 : Int) ≤ page := by
    intro page listed
    obtain ⟨row, member, listed⟩ := List.mem_flatten.mp listed
    obtain ⟨seq, -, rfl⟩ := List.mem_map.mp member
    obtain ⟨b, -, rfl⟩ := List.mem_map.mp listed
    exact Int.natCast_nonneg b
  have total : ((seqs.map Sequence.pageRow).flatten.length : Int) =
      ((seqs.map (fun seq => seq.blockTable.length)).sum : Nat) := by
    rw [List.length_flatten, List.map_map]
    simp only [Function.comp_def, Sequence.length_pageRow]
  have front : (((seqs.map (fun seq => seq.blockTable.length)).map (Nat.cast : Nat → Int)).take n).sum =
      (((seqs.take n).map (fun seq => seq.blockTable.length)).sum : Nat) := by
    rw [← cast_sum_take, List.map_take]
  simp only [FlashInferBackend.countedPages, counts, mask, indices]
  rw [require_of pages, pure_bind]
  have indptr := zero_cons_cumsum ((seqs.map (fun seq => seq.blockTable.length)).map (Nat.cast : Nat → Int))
  rw [indptr, ← map_cast_offsets]
  refine congrArg Except.ok ?_
  simp only [FlashInferBackend.Pages.mk.injEq, pagesOf]
  exact ⟨rfl, rfl, total, front⟩

theorem buildMetadata (h : Packable size seqs n) {backend : FlashInferBackend} (same : backend.blockSize = size) :
    backend.buildMetadata (metadataOf trusted size seqs n) = .ok (flashInferOf size seqs n) := by
  have pages : (if (metadataOf trusted size seqs n).trusted then
        FlashInferBackend.trustedPages (metadataOf trusted size seqs n) (tablesOf seqs)
      else FlashInferBackend.countedPages size (metadataOf trusted size seqs n) (tablesOf seqs)) =
      .ok (pagesOf seqs n) := by
    rw [h.trustedPages, h.countedPages]
    exact ite_self _
  have lens : (metadataOf trusted size seqs n).seqLens.data.map (fun length => (length - 1) % (size : Int) + 1) =
      seqs.map (fun seq => ((seq.numContextTokens : Int) - 1) % size + 1) := by
    change (((seqs.map Sequence.numContextTokens).map Nat.cast).map _) = _
    rw [List.map_map, List.map_map]
    rfl
  rw [FlashInferBackend.buildMetadata, h.validate, except_ok_bind, h.blockTables]
  simp only [same]
  rw [pages, except_ok_bind, lens]
  rfl

theorem numPages : (pagesOf seqs n).numPages = (pagesOf seqs n).pageIndices.numel := by
  change (((seqs.map (fun seq => seq.blockTable.length)).sum : Nat) : Int) =
    ((seqs.map Sequence.pageRow).flatten.length : Nat)
  rw [List.length_flatten, List.map_map]
  simp only [Function.comp_def, Sequence.length_pageRow]

theorem checkPages : FlashInferBackend.checkPages (metadataOf trusted size seqs n)
    (pagesOf seqs n).numPages (flashInferOf size seqs n).queryStartLoc (pagesOf seqs n).kvIndptr
    (pagesOf seqs n).pageIndices = .ok () := by
  have starts (counts : List Nat) : (cudaTensor ((offsets counts).map Nat.cast)).item 0 = .ok 0 := by
    refine IntTensor.item_eq (i := 0) ?_
    change ((offsets counts).map Nat.cast)[0]? = _
    rw [List.getElem?_map, List.getElem?_eq_getElem (by simp), getElem_offsets]
    rfl
  have last : (pagesOf seqs n).kvIndptr.item (-1) = .ok (pagesOf seqs n).numPages := by
    refine IntTensor.item_last ?_
    change ((offsets _).map Nat.cast).getLast? = _
    rw [List.getLast?_map, getLast?_offsets]
    rfl
  rw [FlashInferBackend.checkPages]
  split
  · exact require_of numPages _
  · change (IntTensor.item (cudaTensor _) 0 >>= _) = _
    rw [starts, except_ok_bind, require_of rfl, pure_bind]
    change (IntTensor.item (cudaTensor _) 0 >>= _) = _
    rw [starts, except_ok_bind, require_of rfl, pure_bind, last, except_ok_bind]
    exact require_of numPages _

theorem classifyBatch (h : Packable size seqs n) :
    NanoVllm.classifyBatch (metadataOf trusted size seqs n) = .ok (batchTypeOf seqs n) := by
  have count := h.count
  have some' := h.length_pos
  have decode : (metadataOf trusted size seqs n).numDecodeSeqs = ((seqs.length - n : Nat) : Int) := rfl
  have prefill : (metadataOf trusted size seqs n).numPrefillSeqs = (n : Int) := rfl
  rw [NanoVllm.classifyBatch, batchTypeOf, decode, prefill]
  by_cases none : n = 0
  · rw [if_pos none, if_pos (by omega), if_neg (by omega)]
    rfl
  · rw [if_neg none, if_neg (by omega)]
    by_cases all : n = seqs.length
    · rw [if_pos all, if_pos (by omega)]
      rfl
    · rw [if_neg all, if_neg (by omega)]
      rfl

theorem buildPlan (h : Packable size seqs n) {backend : FlashInferBackend} (same : backend.blockSize = size) :
    backend.buildPlan (metadataOf trusted size seqs n) none = (do
      let route ← FlashInferBackend.planRoute backend.wrappers (batchTypeOf seqs n) (metadataOf trusted size seqs n)
        (pagesOf seqs n).numPrefillPages (flashInferOf size seqs n).queryStartLoc.data (pagesOf seqs n).kvIndptr.data
        (pagesOf seqs n).pageIndices.data
        (seqs.map (fun seq => ((seq.numContextTokens : Int) - 1) % size + 1))
      pure ⟨batchTypeOf seqs n, route, metadataOf trusted size seqs n, flashInferOf size seqs n⟩) := by
  have cached : (flashInferOf size seqs n).isCacheless = false := rfl
  simp only [FlashInferBackend.buildPlan, h.buildMetadata same, h.classifyBatch, except_ok_bind, cached,
    Bool.false_eq_true, if_false]
  change (FlashInferBackend.checkPages _ (pagesOf seqs n).numPages _ (pagesOf seqs n).kvIndptr
    (pagesOf seqs n).pageIndices >>= _) = _
  rw [checkPages, except_ok_bind]
  rfl

theorem lastPage {length : Nat} (positive : 0 < size) (some' : 0 < length) :
    1 ≤ (length - 1) % size + 1 ∧ (length - 1) % size + 1 ≤ size ∧
      (pagesFor size length - 1) * size + ((length - 1) % size + 1) = length := by
  have below := Nat.mod_lt (length - 1) positive
  have split := Nat.div_add_mod' (length - 1) size
  have pages : pagesFor size length = (length - 1) / size + 1 := by
    rw [pagesFor, show length + size - 1 = length - 1 + size by omega, Nat.add_div_right _ positive]
  rw [pages, Nat.add_sub_cancel]
  omega

theorem pageCsr (h : Packable size seqs n) : PageCsr size seqs (metadataOf trusted size seqs n).seqLens.data
    (pagesOf seqs n).kvIndptr.data (pagesOf seqs n).pageIndices.data
    (seqs.map (fun seq => ((seq.numContextTokens : Int) - 1) % size + 1)) := by
  refine ⟨⟨by simp [pagesOf, cudaTensor], by simp⟩, fun r seq entry => ?_⟩
  have member := List.mem_of_getElem? entry
  have inside := (List.getElem?_eq_some_iff.mp entry).1
  have new := h.new seq member
  have positive : 0 < seq.numContextTokens := by
    rw [Sequence.numContextTokens]
    omega
  obtain ⟨one, most, ends⟩ := lastPage h.size_pos positive
  have offset (k : Nat) (within : k ≤ seqs.length) : (pagesOf seqs n).kvIndptr.data[k]? =
      some ((((seqs.map Sequence.pageRow).map List.length).take k).sum : Int) := by
    change ((offsets _).map Nat.cast)[k]? = _
    rw [List.getElem?_map, List.getElem?_eq_getElem (by simp; omega), getElem_offsets, List.map_map]
    simp only [Option.map_some, Function.comp_def, Sequence.length_pageRow]
  have row : (seqs.map Sequence.pageRow)[r]? = some seq.pageRow := by
    rw [List.getElem?_map, entry]
    rfl
  have next := List.sum_take_succ ((seqs.map Sequence.pageRow).map List.length) r (by simpa using inside)
  have within : r < ((seqs.map Sequence.pageRow).map List.length).length := by simpa using inside
  have width : ((seqs.map Sequence.pageRow).map List.length)[r] = seq.blockTable.length := by
    simp [(List.getElem?_eq_some_iff.mp entry).2]
  refine ⟨_, _, (seq.numContextTokens - 1) % size + 1, offset r (by omega), offset (r + 1) (by omega),
    slice_flatten row, ?_, one, most, ?_⟩
  · rw [List.getElem?_map, entry, Option.map_some]
    have back : (seq.numContextTokens : Int) - 1 = ((seq.numContextTokens - 1 : Nat) : Int) := by omega
    rw [back]
    rfl
  · change ((seqs.map Sequence.numContextTokens).map Nat.cast)[r]? = _
    rw [next, width, Nat.add_sub_cancel_left, h.pages seq member, ends, List.getElem?_map, List.getElem?_map, entry]
    rfl

end Packable

section Batch

open Scheduler

variable {cache : Cache} {xxh64 : XxHash} {config : Config} {s t : Scheduler} {ids : Finset SeqId}
  {batch prefill : List SeqId}

theorem Batch.packable (h : Batch cache t ids prefill) : Packable t.blockManager.blockSize
    ((prefill ++ t.running).map t.seqs) t.numScheduledPrefillSeqs := by
  obtain ⟨chain, kept⟩ := h.kept
  refine ⟨kept.size_pos, by simpa using h.some', ?count, ?block, ?new, ?decode, ?pages, ?within⟩
  case count =>
    rw [h.counted]
    simp
  case block =>
    exact List.forall_mem_map.mpr (fun i scheduled => (kept.held.wf i (h.member scheduled).1).block)
  case new => exact List.forall_mem_map.mpr (fun i scheduled => (h.scheduled i scheduled).2)
  case decode =>
    rw [h.counted, List.map_append, List.drop_left' (by simp)]
    exact List.forall_mem_map.mpr (fun i runs => (h.running i runs).2.1)
  case pages =>
    exact List.forall_mem_map.mpr (fun i scheduled => (kept.covered i (h.member scheduled).1).length)
  case within =>
    refine List.forall_mem_map.mpr (fun i scheduled => ?_)
    have member := (h.member scheduled).1
    exact (kept.covered i member).within.trans (kept.held.wf i member).tokens.le

theorem Reachable.packable (past : Reachable xxh64 config s ids) (run : schedule s = .ok batch t) :
    Packable config.kvcacheBlockSize (batch.map t.seqs) t.numScheduledPrefillSeqs ∧
      ModelRunner.prepareModelInput config.kvcacheBlockSize (batch.map t.seqs) t.numScheduledPrefillSeqs =
        .ok (ModelRunner.packed config.kvcacheBlockSize (batch.map t.seqs) t.numScheduledPrefillSeqs) := by
  obtain ⟨cache, inv, same⟩ := past.inv
  obtain ⟨prefill, input, scheduled⟩ := inv.scheduled run
  have size : t.blockManager.blockSize = config.kvcacheBlockSize := by
    rw [scheduled.shape.size, scheduled.config, same]
  rw [scheduled.order, ← size]
  exact ⟨scheduled.shape.packable, scheduled.shape.packs⟩

/-- The metadata of every batch passes the checks of both paths, which build the same page CSR of its block tables;
only FlashInfer can refuse the plan. -/
theorem trusted_agrees (past : Reachable xxh64 config s ids) (run : schedule s = .ok batch t) (mode : AttentionMode)
    (wrappers : Wrappers) :
    ∃ input metadata kvIndptr pageIndices lastPageLen,
      ModelRunner.prepareModelInput config.kvcacheBlockSize (batch.map t.seqs) t.numScheduledPrefillSeqs = .ok input ∧
      input.attentionMetadata.trusted = true ∧
      metadata.kvIndptr = some kvIndptr ∧ metadata.pageIndices = some pageIndices ∧
      metadata.lastPageLen = some lastPageLen ∧
      (∀ trusted, validateCommonMetadata { input.attentionMetadata with trusted } true = .ok () ∧
        FlashInferBackend.buildMetadata ⟨config.kvcacheBlockSize, mode, wrappers⟩
          { input.attentionMetadata with trusted } = .ok metadata ∧
        FlashInferBackend.checkPages { input.attentionMetadata with trusted } metadata.numPages
          metadata.queryStartLoc kvIndptr pageIndices = .ok () ∧
        ∃ batchType, FlashInferBackend.buildPlan ⟨config.kvcacheBlockSize, mode, wrappers⟩
          { input.attentionMetadata with trusted } none = (do
            let route ← FlashInferBackend.planRoute wrappers batchType { input.attentionMetadata with trusted }
              metadata.numPrefillPages metadata.queryStartLoc.data kvIndptr.data pageIndices.data lastPageLen.data
            pure ⟨batchType, route, { input.attentionMetadata with trusted }, metadata⟩)) ∧
      PageCsr config.kvcacheBlockSize (batch.map t.seqs) input.attentionMetadata.seqLens.data kvIndptr.data
        pageIndices.data lastPageLen.data := by
  obtain ⟨packable, prepared⟩ := past.packable run
  refine ⟨_, flashInferOf config.kvcacheBlockSize (batch.map t.seqs) t.numScheduledPrefillSeqs, _, _, _, prepared,
    rfl, rfl, rfl, rfl, fun trusted => ?_, ?_⟩
  · exact ⟨packable.validate, packable.buildMetadata rfl, Packable.checkPages, _, packable.buildPlan rfl⟩
  · exact @Packable.pageCsr _ _ _ true packable

def pagedConfig : Config :=
  { maxNumBatchedTokens := 8
    maxNumSeqs := 3
    maxModelLen := 16
    kvcacheBlockSize := 2
    numKvcacheBlocks := 9
    chunkedPrefill := true
    kvcacheBlockSize_pos := Nat.zero_lt_two }

-- Requests that share pages, and a decode request that ends with its page.
theorem trusted_agrees_shared :
    ∃ s t, Reachable pageHash pagedConfig s {0, 1, 2} ∧ schedule s = .ok [1, 2, 0] t ∧
      [1, 2, 0].map (fun i => (t.seqs i).blockTable) = [[0, 2, 3], [0, 2, 4, 5], [0, 1]] ∧
      [1, 2, 0].map (fun i => (t.seqs i).numContextTokens) = [5, 7, 4] ∧
      ∃ input metadata, ModelRunner.prepareModelInput 2 ([1, 2, 0].map t.seqs) t.numScheduledPrefillSeqs = .ok input ∧
        ∀ trusted, FlashInferBackend.buildMetadata
          ⟨2, .unified, ⟨fun _ _ _ _ => .ok (), fun _ _ _ => .ok (), none⟩⟩
          { input.attentionMetadata with trusted } = .ok metadata := by
  have start : Scheduler.init pagedConfig = .ok _ := rfl
  have past := Reachable.play pageHash start
    [.add 0 [1, 2, 3] {}, .step [11], .add 1 [1, 2, 4, 5, 6] {}, .add 2 [1, 2, 4, 5, 7, 8, 9] {}] (by decide)
    (run_final (by decide +kernel))
  refine ⟨_, _, past, run_value (by decide +kernel), by decide +kernel, by decide +kernel, ?_⟩
  obtain ⟨input, metadata, _, _, _, prepared, -, -, -, -, agree, -⟩ := trusted_agrees past
    (run_value (a := [1, 2, 0]) (by decide +kernel)) .unified ⟨fun _ _ _ _ => .ok (), fun _ _ _ => .ok (), none⟩
  exact ⟨input, metadata, prepared, fun trusted => (agree trusted).2.1⟩

end Batch

end NanoVllm
