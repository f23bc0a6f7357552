import Mathlib.Algebra.Order.BigOperators.Group.List
import NanoVllm.Runs.Metadata

set_option autoImplicit false

namespace NanoVllm

open Python Raising Torch

-- The pages of row `r`, with the length of the last one.
def PagePlan.row (plan : PagePlan) (r : Nat) : Option (List Int × Int) := do
  let first ← plan.kvIndptr[r]?
  let last ← plan.kvIndptr[r + 1]?
  let filled ← plan.lastPageLen[r]?
  pure (slice plan.indices first.toNat last.toNat, filled)

structure PagePlan.Closed (plan : PagePlan) (count : Nat) : Prop where
  rows : plan.kvIndptr.length = count + 1 ∧ plan.lastPageLen.length = count
  first : plan.kvIndptr.head? = some 0
  last : plan.kvIndptr.getLast? = some (plan.indices.length : Int)
  entries : ∀ r < count, (plan.row r).isSome

-- The plan whose row `r` is `rows[r]`.
def PagePlan.ofRows (rows : List (List Int)) (lastPageLen : List Int) : PagePlan :=
  ⟨(offsets (rows.map List.length)).map Nat.cast, rows.flatten, lastPageLen⟩

namespace PagePlan

variable {rows : List (List Int)} {lastPageLen : List Int} {r : Nat}

theorem row_ofRows (fits : lastPageLen.length = rows.length) (below : r < rows.length) :
    (ofRows rows lastPageLen).row r = some (rows[r], lastPageLen[r]) := by
  have offset (k : Nat) (inside : k ≤ rows.length) : (ofRows rows lastPageLen).kvIndptr[k]? =
      some (((rows.map List.length).take k).sum : Int) := by
    rw [ofRows, List.getElem?_map, List.getElem?_eq_getElem (by simp; omega), getElem_offsets]
    rfl
  have filled : (ofRows rows lastPageLen).lastPageLen[r]? = some lastPageLen[r] := List.getElem?_eq_getElem _
  rw [row, offset r below.le, offset (r + 1) below, filled]
  exact congrArg (fun pages => some (pages, _)) (slice_flatten (List.getElem?_eq_getElem below))

theorem closed_ofRows (fits : lastPageLen.length = rows.length) : (ofRows rows lastPageLen).Closed rows.length where
  rows := ⟨by simp [ofRows], fits⟩
  first := by simp [ofRows, offsets]
  last := by
    rw [ofRows, List.getLast?_map, getLast?_offsets, List.length_flatten]
    rfl
  entries r below := by
    rw [row_ofRows fits below]
    rfl

theorem take_ofRows {n : Nat} (within : n ≤ rows.length) :
    (⟨(ofRows rows lastPageLen).kvIndptr.take (n + 1),
      (ofRows rows lastPageLen).indices.take ((rows.take n).map List.length).sum, lastPageLen.take n⟩ : PagePlan) =
      ofRows (rows.take n) (lastPageLen.take n) := by
  simp only [ofRows, PagePlan.mk.injEq, and_true]
  constructor
  · rw [← List.map_take, take_offsets _ (by simpa using within), List.map_take]
  · rw [List.map_take, List.take_sum_flatten]

theorem drop_ofRows {n : Nat} (within : n ≤ rows.length) :
    (⟨((ofRows rows lastPageLen).kvIndptr.drop n).map
        (fun offset => offset - (((rows.take n).map List.length).sum : Nat)),
      (ofRows rows lastPageLen).indices.drop ((rows.take n).map List.length).sum, lastPageLen.drop n⟩ : PagePlan) =
      ofRows (rows.drop n) (lastPageLen.drop n) := by
  simp only [ofRows, PagePlan.mk.injEq, and_true]
  constructor
  · rw [List.map_take, cast_sum_take, map_cast_offsets, drop_offsets _ (by simpa using within), map_cast_offsets,
      ← List.map_drop, ← List.map_drop]
  · rw [List.map_take, List.drop_sum_flatten]

end PagePlan

/-- A mixed batch with valid page metadata: what `build_metadata` and `build_plan` check of untrusted metadata, and
whoever builds trusted metadata promises. -/
structure ValidMixed (backend : FlashInferBackend) (common : CommonAttentionMetadata) (tables : IntMatrix)
    (metadata : FlashInferMetadata) : Prop where
  prefill : 0 < common.numPrefillSeqs
  decode : 0 < common.numDecodeSeqs
  paged : common.blockTables = some tables
  matrix : ∀ row ∈ tables.rows, row.length = tables.columns
  built : backend.buildMetadata common = .ok metadata
  values : validateValues common = .ok ()
  ascending : common.queryStartLoc.data.Pairwise (· ≤ ·)
  checked : ∀ kvIndptr indices, metadata.kvIndptr = some kvIndptr → metadata.pageIndices = some indices →
    FlashInferBackend.checkPages common metadata.numPages metadata.queryStartLoc kvIndptr indices = .ok ()

-- The pages that the counts take from the block tables.
def pageRows (tables : IntMatrix) (counts : List Int) : List (List Int) :=
  (tables.rows.zip counts).map (fun row => row.1.take row.2.toNat)

theorem IntTensor.item_ok {x : IntTensor} {i value : Int} (run : x.item i = .ok value) :
    x.data[(if i < 0 then i + x.numel else i).toNat]? = some value := by
  unfold IntTensor.item at run
  split at run
  next found =>
    cases run
    exact found
  next => cases run

theorem le_of_sum_min {counts : List Int} {most : Int} (full : (counts.map (min · most)).sum = counts.sum) :
    ∀ count ∈ counts, count ≤ most := by
  induction counts with
  | nil => simp
  | cons count rest ih =>
      rw [List.map_cons, List.sum_cons, List.sum_cons] at full
      have first : min count most ≤ count := min_le_left _ _
      have later : (rest.map (min · most)).sum ≤ rest.sum := by
        have each := List.sum_le_sum (l := rest) (f := (min · most)) (g := id) (fun c _ => min_le_left c most)
        rwa [List.map_id] at each
      have whole : min count most = count := by omega
      rw [List.forall_mem_cons]
      exact ⟨min_eq_left_iff.mp whole, ih (by omega)⟩

section Pages

variable {common : CommonAttentionMetadata} {tables : IntMatrix} {counts : List Int}

theorem length_pageRows (same : tables.rows.length = counts.length) :
    (pageRows tables counts).length = counts.length := by
  rw [pageRows, List.length_map, List.length_zip, same, Nat.min_self]

theorem lengths_pageRows (same : tables.rows.length = counts.length)
    (matrix : ∀ row ∈ tables.rows, row.length = tables.columns) (natural : ∀ count ∈ counts, 0 ≤ count) :
    ((pageRows tables counts).map List.length).map (Nat.cast : Nat → Int) =
      counts.map (min · (tables.columns : Int)) := by
  have second : counts.map (min · (tables.columns : Int)) =
      (tables.rows.zip counts).map (fun row => min row.2 (tables.columns : Int)) := by
    conv_lhs => rw [← List.map_snd_zip same.ge, List.map_map]
    rfl
  rw [second, pageRows, List.map_map, List.map_map]
  refine List.map_congr_left (fun row listed => ?_)
  obtain ⟨first, last⟩ := List.of_mem_zip listed
  have positive := natural row.2 last
  simp only [Function.comp_apply, List.length_take, matrix row.1 first]
  omega

theorem widths_pageRows (same : tables.rows.length = counts.length)
    (matrix : ∀ row ∈ tables.rows, row.length = tables.columns)
    (fits : ∀ count ∈ counts, 0 ≤ count ∧ count ≤ tables.columns) :
    ((pageRows tables counts).map List.length).map (Nat.cast : Nat → Int) = counts := by
  rw [lengths_pageRows same matrix (fun count listed => (fits count listed).1)]
  conv_rhs => rw [← List.map_id counts]
  exact List.map_congr_left (fun count listed => min_eq_left (fits count listed).2)

theorem trustedPages_ok (same : (tables.rows.length : Int) = common.numSeqs) (positive : 0 < common.numPrefillSeqs)
    {pages : FlashInferBackend.Pages} (run : FlashInferBackend.trustedPages common tables = .ok pages) :
    ∃ counts : List Int, tables.rows.length = counts.length ∧ (∀ count ∈ counts, 0 ≤ count ∧ count ≤ tables.columns) ∧
      pages.kvIndptr.data = offsets counts ∧ pages.pageIndices.data = (pageRows tables counts).flatten ∧
      pages.numPrefillPages = (counts.take common.numPrefillSeqs.toNat).sum := by
  simp only [FlashInferBackend.trustedPages] at run
  obtain ⟨_, length, run⟩ := except_bind_ok run
  obtain ⟨_, fits, run⟩ := except_bind_ok run
  obtain ⟨total, last, run⟩ := except_bind_ok run
  obtain ⟨_, numPages, run⟩ := except_bind_ok run
  obtain ⟨prefillPages, found, run⟩ := except_bind_ok run
  obtain ⟨_, numPrefillPages, run⟩ := except_bind_ok run
  rw [except_require_ok] at length fits numPages numPrefillPages
  cases run
  refine ⟨common.blockCounts, by omega, fun count listed => ⟨(fits count listed).1.le, (fits count listed).2⟩, rfl,
    List.flatMap_def, ?_⟩
  have entry := IntTensor.item_ok found
  have inside := (List.getElem?_eq_some_iff.mp entry).1
  rw [if_neg (by omega)] at entry inside
  rw [List.getElem?_eq_getElem inside, getElem_offsets] at entry
  exact numPrefillPages.trans (Option.some.inj entry).symm

theorem countedPages_ok (same : (tables.rows.length : Int) = common.numSeqs)
    (lens : (common.seqLens.numel : Int) = common.numSeqs) (matrix : ∀ row ∈ tables.rows, row.length = tables.columns)
    (positive : ∀ length ∈ common.seqLens.data, 0 < length) {size : Nat} {pages : FlashInferBackend.Pages}
    (run : FlashInferBackend.countedPages size common tables = .ok pages)
    (total : pages.kvIndptr.item (-1) = .ok (pages.pageIndices.numel : Int)) :
    ∃ counts : List Int, tables.rows.length = counts.length ∧ (∀ count ∈ counts, 0 ≤ count ∧ count ≤ tables.columns) ∧
      pages.kvIndptr.data = offsets counts ∧ pages.pageIndices.data = (pageRows tables counts).flatten ∧
      pages.numPrefillPages = (counts.take common.numPrefillSeqs.toNat).sum := by
  simp only [FlashInferBackend.countedPages] at run
  obtain ⟨_, -, run⟩ := except_bind_ok run
  cases run
  generalize counted : common.seqLens.data.map (fun length => (length + size - 1) / (size : Int)) = counts at total ⊢
  have same' : tables.rows.length = counts.length := by
    rw [← counted, List.length_map]
    rw [IntTensor.numel] at lens
    omega
  have natural : ∀ count ∈ counts, 0 ≤ count := by
    rw [← counted]
    refine List.forall_mem_map.mpr (fun length listed => ?_)
    have := positive length listed
    exact Int.ediv_nonneg (by omega) (by omega)
  have pages : maskedSelect tables.rows (counts.map (fun count =>
      (List.range tables.columns).map (fun (column : Nat) => decide ((column : Int) < count)))) =
      (pageRows tables counts).flatten := by
    rw [maskedSelect, pageRows, List.zip_map_right, List.flatMap_map, ← List.flatMap_def]
    refine List.flatMap_congr (fun row listed => ?_)
    obtain ⟨first, last⟩ := List.of_mem_zip listed
    have mask : (List.range tables.columns).map (fun (column : Nat) => decide ((column : Int) < row.2)) =
        columnMask tables.columns row.2.toNat := by
      refine List.map_congr_left (fun column _ => ?_)
      rw [decide_eq_decide]
      omega
    simp only [Prod.map_fst, Prod.map_snd, id, mask]
    exact select_columns (matrix row.1 first)
  simp only [pages, zero_cons_cumsum] at total ⊢
  have entry := IntTensor.item_ok total
  have last : ((-1 : Int) + (offsets counts).length).toNat = counts.length := by
    rw [length_offsets]
    omega
  rw [if_pos (by decide), IntTensor.numel, last, List.getElem?_eq_getElem (by simp), getElem_offsets, List.take_length]
    at entry
  have full : (counts.map (min · (tables.columns : Int))).sum = counts.sum := by
    rw [← lengths_pageRows same' matrix natural, Option.some.inj entry, IntTensor.numel, List.length_flatten]
    exact (map_list_sum (Nat.castAddMonoidHom Int) _).symm
  exact ⟨counts, same', fun count listed => ⟨natural count listed, le_of_sum_min full count listed⟩, rfl, rfl, rfl⟩

end Pages

theorem validateCommonMetadata_ok {common : CommonAttentionMetadata} (run : validateCommonMetadata common true = .ok ()) :
    common.numDecodeTokens = common.numDecodeSeqs ∧ (common.queryStartLoc.numel : Int) = common.numSeqs + 1 ∧
      (common.seqLens.numel : Int) = common.numSeqs ∧
      ∀ tables ∈ common.blockTables, (tables.rows.length : Int) = common.numSeqs := by
  rw [validateCommonMetadata] at run
  obtain ⟨_, -, run⟩ := except_bind_ok run
  obtain ⟨_, -, run⟩ := except_bind_ok run
  obtain ⟨_, decode, run⟩ := except_bind_ok run
  obtain ⟨_, -, run⟩ := except_bind_ok run
  obtain ⟨_, starts, run⟩ := except_bind_ok run
  obtain ⟨_, lens, run⟩ := except_bind_ok run
  obtain ⟨_, -, run⟩ := except_bind_ok run
  obtain ⟨_, -, run⟩ := except_bind_ok run
  rw [except_require_ok] at decode starts lens
  refine ⟨decode, starts, lens, fun tables paged => ?_⟩
  rw [Option.mem_def.mp paged] at run
  obtain ⟨_, -, run⟩ := except_bind_ok run
  obtain ⟨_, rows, -⟩ := except_bind_ok run
  rwa [except_require_ok] at rows

theorem validateValues_ok {common : CommonAttentionMetadata} (decode : common.numDecodeSeqs ≠ 0)
    (run : validateValues common = .ok ()) :
    common.queryStartLoc.item 0 = .ok 0 ∧ common.queryStartLoc.item (-1) = .ok common.numQueryTokens ∧
      (∀ length ∈ (diffs common.queryStartLoc.data).drop common.numPrefillSeqs.toNat, length = 1) ∧
      ∀ length ∈ common.seqLens.data, 0 < length := by
  rw [validateValues] at run
  obtain ⟨_, first, run⟩ := except_bind_ok run
  obtain ⟨_, zero, run⟩ := except_bind_ok run
  obtain ⟨_, last, run⟩ := except_bind_ok run
  obtain ⟨_, total, run⟩ := except_bind_ok run
  obtain ⟨_, single, run⟩ := except_bind_ok run
  rw [except_require_ok] at zero total single run
  exact ⟨zero ▸ first, total ▸ last, single decode, run⟩

-- The page arguments of the wrappers that the metadata holds.
def FlashInferMetadata.pages (metadata : FlashInferMetadata) : Option PagePlan := do
  let kvIndptr ← metadata.kvIndptr
  let indices ← metadata.pageIndices
  let lastPageLen ← metadata.lastPageLen
  pure ⟨kvIndptr.data, indices.data, lastPageLen.data⟩

theorem FlashInferMetadata.pages_some {metadata : FlashInferMetadata} {plan : PagePlan}
    (found : metadata.pages = some plan) :
    metadata.isCacheless = false ∧ ∃ kvIndptr indices lastPageLen, metadata.kvIndptr = some kvIndptr ∧
      metadata.pageIndices = some indices ∧ metadata.lastPageLen = some lastPageLen ∧
      plan = ⟨kvIndptr.data, indices.data, lastPageLen.data⟩ := by
  simp only [pages, Option.bind_eq_bind, Option.bind_eq_some_iff] at found
  obtain ⟨kvIndptr, indptr, indices, pages, lastPageLen, last, value⟩ := found
  refine ⟨?_, kvIndptr, indices, lastPageLen, indptr, pages, last, (Option.some.inj value).symm⟩
  rw [isCacheless, pages, Option.isNone_some]

namespace ValidMixed

variable {backend : FlashInferBackend} {common : CommonAttentionMetadata} {tables : IntMatrix}
  {metadata : FlashInferMetadata}

theorem validated (h : ValidMixed backend common tables metadata) : validateCommonMetadata common true = .ok () := by
  obtain ⟨_, run, -⟩ := except_bind_ok h.built
  exact run

theorem pages (h : ValidMixed backend common tables metadata) :
    ∃ rows filled, metadata.pages = some (PagePlan.ofRows rows filled) ∧ filled.length = rows.length ∧
      rows.length = common.numPrefillSeqs.toNat + common.numDecodeSeqs.toNat ∧
      metadata.numPrefillPages = (((rows.take common.numPrefillSeqs.toNat).map List.length).sum : Nat) ∧
      metadata.queryStartLoc = common.queryStartLoc := by
  obtain ⟨decode, -, lens, same⟩ := validateCommonMetadata_ok h.validated
  replace same := same tables h.paged
  obtain ⟨-, -, -, positive⟩ := validateValues_ok h.decode.ne' h.values
  have built := h.built
  have prefill := h.prefill
  have some' := h.decode
  rw [CommonAttentionMetadata.numSeqs] at same lens
  rw [FlashInferBackend.buildMetadata, h.validated, except_ok_bind, h.paged] at built
  obtain ⟨found, run, built⟩ := except_bind_ok built
  have counts : ∃ counts : List Int, tables.rows.length = counts.length ∧
      (∀ count ∈ counts, 0 ≤ count ∧ count ≤ tables.columns) ∧ found.kvIndptr.data = offsets counts ∧
      found.pageIndices.data = (pageRows tables counts).flatten ∧
      found.numPrefillPages = (counts.take common.numPrefillSeqs.toNat).sum := by
    by_cases trusted : common.trusted = true
    · rw [if_pos trusted] at run
      exact trustedPages_ok same h.prefill run
    · rw [if_neg trusted] at run
      refine countedPages_ok same lens h.matrix positive run ?_
      have checked := h.checked found.kvIndptr found.pageIndices
      cases built
      replace checked := checked rfl rfl
      rw [FlashInferBackend.checkPages, if_neg trusted] at checked
      obtain ⟨_, -, checked⟩ := except_bind_ok checked
      obtain ⟨_, -, checked⟩ := except_bind_ok checked
      obtain ⟨_, -, checked⟩ := except_bind_ok checked
      obtain ⟨_, -, checked⟩ := except_bind_ok checked
      obtain ⟨_, last, total⟩ := except_bind_ok checked
      rw [except_require_ok] at total
      rw [last, total]
  obtain ⟨counts, rows, fits, indptr, indices, prefillPages⟩ := counts
  have widths := widths_pageRows rows h.matrix fits
  cases built
  refine ⟨pageRows tables counts, common.seqLens.data.map (fun length => (length - 1) % (backend.blockSize : Int) + 1),
    ?_, ?_, ?_, ?_, rfl⟩
  · rw [PagePlan.ofRows, map_cast_offsets, widths, ← indices, ← indptr]
    rfl
  · rw [length_pageRows rows, ← rows, List.length_map]
    rw [IntTensor.numel] at lens
    omega
  · rw [length_pageRows rows, ← rows]
    omega
  · refine prefillPages.trans ?_
    rw [List.map_take, cast_sum_take, widths]

theorem queries (h : ValidMixed backend common tables metadata) :
    (∀ k < common.numPrefillSeqs.toNat, ∃ first last : Nat,
        common.queryStartLoc.data[k]? = some (first : Int) ∧ common.queryStartLoc.data[k + 1]? = some (last : Int) ∧
          first ≤ last ∧ (last : Int) ≤ common.numPrefillTokens) ∧
      (∀ k ≤ common.numDecodeSeqs.toNat,
        common.queryStartLoc.data[common.numPrefillSeqs.toNat + k]? = some (common.numPrefillTokens + k)) ∧
      common.queryStartLoc.data[0]? = some 0 := by
  obtain ⟨decode, length, -, -⟩ := validateCommonMetadata_ok h.validated
  obtain ⟨first, last, single, -⟩ := validateValues_ok h.decode.ne' h.values
  have prefill := h.prefill
  have some' := h.decode
  have ascending := h.ascending
  rw [CommonAttentionMetadata.numSeqs] at length
  rw [CommonAttentionMetadata.numQueryTokens] at last
  replace first := IntTensor.item_ok first
  replace last := IntTensor.item_ok last
  rw [if_neg (by decide)] at first
  rw [if_pos (by decide)] at last
  rw [IntTensor.numel] at length last
  obtain ⟨n, whole⟩ := Int.eq_ofNat_of_zero_le prefill.le
  obtain ⟨m, rest⟩ := Int.eq_ofNat_of_zero_le some'.le
  generalize common.queryStartLoc.data = starts at length first last single ascending ⊢
  rw [whole, Int.toNat_natCast] at single
  rw [whole, rest, Int.toNat_natCast, Int.toNat_natCast]
  have length' : starts.length = n + m + 1 := by omega
  have count : (-1 + (starts.length : Int)).toNat = n + m := by omega
  have steps {k : Nat} (within : k ≤ m) := getElem_of_diffs length' single within
  rw [count, List.getElem?_eq_getElem (by omega), Option.some_inj, steps le_rfl] at last
  have zero : starts[0] = 0 := by
    rw [← Option.some_inj, ← List.getElem?_eq_getElem]
    exact first
  have monotone {i j : Nat} (le : i ≤ j) (inside : j < starts.length) : starts[i] ≤ starts[j] := by
    rcases Nat.eq_or_lt_of_le le with rfl | less
    · exact le_rfl
    · exact List.pairwise_iff_getElem.mp ascending i j (by omega) inside less
  refine ⟨fun k below => ?_, fun k within => ?_, first⟩
  · have low := monotone (Nat.zero_le k) (by omega)
    have step := monotone (Nat.le_add_right k 1) (by omega)
    have high := monotone (i := k + 1) (j := n) below (by omega)
    obtain ⟨start, before⟩ := Int.eq_ofNat_of_zero_le (zero ▸ low)
    obtain ⟨stop, after⟩ := Int.eq_ofNat_of_zero_le (zero ▸ low.trans step)
    refine ⟨start, stop, ?_, ?_, by omega, by omega⟩
    · rw [← before, List.getElem?_eq_getElem]
    · rw [← after, List.getElem?_eq_getElem]
  · rw [List.getElem?_eq_getElem (by omega), steps within]
    refine congrArg some ?_
    omega

end ValidMixed

/-- The rows of `whole`, the first `n` in one plan and the other `m` in another. -/
structure SplitPages (whole prefill decode : PagePlan) (n m : Nat) : Prop where
  whole_closed : whole.Closed (n + m)
  prefill_closed : prefill.Closed n
  decode_closed : decode.Closed m
  prefill_row : ∀ r < n, prefill.row r = whole.row r
  decode_row : ∀ r < m, decode.row r = whole.row (n + r)

/-- The queries of the first `n` rows are in the first `split` tokens, and each other row has one of the tokens after
them. -/
structure SplitQueries (starts qIndptr : List Int) (n m split : Nat) : Prop where
  closed : qIndptr.length = n + 1 ∧ qIndptr[0]? = some 0 ∧ qIndptr[n]? = some (split : Int)
  prefill_row : ∀ r ≤ n, qIndptr[r]? = starts[r]?
  prefill_tokens : ∀ r < n, ∃ first last : Nat, starts[r]? = some (first : Int) ∧ starts[r + 1]? = some (last : Int) ∧
    first ≤ last ∧ last ≤ split
  decode_token : ∀ r < m, starts[n + r]? = some ((split + r : Nat) : Int) ∧
    starts[n + r + 1]? = some ((split + r + 1 : Nat) : Int)

theorem PagePlan.split_ofRows {rows : List (List Int)} {filled : List Int} {n m : Nat}
    (fits : filled.length = rows.length) (count : rows.length = n + m) :
    SplitPages (ofRows rows filled) (ofRows (rows.take n) (filled.take n)) (ofRows (rows.drop n) (filled.drop n)) n
      m := by
  have first : (rows.take n).length = n := by
    rw [List.length_take]
    omega
  have later : (rows.drop n).length = m := by
    rw [List.length_drop]
    omega
  have first' : (filled.take n).length = (rows.take n).length := by
    rw [List.length_take, List.length_take, fits]
  have later' : (filled.drop n).length = (rows.drop n).length := by
    rw [List.length_drop, List.length_drop, fits]
  constructor
  case whole_closed => exact count ▸ closed_ofRows fits
  case prefill_closed => simpa only [first] using closed_ofRows first'
  case decode_closed => simpa only [later] using closed_ofRows later'
  case prefill_row =>
    intro r below
    rw [row_ofRows fits (by omega), row_ofRows first' (by omega), List.getElem_take, List.getElem_take]
  case decode_row =>
    intro r below
    rw [row_ofRows fits (by omega), row_ofRows later' (by omega), List.getElem_drop, List.getElem_drop]

namespace ValidMixed

variable {backend : FlashInferBackend} {common : CommonAttentionMetadata} {tables : IntMatrix}
  {metadata : FlashInferMetadata}

theorem splitQueries (h : ValidMixed backend common tables metadata) :
    ∃ split : Nat, common.numPrefillTokens = split ∧
      SplitQueries common.queryStartLoc.data (common.queryStartLoc.data.take (common.numPrefillSeqs.toNat + 1))
        common.numPrefillSeqs.toNat common.numDecodeSeqs.toNat split := by
  obtain ⟨prefill, decode, zero⟩ := h.queries
  obtain ⟨-, length, -, -⟩ := validateCommonMetadata_ok h.validated
  rw [IntTensor.numel, CommonAttentionMetadata.numSeqs] at length
  have some' := h.prefill
  have rest := h.decode
  obtain ⟨_, split, -, last, -, within⟩ := prefill (common.numPrefillSeqs.toNat - 1) (by omega)
  have first := decode 0 (Nat.zero_le _)
  rw [Nat.sub_add_cancel (by omega)] at last
  rw [Nat.add_zero, last, Option.some_inj] at first
  have tokens : common.numPrefillTokens = split := by omega
  rw [tokens] at prefill decode
  refine ⟨split, tokens, ?_⟩
  constructor
  case closed =>
    refine ⟨?_, ?_, ?_⟩
    · rw [List.length_take]
      omega
    · rw [List.getElem?_take_of_lt (Nat.succ_pos _), zero]
    · rw [List.getElem?_take_of_lt (Nat.lt_succ_self _), last]
  case prefill_row =>
    intro r le
    exact List.getElem?_take_of_lt (Nat.lt_succ_of_le le)
  case prefill_tokens =>
    intro r below
    obtain ⟨first, last, start, stop, le, within⟩ := prefill r below
    exact ⟨first, last, start, stop, le, Int.ofNat_le.mp within⟩
  case decode_token =>
    intro r below
    exact ⟨decode r below.le, decode (r + 1) below⟩

theorem views (h : ValidMixed backend common tables metadata) {β : Type} {output : List β} {split : Nat}
    (tokens : common.numPrefillTokens = split) (length : (output.length : Int) = common.numQueryTokens) :
    (output.take split).length = split ∧ (output.drop split).length = common.numDecodeSeqs.toNat := by
  obtain ⟨decode, -, -, -⟩ := validateCommonMetadata_ok h.validated
  have some' := h.decode
  rw [CommonAttentionMetadata.numQueryTokens] at length
  rw [List.length_take, List.length_drop]
  constructor <;> omega

theorem forwardPaged (h : ValidMixed backend common tables metadata) {α β : Type} (kernels : Kernels α β)
    {q : List α} {output : List β} {split : Nat} (tokens : common.numPrefillTokens = split)
    (length : (q.length : Int) = common.numQueryTokens) (same : output.length = q.length) :
    FlashInferBackend.forwardPaged kernels q output ⟨.mixed, .mixedSplit, common, metadata⟩ = (do
      let first ← kernels.prefillRun (q.take split) (output.take split)
      let later ← kernels.decodeRun (q.drop split) (output.drop split)
      pure (first ++ later)) := by
  obtain ⟨rows, filled, pages, -⟩ := h.pages
  obtain ⟨cached, -⟩ := FlashInferMetadata.pages_some pages
  have view := (h.views tokens (same ▸ length)).1
  rw [FlashInferBackend.forwardPaged, require_of cached, pure_bind, require_of length, pure_bind]
  simp only [tokens, Int.toNat_natCast, ne_eq, h.prefill.ne', h.decode.ne', not_false_eq_true, if_true, bind_assoc,
    pure_bind]
  cases run : kernels.prefillRun (q.take split) (output.take split) with
  | error e => rfl
  | ok first =>
      have written := (kernels.prefillRun_inPlace run).trans view
      rw [except_ok_bind, except_ok_bind, List.drop_left' written, List.take_left' written]

theorem classifyBatch (h : ValidMixed backend common tables metadata) : classifyBatch common = .ok .mixed := by
  rw [NanoVllm.classifyBatch, if_neg h.prefill.ne', if_neg h.decode.ne']
  rfl

theorem buildPlan (h : ValidMixed backend common tables metadata) (route : backend.wrappers.mixedPlan = none)
    {given : Option FlashInferMetadata} (same : given = none ∨ given = some metadata) {plan : PagePlan}
    (pages : metadata.pages = some plan) :
    backend.buildPlan common given = (do
      backend.wrappers.prefillPlan (metadata.queryStartLoc.data.take (common.numPrefillSeqs.toNat + 1))
        (plan.kvIndptr.take (common.numPrefillSeqs.toNat + 1)) (plan.indices.take metadata.numPrefillPages.toNat)
        (plan.lastPageLen.take common.numPrefillSeqs.toNat)
      backend.wrappers.decodePlan ((plan.kvIndptr.drop common.numPrefillSeqs.toNat).map (· - metadata.numPrefillPages))
        (plan.indices.drop metadata.numPrefillPages.toNat) (plan.lastPageLen.drop common.numPrefillSeqs.toNat)
      pure ⟨.mixed, .mixedSplit, common, metadata⟩) := by
  have checked := h.checked
  have built := h.built
  obtain ⟨cached, kvIndptr, pageIndices, lastPageLen, indptr, indices, last, rfl⟩ :=
    FlashInferMetadata.pages_some pages
  rcases same with rfl | rfl <;>
    simp only [FlashInferBackend.buildPlan, built, h.classifyBatch, except_ok_bind, pure_bind, cached,
      Bool.false_eq_true, if_false, indptr, indices, last, checked _ _ indptr indices, FlashInferBackend.planRoute, route,
      bind_assoc]

end ValidMixed

theorem Packable.validMixed {size n : Nat} {seqs : List Sequence} {trusted : Bool} (h : Packable size seqs n)
    {backend : FlashInferBackend} (same : backend.blockSize = size) (prefill : 0 < n) (decode : n < seqs.length) :
    ValidMixed backend (metadataOf trusted size seqs n) (tablesOf seqs) (flashInferOf size seqs n) := by
  constructor
  case prefill => exact Int.natCast_pos.mpr prefill
  case decode =>
    change (0 : Int) < (seqs.length - n : Nat)
    omega
  case paged => exact h.blockTables
  case matrix =>
    refine List.forall_mem_map.mpr (fun row listed => length_padded ?_)
    obtain ⟨seq, member, rfl⟩ := List.mem_map.mp listed
    rw [Sequence.length_pageRow]
    exact le_foldl_max (List.mem_map_of_mem (f := fun seq : Sequence => seq.blockTable.length) member) 0
  case built => exact h.buildMetadata same
  case values => exact h.validValues
  case ascending =>
    change ((offsets (seqs.map Sequence.numNewTokens)).map (Nat.cast : Nat → Int)).Pairwise (· ≤ ·)
    exact (pairwise_offsets _).map _ (fun _ _ => Int.ofNat_le.mpr)
  case checked =>
    intro kvIndptr indices indptr pages
    cases indptr
    cases pages
    exact checkPages

/-- The two plans and the two views of the output take a mixed batch apart. -/
theorem mixed_split_exact {backend : FlashInferBackend} {common : CommonAttentionMetadata} {tables : IntMatrix}
    {metadata : FlashInferMetadata} (valid : ValidMixed backend common tables metadata)
    (route : backend.wrappers.mixedPlan = none) {given : Option FlashInferMetadata}
    (same : given = none ∨ given = some metadata) :
    ∃ (whole prefill decode : PagePlan) (qIndptr : List Int) (n m split : Nat),
      metadata.pages = some whole ∧ common.numPrefillSeqs = n ∧ common.numDecodeSeqs = m ∧
        common.numPrefillTokens = split ∧ SplitPages whole prefill decode n m ∧
        SplitQueries common.queryStartLoc.data qIndptr n m split ∧
        backend.buildPlan common given = (do
          backend.wrappers.prefillPlan qIndptr prefill.kvIndptr prefill.indices prefill.lastPageLen
          backend.wrappers.decodePlan decode.kvIndptr decode.indices decode.lastPageLen
          pure ⟨.mixed, .mixedSplit, common, metadata⟩) ∧
        ∀ {α β : Type} (kernels : Kernels α β) (q : List α) (output : List β),
          (q.length : Int) = common.numQueryTokens → output.length = q.length →
            (output.take split).length = split ∧ (output.drop split).length = m ∧
              FlashInferBackend.forwardPaged kernels q output ⟨.mixed, .mixedSplit, common, metadata⟩ = (do
                let first ← kernels.prefillRun (q.take split) (output.take split)
                let later ← kernels.decodeRun (q.drop split) (output.drop split)
                pure (first ++ later)) := by
  obtain ⟨rows, filled, pages, fits, count, prefillPages, starts⟩ := valid.pages
  obtain ⟨split, tokens, queries⟩ := valid.splitQueries
  refine ⟨_, _, _, _, _, _, split, pages, (Int.toNat_of_nonneg valid.prefill.le).symm,
    (Int.toNat_of_nonneg valid.decode.le).symm, tokens, PagePlan.split_ofRows fits count, queries, ?_, ?_⟩
  · rw [valid.buildPlan route same pages, prefillPages, starts, Int.toNat_natCast, ← PagePlan.take_ofRows (by omega),
      ← PagePlan.drop_ofRows (by omega)]
    rfl
  · intro α β kernels q output length same
    obtain ⟨first, later⟩ := valid.views tokens (same ▸ length)
    exact ⟨first, later, valid.forwardPaged kernels tokens length same⟩

def splitBackend : FlashInferBackend :=
  ⟨2, .split, ⟨fun _ _ _ _ => .ok (), fun _ _ _ => .ok (), none⟩⟩

def splitCommon : CommonAttentionMetadata :=
  { numPrefillSeqs := 2
    numDecodeSeqs := 2
    numPrefillTokens := 4
    numDecodeTokens := 2
    queryStartLoc := cudaTensor [0, 3, 4, 5, 6]
    seqLens := cudaTensor [5, 1, 4, 2]
    slotMapping := cudaTensor [6, 7, 18, 8, 13, 17]
    blockTables := some ⟨.int32, .cuda, 3, [[7, 3, 9], [4, -1, -1], [5, 6, -1], [8, -1, -1]]⟩ }

def splitMetadata : FlashInferMetadata :=
  { queryStartLoc := cudaTensor [0, 3, 4, 5, 6]
    kvIndptr := some (cudaTensor [0, 3, 4, 6, 7])
    pageIndices := some (cudaTensor [7, 3, 9, 4, 5, 6, 8])
    lastPageLen := some (cudaTensor [1, 1, 2, 2])
    numPages := 7
    numPrefillPages := 4 }

theorem mixed_split_exact_uneven :
    ∃ prefill decode, SplitPages ⟨[0, 3, 4, 6, 7], [7, 3, 9, 4, 5, 6, 8], [1, 1, 2, 2]⟩ prefill decode 2 2 ∧
      splitBackend.buildPlan splitCommon none = .ok ⟨.mixed, .mixedSplit, splitCommon, splitMetadata⟩ := by
  have valid : ValidMixed splitBackend splitCommon ⟨.int32, .cuda, 3, [[7, 3, 9], [4, -1, -1], [5, 6, -1], [8, -1, -1]]⟩
      splitMetadata := by
    constructor
    case checked =>
      rintro _ _ ⟨⟩ ⟨⟩
      decide
    all_goals decide
  obtain ⟨whole, prefill, decode, _, n, m, _, pages, first, later, -, split, -, built, -⟩ :=
    mixed_split_exact valid rfl (Or.inl rfl)
  obtain rfl : n = 2 := (Int.ofNat_inj.mp first).symm
  obtain rfl : m = 2 := (Int.ofNat_inj.mp later).symm
  obtain rfl := Option.some.inj pages
  exact ⟨prefill, decode, split, built⟩

end NanoVllm
