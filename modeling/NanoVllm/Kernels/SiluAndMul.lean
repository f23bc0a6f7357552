import NanoVllm.Model.SiluAndMul
import NanoVllm.Parallel.Mlp

set_option autoImplicit false

namespace NanoVllm

open Python Raising Torch Device

section Silu

variable {σ ϕ : Type} [Mul ϕ] {input : CudaTensor σ} {memory memory' : Memory σ} {lead : List Nat}
  {rows hiddenSize fuel : Nat}

/-- What the checks of the extension let through: rows of `2 * hiddenSize` scalars, whose number is an `int64_t`. -/
structure CudaTensor.Supported (input : CudaTensor σ) (lead : List Nat) (hiddenSize : Nat) : Prop where
  isCuda : input.isCuda = true
  isContiguous : input.isContiguous = true
  scalarType : input.scalarType = .half ∨ input.scalarType = .bFloat16
  sizes : input.sizes = lead ++ [2 * hiddenSize]
  positive : 0 < hiddenSize
  fits : 2 * (lead.prod * hiddenSize) < 2 ^ 63

-- The value at row `r` and column `c` of the output.
def siluAt (scalars : Scalars σ ϕ) (data : Memory σ) (hiddenSize r c : Nat) : σ :=
  scalars.ofFloat (scalars.silu (scalars.toFloat (data (r * (2 * hiddenSize) + c : Nat))) *
    scalars.toFloat (data (r * (2 * hiddenSize) + hiddenSize + c : Nat)))

theorem row_lt (positive : 0 < hiddenSize) {i : Nat} (below : i < rows * hiddenSize) : i / hiddenSize < rows :=
  (Nat.div_lt_iff_lt_mul positive).mpr below

theorem pair_lt {r c : Nat} (row : r < rows) (column : c < hiddenSize) :
    r * (2 * hiddenSize) + hiddenSize + c < 2 * (rows * hiddenSize) := by
  have last : (r + 1) * (2 * hiddenSize) ≤ rows * (2 * hiddenSize) := Nat.mul_le_mul_right _ row
  have whole : rows * (2 * hiddenSize) = 2 * (rows * hiddenSize) := by ring
  rw [Nat.add_mul, Nat.one_mul] at last
  omega

theorem siluTurn_eq (scalars : Scalars σ ϕ) (data : Memory σ) (positive : 0 < hiddenSize)
    (fits : 2 * (rows * hiddenSize) < 2 ^ 63) {i : Nat} (below : i < rows * hiddenSize) :
    siluTurn scalars data hiddenSize i =
      { gateIndex := (i / hiddenSize * (2 * hiddenSize) + i % hiddenSize : Nat)
        upIndex := (i / hiddenSize * (2 * hiddenSize) + hiddenSize + i % hiddenSize : Nat)
        outputIndex := i
        value := siluAt scalars data hiddenSize (i / hiddenSize) (i % hiddenSize) } := by
  have inside := pair_lt (row_lt positive below) (Nat.mod_lt i positive)
  have wide : hiddenSize ≤ rows * hiddenSize :=
    Nat.le_mul_of_pos_left _ (Nat.zero_le _ |>.trans_lt (row_lt positive below))
  have split : i / hiddenSize * hiddenSize + i % hiddenSize = i := Nat.div_add_mod' i hiddenSize
  have twice : i / hiddenSize * (2 * hiddenSize) = 2 * (i / hiddenSize * hiddenSize) := by ring
  have row : int64 ((i : Int).tdiv hiddenSize) = (i / hiddenSize : Nat) := by
    rw [Int.ofNat_tdiv]
    exact int64_natCast ((Nat.div_le_self _ _).trans_lt (by omega))
  have column : int64 ((i : Int) - int64 ((i / hiddenSize : Nat) * (hiddenSize : Int))) = (i % hiddenSize : Nat) := by
    rw [← Nat.cast_mul, int64_natCast (by omega), ← Nat.cast_sub (by omega)]
    have rest : i - i / hiddenSize * hiddenSize = i % hiddenSize := by omega
    rw [rest]
    exact int64_natCast (by omega)
  have gate : int64 (int64 ((i / hiddenSize : Nat) * int64 ((hiddenSize : Int) * 2)) + (i % hiddenSize : Nat)) =
      (i / hiddenSize * (2 * hiddenSize) + i % hiddenSize : Nat) := by
    have width : (hiddenSize : Int) * 2 = (2 * hiddenSize : Nat) := by push_cast; ring
    rw [width, int64_natCast (by omega), ← Nat.cast_mul, int64_natCast (by omega), ← Nat.cast_add]
    exact int64_natCast (by omega)
  have up : int64 ((i / hiddenSize * (2 * hiddenSize) + i % hiddenSize : Nat) + (hiddenSize : Int)) =
      (i / hiddenSize * (2 * hiddenSize) + hiddenSize + i % hiddenSize : Nat) := by
    rw [← Nat.cast_add, Nat.add_right_comm]
    exact int64_natCast (inside.trans fits)
  simp only [siluTurn, row, column, gate, up, siluAt]

theorem siluBlocks_eq {n : Nat} (fits : 2 * n < 2 ^ 63) : siluBlocks n = (min ((n + 255) / 256) 65535 : Nat) := by
  have sum : int64 (int64 ((n : Int) + 256) - 1) = (n + 255 : Nat) := by
    have first : int64 ((n : Int) + 256) = n + 256 := int64_of_fits (by omega) (by omega)
    rw [first, int64_of_fits (by omega) (by omega)]
    omega
  have blocks : ((n + 255 : Nat) : Int).tdiv 256 = ((n + 255) / 256 : Nat) := Int.ofNat_tdiv (n + 255) 256
  have capped : min (((n + 255) / 256 : Nat) : Int) 65535 = (min ((n + 255) / 256) 65535 : Nat) := by omega
  rw [siluBlocks, sum, blocks, capped]
  exact int32_natCast (by omega)

theorem flatMap_gridPrograms {α : Type} (blocks threads : Nat) (f : Nat → List α) :
    (gridPrograms blocks threads).flatMap (fun program => f (program.1 * threads + program.2)) =
      (List.range (blocks * threads)).flatMap f := by
  rw [← flatMap_range_blocks, gridPrograms, List.flatMap_assoc, List.flatMap_assoc]
  refine List.flatMap_congr (fun block _ => ?_)
  rw [List.flatMap_map, List.flatMap_map]

def siluTurns (scalars : Scalars σ ϕ) (data : Memory σ) (outputElements hiddenSize stride thread : Nat) :
    List (SiluTurn σ) :=
  (range thread outputElements stride).map (fun i : Nat => siluTurn scalars data hiddenSize i)

theorem siluAndMulKernel_eq (scalars : Scalars σ ϕ) (data : Memory σ) {n blocks block thread : Nat}
    (fits : 2 * n < 2 ^ 63) (capped : blocks ≤ 65535) (isBlock : block < blocks) (isThread : thread < 256)
    (enough : n < fuel) : siluAndMulKernel fuel scalars data n hiddenSize 256 blocks block thread =
      some (siluTurns scalars data n hiddenSize (blocks * 256) (block * 256 + thread)) := by
  have stride : int64 (int64 (256 : Nat) * (blocks : Int)) = (blocks * 256 : Nat) := by
    rw [int64_natCast (by omega), ← Nat.cast_mul, Nat.mul_comm]
    exact int64_natCast (by omega)
  have start : int64 (int64 (int64 (block : Int) * (256 : Nat)) + thread) = (block * 256 + thread : Nat) := by
    rw [int64_natCast (by omega), ← Nat.cast_mul, int64_natCast (by omega), ← Nat.cast_add]
    exact int64_natCast (by omega)
  have loop := @stridedLoop_eq (block * 256 + thread) n (blocks * 256) fuel (by omega) (by omega) (by omega)
  simp only [siluAndMulKernel, stride, start, loop, Option.map_some, List.map_map, siluTurns]
  rfl

theorem launchSiluAndMul_eq (scalars : Scalars σ ϕ) (data : Memory σ) {n : Nat} (positive : 0 < n)
    (fits : 2 * n < 2 ^ 63) :
    ∃ turns, (∀ fuel, n < fuel → launchSiluAndMul fuel scalars data n hiddenSize = some turns) ∧
      turns.Perm ((List.range n).map (fun i : Nat => siluTurn scalars data hiddenSize i)) := by
  let blocks := min ((n + 255) / 256) 65535
  have grid : (siluBlocks n).toNat = blocks := by
    rw [siluBlocks_eq fits]
    rfl
  have some' : 0 < blocks * 256 := by
    dsimp only [blocks]
    omega
  refine ⟨(gridPrograms blocks 256).flatMap (fun program =>
    siluTurns scalars data n hiddenSize (blocks * 256) (program.1 * 256 + program.2)), fun fuel enough => ?_, ?_⟩
  · have each : ∀ program ∈ gridPrograms blocks 256,
        siluAndMulKernel fuel scalars data n hiddenSize 256 blocks program.1 program.2 =
          some (siluTurns scalars data n hiddenSize (blocks * 256) (program.1 * 256 + program.2)) := by
      rintro ⟨block, thread⟩ listed
      simp only [gridPrograms, List.mem_flatMap, List.mem_map, List.mem_range, Prod.mk.injEq] at listed
      obtain ⟨block, isBlock, thread, isThread, rfl, rfl⟩ := listed
      exact siluAndMulKernel_eq scalars data fits (min_le_right _ _) isBlock isThread enough
    simp only [launchSiluAndMul, grid, mapM_some each, Option.bind_eq_bind, Option.bind_some, List.flatMap]
    rfl
  · rw [flatMap_gridPrograms]
    have shared := (@flatMap_range_perm n _ some').map (fun i : Nat => siluTurn scalars data hiddenSize i)
    rw [List.map_flatMap] at shared
    exact shared

theorem CudaTensor.Supported.forward (supported : input.Supported lead hiddenSize)
    (scalars : ScalarType → Scalars σ ϕ) : siluAndMulForward fuel scalars input =
      if lead.prod * hiddenSize = 0 then .ok (some { sizes := lead ++ [hiddenSize], turns := [] })
      else .ok ((launchSiluAndMul fuel (scalars input.scalarType) input.data
        (lead.prod * hiddenSize : Nat) hiddenSize).map
        (fun turns => { sizes := lead ++ [hiddenSize], turns })) := by
  obtain ⟨isCuda, isContiguous, scalarType, sizes, positive, -⟩ := supported
  have last : input.sizes.getLastD 0 = 2 * hiddenSize := by simp [sizes]
  have half : 2 * hiddenSize / 2 = hiddenSize := Nat.mul_div_cancel_left hiddenSize Nat.zero_lt_two
  have even : 0 < 2 * hiddenSize ∧ 2 * hiddenSize % 2 = 0 := ⟨by omega, Nat.mul_mod_right 2 hiddenSize⟩
  have dims : 1 ≤ input.sizes.length := by simp [sizes]
  have total : (lead ++ [hiddenSize]).prod = lead.prod * hiddenSize := by simp
  have front : input.sizes.dropLast = lead := by rw [sizes, List.dropLast_concat]
  simp only [siluAndMulForward, require_of isCuda, require_of isContiguous, require_of dims, require_of scalarType,
    last, require_of even, siluAndMulCuda, half, front, total]
  split
  · rfl
  · rcases scalarType with same | same
    · rw [same]
      rfl
    · rw [same]
      rfl

/-- What the threads do together, in whatever order their stores arrive. -/
structure SiluCover (scalars : Scalars σ ϕ) (data : Memory σ) (rows hiddenSize : Nat) (turns : List (SiluTurn σ)) :
    Prop where
  once : (turns.map SiluTurn.outputIndex).Perm ((List.range (rows * hiddenSize)).map Nat.cast)
  reads : ∀ turn ∈ turns, ∀ index ∈ [turn.gateIndex, turn.upIndex],
    0 ≤ index ∧ index < (2 * (rows * hiddenSize) : Nat)
  stored : ∀ memory memory', Launched memory (turns.map SiluTurn.store) memory' →
    ∀ r < rows, ∀ c < hiddenSize, memory' (r * hiddenSize + c : Nat) = siluAt scalars data hiddenSize r c
  outside : ∀ memory memory', Launched memory (turns.map SiluTurn.store) memory' →
    ∀ a : Int, ¬(0 ≤ a ∧ a < (rows * hiddenSize : Nat)) → memory' a = memory a

theorem SiluCover.of_perm {scalars : Scalars σ ϕ} {data : Memory σ} {turns : List (SiluTurn σ)}
    (positive : 0 < hiddenSize) (fits : 2 * (rows * hiddenSize) < 2 ^ 63)
    (perm : turns.Perm ((List.range (rows * hiddenSize)).map (fun i : Nat => siluTurn scalars data hiddenSize i))) :
    SiluCover scalars data rows hiddenSize turns := by
  have turnOf {turn : SiluTurn σ} (listed : turn ∈ turns) :
      ∃ i < rows * hiddenSize, siluTurn scalars data hiddenSize i = turn := by
    obtain ⟨i, below, same⟩ := List.mem_map.mp (perm.mem_iff.mp listed)
    exact ⟨i, List.mem_range.mp below, same⟩
  have once : (turns.map SiluTurn.outputIndex).Perm ((List.range (rows * hiddenSize)).map Nat.cast) := by
    have outputs := perm.map SiluTurn.outputIndex
    rw [List.map_map] at outputs
    exact outputs
  have addresses : (turns.map SiluTurn.store).map Prod.fst = turns.map SiluTurn.outputIndex := by
    rw [List.map_map]
    rfl
  constructor
  case once => exact once
  case reads =>
    intro turn listed index read
    obtain ⟨i, below, rfl⟩ := turnOf listed
    have inside := pair_lt (row_lt positive below) (Nat.mod_lt i positive)
    rw [siluTurn_eq scalars data positive fits below] at read
    simp only [List.mem_cons, List.not_mem_nil, or_false] at read
    rcases read with rfl | rfl <;> omega
  case stored =>
    intro memory memory' launched r row c column
    have below : r * hiddenSize + c < rows * hiddenSize := by
      have last := Nat.mul_le_mul_right hiddenSize (Nat.succ_le_of_lt row)
      rw [Nat.succ_mul] at last
      omega
    have quotient : (r * hiddenSize + c) / hiddenSize = r := by
      rw [Nat.mul_comm, Nat.mul_add_div positive, Nat.div_eq_of_lt column, Nat.add_zero]
    have rest : (r * hiddenSize + c) % hiddenSize = c := by
      rw [Nat.mul_comm, Nat.mul_add_mod, Nat.mod_eq_of_lt column]
    have distinct : ((turns.map SiluTurn.store).map Prod.fst).Nodup := by
      rw [addresses, once.nodup_iff]
      exact List.nodup_range.map Nat.cast_injective
    rw [launched.eq distinct]
    refine storeAll_of_mem distinct
      (List.mem_map.mpr ⟨siluTurn scalars data hiddenSize (r * hiddenSize + c : Nat), ?_, ?_⟩)
    · exact perm.mem_iff.mpr (List.mem_map_of_mem (List.mem_range.mpr below))
    · rw [siluTurn_eq scalars data positive fits below, quotient, rest]
      rfl
  case outside =>
    intro memory memory' launched a outside
    refine launched.untouched (fun touched => outside ?_)
    rw [addresses, once.mem_iff, List.mem_map] at touched
    obtain ⟨i, below, rfl⟩ := touched
    rw [List.mem_range] at below
    omega

theorem siluAndMul_siluAt (scalars : Scalars σ ϕ) (data : Memory σ) (rows hiddenSize : Nat) :
    ∃ out, siluAndMul scalars.silu ⟨rows, 2 * hiddenSize, fun r c => scalars.toFloat
        (data (r * (2 * hiddenSize) + c : Nat))⟩ = some out ∧ out.HasShape rows hiddenSize ∧
      ∀ r c, siluAt scalars data hiddenSize r c = scalars.ofFloat (out.entry r c) := by
  refine ⟨_, siluAndMul_eq rfl rows _, ⟨rfl, rfl⟩, fun r c => ?_⟩
  simp only [siluAt, Nat.zero_mul, Nat.zero_add, Nat.one_mul, Nat.add_assoc]

theorem silu_covers (scalars : ScalarType → Scalars σ ϕ) (supported : input.Supported lead hiddenSize) :
    ∃ turns, (∀ fuel, lead.prod * hiddenSize < fuel → siluAndMulForward fuel scalars input =
        .ok (some { sizes := lead ++ [hiddenSize], turns })) ∧
      SiluCover (scalars input.scalarType) input.data lead.prod hiddenSize turns ∧
      ∃ out, siluAndMul (scalars input.scalarType).silu ⟨lead.prod, 2 * hiddenSize, fun r c =>
          (scalars input.scalarType).toFloat (input.data (r * (2 * hiddenSize) + c : Nat))⟩ = some out ∧
        out.HasShape lead.prod hiddenSize ∧
        ∀ memory memory', Launched memory (turns.map SiluTurn.store) memory' →
          ∀ r < lead.prod, ∀ c < hiddenSize,
            memory' (r * hiddenSize + c : Nat) = (scalars input.scalarType).ofFloat (out.entry r c) := by
  have run : ∃ turns, (∀ fuel, lead.prod * hiddenSize < fuel → siluAndMulForward fuel scalars input =
        .ok (some { sizes := lead ++ [hiddenSize], turns })) ∧
      turns.Perm ((List.range (lead.prod * hiddenSize)).map (fun i : Nat =>
        siluTurn (scalars input.scalarType) input.data hiddenSize i)) := by
    by_cases none : lead.prod * hiddenSize = 0
    · refine ⟨[], fun fuel _ => ?_, by simp [none]⟩
      rw [supported.forward scalars, if_pos none]
    · obtain ⟨turns, run, perm⟩ := @launchSiluAndMul_eq _ _ _ hiddenSize (scalars input.scalarType) input.data _
        (Nat.pos_of_ne_zero none) supported.fits
      refine ⟨turns, fun fuel enough => ?_, perm⟩
      rw [supported.forward scalars, if_neg none, run fuel enough]
      rfl
  obtain ⟨turns, run, perm⟩ := run
  have cover := SiluCover.of_perm supported.positive supported.fits perm
  obtain ⟨out, native, shape, entries⟩ := siluAndMul_siluAt (scalars input.scalarType) input.data lead.prod hiddenSize
  refine ⟨turns, run, cover, out, native, shape, fun memory memory' launched r row c column => ?_⟩
  rw [cover.stored memory memory' launched r row c column, entries]

theorem silu_covers_two_rows :
    let scalars : ScalarType → Scalars Int Int := fun _ => { toFloat := id, silu := fun x => x * x, ofFloat := id }
    let input : CudaTensor Int :=
      { isCuda := true, isContiguous := true, scalarType := .half, sizes := [2, 6], data := id }
    ∃ turns, (∀ fuel, 2 * 3 < fuel → siluAndMulForward fuel scalars input = .ok (some { sizes := [2, 3], turns })) ∧
      SiluCover (scalars .half) input.data 2 3 turns :=
  let scalars : ScalarType → Scalars Int Int := fun _ => { toFloat := id, silu := fun x => x * x, ofFloat := id }
  let input : CudaTensor Int :=
    { isCuda := true, isContiguous := true, scalarType := .half, sizes := [2, 6], data := id }
  have supported : input.Supported [2] 3 := ⟨rfl, rfl, Or.inl rfl, rfl, by decide, by decide⟩
  have ⟨turns, run, cover, _⟩ := silu_covers scalars supported
  ⟨turns, run, cover⟩

end Silu

end NanoVllm
