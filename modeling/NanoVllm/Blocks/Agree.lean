import NanoVllm.Blocks.History

set_option autoImplicit false

namespace NanoVllm

open Python Raising Naming

namespace BlockManager

-- What the claims of a list of different pages leave.
def claimed (m : BlockManager) (blockIds : List BlockId) : BlockManager :=
  { m with
    blocks := fun b =>
      if b ∈ blockIds then
        { m.blocks b with refCount := if b ∈ m.freeBlockIds then 1 else (m.blocks b).refCount + 1 }
      else m.blocks b
    freeBlockIds := m.freeBlockIds.filter (fun b => b ∉ blockIds)
    usedBlockIds := m.usedBlockIds ∪ (blockIds.filter (fun b => b ∈ m.freeBlockIds)).toFinset }

end BlockManager

def Frame.claimed (f : Frame) (blockIds : List BlockId) : Frame :=
  { manager := f.manager.claimed blockIds
    seq := { f.seq with
      blockTable := f.seq.blockTable ++ blockIds
      numCachedTokens := f.seq.numCachedTokens + blockIds.length * f.manager.blockSize } }

section Claimed

variable {m : BlockManager} {f : Frame} {b : BlockId} {rest blockIds : List BlockId}

theorem BlockManager.share_claimed (nodup : m.freeBlockIds.Nodup) (fresh : b ∉ rest) :
    (m.share b).claimed rest = m.claimed (b :: rest) := by
  have free : (m.share b).freeBlockIds = m.freeBlockIds.filter (fun a => a != b) := by
    rw [Accounting.share_free, nodup.erase_eq_filter]
  have same : ∀ a ∈ rest, (a ∈ (m.share b).freeBlockIds ↔ a ∈ m.freeBlockIds) := by
    intro a listed
    have other : a ≠ b := fun self => fresh (self ▸ listed)
    simp [free, other]
  have blocks : ((m.share b).claimed rest).blocks = (m.claimed (b :: rest)).blocks := by
    funext a
    by_cases self : a = b
    next =>
      subst self
      by_cases freeA : a ∈ m.freeBlockIds <;> simp [claimed, share, fresh, freeA]
    next =>
      by_cases listed : a ∈ rest
      · simp [claimed, listed, same a listed, Accounting.share_refs_of_ne self]
      · simp [claimed, listed, self, Accounting.share_refs_of_ne self]
  have kept : ((m.share b).claimed rest).freeBlockIds = (m.claimed (b :: rest)).freeBlockIds := by
    simp only [claimed, free, List.filter_filter, List.mem_cons, not_or]
    apply List.filter_congr
    intro a _
    by_cases self : a = b <;> simp [self]
  have used : ((m.share b).claimed rest).usedBlockIds = (m.claimed (b :: rest)).usedBlockIds := by
    have flags : rest.filter (fun a => a ∈ (m.share b).freeBlockIds) = rest.filter (fun a => a ∈ m.freeBlockIds) :=
      List.filter_congr (fun a listed => by simp only [same a listed])
    simp only [claimed, flags]
    by_cases freeB : b ∈ m.freeBlockIds <;> simp [share, freeB]
  have size := m.share_blockSize b
  have count := m.share_numBlocks b
  have index := m.share_index b
  unfold claimed at *
  simp only [BlockManager.mk.injEq]
  exact ⟨size, count, blocks, index, kept, used⟩

theorem Frame.claimed_nil (f : Frame) : f.claimed [] = f := by
  simp [Frame.claimed, BlockManager.claimed]

theorem Frame.share_claimed (nodup : f.manager.freeBlockIds.Nodup) (fresh : b ∉ rest) :
    (f.share b).claimed rest = f.claimed (b :: rest) := by
  have count : f.seq.numCachedTokens + f.manager.blockSize + rest.length * f.manager.blockSize =
      f.seq.numCachedTokens + (rest.length + 1) * f.manager.blockSize := by
    rw [Nat.succ_mul]
    omega
  simp only [Frame.claimed, Frame.share, BlockManager.share_claimed nodup fresh, BlockManager.share_blockSize,
    List.append_assoc, List.singleton_append, List.length_cons, count]

theorem BlockManager.claims_run (free : f.manager.freeBlockIds.Nodup) (nodup : blockIds.Nodup)
    (bound : ∀ b ∈ blockIds, b < f.manager.numBlocks)
    (resident : ∀ b ∈ blockIds, b ∈ f.manager.freeBlockIds →
      (f.manager.blocks b).refCount = 0 ∧ b ∉ f.manager.usedBlockIds) :
    forEach claimBlock (blockIds.map (fun b => (b, decide (b ∈ f.manager.freeBlockIds)))) f =
      .ok () (f.claimed blockIds) := by
  induction blockIds generalizing f with
  | nil =>
      rw [Frame.claimed_nil]
      rfl
  | cons b rest ih =>
      obtain ⟨fresh, nodup⟩ := List.nodup_cons.mp nodup
      rw [List.forall_mem_cons] at bound resident
      have turn := claimBlock_run bound.1 resident.1
      have others : (f.share b).manager.freeBlockIds = f.manager.freeBlockIds.erase b := Accounting.share_free
      have same : ∀ a ∈ rest, (a ∈ (f.share b).manager.freeBlockIds ↔ a ∈ f.manager.freeBlockIds) := by
        intro a listed
        have other : a ≠ b := fun self => fresh (self ▸ listed)
        rw [others, free.mem_erase_iff]
        simp [other]
      have flags : rest.map (fun a => (a, decide (a ∈ f.manager.freeBlockIds))) =
          rest.map (fun a => (a, decide (a ∈ (f.share b).manager.freeBlockIds))) :=
        List.map_congr_left (fun a listed => by simp only [same a listed])
      have later := @ih (f.share b) (by rw [others]; exact free.erase b) nodup
        (fun a listed => by
          rw [Frame.share, BlockManager.share_numBlocks]
          exact bound.2 a listed)
        (fun a listed freeA => by
          have other : a ≠ b := fun self => fresh (self ▸ listed)
          obtain ⟨refs, unused⟩ := resident.2 a listed ((same a listed).mp freeA)
          rw [Frame.share, Accounting.share_refs_of_ne other]
          refine ⟨refs, ?_⟩
          unfold BlockManager.share
          split
          · simpa [other] using unused
          · exact unused)
      rw [← Frame.share_claimed free fresh, List.map_cons, forEach, bind_ok turn, flags]
      exact later

end Claimed

namespace Held

variable {p : Pool} {ids : Finset SeqId} {chain : Chain} {seq : Sequence} {blockIds matched : List BlockId}

theorem apart (h : Held p ids chain) {parent : Int × Int} (size : seq.blockSize = p.manager.blockSize)
    (valid : p.manager.validateClaimedPrefix seq = .ok ())
    (known : p.manager.lineage seq.blockTable.getLast? = .ok parent)
    (matched : Matches p.manager seq seq.blockTable.length parent blockIds) :
    ∀ b ∈ blockIds, b ∉ seq.blockTable := by
  obtain ⟨_, -, valid⟩ := except_bind_ok valid
  have table : Matches p.manager seq 0 noLineage seq.blockTable := by
    refine BlockManager.matches_of_validate h.size_pos size rfl valid (fun b last => ?_)
    rw [last] at known
    exact (BlockManager.published_of_lineage known).2.1
  have last : parent = seq.blockTable.getLast?.elim noLineage (fun a => (p.manager.blocks a).lineage) := by
    cases end' : seq.blockTable.getLast? with
    | none =>
        rw [end'] at known
        exact ((except_pure_ok _ _).mp known).symm
    | some b =>
        rw [end'] at known
        exact (BlockManager.published_of_lineage known).2.2
  rw [last, ← Nat.zero_add seq.blockTable.length] at matched
  have whole := table.append matched
  have nodup := whole.nodup h.index h.size_pos
  exact fun b planned held => (List.nodup_append.mp nodup).2.2 b held b planned rfl

theorem claimBlocks_run (h : Held p ids chain) {claims : List (BlockId × Bool)}
    (size : seq.blockSize = p.manager.blockSize) (distinct : blockIds.toFinset.card = blockIds.length)
    (checked : p.manager.claimsFrom seq seq.blockTable.length seq.blockTable.getLast? blockIds = .ok claims) :
    forEach BlockManager.claimBlock claims ⟨p.manager, seq⟩ = .ok () (Frame.claimed ⟨p.manager, seq⟩ blockIds) := by
  obtain ⟨rfl, -, matched⟩ := BlockManager.claimsFrom_matches h.index h.size_pos size checked
  have nodup : blockIds.Nodup := Multiset.coe_nodup.mp (Multiset.toFinset_card_eq_card_iff_nodup.mp distinct)
  have bound : ∀ b ∈ blockIds, b < p.manager.numBlocks := by
    rcases matched with rfl | ⟨-, _, -, matched⟩
    · simp
    · exact fun b planned => matched.bound planned
  apply BlockManager.claims_run (f := ⟨p.manager, seq⟩) h.accounting.free_nodup nodup bound
  intro b planned free
  exact ⟨h.accounting.free_refs free, fun used => ((h.accounting.used_iff b).mp used).2 free⟩

theorem claimPrefix_spec (h : Held p ids chain) (seq : Sequence) (blockIds : List BlockId) :
    wp (BlockManager.claimPrefix blockIds) (fun _ f => f = Frame.claimed ⟨p.manager, seq⟩ blockIds)
      (fun _ f => f = ⟨p.manager, seq⟩) ⟨p.manager, seq⟩ := by
  simp only [BlockManager.claimPrefix, wp_bind, wp_get, wp_require]
  refine wp_ofExcept (fun _ size => ?_) (fun _ _ => rfl)
  refine wp_ofExcept (fun _ valid => ?_) (fun _ _ => rfl)
  refine ⟨fun distinct => ?_, fun _ => rfl⟩
  refine wp_ofExcept (fun claims checked => ?_) (fun _ _ => rfl)
  exact wp_of_run (h.claimBlocks_run ((except_require_ok _ _ _).mp size) distinct checked) rfl

theorem claimPrefix_iff (h : Held p ids chain) (found : p.manager.matchPrefix seq = .ok matched) :
    (∃ f, BlockManager.claimPrefix blockIds ⟨p.manager, seq⟩ = .ok () f) ↔ blockIds <+: matched := by
  obtain ⟨_, size, found'⟩ := except_bind_ok found
  obtain ⟨_, valid, found'⟩ := except_bind_ok found'
  have sizes := (except_require_ok _ _ _).mp size
  constructor
  case mp =>
    rintro ⟨f, run⟩
    simp only [BlockManager.claimPrefix, run_get_bind] at run
    obtain ⟨_, -, run⟩ := run_ofExcept_ok run
    obtain ⟨_, -, run⟩ := run_ofExcept_ok run
    obtain ⟨distinct, run⟩ := run_require_ok run
    obtain ⟨claims, checked, run⟩ := run_ofExcept_ok run
    obtain ⟨-, indexed, planned⟩ := BlockManager.claimsFrom_matches h.index h.size_pos sizes checked
    rcases planned with rfl | ⟨short, parent, known, planned⟩
    · exact List.nil_prefix
    · have plan : Plan p.manager seq seq.blockTable.length parent blockIds :=
        ⟨planned, Multiset.coe_nodup.mp (Multiset.toFinset_card_eq_card_iff_nodup.mp distinct),
          h.apart sizes valid known planned, indexed⟩
      exact BlockManager.matchPrefixFrom_covers h.index h.size_pos sizes known plan
        (fun b listed => h.resident b (planned.bound listed)) (by simp) (by dsimp only; omega) found'
  case mpr =>
    intro first
    obtain ⟨blocks, same, few, -, plan⟩ := BlockManager.matchPrefixFrom_plan h.index h.size_pos sizes found'
    rw [List.nil_append] at same
    subst same
    have claims : blockIds.Nodup ∧
        ∃ claims, p.manager.claimsFrom seq seq.blockTable.length seq.blockTable.getLast? blockIds = .ok claims := by
      rcases plan with rfl | ⟨parent, known, plan⟩
      · rw [List.prefix_nil.mp first]
        exact ⟨List.nodup_nil, [], rfl⟩
      · obtain ⟨rest, rfl⟩ := first
        have plan := plan.front
        have short : blockIds = [] ∨ seq.blockTable.length + blockIds.length ≤ seq.numBlocks - 1 := by
          rw [← List.length_eq_zero_iff]
          rw [List.length_append] at few
          dsimp only at few
          omega
        exact ⟨plan.nodup, _, BlockManager.claimsFrom_ok h.index sizes known plan short
          (fun b listed => h.resident b (plan.matched.bound listed))⟩
    obtain ⟨nodup, claims, checked⟩ := claims
    have distinct := List.toFinset_card_of_nodup nodup
    refine ⟨Frame.claimed ⟨p.manager, seq⟩ blockIds, ?_⟩
    simp only [BlockManager.claimPrefix, run_get_bind]
    rw [run_ofExcept_bind size, run_ofExcept_bind valid, run_require_bind distinct, run_ofExcept_bind checked]
    exact h.claimBlocks_run sizes distinct checked

end Held

/-- A plan can be claimed if and only if it is a beginning of what the lookup returns, and a claim that raises
changes nothing. -/
theorem claimPrefix_agrees {xxh64 : XxHash} {numBlocks blockSize : Nat} {p : Pool} {ids : Finset SeqId} {log : Log}
    (history : History xxh64 numBlocks blockSize p ids log) (seq : Sequence) (blockIds : List BlockId) :
    (∀ matched, p.manager.matchPrefix seq = .ok matched →
      ((∃ f, BlockManager.claimPrefix blockIds ⟨p.manager, seq⟩ = .ok () f) ↔ blockIds <+: matched)) ∧
    (∀ e f, BlockManager.claimPrefix blockIds ⟨p.manager, seq⟩ = .error e f → f = ⟨p.manager, seq⟩) ∧
    (∀ f, BlockManager.claimPrefix blockIds ⟨p.manager, seq⟩ = .ok () f →
      f = Frame.claimed ⟨p.manager, seq⟩ blockIds) := by
  obtain ⟨chain, held, -⟩ := history.held
  have spec := held.claimPrefix_spec seq blockIds
  refine ⟨fun matched found => held.claimPrefix_iff found, ?_, ?_⟩
  · intro e f raised
    rw [wp, raised] at spec
    exact spec
  · intro f run
    rw [wp, run] at spec
    exact spec

-- A cached-free page of a finished request: its plan can be claimed, a plan with another page cannot.
theorem claimPrefix_agrees_freed :
    ∃ p ids log, History (fun _ _ => 0) 4 1 p ids log ∧ p.manager.matchPrefix (p.seqs 0) = .ok [0] ∧
      BlockManager.claimPrefix [0] (p.frame 0) = .ok () ((p.frame 0).claimed [0]) ∧
      ¬∃ f, BlockManager.claimPrefix [1] (p.frame 0) = .ok () f := by
  have start : History (fun _ _ => 0) 4 1 _ ∅ _ := History.init (fun _ => default) (fun _ => []) rfl
  have request : Sequence.init (fun _ _ => 0) 0 [7, 8] {} 1 = .ok _ := rfl
  have created := start.create (by decide : 0 ∉ (∅ : Finset SeqId)) request
  have counted := created.setCounts 0 1 (by decide : 0 ∈ insert 0 (∅ : Finset SeqId))
  have allocated := counted.call .allocateNew (by decide : 0 ∈ insert 0 (∅ : Finset SeqId)) (by decide)
    (run_final (by decide +kernel))
  have freed := allocated.call .deallocate (by decide : 0 ∈ insert 0 (∅ : Finset SeqId)) (by decide +kernel)
    (run_final (by decide +kernel))
  obtain ⟨p, ids, log, history, found⟩ : ∃ p ids log, History (fun _ _ => 0) 4 1 p ids log ∧
      p.manager.matchPrefix (p.seqs 0) = .ok [0] := ⟨_, _, _, freed, by decide +kernel⟩
  obtain ⟨agrees, -, claimed⟩ := claimPrefix_agrees history (p.seqs 0) [0]
  obtain ⟨f, run⟩ := (agrees [0] found).mpr List.prefix_rfl
  refine ⟨p, ids, log, history, found, ?_, fun other => ?_⟩
  · rw [Pool.frame, run, claimed f run]
  · exact absurd (((claimPrefix_agrees history (p.seqs 0) [1]).1 [0] found).mp other) (by decide)

end NanoVllm
