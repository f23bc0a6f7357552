import NanoVllm.Model.Sequence

set_option autoImplicit false

namespace NanoVllm

open Python Raising

theorem computeBlockHash_ne (xxh64 : XxHash) (tokenIds : List Token) (parentHash : Int) :
    computeBlockHash xxh64 tokenIds parentHash ≠ -1 := by
  unfold computeBlockHash
  omega

namespace Sequence

/-- What `__init__` and `append_token` keep: a hash for every full block of the tokens. -/
structure Wf (seq : Sequence) (size : Nat) : Prop where
  block : seq.blockSize = size
  size_pos : 0 < size
  tokens : seq.numTokens = seq.tokenIds.length
  hashes : seq.blockHashes.length = seq.numTokens / size
  hashed : ∀ h ∈ seq.blockHashes, h ≠ -1
  prompt_pos : 0 < seq.numPromptTokens
  prompt_le : seq.numPromptTokens ≤ seq.numTokens

section Build

variable (xxh64 : XxHash) {size : Nat} {tokenIds : List Token}

theorem length_buildBlockHashesFrom (positive : 0 < size) (count first : Nat) (parentHash : Int) :
    (buildBlockHashesFrom xxh64 size tokenIds ((List.range' first count).map (fun k => k * size))
      parentHash).length = min count (tokenIds.length / size - first) := by
  induction count generalizing first parentHash with
  | zero => simp [buildBlockHashesFrom]
  | succ count ih =>
      simp only [List.range'_succ, List.map_cons, buildBlockHashesFrom]
      have next : first * size + size = (first + 1) * size := by rw [Nat.add_mul, Nat.one_mul]
      rw [next]
      by_cases whole : (first + 1) * size ≤ tokenIds.length
      · have below := (Nat.le_div_iff_mul_le positive).mpr whole
        simp only [length_page whole, ne_eq, not_true_eq_false, if_false, List.length_cons, ih]
        omega
      · have above := mt (Nat.le_div_iff_mul_le positive).mp whole
        have short : (slice tokenIds (first * size) ((first + 1) * size)).length ≠ size :=
          fun full => whole (le_length_of_slice positive full)
        simp only [ne_eq, short, not_false_eq_true, if_true, List.length_nil]
        omega

theorem length_buildBlockHashes (positive : 0 < size) :
    (buildBlockHashes xxh64 size tokenIds).length = tokenIds.length / size := by
  have pages := range_pages positive 0 tokenIds.length
  rw [Nat.zero_mul] at pages
  rw [buildBlockHashes, pages, length_buildBlockHashesFrom xxh64 positive, Nat.sub_zero, Nat.sub_zero]
  exact Nat.min_eq_right (div_le_pagesFor positive)

theorem buildBlockHashesFrom_ne (offsets : List Nat) (parentHash : Int) :
    ∀ h ∈ buildBlockHashesFrom xxh64 size tokenIds offsets parentHash, h ≠ -1 := by
  induction offsets generalizing parentHash with
  | nil => simp [buildBlockHashesFrom]
  | cons offset rest ih =>
      simp only [buildBlockHashesFrom]
      split
      · simp
      · intro h member
        rcases List.mem_cons.mp member with rfl | later
        · exact computeBlockHash_ne xxh64 _ _
        · exact ih _ h later

end Build

structure Fresh (seq : Sequence) : Prop where
  status : seq.status = .waiting
  cached : seq.numCachedTokens = 0
  new : seq.numNewTokens = 0
  table : seq.blockTable = []
  prompt : seq.numPromptTokens = seq.numTokens

theorem init_run (xxh64 : XxHash) (seqId : SeqId) {tokenIds : List Token} (params : SamplingParams) {size : Nat}
    (positive : 0 < size) (some' : tokenIds ≠ []) : ∃ seq, Sequence.init xxh64 seqId tokenIds params size = .ok seq := by
  rw [Sequence.init, require_of positive, pure_bind, List.getLast?_eq_some_getLast some']
  exact ⟨_, rfl⟩

theorem init_ok {xxh64 : XxHash} {seqId : SeqId} {tokenIds : List Token} {params : SamplingParams}
    {size : Nat} {seq : Sequence} (made : Sequence.init xxh64 seqId tokenIds params size = .ok seq) :
    seq.Wf size ∧ seq.Fresh ∧ seq.seqId = seqId ∧ seq.tokenIds = tokenIds ∧
      seq.maxTokens = params.maxTokens ∧ seq.ignoreEos = params.ignoreEos := by
  obtain ⟨_, positive, made⟩ := except_bind_ok made
  rw [except_require_ok] at positive
  cases last : tokenIds.getLast? with
  | none => simp [last, throw, throwThe, MonadExceptOf.throw] at made
  | some token =>
      simp only [last, except_pure_ok] at made
      subst made
      have nonempty : 0 < tokenIds.length := by
        rw [List.length_pos_iff]
        rintro rfl
        simp at last
      refine ⟨?_, ⟨rfl, rfl, rfl, rfl, rfl⟩, rfl, rfl, rfl, rfl⟩
      exact
        { block := rfl
          size_pos := positive
          tokens := rfl
          hashes := length_buildBlockHashes xxh64 positive
          hashed := buildBlockHashesFrom_ne xxh64 _ _
          prompt_pos := nonempty
          prompt_le := Nat.le_refl _ }

namespace Wf

variable {seq seq' : Sequence} {size k : Nat}

theorem relabel (wf : seq.Wf size) (block : seq'.blockSize = seq.blockSize) (tokens : seq'.tokenIds = seq.tokenIds)
    (count : seq'.numTokens = seq.numTokens) (hashes : seq'.blockHashes = seq.blockHashes)
    (prompt : seq'.numPromptTokens = seq.numPromptTokens) : seq'.Wf size where
  block := block.trans wf.block
  size_pos := wf.size_pos
  tokens := by rw [count, tokens, wf.tokens]
  hashes := by rw [hashes, count, wf.hashes]
  hashed := hashes ▸ wf.hashed
  prompt_pos := prompt ▸ wf.prompt_pos
  prompt_le := by rw [prompt, count]; exact wf.prompt_le

theorem blockHash_ok (wf : seq.Wf size) (within : (k + 1) * size ≤ seq.numTokens) :
    ∃ h, seq.blockHash k = .ok h ∧ seq.blockHashes[k]? = some h ∧ h ≠ -1 := by
  have inside : k < seq.blockHashes.length := by
    rw [wf.hashes]
    exact (Nat.le_div_iff_mul_le wf.size_pos).mpr within
  have entry : seq.blockHashes[k]? = some seq.blockHashes[k] := List.getElem?_eq_getElem inside
  exact ⟨seq.blockHashes[k], by simp [Sequence.blockHash, entry], entry, wf.hashed _ (List.getElem_mem inside)⟩

theorem block_ok (wf : seq.Wf size) (within : k < seq.numBlocks) :
    seq.block k = .ok (slice seq.tokenIds (k * size) ((k + 1) * size)) := by
  simp [Sequence.block, require_of within, wf.block]

theorem lt_numBlocks (wf : seq.Wf size) : k < seq.numBlocks ↔ k * size < seq.numTokens := by
  rw [numBlocks, wf.block, lt_pagesFor wf.size_pos]

theorem page_whole (wf : seq.Wf size) :
    (slice seq.tokenIds (k * size) ((k + 1) * size)).length = size ↔ (k + 1) * size ≤ seq.numTokens := by
  rw [wf.tokens]
  exact ⟨le_length_of_slice wf.size_pos, length_page⟩

end Wf

def appended (xxh64 : XxHash) (seq : Sequence) (tokenId : Token) : Sequence :=
  { seq with
    tokenIds := seq.tokenIds ++ [tokenId]
    lastToken := tokenId
    numTokens := seq.numTokens + 1
    blockHashes :=
      if (seq.numTokens + 1) % seq.blockSize = 0 then
        seq.blockHashes ++ [computeBlockHash xxh64
          (seq.tokenIds.drop (seq.blockHashes.length * seq.blockSize) ++ [tokenId])
          (seq.blockHashes.getLast?.getD (-1))]
      else seq.blockHashes }

theorem Wf.completes {seq : Sequence} {size : Nat} (wf : seq.Wf size) (aligned : (seq.numTokens + 1) % size = 0) :
    (seq.numTokens + 1) / size = seq.blockHashes.length + 1 ∧
      seq.blockHashes.length * size + size = seq.numTokens + 1 := by
  have divides := Nat.dvd_of_mod_eq_zero aligned
  have whole : (seq.numTokens + 1) / size * size = seq.numTokens + 1 := Nat.div_mul_cancel divides
  have next : (seq.numTokens + 1) / size = seq.numTokens / size + 1 := by
    rw [Nat.succ_div, if_pos divides]
  rw [wf.hashes]
  refine ⟨next, ?_⟩
  rw [next, Nat.add_mul, Nat.one_mul] at whole
  exact whole

theorem appendToken_run (xxh64 : XxHash) {seq : Sequence} {size : Nat} (wf : seq.Wf size) (tokenId : Token) :
    appendToken xxh64 tokenId seq = .ok () (seq.appended xxh64 tokenId) := by
  simp only [appendToken, run_get_bind, run_require_bind wf.tokens]
  have positive := wf.size_pos
  by_cases aligned : (seq.numTokens + 1) % size = 0
  · obtain ⟨next, edge⟩ := wf.completes aligned
    have index : (seq.numTokens + 1) / seq.blockSize - 1 = seq.blockHashes.length := by
      rw [wf.block]
      omega
    have whole : (seq.tokenIds.drop (seq.blockHashes.length * seq.blockSize) ++ [tokenId]).length =
        seq.blockSize := by
      rw [List.length_append, List.length_drop, ← wf.tokens, wf.block, List.length_singleton]
      omega
    have hash : seq.nextBlockHash xxh64 tokenId (seq.numTokens + 1) = .ok (some (computeBlockHash xxh64
        (seq.tokenIds.drop (seq.blockHashes.length * seq.blockSize) ++ [tokenId])
        (seq.blockHashes.getLast?.getD (-1)))) := by
      simp only [nextBlockHash, wf.block ▸ aligned, if_true, index, require_of whole]
      rfl
    rw [run_ofExcept_bind hash]
    simp only [run_set_bind, run_get_bind]
    rw [run_require_bind (by simp [wf.tokens])]
    simp [appended, wf.block, aligned]
  · have hash : seq.nextBlockHash xxh64 tokenId (seq.numTokens + 1) = .ok none := by
      simp only [nextBlockHash, wf.block, aligned, if_false]
      rfl
    rw [run_ofExcept_bind hash]
    simp only [run_set_bind, run_get_bind]
    rw [run_require_bind (by simp [wf.tokens])]
    simp [appended, wf.block, aligned]

theorem Wf.appended {seq : Sequence} {size : Nat} (wf : seq.Wf size) (xxh64 : XxHash) (tokenId : Token) :
    (seq.appended xxh64 tokenId).Wf size := by
  have positive := wf.size_pos
  constructor
  case block => exact wf.block
  case size_pos => exact positive
  case tokens => simp [Sequence.appended, wf.tokens]
  case hashes =>
    simp only [Sequence.appended, wf.block]
    split
    next aligned =>
      rw [List.length_append, List.length_singleton, (wf.completes aligned).1]
    next partial' =>
      rw [wf.hashes, Nat.succ_div, if_neg (fun divides => partial' (Nat.mod_eq_zero_of_dvd divides))]
      omega
  case hashed =>
    intro h member
    simp only [Sequence.appended] at member
    split at member
    next =>
      rcases List.mem_append.mp member with old | new
      · exact wf.hashed h old
      · rw [List.mem_singleton.mp new]
        exact computeBlockHash_ne xxh64 _ _
    next => exact wf.hashed h member
  case prompt_pos => exact wf.prompt_pos
  case prompt_le => exact Nat.le_succ_of_le wf.prompt_le

theorem appended_tokens (xxh64 : XxHash) (seq : Sequence) (tokenId : Token) :
    seq.tokenIds <+: (seq.appended xxh64 tokenId).tokenIds := List.prefix_append _ _

theorem appended_hashes (xxh64 : XxHash) (seq : Sequence) (tokenId : Token) :
    seq.blockHashes <+: (seq.appended xxh64 tokenId).blockHashes := by
  simp only [appended]
  split
  · exact List.prefix_append _ _
  · exact List.prefix_rfl

end Sequence

end NanoVllm
