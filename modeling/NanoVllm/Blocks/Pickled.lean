import NanoVllm.Blocks.Digests
import NanoVllm.Model.SequenceState

set_option autoImplicit false

namespace NanoVllm

open Python Raising Chained

/-- The calls that return give the values of one hash function; any of them may raise instead. -/
def Computes (hash : List Token → Int → Int) (computeBlockHash : BlockHash) : Prop :=
  ∀ tokenIds parentHash h, computeBlockHash tokenIds parentHash = .ok h → h = hash tokenIds parentHash

def totalHash (hash : List Token → Int → Int) : BlockHash := fun tokenIds parentHash => .ok (hash tokenIds parentHash)

theorem Computes.total (hash : List Token → Int → Int) : Computes hash (totalHash hash) := by
  intro tokenIds parentHash h returned
  exact (Except.ok.inj returned).symm

namespace Sequence

variable {hash : List Token → Int → Int} {computeBlockHash : BlockHash} {size : Nat} {tokenIds : List Token}
  {seq : Sequence}

structure Current (hash : List Token → Int → Int) (size : Nat) (seq : Sequence) : Prop where
  block : seq.blockSize = size
  size_pos : 0 < size
  tokens : seq.numTokens = seq.tokenIds.length
  some' : seq.tokenIds ≠ []
  hashes : seq.blockHashes = values hash (-1) size seq.tokenIds

section Build

theorem slice_page (first : Nat) : slice tokenIds (first * size) (first * size + size) =
    slice tokenIds (first * size) ((first + 1) * size) := by
  rw [Nat.add_mul, Nat.one_mul]

theorem hashBlocksFrom_ok (computes : Computes hash computeBlockHash) (positive : 0 < size) (count : Nat) {first : Nat}
    {hashes : List Int} (built : hashBlocksFrom computeBlockHash size tokenIds
      ((List.range' first count).map (fun k => k * size)) (chained hash (-1) size tokenIds first) = .ok hashes) :
    hashes = (List.range' first (min count (tokenIds.length / size - first))).map
      (fun k => chained hash (-1) size tokenIds (k + 1)) := by
  induction count generalizing first hashes with
  | zero =>
      cases built
      simp
  | succ count ih =>
      simp only [List.range'_succ, List.map_cons, hashBlocksFrom, slice_page] at built
      by_cases whole : (first + 1) * size ≤ tokenIds.length
      · have below := (Nat.le_div_iff_mul_le positive).mpr whole
        simp only [length_page whole, ne_eq, not_true_eq_false, if_false] at built
        obtain ⟨blockHash, returned, built⟩ := except_bind_ok built
        obtain ⟨later, rest, built⟩ := except_bind_ok built
        cases built
        have value : blockHash = chained hash (-1) size tokenIds (first + 1) := computes _ _ _ returned
        subst value
        have more : min (count + 1) (tokenIds.length / size - first) =
            min count (tokenIds.length / size - (first + 1)) + 1 := by omega
        rw [ih rest, more, List.range'_succ, List.map_cons]
      · have above := mt (Nat.le_div_iff_mul_le positive).mp whole
        have short : (slice tokenIds (first * size) ((first + 1) * size)).length ≠ size :=
          fun full => whole (le_length_of_slice positive full)
        simp only [ne_eq, short, not_false_eq_true, if_true] at built
        cases built
        have none : min (count + 1) (tokenIds.length / size - first) = 0 := by omega
        rw [none]
        rfl

theorem hashBlocks_ok (computes : Computes hash computeBlockHash) (positive : 0 < size) {hashes : List Int}
    (built : hashBlocks computeBlockHash size tokenIds = .ok hashes) : hashes = values hash (-1) size tokenIds := by
  have pages := range_pages positive 0 tokenIds.length
  rw [Nat.zero_mul] at pages
  rw [hashBlocks, pages] at built
  have listed := hashBlocksFrom_ok computes positive _ built
  rw [Nat.sub_zero, Nat.sub_zero, Nat.min_eq_right (div_le_pagesFor positive), ← List.range_eq_range'] at listed
  exact listed

theorem hashBlocksFrom_error {offsets : List Nat} {parentHash : Int} {e : PyError}
    (raised : hashBlocksFrom computeBlockHash size tokenIds offsets parentHash = .error e) :
    ∃ block parentHash, computeBlockHash block parentHash = .error e := by
  induction offsets generalizing parentHash with
  | nil => cases raised
  | cons offset rest ih =>
      simp only [hashBlocksFrom] at raised
      split at raised
      · cases raised
      · cases returned : computeBlockHash (slice tokenIds offset (offset + size)) parentHash with
        | error e' =>
            rw [returned] at raised
            cases raised
            exact ⟨_, _, returned⟩
        | ok blockHash =>
            rw [returned] at raised
            cases later : hashBlocksFrom computeBlockHash size tokenIds rest blockHash with
            | error e' =>
                have inner := later
                simp only [bind, Except.bind, later] at raised
                cases raised
                exact ih inner
            | ok hashes =>
                simp only [bind, Except.bind, later] at raised
                cases raised

theorem hashBlocks_total (hash : List Token → Int → Int) (positive : 0 < size) :
    hashBlocks (totalHash hash) size tokenIds = .ok (values hash (-1) size tokenIds) := by
  cases built : hashBlocks (totalHash hash) size tokenIds with
  | error e =>
      obtain ⟨_, _, raised⟩ := hashBlocksFrom_error built
      cases raised
  | ok hashes => rw [hashBlocks_ok (Computes.total hash) positive built]

end Build

section Total

variable (xxh64 : XxHash)

theorem hashBlocksFrom_xxh64 (offsets : List Nat) (parentHash : Int) :
    hashBlocksFrom (totalHash (NanoVllm.computeBlockHash xxh64)) size tokenIds offsets parentHash =
      .ok (buildBlockHashesFrom xxh64 size tokenIds offsets parentHash) := by
  induction offsets generalizing parentHash with
  | nil => rfl
  | cons offset rest ih =>
      simp only [hashBlocksFrom, buildBlockHashesFrom]
      split
      · rfl
      · simp only [totalHash, bind, Except.bind] at ih ⊢
        rw [ih]
        rfl

theorem init_eq_create (seqId : SeqId) (tokenIds : List Token) (params : SamplingParams) (size : Nat) :
    Sequence.init xxh64 seqId tokenIds params size =
      create (totalHash (NanoVllm.computeBlockHash xxh64)) seqId tokenIds params size := by
  rw [Sequence.init, create, hashBlocks, hashBlocksFrom_xxh64]
  rfl

theorem nextBlockHash_eq_boundaryHash (seq : Sequence) (tokenId : Token) (nextNumTokens : Nat) :
    seq.nextBlockHash xxh64 tokenId nextNumTokens =
      seq.boundaryHash (totalHash (NanoVllm.computeBlockHash xxh64)) tokenId nextNumTokens := by
  unfold nextBlockHash boundaryHash
  split <;> rfl

theorem appendToken_eq_append (tokenId : Token) :
    appendToken xxh64 tokenId = append (totalHash (NanoVllm.computeBlockHash xxh64)) tokenId := by
  conv_lhs => simp only [appendToken, nextBlockHash_eq_boundaryHash]
  rfl

end Total

theorem create_ok (computes : Computes hash computeBlockHash) {seqId : SeqId} {params : SamplingParams}
    (made : create computeBlockHash seqId tokenIds params size = .ok seq) : seq.Current hash size := by
  obtain ⟨_, positive, made⟩ := except_bind_ok made
  rw [except_require_ok] at positive
  cases last : tokenIds.getLast? with
  | none => simp [last, throw, throwThe, MonadExceptOf.throw] at made
  | some token =>
      simp only [last] at made
      obtain ⟨hashes, built, made⟩ := except_bind_ok made
      cases made
      refine ⟨rfl, positive, rfl, ?_, hashBlocks_ok computes positive built⟩
      rintro rfl
      cases last

theorem create_total (hash : List Token → Int → Int) (positive : 0 < size) (some' : tokenIds ≠ []) (seqId : SeqId)
    (params : SamplingParams) : ∃ fresh, create (totalHash hash) seqId tokenIds params size = .ok fresh ∧
      fresh.blockHashes = values hash (-1) size tokenIds := by
  rw [create, require_of positive, List.getLast?_eq_some_getLast some', hashBlocks_total hash positive]
  exact ⟨_, rfl, rfl⟩

theorem setstate_getstate (seq : Sequence) (computeBlockHash : BlockHash) :
    setstate computeBlockHash seq.getstate = .ok seq := rfl

namespace Current

theorem boundaryHash (h : seq.Current hash size) (computes : Computes hash computeBlockHash) (tokenId : Token) :
    (∃ next, seq.boundaryHash computeBlockHash tokenId (seq.numTokens + 1) = .ok next ∧
      values hash (-1) size (seq.tokenIds ++ [tokenId]) = seq.blockHashes ++ next.toList) ∨
    ∃ e block parentHash, seq.boundaryHash computeBlockHash tokenId (seq.numTokens + 1) = .error e ∧
      computeBlockHash block parentHash = .error e := by
  have positive := h.size_pos
  have longer := @values_concat _ _ hash (-1) size seq.tokenIds positive tokenId
  by_cases aligned : (seq.numTokens + 1) % size = 0
  · have divides := Nat.dvd_of_mod_eq_zero aligned
    have next : (seq.numTokens + 1) / size = seq.numTokens / size + 1 := by rw [Nat.succ_div, if_pos divides]
    have edge : (seq.numTokens / size + 1) * size = seq.numTokens + 1 := by
      rw [← next]
      exact Nat.div_mul_cancel divides
    rw [Nat.add_mul, Nat.one_mul] at edge
    have count : seq.blockHashes.length = seq.numTokens / size := by rw [h.hashes, length_values, h.tokens]
    have index : (seq.numTokens + 1) / size - 1 = seq.blockHashes.length := by omega
    have whole : (seq.tokenIds.drop (seq.numTokens / size * size) ++ [tokenId]).length = size := by
      rw [List.length_append, List.length_drop, List.length_singleton, ← h.tokens]
      omega
    rw [← h.tokens, if_pos aligned, ← h.hashes] at longer
    simp only [Sequence.boundaryHash, h.block, if_pos aligned, require_of index]
    rw [index, count]
    simp only [require_of whole]
    cases returned : computeBlockHash (seq.tokenIds.drop (seq.numTokens / size * size) ++ [tokenId])
        (seq.blockHashes.getLast?.getD (-1)) with
    | error e => exact Or.inr ⟨e, _, _, rfl, returned⟩
    | ok blockHash =>
        refine Or.inl ⟨some blockHash, rfl, ?_⟩
        rw [longer, computes _ _ _ returned]
        rfl
  · rw [← h.tokens, if_neg aligned, ← h.hashes] at longer
    refine Or.inl ⟨none, ?_, by rw [longer]; simp⟩
    simp only [Sequence.boundaryHash, h.block, if_neg aligned]
    rfl

theorem append (h : seq.Current hash size) (computes : Computes hash computeBlockHash) (tokenId : Token) :
    (∃ seq', Sequence.append computeBlockHash tokenId seq = .ok () seq' ∧ seq'.Current hash size ∧
      seq'.tokenIds = seq.tokenIds ++ [tokenId]) ∨
    ∃ e block parentHash, Sequence.append computeBlockHash tokenId seq = .error e seq ∧
      computeBlockHash block parentHash = .error e := by
  simp only [Sequence.append, run_get_bind, run_require_bind h.tokens]
  rcases h.boundaryHash computes tokenId with ⟨next, value, longer⟩ | ⟨e, block, parentHash, raised, returned⟩
  · left
    rw [run_ofExcept_bind value]
    simp only [run_set_bind, run_get_bind]
    rw [run_require_bind (by simp [h.tokens])]
    cases next with
    | none =>
        refine ⟨_, rfl, ⟨h.block, h.size_pos, by simp [h.tokens], by simp, ?_⟩, rfl⟩
        rw [longer, Option.toList_none, List.append_nil]
    | some blockHash => exact ⟨_, rfl, ⟨h.block, h.size_pos, by simp [h.tokens], by simp, longer.symm⟩, rfl⟩
  · right
    refine ⟨e, block, parentHash, ?_, returned⟩
    rw [raised]
    rfl

theorem setstate_legacyState (h : seq.Current hash size) (computes : Computes hash computeBlockHash) :
    setstate computeBlockHash seq.legacyState = .ok seq ∨
    ∃ e block parentHash, setstate computeBlockHash seq.legacyState = .error e ∧
      computeBlockHash block parentHash = .error e := by
  cases built : hashBlocks computeBlockHash seq.blockSize seq.tokenIds with
  | error e =>
      obtain ⟨block, parentHash, returned⟩ := hashBlocksFrom_error built
      refine Or.inr ⟨e, block, parentHash, ?_, returned⟩
      simp only [setstate, legacyState, getstate, pure_bind, built]
      rfl
  | ok hashes =>
      left
      have same : hashes = seq.blockHashes := by
        rw [h.block] at built
        rw [hashBlocks_ok computes h.size_pos built, h.hashes]
      simp only [setstate, legacyState, getstate, pure_bind, built, same]
      rfl

end Current

/-- What may happen to a sequence: a token, or a round trip through one of the pickled states. -/
inductive Operation where
  | append (tokenId : Token)
  | pickled
  | legacy

namespace Operation

variable {β : Type}

def run (pickle : Pickle SequenceState β) (computeBlockHash : BlockHash) : Operation → EStateM PyError Sequence Unit
  | .append tokenId => Sequence.append computeBlockHash tokenId
  | .pickled => restore pickle computeBlockHash getstate
  | .legacy => restore pickle computeBlockHash legacyState

-- The tokens that the operation leaves when it does not raise.
def tokens : Operation → List Token → List Token
  | .append tokenId, tokenIds => tokenIds ++ [tokenId]
  | .pickled, tokenIds => tokenIds
  | .legacy, tokenIds => tokenIds

end Operation

/-- The sequences of a run: one that was created, and what any operations leave, whether they return or raise. -/
inductive Lives {β : Type} (hash : List Token → Int → Int) (pickle : Pickle SequenceState β) (size : Nat) :
    Sequence → Prop
  | created {computeBlockHash : BlockHash} {seqId : SeqId} {prompt : List Token} {params : SamplingParams}
      {seq : Sequence} (computes : Computes hash computeBlockHash)
      (made : create computeBlockHash seqId prompt params size = .ok seq) : Lives hash pickle size seq
  | operated {computeBlockHash : BlockHash} {seq : Sequence} (op : Operation)
      (computes : Computes hash computeBlockHash) (lives : Lives hash pickle size seq) :
      Lives hash pickle size (final (op.run pickle computeBlockHash seq))

theorem Current.operation {β : Type} (h : seq.Current hash size) (pickle : Pickle SequenceState β)
    (computes : Computes hash computeBlockHash) (op : Operation) :
    (∃ seq', op.run pickle computeBlockHash seq = .ok () seq' ∧ seq'.Current hash size ∧
      seq'.tokenIds = op.tokens seq.tokenIds) ∨
    ∃ e block parentHash, op.run pickle computeBlockHash seq = .error e seq ∧
      computeBlockHash block parentHash = .error e := by
  cases op with
  | append tokenId => exact h.append computes tokenId
  | pickled =>
      left
      refine ⟨seq, ?_, h, rfl⟩
      simp only [Operation.run, restore, run_get_bind, pickle.loads_dumps]
      rw [run_ofExcept_bind (setstate_getstate seq computeBlockHash)]
      rfl
  | legacy =>
      simp only [Operation.run, restore, run_get_bind, pickle.loads_dumps]
      rcases h.setstate_legacyState computes with same | ⟨e, block, parentHash, raised, returned⟩
      · left
        refine ⟨seq, ?_, h, rfl⟩
        rw [run_ofExcept_bind same]
        rfl
      · right
        refine ⟨e, block, parentHash, ?_, returned⟩
        rw [raised]
        rfl

theorem Lives.current {β : Type} {pickle : Pickle SequenceState β} (lives : Lives hash pickle size seq) :
    seq.Current hash size := by
  induction lives with
  | created computes made => exact create_ok computes made
  | operated op computes lives ih =>
      rcases ih.operation pickle computes op with ⟨seq', run, current, -⟩ | ⟨e, block, parentHash, run, -⟩
      · rw [run]
        exact current
      · rw [run]
        exact ih

end Sequence

open Sequence in
/-- However tokens and round trips follow each other, the kept hashes are the recomputed ones. -/
theorem hashes_recomputed {β : Type} {hash : List Token → Int → Int} {pickle : Pickle SequenceState β} {size : Nat}
    {seq : Sequence} (lives : Lives hash pickle size seq) :
    seq.blockHashes.length = seq.numTokens / size ∧
      (∀ k < seq.numTokens / size, seq.blockHashes[k]? = some (chained hash (-1) size seq.tokenIds (k + 1))) ∧
      (∀ seqId params, ∃ fresh, create (totalHash hash) seqId seq.tokenIds params size = .ok fresh ∧
        fresh.blockHashes = seq.blockHashes) ∧
      ∀ computeBlockHash, Computes hash computeBlockHash → ∀ op : Sequence.Operation,
        (∃ seq', op.run pickle computeBlockHash seq = .ok () seq' ∧ seq'.tokenIds = op.tokens seq.tokenIds) ∨
        ∃ e block parentHash, op.run pickle computeBlockHash seq = .error e seq ∧
          computeBlockHash block parentHash = .error e := by
  have h := lives.current
  refine ⟨?_, ?_, ?_, ?_⟩
  · rw [h.hashes, length_values, h.tokens]
  · intro k below
    rw [h.tokens] at below
    rw [h.hashes]
    exact getElem?_values below
  · intro seqId params
    obtain ⟨fresh, made, hashes⟩ := create_total hash h.size_pos h.some' seqId params
    exact ⟨fresh, made, hashes.trans h.hashes.symm⟩
  · intro computeBlockHash computes op
    rcases h.operation pickle computes op with ⟨seq', run, -, tokens⟩ | raised
    · exact Or.inl ⟨seq', run, tokens⟩
    · exact Or.inr raised

def statePickle : Pickle SequenceState SequenceState where
  dumps state := [state]
  loads := List.head?
  loads_dumps _ := rfl

open Sequence in
theorem hashes_recomputed_appended :
    let hash : List Token → Int → Int := fun tokenIds parentHash => tokenIds.sum + 31 * parentHash
    ∃ seq, Lives hash statePickle 2 seq ∧ seq.tokenIds = [1, 2, 3, 4] ∧ seq.blockHashes.length = seq.numTokens / 2 := by
  intro hash
  obtain ⟨seq, made, -⟩ := @create_total 2 [1, 2, 3] hash (by decide) (by decide) 0 {}
  cases made
  have created : Lives hash statePickle 2 _ := Lives.created (Computes.total hash)
    (rfl : create (totalHash hash) 0 [1, 2, 3] {} 2 = .ok _)
  obtain ⟨-, -, -, operation⟩ := hashes_recomputed created
  rcases operation _ (Computes.total hash) (.append 4) with ⟨seq, run, tokens⟩ | ⟨_, _, _, _, raised⟩
  · have appended := created.operated (.append 4) (Computes.total hash)
    rw [run] at appended
    exact ⟨seq, appended, tokens, (hashes_recomputed appended).1⟩
  · cases raised

end NanoVllm
