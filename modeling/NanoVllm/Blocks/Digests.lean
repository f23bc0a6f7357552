import NanoVllm.Blocks.Hashes
import NanoVllm.Shared.Chained

set_option autoImplicit false

namespace NanoVllm

open Python Raising

def chainHash (xxh64 : XxHash) (size : Nat) (tokenIds : List Token) : Nat → Int
  | 0 => -1
  | k + 1 => computeBlockHash xxh64 (slice tokenIds (k * size) ((k + 1) * size)) (chainHash xxh64 size tokenIds k)

section ChainHash

variable {xxh64 : XxHash} {size : Nat} {xs ys : List Token}

theorem chainHash_eq_chained (k : Nat) :
    chainHash xxh64 size xs k = Chained.chained (computeBlockHash xxh64) (-1) size xs k := by
  induction k with
  | zero => rfl
  | succ k ih => rw [chainHash, Chained.chained, ih]

theorem chainHash_congr {k : Nat} (same : xs.take (k * size) = ys.take (k * size)) :
    chainHash xxh64 size xs k = chainHash xxh64 size ys k := by
  rw [chainHash_eq_chained, chainHash_eq_chained]
  exact Chained.chained_congr same

theorem chainHash_grown (grown : xs <+: ys) {k : Nat} (within : k * size ≤ xs.length) :
    chainHash xxh64 size ys k = chainHash xxh64 size xs k := by
  rw [chainHash_eq_chained, chainHash_eq_chained]
  exact Chained.chained_grown grown within

end ChainHash

namespace Sequence

def Hashed (xxh64 : XxHash) (seq : Sequence) : Prop :=
  ∀ (k : Nat) (h : Int), seq.blockHashes[k]? = some h → h = chainHash xxh64 seq.blockSize seq.tokenIds (k + 1)

variable {xxh64 : XxHash} {size : Nat} {tokenIds : List Token} {seq seq' : Sequence}

theorem buildBlockHashesFrom_entry (count : Nat) {first k : Nat} {h : Int}
    (entry : (buildBlockHashesFrom xxh64 size tokenIds ((List.range' first count).map (fun k => k * size))
      (chainHash xxh64 size tokenIds first))[k]? = some h) : h = chainHash xxh64 size tokenIds (first + k + 1) := by
  induction count generalizing first k with
  | zero => cases entry
  | succ count ih =>
      have next : first * size + size = (first + 1) * size := by rw [Nat.add_mul, Nat.one_mul]
      simp only [List.range'_succ, List.map_cons, buildBlockHashesFrom, next] at entry
      split at entry
      next => cases entry
      next whole =>
        cases k with
        | zero => exact (Option.some.inj entry).symm
        | succ k =>
            rw [List.getElem?_cons_succ] at entry
            have later := ih entry
            rwa [Nat.add_right_comm first 1 k] at later

theorem Hashed.init {seqId : SeqId} {params : SamplingParams}
    (made : Sequence.init xxh64 seqId tokenIds params size = .ok seq) : seq.Hashed xxh64 := by
  obtain ⟨_, positive, made⟩ := except_bind_ok made
  rw [except_require_ok] at positive
  cases last : tokenIds.getLast? with
  | none => simp [last, throw, throwThe, MonadExceptOf.throw] at made
  | some token =>
      simp only [last, except_pure_ok] at made
      subst made
      intro k h entry
      have pages := range_pages positive 0 tokenIds.length
      rw [Nat.zero_mul] at pages
      simp only [buildBlockHashes, pages] at entry
      have value := buildBlockHashesFrom_entry _ entry
      rwa [Nat.zero_add] at value

theorem Hashed.relabel (hashed : seq.Hashed xxh64) (block : seq'.blockSize = seq.blockSize)
    (tokens : seq'.tokenIds = seq.tokenIds) (hashes : seq'.blockHashes = seq.blockHashes) : seq'.Hashed xxh64 := by
  intro k h entry
  rw [hashes] at entry
  rw [block, tokens]
  exact hashed k h entry

theorem Hashed.last (hashed : seq.Hashed xxh64) : seq.blockHashes.getLast?.getD (-1) =
    chainHash xxh64 seq.blockSize seq.tokenIds seq.blockHashes.length := by
  rcases List.eq_nil_or_concat seq.blockHashes with none | ⟨front, h, split⟩
  · rw [none]
    rfl
  · rw [List.concat_eq_append] at split
    have entry : seq.blockHashes[front.length]? = some h := by
      rw [split, List.getElem?_append_right (Nat.le_refl _), Nat.sub_self]
      rfl
    rw [split, List.getLast?_concat, List.length_append, List.length_singleton]
    exact hashed front.length h entry

theorem Hashed.appended (hashed : seq.Hashed xxh64) (wf : seq.Wf size) (tokenId : Token) :
    (seq.appended xxh64 tokenId).Hashed xxh64 := by
  have grown : seq.tokenIds <+: seq.tokenIds ++ [tokenId] := List.prefix_append ..
  have old {k : Nat} {h : Int} (entry : seq.blockHashes[k]? = some h) :
      h = chainHash xxh64 seq.blockSize (seq.tokenIds ++ [tokenId]) (k + 1) := by
    have inside := (List.getElem?_eq_some_iff.mp entry).1
    rw [wf.hashes, Nat.lt_iff_add_one_le, Nat.le_div_iff_mul_le wf.size_pos] at inside
    rw [chainHash_grown grown (by rw [wf.block, ← wf.tokens]; exact inside)]
    exact hashed k h entry
  intro k h entry
  change h = chainHash xxh64 seq.blockSize (seq.tokenIds ++ [tokenId]) (k + 1)
  simp only [Sequence.appended] at entry
  split at entry
  next aligned =>
    rw [wf.block] at aligned
    obtain ⟨-, edge⟩ := wf.completes aligned
    by_cases before : k < seq.blockHashes.length
    · rw [List.getElem?_append_left before] at entry
      exact old entry
    · have inside := (List.getElem?_eq_some_iff.mp entry).1
      rw [List.length_append, List.length_singleton] at inside
      have last : k = seq.blockHashes.length := by omega
      subst last
      rw [List.getElem?_concat_length, Option.some.injEq] at entry
      subst entry
      have within : seq.blockHashes.length * seq.blockSize ≤ seq.tokenIds.length := by
        rw [wf.block, ← wf.tokens]
        have positive := wf.size_pos
        omega
      have page : slice (seq.tokenIds ++ [tokenId]) (seq.blockHashes.length * seq.blockSize)
          ((seq.blockHashes.length + 1) * seq.blockSize) =
          seq.tokenIds.drop (seq.blockHashes.length * seq.blockSize) ++ [tokenId] := by
        rw [slice, List.take_of_length_le, List.drop_append_of_le_length within]
        rw [List.length_append, List.length_singleton, ← wf.tokens, Nat.add_mul, Nat.one_mul, wf.block, edge]
      rw [chainHash, page, hashed.last, chainHash_grown grown within]
  next => exact old entry

end Sequence

end NanoVllm
