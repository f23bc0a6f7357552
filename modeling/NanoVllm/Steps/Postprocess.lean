import NanoVllm.Steps.Sample

set_option autoImplicit false

namespace NanoVllm

open Python Raising

-- What the second loop of `postprocess` does to a request of the batch.
def Sequence.settled (seq : Sequence) : Sequence := if seq.status ≠ .finished then seq.advanced else seq

inductive Turn (xxh64 : XxHash) (config : Config) (seq : Sequence) : Sequence → Prop
  | ends (tokenId : Token) (complete : seq.Complete)
      (stop : Scheduler.stops config (seq.appended xxh64 tokenId) tokenId = true) :
      Turn xxh64 config seq (seq.appended xxh64 tokenId).finished
  | grows (tokenId : Token) (complete : seq.Complete)
      (more : Scheduler.stops config (seq.appended xxh64 tokenId) tokenId = false) :
      Turn xxh64 config seq (seq.appended xxh64 tokenId).advanced
  | advances (rest : ¬seq.Complete) : Turn xxh64 config seq seq.advanced

theorem Turn.complete_prompt {xxh64 : XxHash} {config : Config} {seq seq' : Sequence} {size : Nat}
    (turn : Turn xxh64 config seq seq') (wf : seq.Wf size) (complete : seq.Complete) :
    seq'.status = .finished ∨ ¬seq'.numCachedTokens < seq'.numPromptTokens := by
  cases turn with
  | ends tokenId complete' stop => exact Or.inl rfl
  | grows tokenId complete' more =>
      right
      have prompt := wf.prompt_le
      have context : seq.numCachedTokens + seq.numNewTokens = seq.numTokens := complete
      change ¬seq.numCachedTokens + seq.numNewTokens < seq.numPromptTokens
      omega
  | advances rest => exact absurd complete rest

theorem Turn.single {xxh64 : XxHash} {config : Config} {seq seq' : Sequence} (turn : Turn xxh64 config seq seq')
    (complete : seq.Complete) (live : seq'.status ≠ .finished) : seq'.numTokens = seq'.numCachedTokens + 1 := by
  have context : seq.numCachedTokens + seq.numNewTokens = seq.numTokens := complete
  cases turn with
  | ends tokenId complete' stop => exact absurd rfl live
  | grows tokenId complete' more =>
      change seq.numTokens + 1 = seq.numCachedTokens + seq.numNewTokens + 1
      rw [context]
  | advances rest => exact absurd complete rest

theorem Turn.advanced {xxh64 : XxHash} {config : Config} {seq seq' : Sequence} (turn : Turn xxh64 config seq seq')
    (rest : ¬seq.Complete) : seq' = seq.advanced := by
  cases turn with
  | ends tokenId complete stop => exact absurd complete rest
  | grows tokenId complete more => exact absurd complete rest
  | advances rest => rfl

namespace Scheduler

def isPartial (s : Scheduler) (i : SeqId) : Bool :=
  decide ((s.seqs i).status ≠ .finished ∧ (s.seqs i).numCachedTokens < (s.seqs i).numPromptTokens)

def joins (s : Scheduler) (i : SeqId) : Bool :=
  decide ((s.seqs i).status ≠ .finished ∧ ¬(s.seqs i).numCachedTokens < (s.seqs i).numPromptTokens)

theorem advance_run (s : Scheduler) (i : SeqId) :
    advance i s = .ok () (s.setSeq i (s.seqs i).settled) := rfl

theorem advanceAll {cache : Cache} {u : Scheduler} {ids : Finset SeqId} (resident : Resident cache u.pool ids)
    {seqs : List SeqId} (members : ∀ i ∈ seqs, i ∈ ids) (once : seqs.Nodup) :
    ∃ value, forEach advance seqs u = .ok () { u with seqs := value } ∧
      Resident cache ⟨u.blockManager, value⟩ ids ∧ (∀ i ∈ seqs, value i = (u.seqs i).settled) ∧
      ∀ i, i ∉ seqs → value i = u.seqs i := by
  induction seqs generalizing u with
  | nil => exact ⟨u.seqs, rfl, resident, by simp, by simp⟩
  | cons i rest ih =>
      rw [List.nodup_cons] at once
      have member := members i (List.mem_cons_self ..)
      have wf : (u.seqs i).Wf u.blockManager.blockSize := resident.wf member
      have resident' : Resident cache (u.setSeq i (u.seqs i).settled).pool ids := by
        unfold Sequence.settled
        split
        · exact resident.relabel member (wf.relabel rfl rfl rfl rfl rfl) rfl List.prefix_rfl List.prefix_rfl rfl
        · exact resident.relabel member wf rfl List.prefix_rfl List.prefix_rfl rfl
      obtain ⟨value, run, done, settled, others⟩ :=
        ih resident' (fun j later => members j (List.mem_cons_of_mem i later)) once.2
      refine ⟨value, ?_, done, ?_, ?_⟩
      · simp only [forEach]
        rw [bind_ok (advance_run u i)]
        exact run
      · intro j listed
        rcases List.mem_cons.mp listed with rfl | later
        · rw [others j once.1, setSeq_seqs_self]
        · have other : j ≠ i := fun same => once.1 (same ▸ later)
          rw [settled j later, setSeq_seqs_of_ne u _ other]
      · intro j outside
        rw [List.mem_cons, not_or] at outside
        rw [others j outside.2, setSeq_seqs_of_ne u _ outside.1]

theorem settlePrefills_run {u : Scheduler} {prefill : List SeqId} (once : (u.running ++ prefill).Nodup)
    (before : List SeqId) : settlePrefills prefill before u =
      .ok (before ++ prefill.filter u.isPartial) { u with running := u.running ++ prefill.filter u.joins } := by
  induction prefill generalizing u before with
  | nil => simp [settlePrefills]
  | cons i rest ih =>
      have fresh : i ∉ u.running := fun runs => List.disjoint_of_nodup_append once runs (List.mem_cons_self ..)
      have once' : (u.running ++ rest).Nodup :=
        once.sublist (List.Sublist.append_left (List.sublist_cons_self i rest) u.running)
      simp only [settlePrefills, run_get_bind]
      by_cases ended : (u.seqs i).status = .finished
      · have first : u.isPartial i = false := by simp [isPartial, ended]
        have second : u.joins i = false := by simp [joins, ended]
        rw [if_pos ended, ih once', List.filter_cons_of_neg (by simp [first]),
          List.filter_cons_of_neg (by simp [second])]
      · rw [if_neg ended]
        by_cases part : (u.seqs i).numCachedTokens < (u.seqs i).numPromptTokens
        · have first : u.isPartial i = true := by simp [isPartial, ended, part]
          have second : u.joins i = false := by simp [joins, part]
          rw [if_pos part, ih once', List.filter_cons_of_pos first, List.filter_cons_of_neg (by simp [second]),
            List.append_assoc, List.singleton_append]
        · have first : u.isPartial i = false := by simp [isPartial, part]
          have second : u.joins i = true := by simp [joins, ended, part]
          have moved : ({ u with running := u.running ++ [i] }.running ++ rest).Nodup := by
            simpa using once
          have next := ih moved before
          rw [if_neg part, List.filter_cons_of_neg (by simp [first]), List.filter_cons_of_pos second]
          simp only [fresh, not_false_eq_true, if_true, run_set_bind]
          refine next.trans ?_
          rw [List.append_assoc, List.singleton_append]
          rfl

end Scheduler

end NanoVllm
