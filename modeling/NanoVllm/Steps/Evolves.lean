import NanoVllm.Blocks.Since
import NanoVllm.Steps.Outcome

set_option autoImplicit false

namespace NanoVllm

open Python Raising

section Evolves

open Scheduler

variable {cache : Cache} {s t : Scheduler} {ids : Finset SeqId} {calls : List Call} {i : SeqId}

theorem Call.exclusive {call : Call} (h : Exclusive s.pool ids) (member : call.seqId ∈ ids)
    (run : call.run s = .ok () t) : Exclusive t.pool ids := by
  have marked (i : SeqId) (m : Nat) : Exclusive (s.setSeq i { s.seqs i with numNewTokens := m }).pool ids := by
    refine h.congr rfl rfl (fun j => ?_) (fun j => ?_)
    all_goals
      by_cases self : j = i
      · subst self
        rw [pool_seqs, setSeq_seqs_self]
        rfl
      · rw [pool_seqs, setSeq_seqs_of_ne s _ self]
        rfl
  cases call with
  | claim i blockIds m =>
      obtain ⟨f, inner, rfl⟩ := onSeq_ok run
      obtain ⟨cached, shared, gone⟩ := BlockManager.claimPrefix_shared h.nodup inner
      exact h.shared member cached shared gone
  | allocate i m =>
      simp only [Call.run, run_modifySeq_bind] at run
      obtain ⟨f, inner, rfl⟩ := onSeq_ok run
      exact (marked i m).grown member (BlockManager.allocateNew_grown inner)
  | append i m =>
      simp only [Call.run, run_modifySeq_bind] at run
      obtain ⟨f, inner, rfl⟩ := onSeq_ok run
      exact (marked i m).grown member (BlockManager.mayAppend_grown inner)

theorem Exclusive.book {u : Scheduler} (h : Exclusive t.pool ids) (manager : u.blockManager = t.blockManager)
    (seqs : ∀ i, { u.seqs i with status := (t.seqs i).status } = t.seqs i) : Exclusive u.pool ids := by
  refine h.congr (congrArg _ manager) (congrArg _ manager) (fun i => ?_) (fun i => ?_)
  · have same := congrArg Sequence.blockTable (seqs i)
    exact same
  · have same := congrArg Sequence.numCachedTokens (seqs i)
    exact same

theorem Traced.exclusive {calls : List Call} (traced : Traced s calls t) (h : Exclusive s.pool ids)
    (members : ∀ call ∈ calls, call.seqId ∈ ids) : Exclusive t.pool ids := by
  induction traced with
  | nil => exact h
  | call past call exact' ih =>
      have before := ih (fun c listed => members c (List.mem_append_left _ listed))
      exact Call.exclusive before (members call (by simp)) exact'.1
  | book past manager seqs ih => exact (ih members).book manager seqs

theorem Inv.exclusive (h : Inv cache s ids) : Exclusive s.pool ids := by
  obtain ⟨chain, held, -⟩ := h.pool
  refine ⟨held.accounting.free_nodup, fun i member b held' => held.accounting.held_not_free member held', ?_⟩
  intro i memberI j memberJ k l b entry entry' open' open''
  refine held.tables.owner i memberI j memberJ b (List.mem_of_getElem? entry) (List.mem_of_getElem? entry') ?_
  intro published
  have filled := ((h.covered i memberI).pages k b entry).mp published
  rw [Kept.context_idle (h.idle memberI)] at filled
  exact absurd open' (Nat.not_lt.mpr filled)

-- The hashes under which a call publishes pages.
def Call.filled (s : Scheduler) : Call → List Int
  | claim _ _ _ => []
  | allocate i numNewTokens => { s.seqs i with numNewTokens }.filled
  | append i numNewTokens => { s.seqs i with numNewTokens }.filled

theorem Call.evolvesIn {call : Call} {allowed : Int → Prop} (h : Exclusive s.pool ids) (member : call.seqId ∈ ids)
    (filled : ∀ hash ∈ call.filled s, allowed hash) (run : call.run s = .ok () t) :
    EvolvesIn allowed s.blockManager t.blockManager := by
  have marked (i : SeqId) (member : i ∈ ids) (m : Nat) :
      ((s.setSeq i { s.seqs i with numNewTokens := m }).pool.frame i).Tidy := by
    refine ⟨h.nodup, fun b held => h.busy i member b ?_⟩
    rwa [Pool.frame, pool_seqs, setSeq_seqs_self] at held
  have seq (i : SeqId) (m : Nat) : ((s.setSeq i { s.seqs i with numNewTokens := m }).pool.frame i).seq =
      { s.seqs i with numNewTokens := m } := s.setSeq_seqs_self i _
  cases call with
  | claim i blockIds m =>
      obtain ⟨f, inner, rfl⟩ := onSeq_ok run
      exact EvolvesIn.refl.recount (BlockManager.claimPrefix_recounted inner)
  | allocate i m =>
      simp only [Call.run, run_modifySeq_bind] at run
      obtain ⟨f, inner, rfl⟩ := onSeq_ok run
      exact BlockManager.allocateNew_evolves (marked i member m) (by rwa [seq]) inner
  | append i m =>
      simp only [Call.run, run_modifySeq_bind] at run
      obtain ⟨f, inner, rfl⟩ := onSeq_ok run
      exact BlockManager.mayAppend_evolves (marked i member m) (by rwa [seq]) inner

theorem Call.evolves {call : Call} (h : Exclusive s.pool ids) (member : call.seqId ∈ ids)
    (run : call.run s = .ok () t) : Evolves s.blockManager t.blockManager :=
  (@Call.evolvesIn _ _ _ _ (fun _ => True) h member (fun _ _ => trivial) run).evolves

theorem Traced.evolves (traced : Traced s calls t) (h : Exclusive s.pool ids)
    (members : ∀ call ∈ calls, call.seqId ∈ ids) : Evolves s.blockManager t.blockManager := by
  induction traced with
  | nil => exact Evolves.refl
  | call past call exact' ih =>
      have earlier := fun c listed => members c (List.mem_append_left _ listed)
      exact (ih earlier).trans (call.evolves (past.exclusive h earlier) (members call (by simp)) exact'.1)
  | book past manager seqs ih => exact manager ▸ ih members

/-- Calls one after another, with bookkeeping between them, and the hashes under which they publish pages. -/
inductive Publishes (ids : Finset SeqId) : Scheduler → List Int → Scheduler → Prop
  | nil (s : Scheduler) : Publishes ids s [] s
  | call {s t u : Scheduler} {hashes : List Int} (past : Publishes ids s hashes t) (call : Call)
      (member : call.seqId ∈ ids) (run : call.run t = .ok () u) : Publishes ids s (hashes ++ call.filled t) u
  | book {s t u : Scheduler} {hashes : List Int} (past : Publishes ids s hashes t)
      (manager : u.blockManager = t.blockManager)
      (seqs : ∀ i, { u.seqs i with status := (t.seqs i).status } = t.seqs i) : Publishes ids s hashes u

-- The request whose new tokens a call gives pages.
def Call.taker : Call → Option SeqId
  | claim _ _ _ => none
  | allocate i _ => some i
  | append i _ => some i

theorem Call.run_others {call : Call} (run : call.run s = .ok () t) (other : i ≠ call.seqId) : t.seqs i = s.seqs i := by
  cases call with
  | claim j blockIds m =>
      obtain ⟨f, -, rfl⟩ := onSeq_ok run
      exact setSeq_seqs_of_ne _ _ other
  | allocate j m =>
      simp only [Call.run, run_modifySeq_bind] at run
      obtain ⟨f, -, rfl⟩ := onSeq_ok run
      exact (setSeq_seqs_of_ne _ _ other).trans (setSeq_seqs_of_ne _ _ other)
  | append j m =>
      simp only [Call.run, run_modifySeq_bind] at run
      obtain ⟨f, -, rfl⟩ := onSeq_ok run
      exact (setSeq_seqs_of_ne _ _ other).trans (setSeq_seqs_of_ne _ _ other)

-- The calls for new tokens only extend the block table.
theorem grown_seq {m : Nat} {f : Frame} (grown : ((s.setSeq i { s.seqs i with numNewTokens := m }).pool.frame i).Grown f) :
    ∃ table, f.seq = { s.seqs i with numNewTokens := m, blockTable := table } := by
  obtain ⟨fresh, seq, -⟩ := grown
  rw [Pool.frame, pool_seqs, setSeq_seqs_self] at seq
  exact ⟨_, seq⟩

theorem Call.blockHashes_eq {call : Call} (run : call.run s = .ok () t) (i : SeqId) :
    (t.seqs i).blockHashes = (s.seqs i).blockHashes := by
  by_cases self : i = call.seqId
  case neg => rw [call.run_others run self]
  subst self
  cases call with
  | claim j blockIds m =>
      obtain ⟨f, inner, rfl⟩ := onSeq_ok run
      exact (congrArg Sequence.blockHashes (setSeq_seqs_self _ _ _)).trans (BlockManager.claimPrefix_hashes inner)
  | allocate j m =>
      simp only [Call.run, run_modifySeq_bind] at run
      obtain ⟨f, inner, rfl⟩ := onSeq_ok run
      obtain ⟨table, seq⟩ := grown_seq (BlockManager.allocateNew_grown inner)
      have same := congrArg Sequence.blockHashes seq
      exact (congrArg Sequence.blockHashes (setSeq_seqs_self _ _ _)).trans same
  | append j m =>
      simp only [Call.run, run_modifySeq_bind] at run
      obtain ⟨f, inner, rfl⟩ := onSeq_ok run
      obtain ⟨table, seq⟩ := grown_seq (BlockManager.mayAppend_grown inner)
      have same := congrArg Sequence.blockHashes seq
      exact (congrArg Sequence.blockHashes (setSeq_seqs_self _ _ _)).trans same

theorem Call.taker_filled {call : Call} (run : call.run s = .ok () t) (takes : call.taker = some i) :
    (t.seqs i).filled = call.filled s := by
  cases call with
  | claim j blockIds m => cases takes
  | allocate j m =>
      cases takes
      simp only [Call.run, run_modifySeq_bind] at run
      obtain ⟨f, inner, rfl⟩ := onSeq_ok run
      obtain ⟨table, seq⟩ := grown_seq (BlockManager.allocateNew_grown inner)
      have same := congrArg Sequence.filled seq
      exact (congrArg Sequence.filled (setSeq_seqs_self _ _ _)).trans same
  | append j m =>
      cases takes
      simp only [Call.run, run_modifySeq_bind] at run
      obtain ⟨f, inner, rfl⟩ := onSeq_ok run
      obtain ⟨table, seq⟩ := grown_seq (BlockManager.mayAppend_grown inner)
      have same := congrArg Sequence.filled seq
      exact (congrArg Sequence.filled (setSeq_seqs_self _ _ _)).trans same

theorem Traced.publishes (traced : Traced s calls t) (members : ∀ call ∈ calls, call.seqId ∈ ids)
    (once : calls.Pairwise (fun call later => call.taker ≠ some later.seqId)) :
    Publishes ids s ((calls.filterMap Call.taker).flatMap (fun j => (t.seqs j).filled)) t := by
  induction traced with
  | nil => exact Publishes.nil _
  | @call t u calls past call exact' ih =>
      rw [List.pairwise_append] at once
      obtain ⟨before, -, apart⟩ := once
      have published := (ih (fun c listed => members c (List.mem_append_left _ listed)) before).call call
        (members call (by simp)) exact'.1
      have earlier : (calls.filterMap Call.taker).flatMap (fun j => (u.seqs j).filled) =
          (calls.filterMap Call.taker).flatMap (fun j => (t.seqs j).filled) := by
        refine List.flatMap_congr (fun j listed => ?_)
        obtain ⟨c, called, takes⟩ := List.mem_filterMap.mp listed
        have other : j ≠ call.seqId := by
          rintro rfl
          exact apart c called call (by simp) takes
        rw [call.run_others exact'.1 other]
      have last : ([call].filterMap Call.taker).flatMap (fun j => (u.seqs j).filled) = call.filled t := by
        cases takes : call.taker with
        | some j => simp [takes, call.taker_filled exact'.1 takes]
        | none =>
            cases call with
            | claim j blockIds m => rfl
            | allocate j m => cases takes
            | append j m => cases takes
      rw [List.filterMap_append, List.flatMap_append, earlier, last]
      exact published
  | @book t u calls past manager seqs ih =>
      have filled (j : SeqId) : (u.seqs j).filled = (t.seqs j).filled := by
        have same := congrArg Sequence.filled (seqs j)
        exact same
      simp only [filled]
      exact (ih members once).book manager seqs

theorem Publishes.evolvesIn {hashes : List Int} {allowed : Int → Prop} (published : Publishes ids s hashes t)
    (h : Exclusive s.pool ids) (all : ∀ hash ∈ hashes, allowed hash) :
    Exclusive t.pool ids ∧ EvolvesIn allowed s.blockManager t.blockManager := by
  induction published with
  | nil => exact ⟨h, EvolvesIn.refl⟩
  | call past call member run ih =>
      obtain ⟨exclusive, evolves⟩ := ih (fun hash listed => all hash (List.mem_append_left _ listed))
      have filled := fun hash listed => all hash (List.mem_append_right _ listed)
      exact ⟨call.exclusive exclusive member run, evolves.trans (call.evolvesIn exclusive member filled run)⟩
  | book past manager seqs ih =>
      obtain ⟨exclusive, evolves⟩ := ih all
      exact ⟨exclusive.book manager seqs, manager ▸ evolves⟩

theorem Publishes.blockHashes_eq {hashes : List Int} (published : Publishes ids s hashes t) (i : SeqId) :
    (t.seqs i).blockHashes = (s.seqs i).blockHashes := by
  induction published with
  | nil => rfl
  | call past call member run ih => exact (call.blockHashes_eq run i).trans ih
  | book past manager seqs ih =>
      have same := congrArg Sequence.blockHashes (seqs i)
      exact Eq.trans same ih

theorem Held.matchPrefix_live {chain : Chain} (h : Held s.pool ids chain) (member : i ∈ ids) (idle : Idle (s.seqs i))
    {blocks : List BlockId} (found : s.blockManager.matchPrefix (s.seqs i) = .ok blocks) :
    ∀ b ∈ blocks, (s.blockManager.blocks b).published := by
  obtain ⟨blocks', value, plan, -⟩ := h.matchPrefix_idle member idle.cached idle.table
  cases found.symm.trans value
  intro b listed
  obtain ⟨k, entry⟩ := List.mem_iff_getElem?.mp listed
  obtain ⟨parent, page⟩ := plan.matched.page entry
  exact page.published

theorem Since.matchPrefix (since : Since s.blockManager t.blockManager) {chain chain' : Chain}
    (h : Held s.pool ids chain) (h' : Held t.pool ids chain') (member : i ∈ ids) (idle : Idle (s.seqs i))
    (waits : t.seqs i = s.seqs i) {initial latest : List BlockId}
    (found : s.blockManager.matchPrefix (s.seqs i) = .ok initial)
    (found' : t.blockManager.matchPrefix (t.seqs i) = .ok latest) {k : Nat} {b : BlockId} (entry : latest[k]? = some b)
    (same : Unchanged s.blockManager t.blockManager b) : initial[k]? = some b := by
  obtain ⟨blocks, value, plan, -⟩ := h.matchPrefix_idle member idle.cached idle.table
  cases found.symm.trans value
  rw [← waits] at idle
  obtain ⟨blocks', value', plan', short⟩ := h'.matchPrefix_idle member idle.cached idle.table
  cases found'.symm.trans value'
  have few : 0 + latest.length < (s.seqs i).numBlocks := by
    rw [Nat.zero_add, ← waits]
    exact (h'.wf i member).lt_numBlocks.mpr short
  rw [waits] at idle
  simp only [pool_seqs, pool_manager, waits] at plan'
  have place := since.follows h h' member idle.cached idle.table found plan plan'.matched plan'.indexed few
    (.inl ⟨[], rfl, List.nil_prefix, rfl⟩) entry same
  rwa [Nat.zero_add] at place

end Evolves

end NanoVllm
