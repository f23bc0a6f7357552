import NanoVllm.Steps.Postprocess

set_option autoImplicit false

namespace NanoVllm

open Python Raising

-- The sampled tokens with the rows and the requests that they belong to.
def placed (batch : List SeqId) (sampled : List (Nat × Token)) : List (Nat × SeqId × Token) :=
  sampled.filterMap (fun e => batch[e.1]?.map (fun i => (e.1, i, e.2)))

-- The requests that get a token, with their tokens.
def samplesOf (batch : List SeqId) (logitsIndices : List Nat) (tokenIds : List Token) : List (SeqId × Token) :=
  (placed batch (logitsIndices.zip tokenIds)).map Prod.snd

/-- The rows to sample are those of the requests that the batch computes completely. -/
structure LogitsOf (s : Scheduler) (batch : List SeqId) (logitsIndices : List Nat) : Prop where
  once : logitsIndices.Nodup
  exact' : ∀ k, k ∈ logitsIndices ↔ ∃ i, batch[k]? = some i ∧ (s.seqs i).Complete

section Placed

variable {batch : List SeqId} {sampled : List (Nat × Token)}

theorem mem_placed {e : Nat × SeqId × Token} :
    e ∈ placed batch sampled ↔ (e.1, e.2.2) ∈ sampled ∧ batch[e.1]? = some e.2.1 := by
  obtain ⟨k, i, tokenId⟩ := e
  simp only [placed, List.mem_filterMap, Option.map_eq_some_iff, Prod.mk.injEq]
  constructor
  · rintro ⟨⟨k', tokenId'⟩, listed, i', entry, rfl, rfl, rfl⟩
    exact ⟨listed, entry⟩
  · rintro ⟨listed, entry⟩
    exact ⟨(k, tokenId), listed, i, entry, rfl, rfl, rfl⟩

theorem placed_pairs (inside : ∀ e ∈ sampled, ∃ i, batch[e.1]? = some i) :
    (placed batch sampled).map (fun e => (e.1, e.2.2)) = sampled := by
  induction sampled with
  | nil => rfl
  | cons e rest ih =>
      obtain ⟨i, entry⟩ := inside e (List.mem_cons_self ..)
      have later := ih (fun e' listed => inside e' (List.mem_cons_of_mem e listed))
      rw [placed] at later ⊢
      rw [List.filterMap_cons_some (by rw [entry]; rfl), List.map_cons, later]

theorem placed_nodup (once : batch.Nodup) (rows : (sampled.map Prod.fst).Nodup) :
    ((placed batch sampled).map (fun e => e.2.1)).Nodup := by
  have same : (placed batch sampled).map (fun e => e.2.1) =
      (sampled.map Prod.fst).filterMap (fun k => batch[k]?) := by
    rw [placed, List.map_filterMap, List.filterMap_map]
    refine List.filterMap_congr (fun e _ => ?_)
    simp [Option.map_map, Function.comp_def]
  rw [same]
  refine List.Nodup.filterMap (fun k k' i entry entry' => ?_) rows
  have entry : batch[k]? = some i := entry
  have entry' : batch[k']? = some i := entry'
  exact (List.getElem?_inj (List.getElem?_eq_some_iff.mp entry).1 once).mp (entry.trans entry'.symm)

end Placed

/-- What a step did after its batch was scheduled; `samples` are the tokens that requests got. -/
structure Advanced (xxh64 : XxHash) (t w : Scheduler) (prefill : List SeqId) (samples : List (SeqId × Token)) :
    Prop where
  config : w.config = t.config
  waiting : w.waiting = t.waiting
  others : ∀ i, i ∉ prefill ++ t.running → w.seqs i = t.seqs i
  turn : ∀ i ∈ prefill ++ t.running, Turn xxh64 t.config (t.seqs i) (w.seqs i)
  once : (samples.map Prod.fst).Nodup
  rows : ∀ i, i ∈ samples.map Prod.fst ↔ i ∈ prefill ++ t.running ∧ (t.seqs i).Complete
  sampled : ∀ d ∈ samples, w.seqs d.1 = ((t.seqs d.1).sampled xxh64 t.config d.2).settled
  running : w.running = w.unfinished t.running ++ prefill.filter w.joins
  chunk : w.chunkedReq = if prefill = [] then t.chunkedReq else (prefill.filter w.isPartial).head?

theorem head_toList {α : Type} {xs : List α} (short : xs.length ≤ 1) : xs.head?.toList = xs := by
  rcases xs with _ | ⟨x, _ | ⟨y, rest⟩⟩
  · rfl
  · rfl
  · simp at short

theorem filter_single {α : Type} {p : α → Bool} {xs : List α} (early : ∀ x ∈ xs.dropLast, p x = false) :
    (xs.filter p).length ≤ 1 := by
  rcases List.eq_nil_or_concat xs with rfl | ⟨front, x, rfl⟩
  · simp
  · rw [List.concat_eq_append, List.dropLast_concat] at early
    have none : front.filter p = [] := List.filter_eq_nil_iff.mpr (fun y listed => by simp [early y listed])
    rw [List.concat_eq_append, List.filter_append, none, List.nil_append]
    exact List.length_filter_le p [x]

section Postprocess

open Scheduler

variable {cache : Cache} {xxh64 : XxHash} {t : Scheduler} {ids : Finset SeqId} {prefill : List SeqId} {i : SeqId}

namespace Batch

theorem apart (h : Batch cache t ids prefill) (scheduled : i ∈ prefill ++ t.running) : i ∉ t.waiting := by
  intro waits
  have seats := h.seats
  rw [List.append_assoc] at seats
  refine List.disjoint_of_nodup_append seats waits ?_
  rcases List.mem_append.mp scheduled with first | runs
  · have seat : i ∈ t.seat prefill := by rwa [seat, if_neg (List.ne_nil_of_mem first)]
    exact List.mem_append_left _ seat
  · exact List.mem_append_right _ runs

theorem once (h : Batch cache t ids prefill) : (prefill ++ t.running).Nodup := by
  have seats := h.seats
  rw [List.append_assoc] at seats
  have later := (List.nodup_append.mp seats).2.1
  by_cases none : prefill = []
  · rw [none, List.nil_append]
    exact (List.nodup_append.mp later).2.1
  · rwa [seat, if_neg none] at later

theorem member (h : Batch cache t ids prefill) (scheduled : i ∈ prefill ++ t.running) :
    i ∈ ids ∧ (t.seqs i).status ≠ .finished := by
  refine (h.seated i).mp ?_
  rw [List.append_assoc]
  refine List.mem_append_right _ ?_
  rcases List.mem_append.mp scheduled with first | runs
  · rw [seat, if_neg (List.ne_nil_of_mem first)]
    exact List.mem_append_left _ first
  · exact List.mem_append_right _ runs

theorem chunk_member (h : Batch cache t ids prefill) (chunk : t.chunkedReq = some i) :
    i ∈ ids ∧ (t.seqs i).status ≠ .finished := by
  by_cases none : prefill = []
  · refine (h.seated i).mp ?_
    simp [seat, none, chunk]
  · exact h.member (List.mem_append_left _ (h.chunk none i chunk))

theorem chunk_apart (h : Batch cache t ids prefill) (none : prefill = []) (chunk : t.chunkedReq = some i) :
    i ∉ prefill ++ t.running := by
  have seats := h.seats
  rw [List.append_assoc, seat, if_pos none] at seats
  have later := (List.nodup_append.mp seats).2.1
  rw [none, List.nil_append]
  exact fun runs => List.disjoint_of_nodup_append later (Option.mem_toList.mpr chunk) runs

theorem samples (h : Batch cache t ids prefill) {logitsIndices : List Nat} {tokenIds : List Token}
    (logits : LogitsOf t (prefill ++ t.running) logitsIndices) (count : tokenIds.length = logitsIndices.length) :
    ((samplesOf (prefill ++ t.running) logitsIndices tokenIds).map Prod.fst).Nodup ∧
      ∀ i, i ∈ (samplesOf (prefill ++ t.running) logitsIndices tokenIds).map Prod.fst ↔
        i ∈ prefill ++ t.running ∧ (t.seqs i).Complete := by
  have rows : (logitsIndices.zip tokenIds).map Prod.fst = logitsIndices := List.map_fst_zip (by omega)
  constructor
  · rw [samplesOf, List.map_map]
    exact placed_nodup h.once (by rw [rows]; exact logits.once)
  · intro i
    simp only [samplesOf, List.mem_map, mem_placed, exists_exists_and_eq_and]
    constructor
    · rintro ⟨⟨k, i', tokenId⟩, ⟨listed, entry⟩, rfl⟩
      have row : k ∈ logitsIndices := by
        rw [← rows]
        exact List.mem_map_of_mem listed
      obtain ⟨j, entry', complete⟩ := (logits.exact' k).mp row
      have same : i' = j := Option.some.inj (entry.symm.trans entry')
      exact ⟨List.mem_of_getElem? entry, same ▸ complete⟩
    · rintro ⟨listed, complete⟩
      obtain ⟨k, entry⟩ := List.mem_iff_getElem?.mp listed
      have row : k ∈ logitsIndices := (logits.exact' k).mpr ⟨i, entry, complete⟩
      rw [← rows] at row
      obtain ⟨⟨k', tokenId⟩, pair, rfl⟩ := List.mem_map.mp row
      exact ⟨(k', i, tokenId), ⟨pair, entry⟩, rfl⟩

theorem early_whole (h : Batch cache t ids prefill) {w : Scheduler}
    (turn : ∀ i ∈ prefill ++ t.running, Turn xxh64 t.config (t.seqs i) (w.seqs i)) :
    ∀ i ∈ prefill.dropLast, w.isPartial i = false := by
  intro i early
  obtain ⟨chain, kept⟩ := h.kept
  have scheduled := List.mem_append_left t.running (List.dropLast_subset _ early)
  have past := (turn i scheduled).complete_prompt (kept.held.wf i (h.member scheduled).1) (h.complete i early)
  simp only [isPartial, decide_eq_false_iff_not, not_and_or, not_not]
  exact past

theorem single_partial (h : Batch cache t ids prefill) {w : Scheduler}
    (turn : ∀ i ∈ prefill ++ t.running, Turn xxh64 t.config (t.seqs i) (w.seqs i)) :
    (prefill.filter w.isPartial).length ≤ 1 :=
  filter_single (h.early_whole turn)

theorem turn_of_sampled {seq : Sequence} {config : Config} {tokenId : Token} (complete : seq.Complete)
    (live : seq.status ≠ .finished) : Turn xxh64 config seq (seq.sampled xxh64 config tokenId).settled := by
  unfold Sequence.sampled
  by_cases stop : stops config (seq.appended xxh64 tokenId) tokenId
  · rw [if_pos stop]
    exact .ends tokenId complete stop
  · have live' : (seq.appended xxh64 tokenId).status ≠ .finished := live
    rw [if_neg stop, Sequence.settled, if_pos live']
    exact .grows tokenId complete (by simpa using stop)

theorem unsampled (h : Batch cache t ids prefill) {cache' : Cache} (resident : Resident cache' t.pool ids) :
    Sampled cache' xxh64 t t ids [] := by
  have live (seqs : List SeqId) (all : ∀ i ∈ seqs, (t.seqs i).status ≠ .finished) :
      seqs = t.unfinished seqs := (List.filter_eq_self.mpr (fun i listed => by simpa using all i listed)).symm
  refine ⟨resident, rfl, rfl, rfl, rfl, rfl, live _ ?_, live _ ?_, by simp, by simp⟩
  · exact fun i runs => (h.member (List.mem_append_right _ runs)).2
  · exact fun i chunk => (h.chunk_member (Option.mem_toList.mp chunk)).2

theorem chunk_sampled (h : Batch cache t ids prefill) {cache' : Cache} {u : Scheduler}
    {samples : List (SeqId × Token)} (sampled : Sampled cache' xxh64 t u ids samples) (none : prefill = [])
    (inside : ∀ i ∈ samples.map Prod.fst, i ∈ prefill ++ t.running) : u.chunkedReq = t.chunkedReq := by
  have same := sampled.chunk
  cases chunk : t.chunkedReq with
  | none => simpa [chunk, unfinished] using same
  | some c =>
      have kept : u.seqs c = t.seqs c := sampled.rest c (fun listed => h.chunk_apart none chunk (inside c listed))
      have live := (h.chunk_member chunk).2
      rw [chunk] at same
      simpa [unfinished, kept, live, Option.toList_eq_singleton_iff] using same

theorem turn_of_value (h : Batch cache t ids prefill) {samples : List (SeqId × Token)} {value : SeqId → Sequence}
    (rows : ∀ i, i ∈ samples.map Prod.fst ↔ i ∈ prefill ++ t.running ∧ (t.seqs i).Complete)
    (sampled : ∀ d ∈ samples, value d.1 = ((t.seqs d.1).sampled xxh64 t.config d.2).settled)
    (rest : ∀ i ∈ prefill ++ t.running, i ∉ samples.map Prod.fst → value i = (t.seqs i).settled) :
    ∀ i ∈ prefill ++ t.running, Turn xxh64 t.config (t.seqs i) (value i) := by
  intro i scheduled
  have live := (h.member scheduled).2
  by_cases complete : (t.seqs i).Complete
  · obtain ⟨d, listed, self⟩ := List.mem_map.mp ((rows i).mpr ⟨scheduled, complete⟩)
    subst self
    rw [sampled d listed]
    exact turn_of_sampled complete live
  · rw [rest i scheduled (fun listed => complete ((rows i).mp listed).2), Sequence.settled, if_pos live]
    exact .advances complete

theorem postprocess (h : Batch cache t ids prefill) {cache' : Cache} (resident : Resident cache' t.pool ids)
    {logitsIndices : List Nat} {tokenIds : List Token} (logits : LogitsOf t (prefill ++ t.running) logitsIndices)
    (count : tokenIds.length = logitsIndices.length) :
    ∃ w, Scheduler.postprocess xxh64 (prefill ++ t.running) tokenIds logitsIndices t = .ok () w ∧
      Advanced xxh64 t w prefill (samplesOf (prefill ++ t.running) logitsIndices tokenIds) ∧
      Resident cache' w.pool ids ∧ w.blockManager.blockSize = t.blockManager.blockSize ∧
      w.blockManager.numBlocks = t.blockManager.numBlocks := by
  obtain ⟨once, rows⟩ := h.samples logits count
  have inside : ∀ e ∈ logitsIndices.zip tokenIds, ∃ i, (prefill ++ t.running)[e.1]? = some i := by
    intro e listed
    have row : e.1 ∈ logitsIndices := (List.of_mem_zip listed).1
    obtain ⟨i, entry, -⟩ := (logits.exact' e.1).mp row
    exact ⟨i, entry⟩
  have start : Sampled cache' xxh64 t t ids [] := h.unsampled resident
  obtain ⟨u, run, sampled⟩ := @start.sampleAll _ _ _ _ _ _ (List.nodup_append.mp h.once).2.1
    (prefill ++ t.running) (placed (prefill ++ t.running) (logitsIndices.zip tokenIds))
    (fun e listed => (mem_placed.mp listed).2)
    (fun e listed => h.member (List.mem_of_getElem? (mem_placed.mp listed).2))
    (by
      rw [samplesOf, List.map_map] at once
      exact once)
  rw [placed_pairs inside] at run
  rw [List.nil_append] at sampled
  obtain ⟨value, run', resident', settled, others⟩ := advanceAll sampled.resident
    (fun i listed => (h.member listed).1) h.once
  have prefills : (prefill ++ t.running).take u.numScheduledPrefillSeqs = prefill := by
    rw [sampled.counted, h.counted]
    exact List.take_left ..
  have statuses (i : SeqId) : (value i).status = (u.seqs i).status := by
    by_cases scheduled : i ∈ prefill ++ t.running
    · rw [settled i scheduled, Sequence.settled]
      split <;> rfl
    · rw [others i scheduled]
  have sampledI (d : SeqId × Token) (listed : d ∈ samplesOf (prefill ++ t.running) logitsIndices tokenIds) :
      value d.1 = ((t.seqs d.1).sampled xxh64 t.config d.2).settled := by
    rw [settled d.1 ((rows d.1).mp (List.mem_map_of_mem listed)).1, sampled.sampled d listed]
  have turn : ∀ i ∈ prefill ++ t.running, Turn xxh64 t.config (t.seqs i) (value i) := by
    refine h.turn_of_value rows sampledI (fun i scheduled unlisted => ?_)
    rw [settled i scheduled, sampled.rest i unlisted]
  have running : (u.running ++ prefill).Nodup := by
    rw [sampled.running]
    refine List.Nodup.sublist (List.Sublist.append_right List.filter_sublist prefill) ?_
    exact List.perm_append_comm.nodup_iff.mp h.once
  have single := h.single_partial (w := { u with seqs := value }) turn
  have tailRun := @settlePrefills_run { u with seqs := value } prefill running []
  refine ⟨{ u with
    seqs := value
    running := u.running ++ prefill.filter { u with seqs := value }.joins
    chunkedReq :=
      if prefill = [] then u.chunkedReq else (prefill.filter { u with seqs := value }.isPartial).head? },
    ?_, ?_, resident', sampled.size, sampled.count⟩
  · simp only [Scheduler.postprocess]
    rw [run_require_bind count, bind_ok run, bind_ok run', run_get_bind]
    dsimp only
    rw [prefills, bind_ok tailRun, List.nil_append, run_require_bind single]
    by_cases none : prefill = []
    · simp [none]
    · simp [none]
  · constructor
    case config => exact sampled.config
    case waiting => exact sampled.waiting
    case others =>
      intro i outside
      refine (others i outside).trans (sampled.rest i (fun listed => outside ((rows i).mp listed).1))
    case turn => exact turn
    case once => exact once
    case rows => exact rows
    case sampled => exact sampledI
    case running =>
      change u.running ++ _ = _ ++ _
      rw [sampled.running]
      congr 1
      exact (Sampled.filter_of_eq (fun i _ => statuses i)).symm
    case chunk =>
      dsimp only
      split
      next none => exact h.chunk_sampled sampled none (fun i listed => ((rows i).mp listed).1)
      next => rfl

end Batch

namespace Advanced

variable {w : Scheduler} {samples : List (SeqId × Token)}

theorem waiting_same (adv : Advanced xxh64 t w prefill samples) (h : Batch cache t ids prefill)
    (waits : i ∈ t.waiting) : w.seqs i = t.seqs i :=
  adv.others i (fun scheduled => h.apart scheduled waits)

theorem queue (adv : Advanced xxh64 t w prefill samples) (h : Batch cache t ids prefill) :
    (w.chunkedReq.toList ++ w.running).Perm (w.unfinished (t.seat prefill ++ t.running)) := by
  rw [unfinished, List.filter_append, adv.running, adv.chunk, seat]
  by_cases none : prefill = []
  · have chunk : t.chunkedReq.toList.filter (fun i => decide ((w.seqs i).status ≠ .finished)) =
        t.chunkedReq.toList := by
      refine List.filter_eq_self.mpr (fun c listed => ?_)
      have chunk := Option.mem_toList.mp listed
      rw [adv.others c (h.chunk_apart none chunk)]
      exact decide_eq_true (h.chunk_member chunk).2
    rw [if_pos none, if_pos none, chunk, none, List.filter_nil, List.append_nil]
    rfl
  · have single := head_toList (h.single_partial adv.turn)
    have split := List.filter_append_perm
      (fun i => decide ((w.seqs i).numCachedTokens < (w.seqs i).numPromptTokens)) (w.unfinished prefill)
    rw [unfinished, List.filter_filter, List.filter_filter] at split
    rw [if_neg none, if_neg none, single]
    have first : prefill.filter w.isPartial = prefill.filter (fun i =>
        decide ((w.seqs i).numCachedTokens < (w.seqs i).numPromptTokens) &&
          decide ((w.seqs i).status ≠ .finished)) := by
      refine List.filter_congr (fun i _ => ?_)
      simp [isPartial, Bool.and_comm]
    have second : prefill.filter w.joins = prefill.filter (fun i =>
        !decide ((w.seqs i).numCachedTokens < (w.seqs i).numPromptTokens) &&
          decide ((w.seqs i).status ≠ .finished)) := by
      refine List.filter_congr (fun i _ => ?_)
      rw [Bool.eq_iff_iff]
      simp [joins, and_comm]
    rw [first, second]
    refine List.Perm.trans ?_ (split.append_right _)
    rw [List.append_assoc]
    exact List.Perm.append_left _ List.perm_append_comm

theorem survives (adv : Advanced xxh64 t w prefill samples) (h : Batch cache t ids prefill)
    (scheduled : i ∈ prefill ++ t.running) (live : (w.seqs i).status ≠ .finished) :
    (w.seqs i).status = .running ∧ (w.seqs i).numNewTokens = 0 ∧
      (w.seqs i).numCachedTokens < (w.seqs i).numTokens := by
  have turn := adv.turn i scheduled
  obtain ⟨chain, kept⟩ := h.kept
  have within : (t.seqs i).numCachedTokens + (t.seqs i).numNewTokens ≤ (t.seqs i).numTokens :=
    (kept.covered i (h.member scheduled).1).within
  generalize w.seqs i = seq at turn live ⊢
  cases turn with
  | ends tokenId complete stop => exact absurd rfl live
  | grows tokenId complete more => exact ⟨(h.scheduled i scheduled).1, rfl, Nat.lt_succ_of_le within⟩
  | advances rest => exact ⟨(h.scheduled i scheduled).1, rfl, Nat.lt_of_le_of_ne within rest⟩

theorem live_before (adv : Advanced xxh64 t w prefill samples) (h : Batch cache t ids prefill)
    (live : (w.seqs i).status ≠ .finished) : (t.seqs i).status ≠ .finished := by
  by_cases scheduled : i ∈ prefill ++ t.running
  · exact (h.member scheduled).2
  · rwa [← adv.others i scheduled]

theorem seated (adv : Advanced xxh64 t w prefill samples) (h : Batch cache t ids prefill) (i : SeqId) :
    i ∈ w.waiting ++ w.chunkedReq.toList ++ w.running ↔ i ∈ ids ∧ (w.seqs i).status ≠ .finished := by
  have before := h.seated i
  rw [List.append_assoc, List.mem_append] at before ⊢
  rw [(adv.queue h).mem_iff, unfinished, List.mem_filter, decide_eq_true_iff, adv.waiting]
  constructor
  · rintro (waits | ⟨seat, live⟩)
    · rw [adv.waiting_same h waits]
      exact before.mp (Or.inl waits)
    · exact ⟨(before.mp (Or.inr seat)).1, live⟩
  · rintro ⟨member, live⟩
    rcases before.mpr ⟨member, adv.live_before h live⟩ with waits | seat
    · exact Or.inl waits
    · exact Or.inr ⟨seat, live⟩

theorem request_of_turn {config : Config} {seq seq' : Sequence} (turn : Turn xxh64 config seq seq') :
    seq'.seqId = seq.seqId ∧ seq'.numPromptTokens = seq.numPromptTokens := by
  cases turn with
  | ends tokenId complete stop => exact ⟨rfl, rfl⟩
  | grows tokenId complete more => exact ⟨rfl, rfl⟩
  | advances rest => exact ⟨rfl, rfl⟩

theorem limits_of_turn {config : Config} {seq seq' : Sequence} (turn : Turn xxh64 config seq seq')
    (live : seq'.status ≠ .finished) (limits : Limits config seq) : Limits config seq' := by
  cases turn with
  | ends tokenId complete stop => exact absurd rfl live
  | grows tokenId complete more =>
      simp only [stops, Bool.or_eq_false_iff, decide_eq_false_iff_not, not_le] at more
      exact ⟨more.2, more.1.2⟩
  | advances rest => exact ⟨limits.length, limits.completion⟩

theorem ended_of_turn {config : Config} {seq seq' : Sequence} (turn : Turn xxh64 config seq seq')
    (live : seq.status ≠ .finished) (ended : seq'.status = .finished) : Ended seq' := by
  cases turn with
  | ends tokenId complete stop => exact ⟨rfl, rfl, rfl, rfl⟩
  | grows tokenId complete more => exact absurd ended live
  | advances rest => exact absurd ended live

theorem inv (adv : Advanced xxh64 t w prefill samples) (h : Batch cache t ids prefill) {cache' : Cache}
    (resident : Resident cache' w.pool ids) (size : w.blockManager.blockSize = t.blockManager.blockSize)
    (count : w.blockManager.numBlocks = t.blockManager.numBlocks) : Inv cache' w ids := by
  have chunked (c : SeqId) (chunk : w.chunkedReq = some c) (some' : prefill ≠ []) :
      c ∈ prefill ∧ w.isPartial c = true := by
    rw [adv.chunk, if_neg some'] at chunk
    exact List.mem_filter.mp (List.mem_of_head? chunk)
  constructor
  case pool => exact resident.pool
  case covered => exact resident.covered
  case size => rw [size, adv.config, h.size]
  case count => rw [count, adv.config, h.count]
  case seats =>
    rw [List.append_assoc, adv.waiting]
    have seats := h.seats
    rw [List.append_assoc] at seats
    refine (List.Perm.append_left t.waiting (adv.queue h)).nodup_iff.mpr ?_
    exact seats.sublist (List.Sublist.append_left List.filter_sublist _)
  case seated => exact adv.seated h
  case waiting =>
    intro i waits
    rw [adv.waiting] at waits
    rw [adv.waiting_same h waits]
    exact h.waiting i waits
  case chunk =>
    intro c chunk
    by_cases none : prefill = []
    · rw [adv.chunk, if_pos none] at chunk
      rw [adv.others c (h.chunk_apart none chunk)]
      exact h.paused none c chunk
    · obtain ⟨listed, part⟩ := chunked c chunk none
      simp only [isPartial, decide_eq_true_eq] at part
      obtain ⟨status, new, -⟩ := adv.survives h (List.mem_append_left _ listed) part.1
      exact ⟨status, new, part.2⟩
  case running =>
    intro i runs
    rw [adv.running, List.mem_append] at runs
    rcases runs with stays | joins'
    · obtain ⟨runs, live⟩ := List.mem_filter.mp stays
      have scheduled := List.mem_append_right prefill runs
      simp only [decide_eq_true_eq] at live
      obtain ⟨status, new, below⟩ := adv.survives h scheduled live
      obtain ⟨chain, kept⟩ := h.kept
      have past := (adv.turn i scheduled).complete_prompt (kept.held.wf i (h.member scheduled).1)
        (h.running i runs).1
      exact ⟨status, new, not_lt.mp (past.resolve_left live), below⟩
    · obtain ⟨listed, joins'⟩ := List.mem_filter.mp joins'
      simp only [joins, decide_eq_true_eq, not_lt] at joins'
      obtain ⟨status, new, below⟩ := adv.survives h (List.mem_append_left _ listed) joins'.1
      exact ⟨status, new, joins'.2, below⟩
  case ended =>
    intro i member ended
    by_cases scheduled : i ∈ prefill ++ t.running
    · exact ended_of_turn (adv.turn i scheduled) (h.member scheduled).2 ended
    · rw [adv.others i scheduled] at ended ⊢
      exact h.ended i member ended
  case limits =>
    intro i member live
    rw [adv.config]
    have before := h.limits i member (adv.live_before h live)
    by_cases scheduled : i ∈ prefill ++ t.running
    · exact limits_of_turn (adv.turn i scheduled) live before
    · rwa [adv.others i scheduled]
  case named =>
    intro i member
    by_cases scheduled : i ∈ prefill ++ t.running
    · rw [(request_of_turn (adv.turn i scheduled)).1]
      exact h.named i member
    · rw [adv.others i scheduled]
      exact h.named i member
  case whole =>
    intro plain
    rw [adv.config] at plain
    obtain ⟨none, complete⟩ := h.whole plain
    by_cases first : prefill = []
    · rw [adv.chunk, if_pos first, none]
    · cases chunk : w.chunkedReq with
      | none => rfl
      | some c =>
          obtain ⟨listed, part⟩ := chunked c chunk first
          obtain ⟨chain, kept⟩ := h.kept
          have scheduled := List.mem_append_left t.running listed
          have past := (adv.turn c scheduled).complete_prompt (kept.held.wf c (h.member scheduled).1)
            (complete c listed)
          simp only [isPartial, decide_eq_true_eq] at part
          rcases past with ended | beyond
          · exact absurd ended part.1
          · exact absurd part.2 beyond

end Advanced

end Postprocess

end NanoVllm
