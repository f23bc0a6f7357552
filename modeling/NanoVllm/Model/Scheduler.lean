import Mathlib.Data.List.Sort
import NanoVllm.Model.BlockManager

set_option autoImplicit false

namespace NanoVllm

open Python Raising

/-- The fields of `Config` that the scheduler reads, with what `__post_init__` checks of them. -/
structure Config where
  maxNumBatchedTokens : Nat := 16384
  maxNumSeqs : Nat := 512
  maxModelLen : Nat := 40960
  eos : Token := -1
  kvcacheBlockSize : Nat := 16
  numKvcacheBlocks : Nat
  chunkedPrefill : Bool := false
  enableLpm : Bool := true
  enableSameStepPrefixReuse : Bool := true
  kvcacheBlockSize_pos : 0 < kvcacheBlockSize := by decide

/-- `seqs` holds the `Sequence` objects, which the queues share by reference, under their `seq_id`. -/
structure Scheduler where
  config : Config
  blockManager : BlockManager
  waiting : List SeqId
  chunkedReq : Option SeqId
  running : List SeqId
  numScheduledPrefillSeqs : Nat
  numScheduledPrefillTokens : Nat
  initialPersistentHitBlocksBySeq : Dict SeqId Nat
  sameStepHitBlocksBySeq : Dict SeqId Nat
  seqs : SeqId → Sequence

abbrev Sched := EStateM PyError Scheduler

namespace Scheduler

def raised (text : String) : PyError := .assertionError .scheduler text

def init (config : Config) : Except PyError Scheduler := do
  let blockManager ← BlockManager.init config.numKvcacheBlocks config.kvcacheBlockSize
  pure
    { config
      blockManager
      waiting := []
      chunkedReq := none
      running := []
      numScheduledPrefillSeqs := 0
      numScheduledPrefillTokens := 0
      initialPersistentHitBlocksBySeq := Dict.empty
      sameStepHitBlocksBySeq := Dict.empty
      seqs := fun _ => default }

def isFinished (s : Scheduler) : Bool := s.waiting.isEmpty && s.chunkedReq.isNone && s.running.isEmpty

def frame (s : Scheduler) (i : SeqId) : Frame := ⟨s.blockManager, s.seqs i⟩

def store (s : Scheduler) (i : SeqId) (f : Frame) : Scheduler :=
  { s with blockManager := f.manager, seqs := Function.update s.seqs i f.seq }

-- Call a BlockManager method on the sequence `i`.
def onSeq {α : Type} (i : SeqId) (x : Method α) : Sched α :=
  zoom (fun s => s.frame i) (fun s f => s.store i f) x

def setSeq (s : Scheduler) (i : SeqId) (seq : Sequence) : Scheduler :=
  { s with seqs := Function.update s.seqs i seq }

def modifySeq (i : SeqId) (change : Sequence → Sequence) : Sched Unit :=
  modify (fun s => s.setSeq i (change (s.seqs i)))

def add (seq : Sequence) : Sched Unit := do
  let s ← get
  require ((seq.numTokens : Int) ≤ (s.config.maxModelLen : Int) - 1)
    (raised "Sequence length exceeds max_model_len")
  modify (fun s => { s.setSeq seq.seqId seq with waiting := s.waiting ++ [seq.seqId] })

-- `sum(block_manager.num_blocks_to_append(seq, 1) for seq in ...)`
def blocksToAppend (s : Scheduler) : List SeqId → Except PyError Nat
  | [] => pure 0
  | i :: rest => do
      let blocks ← s.blockManager.numBlocksToAppend (s.seqs i) 1
      let others ← blocksToAppend s rest
      pure (blocks + others)

def preempt (i : SeqId) : Sched Unit := do
  modifySeq i (fun seq => { seq with status := .waiting })
  onSeq i BlockManager.deallocate
  modify (fun s => { s with waiting := i :: s.waiting })

-- Every turn that does not return pops `running`, so its length is fuel enough.
def preemptDecodeTailFrom : Nat → Sched Unit
  | 0 => pure ()
  | fuel + 1 => do
      let s ← get
      match s.running.getLast? with
      | none => pure ()
      | some tail => do
          let decodeBlocks ← ofExcept (s.blocksToAppend s.running)
          if s.running.length ≤ s.config.maxNumBatchedTokens ∧
              decodeBlocks ≤ s.blockManager.freeBlockIds.length then
            pure ()
          else do
            modify (fun s => { s with running := s.running.dropLast })
            preempt tail
            preemptDecodeTailFrom fuel

def preemptDecodeTail : Sched Unit := do
  let s ← get
  preemptDecodeTailFrom s.running.length

def matchWaitingFrom (s : Scheduler) :
    List SeqId → Dict SeqId (List BlockId) → Except PyError (Dict SeqId (List BlockId))
  | [], realPrefixes => pure realPrefixes
  | i :: rest, realPrefixes => do
      let matched ← s.blockManager.matchPrefix (s.seqs i)
      matchWaitingFrom s rest (realPrefixes.insert i matched)

def matchWaiting (s : Scheduler) : Except PyError (Dict SeqId (List BlockId)) :=
  matchWaitingFrom s s.waiting Dict.empty

def rankKey (s : Scheduler) (initialPrefixes : Dict SeqId (List BlockId)) (i : SeqId) : Int :=
  if s.config.enableLpm then -(((initialPrefixes i).getD []).length : Int) else 0

-- `sorted` is stable, and so is insertion sort.
def rankWaiting (s : Scheduler) (waiting : List SeqId) (initialPrefixes : Dict SeqId (List BlockId)) :
    List SeqId :=
  waiting.insertionSort (fun i j => s.rankKey initialPrefixes i ≤ s.rankKey initialPrefixes j)

-- `initial_prefixes[seq]`
def prefixesOf (initialPrefixes : Dict SeqId (List BlockId)) (i : SeqId) : Except PyError (List BlockId) :=
  match initialPrefixes i with
  | some blockIds => .ok blockIds
  | none => .error .keyError

def recordPrefixHits (i : SeqId) (initialBlocks latestBlocks : Nat) : Sched Unit := do
  let claimedInitial := min initialBlocks latestBlocks
  let sameStepBlocks := latestBlocks - initialBlocks
  if claimedInitial ≠ 0 then
    modify (fun s => { s with
      initialPersistentHitBlocksBySeq := s.initialPersistentHitBlocksBySeq.insert i claimedInitial })
  if sameStepBlocks ≠ 0 then
    modify (fun s => { s with
      sameStepHitBlocksBySeq := s.sameStepHitBlocksBySeq.insert i sameStepBlocks })

-- `self.waiting.remove(seq)`
def removeWaiting (i : SeqId) : Sched Unit := do
  let s ← get
  require (i ∈ s.waiting) (PyError.valueError "deque.remove(x): x not in deque")
  set { s with waiting := s.waiting.erase i }

def commitWaitingSameStepFrom (initialPrefixes : Dict SeqId (List BlockId)) (reservedBlocks active : Nat) :
    List SeqId → Nat → List SeqId → Sched (List SeqId)
  | [], _, committed => pure committed
  | i :: rest, tokenBudget, committed => do
      let s ← get
      let m := s.blockManager
      let seq := s.seqs i
      if active + committed.length ≥ s.config.maxNumSeqs then pure committed
      else do
        let latestBlocks ← ofExcept (m.matchPrefix seq)
        let cachedTokens := seq.numCachedTokens + latestBlocks.length * m.blockSize
        let remaining := seq.numTokens - cachedTokens
        require (remaining > 0) (raised "remaining > 0")
        if ¬s.config.chunkedPrefill ∧ remaining > tokenBudget then pure committed
        else do
          let numNewTokens := min remaining tokenBudget
          if numNewTokens = 0 then pure committed
          else do
            let requiredBlocks ← ofExcept (m.numBlocksRequiredForAdmission latestBlocks numNewTokens)
            require (reservedBlocks ≤ m.freeBlockIds.length) (raised "available_blocks >= 0")
            let availableBlocks := m.freeBlockIds.length - reservedBlocks
            if requiredBlocks > availableBlocks then pure committed
            else do
              onSeq i (BlockManager.claimPrefix latestBlocks)
              modifySeq i (fun seq => { seq with numNewTokens })
              onSeq i BlockManager.allocateNew
              let initialBlocks ← ofExcept (prefixesOf initialPrefixes i)
              recordPrefixHits i initialBlocks.length latestBlocks.length
              modifySeq i (fun seq => { seq with status := .running })
              removeWaiting i
              if numNewTokens < remaining then pure (committed ++ [i])
              else
                commitWaitingSameStepFrom initialPrefixes reservedBlocks active rest
                  (tokenBudget - numNewTokens) (committed ++ [i])

def commitWaitingSameStep (ranked : List SeqId) (initialPrefixes : Dict SeqId (List BlockId))
    (tokenBudget reservedBlocks active : Nat) : Sched (List SeqId) :=
  commitWaitingSameStepFrom initialPrefixes reservedBlocks active ranked tokenBudget []

-- A request of `admitted` with its entry of `admission`.
structure Admission where
  seqId : SeqId
  initialBlocks : List BlockId
  contextEnd : Nat

def planFrozenFrom (s : Scheduler) (initialPrefixes : Dict SeqId (List BlockId)) (active : Nat) :
    List SeqId → Nat → Nat → Finset BlockId → List Admission → Except PyError (List Admission)
  | [], _, _, _, admitted => pure admitted
  | i :: rest, tokenBudget, freeBudget, protectedFreeIds, admitted => do
      let m := s.blockManager
      let seq := s.seqs i
      if active + admitted.length ≥ s.config.maxNumSeqs then pure admitted
      else do
        let initialBlocks ← prefixesOf initialPrefixes i
        let cachedTokens := seq.numCachedTokens + initialBlocks.length * m.blockSize
        let remaining := seq.numTokens - cachedTokens
        require (remaining > 0) (raised "remaining > 0")
        if ¬s.config.chunkedPrefill ∧ remaining > tokenBudget then pure admitted
        else do
          let numNewTokens := min remaining tokenBudget
          if numNewTokens = 0 then pure admitted
          else do
            let newlyProtected :=
              initialBlocks.toFinset.filter (fun b => b ∈ m.freeBlockIds ∧ b ∉ protectedFreeIds)
            let newBlocks := pagesFor m.blockSize numNewTokens
            if newlyProtected.card + newBlocks > freeBudget then pure admitted
            else
              let admitted := admitted ++ [⟨i, initialBlocks, cachedTokens + numNewTokens⟩]
              if numNewTokens < remaining then pure admitted
              else
                planFrozenFrom s initialPrefixes active rest (tokenBudget - numNewTokens)
                  (freeBudget - (newlyProtected.card + newBlocks)) (protectedFreeIds ∪ newlyProtected) admitted

def planFrozen (s : Scheduler) (ranked : List SeqId) (initialPrefixes : Dict SeqId (List BlockId))
    (tokenBudget freeBudget active : Nat) : Except PyError (List Admission) :=
  planFrozenFrom s initialPrefixes active ranked tokenBudget freeBudget ∅ []

def claimAdmitted (a : Admission) : Sched Unit :=
  onSeq a.seqId (BlockManager.claimPrefix a.initialBlocks)

def allocateAdmitted (a : Admission) : Sched Unit := do
  modifySeq a.seqId (fun seq => { seq with numNewTokens := a.contextEnd - seq.numCachedTokens })
  let s ← get
  require ((s.seqs a.seqId).numNewTokens > 0) (raised "seq.num_new_tokens > 0")
  onSeq a.seqId BlockManager.allocateNew
  recordPrefixHits a.seqId a.initialBlocks.length a.initialBlocks.length
  modifySeq a.seqId (fun seq => { seq with status := .running })
  removeWaiting a.seqId

-- What `schedule` decides about `chunked_req`, with the budgets that are left.
structure ChunkPlan where
  scheduledChunked : Option SeqId
  chunkedTokens : Nat
  tokenBudget : Nat
  freeBudget : Nat
  allowWaiting : Bool

def planChunk (s : Scheduler) (tokenBudget freeBudget : Nat) : Except PyError ChunkPlan :=
  match s.chunkedReq with
  | none => pure ⟨none, 0, tokenBudget, freeBudget, true⟩
  | some chunked => do
      let remaining := (s.seqs chunked).numTokens - (s.seqs chunked).numCachedTokens
      require (remaining > 0) (raised "remaining > 0")
      let chunkedTokens := min remaining tokenBudget
      let chunkedBlocks ← s.blockManager.numBlocksToAppend (s.seqs chunked) chunkedTokens
      if chunkedTokens = 0 ∨ chunkedBlocks > freeBudget then
        pure ⟨none, 0, tokenBudget, freeBudget, false⟩
      else
        pure ⟨some chunked, chunkedTokens, tokenBudget - chunkedTokens, freeBudget - chunkedBlocks,
          !decide (chunkedTokens < remaining)⟩

def appendChunk (plan : ChunkPlan) : Sched (List SeqId) :=
  match plan.scheduledChunked with
  | none => pure []
  | some chunked => do
      modifySeq chunked (fun seq => { seq with numNewTokens := plan.chunkedTokens })
      onSeq chunked BlockManager.mayAppend
      pure [chunked]

-- The ranked waiting requests and their initial prefixes, when requests may be admitted.
def rankedWaiting (s : Scheduler) (plan : ChunkPlan) :
    Except PyError (List SeqId × Dict SeqId (List BlockId)) := do
  if plan.allowWaiting ∧ s.waiting ≠ [] ∧ plan.tokenBudget > 0 then
    let initialPrefixes ← s.matchWaiting
    pure (s.rankWaiting s.waiting initialPrefixes, initialPrefixes)
  else
    pure ([], Dict.empty)

def admitSameStep (plan : ChunkPlan) (ranked : List SeqId) (initialPrefixes : Dict SeqId (List BlockId))
    (decodeBlocks active : Nat) : Sched (List SeqId) := do
  let chunk ← appendChunk plan
  let waitingPrefills ← commitWaitingSameStep ranked initialPrefixes plan.tokenBudget decodeBlocks active
  pure (chunk ++ waitingPrefills)

def admitFrozen (plan : ChunkPlan) (ranked : List SeqId) (initialPrefixes : Dict SeqId (List BlockId))
    (active : Nat) : Sched (List SeqId) := do
  let s ← get
  let admitted ← ofExcept
    (s.planFrozen ranked initialPrefixes plan.tokenBudget plan.freeBudget active)
  forEach claimAdmitted admitted
  let chunk ← appendChunk plan
  forEach allocateAdmitted admitted
  pure (chunk ++ admitted.map Admission.seqId)

def uncomputedIsOne : PyError := raised "len(seq) - seq.num_cached_tokens == 1"

def appendDecode (i : SeqId) : Sched Unit := do
  let s ← get
  require ((s.seqs i).numTokens - (s.seqs i).numCachedTokens = 1) uncomputedIsOne
  modifySeq i (fun seq => { seq with numNewTokens := 1 })
  onSeq i BlockManager.mayAppend

def uncachedExceedsBudget : PyError :=
  .valueError "uncached prompt tokens exceed max_num_batched_tokens; enable chunked_prefill"

def cannotMakeProgress : PyError :=
  .runtimeError "scheduler cannot make progress with the current token/KV budget"

def raiseNoProgress (ranked : List SeqId) (initialPrefixes : Dict SeqId (List BlockId)) : Sched Unit := do
  let s ← get
  match ranked with
  | first :: _ =>
      if ¬s.config.chunkedPrefill then do
        let prefixBlocks ← ofExcept
          (if s.config.enableSameStepPrefixReuse then s.blockManager.matchPrefix (s.seqs first)
          else prefixesOf initialPrefixes first)
        let cachedTokens := (s.seqs first).numCachedTokens + prefixBlocks.length * s.blockManager.blockSize
        if (s.seqs first).numTokens - cachedTokens > s.config.maxNumBatchedTokens then
          throw uncachedExceedsBudget
  | [] => pure ()
  throw cannotMakeProgress

def resetCounters (s : Scheduler) : Scheduler :=
  { s with
    numScheduledPrefillSeqs := 0
    numScheduledPrefillTokens := 0
    initialPersistentHitBlocksBySeq := Dict.empty
    sameStepHitBlocksBySeq := Dict.empty }

def schedule : Sched (List SeqId) := do
  modify resetCounters
  preemptDecodeTail
  let s ← get
  let decodeSeqs := s.running
  let decodeBlocks ← ofExcept (s.blocksToAppend decodeSeqs)
  require (decodeSeqs.length ≤ s.config.maxNumBatchedTokens ∧
      decodeBlocks ≤ s.blockManager.freeBlockIds.length)
    (raised "token_budget >= 0 and free_budget >= 0")
  let plan ← ofExcept (s.planChunk (s.config.maxNumBatchedTokens - decodeSeqs.length)
    (s.blockManager.freeBlockIds.length - decodeBlocks))
  let (ranked, initialPrefixes) ← ofExcept (s.rankedWaiting plan)
  let active := decodeSeqs.length + (if s.chunkedReq.isSome then 1 else 0)
  let prefillSeqs ←
    if s.config.enableSameStepPrefixReuse then
      admitSameStep plan ranked initialPrefixes decodeBlocks active
    else
      admitFrozen plan ranked initialPrefixes active
  forEach appendDecode decodeSeqs
  let scheduled := prefillSeqs ++ decodeSeqs
  if scheduled = [] then
    raiseNoProgress ranked initialPrefixes
  modify (fun s => { s with
    numScheduledPrefillSeqs := prefillSeqs.length
    numScheduledPrefillTokens := (prefillSeqs.map (fun i => (s.seqs i).numNewTokens)).sum })
  pure scheduled

def finish (i : SeqId) : Sched Unit := do
  modifySeq i (fun seq => { seq with status := .finished })
  onSeq i BlockManager.deallocate
  modify (fun s => { s with
    chunkedReq := if s.chunkedReq = some i then none else s.chunkedReq
    running := s.running.erase i })

-- The test that ends a request after a token was appended.
def stops (config : Config) (seq : Sequence) (tokenId : Token) : Bool :=
  (!seq.ignoreEos && decide (tokenId = config.eos)) ||
    decide (seq.numCompletionTokens ≥ seq.maxTokens) || decide (seq.numTokens ≥ config.maxModelLen)

def appendSampled (xxh64 : XxHash) (seqs : List SeqId) (sampled : Nat × Token) : Sched Unit := do
  match seqs[sampled.1]? with
  | none => throw (.indexError "list index out of range")
  | some i => do
      zoom (fun s => s.seqs i) (fun s seq => s.setSeq i seq) (Sequence.appendToken xxh64 sampled.2)
      let s ← get
      if stops s.config (s.seqs i) sampled.2 then
        finish i

def advance (i : SeqId) : Sched Unit :=
  modifySeq i (fun seq =>
    if seq.status ≠ .finished then
      { seq with numCachedTokens := seq.numCachedTokens + seq.numNewTokens, numNewTokens := 0 }
    else seq)

-- The partial prefills, in batch order; a complete prefill joins `running`.
def settlePrefills : List SeqId → List SeqId → Sched (List SeqId)
  | [], partialPrefills => pure partialPrefills
  | i :: rest, partialPrefills => do
      let s ← get
      let seq := s.seqs i
      if seq.status = .finished then
        settlePrefills rest partialPrefills
      else if seq.numCachedTokens < seq.numPromptTokens then
        settlePrefills rest (partialPrefills ++ [i])
      else do
        if i ∉ s.running then
          set { s with running := s.running ++ [i] }
        settlePrefills rest partialPrefills

def postprocess (xxh64 : XxHash) (seqs : List SeqId) (tokenIds : List Token) (logitsIndices : List Nat) :
    Sched Unit := do
  require (tokenIds.length = logitsIndices.length) (raised "len(token_ids) == len(logits_indices)")
  forEach (appendSampled xxh64 seqs) (logitsIndices.zip tokenIds)
  forEach advance seqs
  let s ← get
  let prefillSeqs := seqs.take s.numScheduledPrefillSeqs
  let partialPrefills ← settlePrefills prefillSeqs []
  require (partialPrefills.length ≤ 1) (raised "len(partial_prefills) <= 1")
  if prefillSeqs ≠ [] then
    modify (fun s => { s with chunkedReq := partialPrefills.head? })

end Scheduler

end NanoVllm
