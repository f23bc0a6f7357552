import Mathlib.Data.Finset.Sort
import NanoVllm.Model.Scheduler
import NanoVllm.Shared.Items

set_option autoImplicit false

namespace NanoVllm

open Python Raising

structure RequestSpec where
  name : String
  promptTokenIds : List Token
  sharedPrefixLen : Nat := 0

-- Of a time it only matters whether it is set.
structure RequestObservation where
  spec : RequestSpec
  firstTokenAt : Bool := false
  completedAt : Bool := false
  initialPersistentHitTokens : Nat := 0
  sameStepHitTokens : Nat := 0
  computedPromptTokens : Nat := 0
  computedSharedPrefixTokens : Nat := 0

-- A row of `prefix_claims`.
structure PrefixClaim where
  seqId : SeqId
  blockCount : Nat
  hitTokens : Nat

-- A row of `scheduled`.
structure ScheduledRow where
  seqId : SeqId
  cachedTokensBeforeForward : Nat
  initialPersistentHitTokens : Nat
  sameStepHitTokens : Nat
  newTokens : Nat
  computedPromptTokens : Nat
  computedSharedPrefixTokens : Nat

-- The fields behind `preemptions` are added when the step is scheduled, and the claims by request are popped. Evictions,
-- names, times and the queues behind the step are left out.
structure StepRecord where
  step : Nat
  initialPersistentHitTokens : Nat := 0
  sameStepHitTokens : Nat := 0
  claimedPrefixTokens : Nat := 0
  prefixClaims : List PrefixClaim := []
  claimedPrefixBlocksBySeq : Items SeqId Nat := Items.empty
  preemptions : List SeqId := []
  scheduled : List ScheduledRow := []
  numScheduledPrefillSeqs : Nat := 0
  numScheduledPrefillTokens : Nat := 0
  computedPromptTokens : Nat := 0
  computedSharedPrefixTokens : Nat := 0
  sameStepReusedBlocks : Nat := 0
  sameStepReusedSeqIds : List SeqId := []

structure SchedulerMetrics where
  observations : Items SeqId RequestObservation
  steps : List StepRecord := []
  initialPersistentHitTokens : Nat := 0
  sameStepHitTokens : Nat := 0
  claimedPrefixTokens : Nat := 0
  computedPromptTokens : Nat := 0
  computedSharedPrefixTokens : Nat := 0
  preemptions : Nat := 0
  sameStepReusedIds : Finset SeqId := ∅
  sameStepReusedBlocks : Nat := 0
  activeStep : Option StepRecord := none
  pendingStep : Option StepRecord := none

structure Hooked where
  scheduler : Scheduler
  initialItems : Items SeqId Nat := Items.empty
  sameStepItems : Items SeqId Nat := Items.empty
  metrics : SchedulerMetrics

abbrev Metered := EStateM PyError Hooked

def StepRecord.claimed (blockSize : Nat) (i : SeqId) (hitBlocks : Nat) (step : StepRecord) : StepRecord :=
  { step with
    prefixClaims := step.prefixClaims ++ [⟨i, hitBlocks, hitBlocks * blockSize⟩]
    claimedPrefixBlocksBySeq :=
      step.claimedPrefixBlocksBySeq.put i (step.claimedPrefixBlocksBySeq.getD i 0 + hitBlocks)
    claimedPrefixTokens := step.claimedPrefixTokens + hitBlocks * blockSize }

namespace SchedulerMetrics

def raised (text : String) : PyError := .assertionError .benchmark text

def claimed (blockSize : Nat) (i : SeqId) (hitBlocks : Nat) (m : SchedulerMetrics) : SchedulerMetrics :=
  { m with
    claimedPrefixTokens := m.claimedPrefixTokens + hitBlocks * blockSize
    activeStep :=
      if hitBlocks * blockSize ≠ 0 then m.activeStep.map (StepRecord.claimed blockSize i hitBlocks)
      else m.activeStep }

def preempted (i : SeqId) (m : SchedulerMetrics) : SchedulerMetrics :=
  { m with
    preemptions := m.preemptions + 1
    activeStep := m.activeStep.map (fun step => { step with preemptions := step.preemptions ++ [i] }) }

def computedPrompt (seq : Sequence) : Nat := min seq.numNewTokens (seq.numPromptTokens - seq.numCachedTokens)

def sharedComputed (seq : Sequence) (sharedLen : Nat) : Nat :=
  min (seq.numCachedTokens + computedPrompt seq) sharedLen - min seq.numCachedTokens sharedLen

end SchedulerMetrics

namespace Hooked

open SchedulerMetrics

def onScheduler {α : Type} (x : Sched α) : Metered α :=
  zoom Hooked.scheduler (fun h s => { h with scheduler := s }) x

def onMetrics (change : SchedulerMetrics → SchedulerMetrics) (h : Hooked) : Hooked :=
  { h with metrics := change h.metrics }

def claimPrefixHook (i : SeqId) (blockIds : List BlockId) : Metered Unit := do
  onScheduler (Scheduler.onSeq i (BlockManager.claimPrefix blockIds))
  modify (fun h => h.onMetrics (claimed h.scheduler.blockManager.blockSize i blockIds.length))

def preemptHook (i : SeqId) : Metered Unit := do
  onScheduler (Scheduler.preempt i)
  modify (onMetrics (preempted i))

def recorded (i : SeqId) (initialBlocks latestBlocks : Nat) (h : Hooked) : Hooked :=
  { h with
    initialItems :=
      if min initialBlocks latestBlocks ≠ 0 then h.initialItems.put i (min initialBlocks latestBlocks)
      else h.initialItems
    sameStepItems :=
      if latestBlocks - initialBlocks ≠ 0 then h.sameStepItems.put i (latestBlocks - initialBlocks)
      else h.sameStepItems }

def recordPrefixHits (i : SeqId) (initialBlocks latestBlocks : Nat) : Metered Unit := do
  onScheduler (Scheduler.recordPrefixHits i initialBlocks latestBlocks)
  modify (recorded i initialBlocks latestBlocks)

-- The methods of the scheduler again, which call the hooks by their names.
def preemptDecodeTailFrom : Nat → Metered Unit
  | 0 => pure ()
  | fuel + 1 => do
      let h ← get
      let s := h.scheduler
      match s.running.getLast? with
      | none => pure ()
      | some tail => do
          let decodeBlocks ← ofExcept (s.blocksToAppend s.running)
          if s.running.length ≤ s.config.maxNumBatchedTokens ∧
              decodeBlocks ≤ s.blockManager.freeBlockIds.length then
            pure ()
          else do
            onScheduler (modify (fun s => { s with running := s.running.dropLast }))
            preemptHook tail
            preemptDecodeTailFrom fuel

def preemptDecodeTail : Metered Unit := do
  let h ← get
  preemptDecodeTailFrom h.scheduler.running.length

def commitWaitingSameStepFrom (initialPrefixes : Dict SeqId (List BlockId)) (reservedBlocks active : Nat) :
    List SeqId → Nat → List SeqId → Metered (List SeqId)
  | [], _, committed => pure committed
  | i :: rest, tokenBudget, committed => do
      let h ← get
      let s := h.scheduler
      let m := s.blockManager
      let seq := s.seqs i
      if active + committed.length ≥ s.config.maxNumSeqs then pure committed
      else do
        let latestBlocks ← ofExcept (m.matchPrefix seq)
        let cachedTokens := seq.numCachedTokens + latestBlocks.length * m.blockSize
        let remaining := seq.numTokens - cachedTokens
        require (remaining > 0) (Scheduler.raised "remaining > 0")
        if ¬s.config.chunkedPrefill ∧ remaining > tokenBudget then pure committed
        else do
          let numNewTokens := min remaining tokenBudget
          if numNewTokens = 0 then pure committed
          else do
            let requiredBlocks ← ofExcept (m.numBlocksRequiredForAdmission latestBlocks numNewTokens)
            require (reservedBlocks ≤ m.freeBlockIds.length) (Scheduler.raised "available_blocks >= 0")
            let availableBlocks := m.freeBlockIds.length - reservedBlocks
            if requiredBlocks > availableBlocks then pure committed
            else do
              claimPrefixHook i latestBlocks
              onScheduler (Scheduler.modifySeq i (fun seq => { seq with numNewTokens }))
              onScheduler (Scheduler.onSeq i BlockManager.allocateNew)
              let initialBlocks ← ofExcept (Scheduler.prefixesOf initialPrefixes i)
              recordPrefixHits i initialBlocks.length latestBlocks.length
              onScheduler (Scheduler.modifySeq i (fun seq => { seq with status := .running }))
              onScheduler (Scheduler.removeWaiting i)
              if numNewTokens < remaining then pure (committed ++ [i])
              else
                commitWaitingSameStepFrom initialPrefixes reservedBlocks active rest
                  (tokenBudget - numNewTokens) (committed ++ [i])

def commitWaitingSameStep (ranked : List SeqId) (initialPrefixes : Dict SeqId (List BlockId))
    (tokenBudget reservedBlocks active : Nat) : Metered (List SeqId) :=
  commitWaitingSameStepFrom initialPrefixes reservedBlocks active ranked tokenBudget []

def claimAdmitted (a : Scheduler.Admission) : Metered Unit := claimPrefixHook a.seqId a.initialBlocks

def allocateAdmitted (a : Scheduler.Admission) : Metered Unit := do
  onScheduler (Scheduler.modifySeq a.seqId (fun seq => { seq with numNewTokens := a.contextEnd - seq.numCachedTokens }))
  let h ← get
  require ((h.scheduler.seqs a.seqId).numNewTokens > 0) (Scheduler.raised "seq.num_new_tokens > 0")
  onScheduler (Scheduler.onSeq a.seqId BlockManager.allocateNew)
  recordPrefixHits a.seqId a.initialBlocks.length a.initialBlocks.length
  onScheduler (Scheduler.modifySeq a.seqId (fun seq => { seq with status := .running }))
  onScheduler (Scheduler.removeWaiting a.seqId)

def admitSameStep (plan : Scheduler.ChunkPlan) (ranked : List SeqId) (initialPrefixes : Dict SeqId (List BlockId))
    (decodeBlocks active : Nat) : Metered (List SeqId) := do
  let chunk ← onScheduler (Scheduler.appendChunk plan)
  let waitingPrefills ← commitWaitingSameStep ranked initialPrefixes plan.tokenBudget decodeBlocks active
  pure (chunk ++ waitingPrefills)

def admitFrozen (plan : Scheduler.ChunkPlan) (ranked : List SeqId) (initialPrefixes : Dict SeqId (List BlockId))
    (active : Nat) : Metered (List SeqId) := do
  let h ← get
  let admitted ← ofExcept
    (h.scheduler.planFrozen ranked initialPrefixes plan.tokenBudget plan.freeBudget active)
  forEach claimAdmitted admitted
  let chunk ← onScheduler (Scheduler.appendChunk plan)
  forEach allocateAdmitted admitted
  pure (chunk ++ admitted.map Scheduler.Admission.seqId)

-- The dicts of hits are new in every step.
def resetCounters (h : Hooked) : Hooked :=
  { h with
    scheduler := h.scheduler.resetCounters
    initialItems := Items.empty
    sameStepItems := Items.empty }

def schedule : Metered (List SeqId) := do
  modify resetCounters
  preemptDecodeTail
  let h ← get
  let s := h.scheduler
  let decodeSeqs := s.running
  let decodeBlocks ← ofExcept (s.blocksToAppend decodeSeqs)
  require (decodeSeqs.length ≤ s.config.maxNumBatchedTokens ∧
      decodeBlocks ≤ s.blockManager.freeBlockIds.length)
    (Scheduler.raised "token_budget >= 0 and free_budget >= 0")
  let plan ← ofExcept (s.planChunk (s.config.maxNumBatchedTokens - decodeSeqs.length)
    (s.blockManager.freeBlockIds.length - decodeBlocks))
  let (ranked, initialPrefixes) ← ofExcept (s.rankedWaiting plan)
  let active := decodeSeqs.length + (if s.chunkedReq.isSome then 1 else 0)
  let prefillSeqs ←
    if s.config.enableSameStepPrefixReuse then
      admitSameStep plan ranked initialPrefixes decodeBlocks active
    else
      admitFrozen plan ranked initialPrefixes active
  forEach (fun i => onScheduler (Scheduler.appendDecode i)) decodeSeqs
  let scheduled := prefillSeqs ++ decodeSeqs
  if scheduled = [] then
    onScheduler (Scheduler.raiseNoProgress ranked initialPrefixes)
  onScheduler (modify (fun s => { s with
    numScheduledPrefillSeqs := prefillSeqs.length
    numScheduledPrefillTokens := (prefillSeqs.map (fun i => (s.seqs i).numNewTokens)).sum }))
  pure scheduled

-- Both dicts count, and the order of the set plays no part.
def classifiedSeqIds (h : Hooked) : List SeqId := (h.initialItems.keys ++ h.sameStepItems.keys).dedup

-- What `schedule_hook` asserts of a step that was scheduled.
def checkClaims (h : Hooked) (step : StepRecord) : Except PyError Unit := do
  let claimedBlocksBySeq := step.claimedPrefixBlocksBySeq
  let classified := h.classifiedSeqIds.insertionSort (· ≤ ·)
  let claimed := claimedBlocksBySeq.keys.insertionSort (· ≤ ·)
  require (h.classifiedSeqIds.toFinset = claimedBlocksBySeq.keys.toFinset)
    (raised s!"scheduler prefix-hit classification differs from claims: classified={classified}, claimed={claimed}")
  claimedBlocksBySeq.entries.forM (fun (seqId, claimedBlocks) => do
    let initialBlocks := h.initialItems.getD seqId 0
    let sameStepBlocks := h.sameStepItems.getD seqId 0
    require (initialBlocks + sameStepBlocks = claimedBlocks)
      (raised (s!"initial + same-step prefix blocks must equal claimed blocks for seq {seqId}: " ++
        s!"{initialBlocks} + {sameStepBlocks} != {claimedBlocks}")))
  let blockSize := h.scheduler.blockManager.blockSize
  require (h.initialItems.values.sum * blockSize + h.sameStepItems.values.sum * blockSize = step.claimedPrefixTokens)
    (raised "initial + same-step hit tokens must equal claimed prefix tokens")

-- The row of a request in the record of the step; only an observed request has a shared part.
def row (h : Hooked) (i : SeqId) : ScheduledRow :=
  let seq := h.scheduler.seqs i
  let blockSize := h.scheduler.blockManager.blockSize
  { seqId := i
    cachedTokensBeforeForward := seq.numCachedTokens
    initialPersistentHitTokens := h.initialItems.getD i 0 * blockSize
    sameStepHitTokens := h.sameStepItems.getD i 0 * blockSize
    newTokens := seq.numNewTokens
    computedPromptTokens := computedPrompt seq
    computedSharedPrefixTokens :=
      match h.metrics.observations.get? i with
      | none => 0
      | some observation => sharedComputed seq observation.spec.sharedPrefixLen }

def classify (h : Hooked) (i : SeqId) (observation : RequestObservation) : RequestObservation :=
  let blockSize := h.scheduler.blockManager.blockSize
  { observation with
    initialPersistentHitTokens := observation.initialPersistentHitTokens + h.initialItems.getD i 0 * blockSize
    sameStepHitTokens := observation.sameStepHitTokens + h.sameStepItems.getD i 0 * blockSize }

def compute (h : Hooked) (i : SeqId) (observation : RequestObservation) : RequestObservation :=
  let seq := h.scheduler.seqs i
  { observation with
    computedPromptTokens := observation.computedPromptTokens + computedPrompt seq
    computedSharedPrefixTokens :=
      observation.computedSharedPrefixTokens + sharedComputed seq observation.spec.sharedPrefixLen }

def record (scheduled : List SeqId) (step : StepRecord) (h : Hooked) : Hooked :=
  let m := h.metrics
  let blockSize := h.scheduler.blockManager.blockSize
  let rows := scheduled.map h.row
  let initialTokens := h.initialItems.values.sum * blockSize
  let sameStepTokens := h.sameStepItems.values.sum * blockSize
  let computedTokens := (rows.map ScheduledRow.computedPromptTokens).sum
  let sharedTokens := (rows.map ScheduledRow.computedSharedPrefixTokens).sum
  let classified := h.classifiedSeqIds.foldl (fun d i => d.modify i (h.classify i)) m.observations
  { h with
    metrics :=
      { m with
        observations := scheduled.foldl (fun d i => d.modify i (h.compute i)) classified
        initialPersistentHitTokens := m.initialPersistentHitTokens + initialTokens
        sameStepHitTokens := m.sameStepHitTokens + sameStepTokens
        sameStepReusedBlocks := m.sameStepReusedBlocks + h.sameStepItems.values.sum
        sameStepReusedIds := m.sameStepReusedIds ∪ h.sameStepItems.keys.toFinset
        computedPromptTokens := m.computedPromptTokens + computedTokens
        computedSharedPrefixTokens := m.computedSharedPrefixTokens + sharedTokens
        activeStep := none
        pendingStep := some
          { step with
            claimedPrefixBlocksBySeq := Items.empty
            initialPersistentHitTokens := initialTokens
            sameStepHitTokens := sameStepTokens
            scheduled := rows
            numScheduledPrefillSeqs := h.scheduler.numScheduledPrefillSeqs
            numScheduledPrefillTokens := h.scheduler.numScheduledPrefillTokens
            computedPromptTokens := computedTokens
            computedSharedPrefixTokens := sharedTokens
            sameStepReusedBlocks := h.sameStepItems.values.sum
            sameStepReusedSeqIds := scheduled.filter (fun i => decide (h.sameStepItems.getD i 0 > 0)) } } }

-- `schedule` with the handler that forgets the active step.
def scheduleActive : Metered (List SeqId) := fun h =>
  match schedule h with
  | .ok scheduled h => .ok scheduled h
  | .error e h => .error e (h.onMetrics (fun m => { m with activeStep := none }))

def scheduleHook : Metered (List SeqId) := do
  let h ← get
  require (h.metrics.pendingStep.isNone = true) (PyError.runtimeError "previous scheduler step was not finalized")
  let fresh : StepRecord := { step := h.metrics.steps.length }
  modify (onMetrics (fun m => { m with activeStep := some fresh }))
  let scheduled ← scheduleActive
  let h ← get
  -- The step and the active step are one object.
  let step := h.metrics.activeStep.getD fresh
  ofExcept (h.checkClaims step)
  modify (record scheduled step)
  pure scheduled

-- The times that `_run_measured_to_completion` takes after a step.
def observe (h : Hooked) (i : SeqId) (observation : RequestObservation) : RequestObservation :=
  let seq := h.scheduler.seqs i
  { observation with
    firstTokenAt := observation.firstTokenAt || decide (seq.numCompletionTokens > 0)
    completedAt := observation.completedAt || seq.isFinished }

def observed (h : Hooked) : Hooked :=
  h.onMetrics (fun m => { m with
    observations := m.observations.keys.foldl (fun d i => d.modify i (h.observe i)) m.observations })

def finishStep : Metered Unit := do
  let h ← get
  match h.metrics.pendingStep with
  | none => throw (.runtimeError "scheduler step hook did not create a record")
  | some step => set (h.onMetrics (fun m => { m with
      steps := m.steps ++ [step]
      pendingStep := none }))

end Hooked

-- What `_metric_summary` returns, without times, rates, evictions and output tokens.
structure MetricSummary where
  initialPersistentHitTokens : Nat
  initialPersistentHitTokensAfterFirstStep : Nat
  sameStepHitTokens : Nat
  sameStepHitTokensAfterFirstStep : Nat
  claimedPrefixTokens : Nat
  computedPromptTokens : Nat
  totalPromptTokens : Nat
  accountedPromptTokens : Nat
  deltaTokens : Int
  computedSharedPrefixTokens : Nat
  duplicatePrefillTokens : Nat
  sameStepReusedRequestCount : Nat
  sameStepReusedSeqIds : Finset SeqId
  sameStepReusedBlocks : Nat
  firstStepPrefillAdmissionCount : Nat
  maxStepPrefillAdmissionCount : Nat
  preemptionCount : Nat
  requestCount : Nat
  schedulerStepCount : Nat

namespace SchedulerMetrics

-- `_request_rows` asks this of every request, and returns its prompt's length.
def requestRow (observation : RequestObservation) : Except PyError Nat := do
  let name := observation.spec.name
  require (observation.firstTokenAt = true ∧ observation.completedAt = true) (raised s!"request {name} did not finish")
  pure observation.spec.promptTokenIds.length

def metricSummary (m : SchedulerMetrics) (prefixGroups sharedPrefixLen : Nat) : Except PyError MetricSummary := do
  let promptTokens ← m.observations.values.mapM requestRow
  let total := promptTokens.sum
  let initial := m.initialPersistentHitTokens
  let sameStep := m.sameStepHitTokens
  let claimed := m.claimedPrefixTokens
  let computed := m.computedPromptTokens
  let classified := initial + sameStep
  require (classified = claimed)
    (raised (s!"initial persistent + same-step hits must equal claimed prefix tokens: " ++
      s!"{initial} + {sameStep} != {claimed}"))
  let accounted := classified + computed
  require (accounted = total)
    (raised (s!"prompt-token conservation failed: initial persistent {initial} + same-step {sameStep} + " ++
      s!"computed {computed} != total {total}"))
  let admissions := m.steps.map StepRecord.numScheduledPrefillSeqs
  pure
    { initialPersistentHitTokens := initial
      initialPersistentHitTokensAfterFirstStep := (m.steps.tail.map StepRecord.initialPersistentHitTokens).sum
      sameStepHitTokens := sameStep
      sameStepHitTokensAfterFirstStep := (m.steps.tail.map StepRecord.sameStepHitTokens).sum
      claimedPrefixTokens := claimed
      computedPromptTokens := computed
      totalPromptTokens := total
      accountedPromptTokens := accounted
      deltaTokens := accounted - total
      computedSharedPrefixTokens := m.computedSharedPrefixTokens
      duplicatePrefillTokens := m.computedSharedPrefixTokens - prefixGroups * sharedPrefixLen
      sameStepReusedRequestCount := m.sameStepReusedIds.card
      sameStepReusedSeqIds := m.sameStepReusedIds
      sameStepReusedBlocks := m.sameStepReusedBlocks
      firstStepPrefillAdmissionCount := admissions.headD 0
      maxStepPrefillAdmissionCount := admissions.foldl max 0
      preemptionCount := m.preemptions
      requestCount := m.observations.keys.length
      schedulerStepCount := m.steps.length }

end SchedulerMetrics

end NanoVllm
