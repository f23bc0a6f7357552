import NanoVllm.Model.BenchScheduler
import NanoVllm.Shared.Watching

set_option autoImplicit false

namespace NanoVllm

open Python Raising

namespace Hooked

theorem onScheduler_watches {α : Type} (x : Sched α) : Watches Hooked.scheduler (onScheduler x) x :=
  Watches.zoom (fun _ _ => rfl) x

theorem claimPrefixHook_watches (i : SeqId) (blockIds : List BlockId) :
    Watches Hooked.scheduler (claimPrefixHook i blockIds) (Scheduler.onSeq i (BlockManager.claimPrefix blockIds)) :=
  (onScheduler_watches _).then_modify _ (fun _ => rfl)

theorem preemptHook_watches (i : SeqId) : Watches Hooked.scheduler (preemptHook i) (Scheduler.preempt i) :=
  (onScheduler_watches _).then_modify _ (fun _ => rfl)

theorem recordPrefixHits_watches (i : SeqId) (initialBlocks latestBlocks : Nat) :
    Watches Hooked.scheduler (recordPrefixHits i initialBlocks latestBlocks)
      (Scheduler.recordPrefixHits i initialBlocks latestBlocks) :=
  (onScheduler_watches _).then_modify _ (fun _ => rfl)

theorem preemptDecodeTailFrom_watches (fuel : Nat) :
    Watches Hooked.scheduler (preemptDecodeTailFrom fuel) (Scheduler.preemptDecodeTailFrom fuel) := by
  induction fuel with
  | zero => exact Watches.pure ()
  | succ fuel ih =>
      refine Watches.get_bind (fun h => ?_)
      dsimp only
      cases h.scheduler.running.getLast? with
      | none => exact Watches.pure ()
      | some tail =>
          refine (Watches.ofExcept _).bind (fun decodeBlocks => ?_)
          refine Watches.ite _ (Watches.pure ()) ?_
          refine (onScheduler_watches _).bind (fun _ => ?_)
          exact (preemptHook_watches tail).bind (fun _ => ih)

theorem preemptDecodeTail_watches : Watches Hooked.scheduler preemptDecodeTail Scheduler.preemptDecodeTail :=
  Watches.get_bind (fun h => preemptDecodeTailFrom_watches h.scheduler.running.length)

theorem commitWaitingSameStepFrom_watches (initialPrefixes : Dict SeqId (List BlockId)) (reservedBlocks active : Nat)
    (ranked : List SeqId) (tokenBudget : Nat) (committed : List SeqId) :
    Watches Hooked.scheduler
      (commitWaitingSameStepFrom initialPrefixes reservedBlocks active ranked tokenBudget committed)
      (Scheduler.commitWaitingSameStepFrom initialPrefixes reservedBlocks active ranked tokenBudget committed) := by
  induction ranked generalizing tokenBudget committed with
  | nil => exact Watches.pure committed
  | cons i rest ih =>
      refine Watches.get_bind (fun h => ?_)
      refine Watches.ite _ (Watches.pure committed) ?_
      refine (Watches.ofExcept _).bind (fun latestBlocks => ?_)
      refine (Watches.require _ _).bind (fun _ => ?_)
      refine Watches.ite _ (Watches.pure committed) ?_
      refine Watches.ite _ (Watches.pure committed) ?_
      refine (Watches.ofExcept _).bind (fun requiredBlocks => ?_)
      refine (Watches.require _ _).bind (fun _ => ?_)
      refine Watches.ite _ (Watches.pure committed) ?_
      refine (claimPrefixHook_watches i latestBlocks).bind (fun _ => ?_)
      refine (onScheduler_watches _).bind (fun _ => ?_)
      refine (onScheduler_watches _).bind (fun _ => ?_)
      refine (Watches.ofExcept _).bind (fun initialBlocks => ?_)
      refine (recordPrefixHits_watches i _ _).bind (fun _ => ?_)
      refine (onScheduler_watches _).bind (fun _ => ?_)
      refine (onScheduler_watches _).bind (fun _ => ?_)
      exact Watches.ite _ (Watches.pure _) (ih _ _)

theorem claimAdmitted_watches (a : Scheduler.Admission) :
    Watches Hooked.scheduler (claimAdmitted a) (Scheduler.claimAdmitted a) := claimPrefixHook_watches _ _

theorem allocateAdmitted_watches (a : Scheduler.Admission) :
    Watches Hooked.scheduler (allocateAdmitted a) (Scheduler.allocateAdmitted a) := by
  refine (onScheduler_watches _).bind (fun _ => ?_)
  refine Watches.get_bind (fun h => ?_)
  refine (Watches.require _ _).bind (fun _ => ?_)
  refine (onScheduler_watches _).bind (fun _ => ?_)
  refine (recordPrefixHits_watches _ _ _).bind (fun _ => ?_)
  exact (onScheduler_watches _).bind (fun _ => onScheduler_watches _)

theorem admitSameStep_watches (plan : Scheduler.ChunkPlan) (ranked : List SeqId)
    (initialPrefixes : Dict SeqId (List BlockId)) (decodeBlocks active : Nat) :
    Watches Hooked.scheduler (admitSameStep plan ranked initialPrefixes decodeBlocks active)
      (Scheduler.admitSameStep plan ranked initialPrefixes decodeBlocks active) := by
  refine (onScheduler_watches _).bind (fun chunk => ?_)
  exact (commitWaitingSameStepFrom_watches _ _ _ _ _ _).bind (fun waitingPrefills => Watches.pure _)

theorem admitFrozen_watches (plan : Scheduler.ChunkPlan) (ranked : List SeqId)
    (initialPrefixes : Dict SeqId (List BlockId)) (active : Nat) :
    Watches Hooked.scheduler (admitFrozen plan ranked initialPrefixes active)
      (Scheduler.admitFrozen plan ranked initialPrefixes active) := by
  refine Watches.get_bind (fun h => ?_)
  refine (Watches.ofExcept _).bind (fun admitted => ?_)
  refine (Watches.forEach claimAdmitted_watches admitted).bind (fun _ => ?_)
  refine (onScheduler_watches _).bind (fun chunk => ?_)
  exact (Watches.forEach allocateAdmitted_watches admitted).bind (fun _ => Watches.pure _)

theorem schedule_watches : Watches Hooked.scheduler schedule Scheduler.schedule := by
  refine Watches.bind (fun _ => rfl) (fun _ => ?_)
  refine preemptDecodeTail_watches.bind (fun _ => ?_)
  refine Watches.get_bind (fun h => ?_)
  refine (Watches.ofExcept _).bind (fun decodeBlocks => ?_)
  refine (Watches.require _ _).bind (fun _ => ?_)
  refine (Watches.ofExcept _).bind (fun plan => ?_)
  refine (Watches.ofExcept _).bind (fun ⟨ranked, initialPrefixes⟩ => ?_)
  dsimp only
  refine Watches.ite _ ((admitSameStep_watches _ _ _ _ _).bind (fun prefillSeqs => ?_))
    ((admitFrozen_watches _ _ _ _).bind (fun prefillSeqs => ?_))
  all_goals
    refine (Watches.forEach (fun i => onScheduler_watches (Scheduler.appendDecode i)) _).bind (fun _ => ?_)
    refine Watches.ite _ ((onScheduler_watches _).bind (fun _ => ?_)) ?_
    all_goals exact (onScheduler_watches _).bind (fun _ => Watches.pure _)

end Hooked

end NanoVllm
