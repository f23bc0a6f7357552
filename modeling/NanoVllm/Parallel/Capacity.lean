import Mathlib.Algebra.BigOperators.Ring.List
import Mathlib.Algebra.Order.BigOperators.Group.List
import NanoVllm.Model.SharedMemory
import NanoVllm.Parallel.Delivery
import NanoVllm.Runs.Contract
import NanoVllm.Runs.Progress

set_option autoImplicit false

namespace NanoVllm

open Python Raising Bytes

namespace SharedMemory

variable {dumps : Command → List UInt8} {command : Command} {data : List UInt8} {s s' : SharedMemory}

structure Holds (data : List UInt8) (s : SharedMemory) : Prop where
  header : fromBytes (slice s.buf 0 4) = data.length
  body : slice s.buf 4 (data.length + 4) = data

structure Written (data : List UInt8) (s s' : SharedMemory) : Prop extends Holds data s' where
  rest : s'.buf.drop 4 = data ++ (s.buf.drop 4).drop data.length
  event : s'.event = List.replicate s.event.length true

theorem assign_ok {i : Nat} (fits : i + data.length ≤ s.buf.length) :
    ∃ s', assign i (i + data.length) data s = .ok () s' ∧ s'.buf = splice s.buf i data ∧ s'.event = s.event := by
  have same := (length_slice_add (by omega)).mpr fits
  exact ⟨_, dif_pos same, rfl, rfl⟩

theorem assign_error {i : Nat} (start : i ≤ s.buf.length) (large : s.buf.length < i + data.length) :
    ∃ e, assign i (i + data.length) data s = .error e s :=
  ⟨_, dif_neg (fun same => absurd ((length_slice_add start).mp same) (by omega))⟩

theorem lengthBytes_ok {n : Nat} (short : n < 2 ^ 32) : lengthBytes n = .ok (toBytes 4 n) := by
  rw [lengthBytes, require_of (by omega), pure_bind]
  rfl

theorem write_length (s : SharedMemory) (n : Nat) :
    ∃ s₁, assign 0 4 (toBytes 4 n) s = .ok () s₁ ∧ s₁.buf = splice s.buf 0 (toBytes 4 n) ∧ s₁.event = s.event := by
  have four : (toBytes 4 n).length = 4 := length_toBytes 4 n
  have fits : 0 + (toBytes 4 n).length ≤ s.buf.length := by
    rw [four, s.size]
    omega
  have done := assign_ok fits
  rwa [four] at done

theorem writeShm_ok (workers : s.event ≠ []) (fits : (dumps command).length + 4 ≤ 2 ^ 20) :
    ∃ s', writeShm (s.event.length + 1) 0 dumps command s = .ok () s' ∧ Written (dumps command) s s' := by
  have some' : 0 < s.event.length := List.length_pos_iff.mpr workers
  have four : (toBytes 4 (dumps command).length).length = 4 := length_toBytes ..
  obtain ⟨s₁, first, buf₁, event₁⟩ := write_length s (dumps command).length
  have fits₁ : 4 + (dumps command).length ≤ s₁.buf.length := by
    rw [s₁.size]
    omega
  obtain ⟨s₂, second, buf₂, event₂⟩ := assign_ok fits₁
  rw [Nat.add_comm] at second
  refine ⟨{ s₂ with event := s₂.event.map (fun _ => true) }, ?_, ⟨?_, ?_⟩, ?_, ?_⟩
  · rw [writeShm, run_require_bind ⟨by omega, rfl⟩, run_ofExcept_bind (lengthBytes_ok (by omega)), bind_ok first,
      bind_ok second]
    rfl
  · dsimp only
    rw [buf₂, slice_splice_before (by omega) le_rfl, buf₁]
    have front := @slice_splice _ s.buf (toBytes 4 (dumps command).length) 0 (Nat.zero_le _)
    rw [four] at front
    rw [front, fromBytes_toBytes]
    exact Nat.mod_eq_of_lt (by omega)
  · dsimp only
    rw [buf₂, Nat.add_comm]
    exact slice_splice (by omega)
  · dsimp only
    rw [buf₂, drop_splice (by omega), buf₁, splice, four, List.take_zero, List.nil_append, List.drop_left' four]
  · dsimp only
    rw [event₂, event₁, List.map_const']

theorem writeShm_error (workers : s.event ≠ []) (large : 2 ^ 20 < (dumps command).length + 4) :
    ∃ e s', writeShm (s.event.length + 1) 0 dumps command s = .error e s' ∧ s'.event = s.event := by
  have some' : 0 < s.event.length := List.length_pos_iff.mpr workers
  by_cases short : (dumps command).length < 2 ^ 32
  · obtain ⟨s₁, first, -, event₁⟩ := write_length s (dumps command).length
    obtain ⟨e, second⟩ := @assign_error (dumps command) s₁ 4 (by rw [s₁.size]; omega)
      (by rw [s₁.size]; omega)
    rw [Nat.add_comm] at second
    refine ⟨e, s₁, ?_, event₁⟩
    rw [writeShm, run_require_bind ⟨by omega, rfl⟩, run_ofExcept_bind (lengthBytes_ok short), bind_ok first,
      bind_error second]
  · refine ⟨.overflowError "int too big to convert", s, ?_, rfl⟩
    have long : lengthBytes (dumps command).length = .error (.overflowError "int too big to convert") := by
      rw [lengthBytes, require, if_neg (by omega)]
      rfl
    have raise : (ofExcept (lengthBytes (dumps command).length) : EStateM PyError SharedMemory (List UInt8)) s =
        .error (.overflowError "int too big to convert") s := by
      rw [long]
      rfl
    rw [writeShm, run_require_bind ⟨by omega, rfl⟩]
    exact bind_error raise

section Read

variable {α : Type} {loads : List UInt8 → Except PyError α} {a : α} {worldSize rank : Nat}

-- The state after the worker of `rank` read the memory.
def clear (rank : Nat) (s : SharedMemory) : SharedMemory := { s with event := s.event.set (rank - 1) false }

theorem readShm_ok (holds : Holds data s) (loaded : loads data = .ok a) (world : 1 < worldSize) (worker : 0 < rank)
    (told : s.event[rank - 1]? = some true) : readShm worldSize rank loads s = .ok (some a) (s.clear rank) := by
  rw [readShm, run_require_bind ⟨world, worker⟩, run_get_bind, if_pos told]
  rw [holds.header, holds.body, run_ofExcept_bind loaded]
  rfl

theorem readShm_each (holds : Holds data s) (loaded : loads data = .ok a) (world : 1 < worldSize) {ranks : List Nat}
    (distinct : ranks.Nodup) (told : ∀ rank ∈ ranks, 0 < rank ∧ s.event[rank - 1]? = some true) :
    ∃ s', ranks.mapM (fun rank => readShm worldSize rank loads) s = .ok (ranks.map (fun _ => some a)) s' := by
  induction ranks generalizing s with
  | nil => exact ⟨s, rfl⟩
  | cons rank ranks ih =>
      obtain ⟨fresh, distinct⟩ := List.nodup_cons.mp distinct
      obtain ⟨⟨worker, event⟩, others⟩ := List.forall_mem_cons.mp told
      obtain ⟨s', run⟩ := ih (s := s.clear rank) ⟨holds.header, holds.body⟩ distinct (fun other listed => by
        obtain ⟨positive, set⟩ := others other listed
        have apart : other ≠ rank := fun same => fresh (same ▸ listed)
        refine ⟨positive, ?_⟩
        rw [clear, List.getElem?_set_ne (by omega)]
        exact set)
      refine ⟨s', ?_⟩
      rw [List.mapM_cons, bind_ok (readShm_ok holds loaded world worker event), bind_ok run]
      rfl

end Read

/-- Rank 0 writes the command, and the workers read its bytes in whatever order they come. -/
def Delivered (dumps : Command → List UInt8) (command : Command) (s : SharedMemory) : Prop :=
  ∃ s', writeShm (s.event.length + 1) 0 dumps command s = .ok () s' ∧
    ∀ (α : Type) (loads : List UInt8 → Except PyError α) (a : α), loads (dumps command) = .ok a →
      ∀ ranks : List Nat, ranks.Perm (List.range' 1 s.event.length) →
        ∃ w, ranks.mapM (fun rank => readShm (s.event.length + 1) rank loads) s' =
          .ok (ranks.map (fun _ => some a)) w

theorem delivered_iff (workers : s.event ≠ []) :
    Delivered dumps command s ↔ (dumps command).length + 4 ≤ 2 ^ 20 := by
  have some' : 0 < s.event.length := List.length_pos_iff.mpr workers
  constructor
  · rintro ⟨s', written, -⟩
    by_contra large
    obtain ⟨e, w, raised, -⟩ := @writeShm_error dumps command _ workers (by omega)
    rw [written] at raised
    cases raised
  · intro fits
    obtain ⟨s', written, after⟩ := @writeShm_ok dumps _ _ workers fits
    refine ⟨s', written, fun α loads a loaded ranks order => ?_⟩
    refine readShm_each after.toHolds loaded (by omega) (order.nodup_iff.mpr (List.nodup_range' ..)) ?_
    intro rank listed
    obtain ⟨first, last⟩ := List.mem_range'_1.mp (order.mem_iff.mp listed)
    refine ⟨by omega, ?_⟩
    rw [after.event, List.getElem?_replicate, if_pos (by omega)]

structure Shows (c : Channel UInt8) (s : SharedMemory) : Prop where
  length : fromBytes (slice s.buf 0 4) = c.length
  buf : c.buf <+: s.buf.drop 4
  event : ∀ w < s.event.length, s.event[w]? = some (c.worker w).event

theorem Shows.write {pickle : Pickle Command UInt8} {c : Channel UInt8} (shows' : Shows c s)
    (place : c.caller = .writeLength command) (workers : s.event ≠ [])
    (run : writeShm (s.event.length + 1) 0 pickle.dumps command s = .ok () s') :
    ∃ moves c', Interleave.play (Channel.step pickle s.event.length) moves c = some c' ∧
      c'.caller = .executing command ∧ Shows c' s' := by
  have fits : (pickle.dumps command).length + 4 ≤ 2 ^ 20 := by
    by_contra large
    obtain ⟨e, w, raised, -⟩ := @writeShm_error pickle.dumps command _ workers (by omega)
    rw [run] at raised
    cases raised
  obtain ⟨w, run', after⟩ := writeShm_ok workers fits
  rw [run] at run'
  cases run'
  obtain ⟨todo, issued, caller, length, buf, writer, worker⟩ := c
  dsimp only at place
  subst place
  obtain ⟨moves, c', told, place, -, -, length', buf', event⟩ := @Channel.tell UInt8 pickle s.event.length
    { todo, issued
      caller := .setEvents command 0
      length := (pickle.dumps command).length
      buf := pickle.dumps command ++ buf.drop (pickle.dumps command).length
      writer := issued.length - 1
      worker } command 0 rfl
  refine ⟨[.rankZero, .rankZero] ++ moves, c', ?_, place, ?_, ?_, ?_⟩
  · exact (Interleave.play_append rfl).trans told
  · rw [length']
    exact after.header
  · rw [buf', after.rest]
    exact (List.prefix_append_right_inj _).mpr (shows'.buf.drop _)
  · intro w below
    rw [after.event, List.length_replicate] at below
    rw [after.event, List.getElem?_replicate, if_pos below, event w, if_pos ⟨Nat.zero_le w, below⟩]

end SharedMemory

namespace Command

def seqs : Command → List Sequence
  | .run seqs _ => seqs
  | .exit => []

def tokens (c : Command) : Nat := (c.seqs.map (fun seq => seq.tokenIds.length)).sum

-- The bytes that a pickle needs at most: `cost` for each sequence, and `frame` for the rest.
def bytes (frame : Nat) (cost : Sequence → Nat) (c : Command) : Nat := frame + (c.seqs.map cost).sum

end Command

/-- A pickle that takes a byte for each token, and no more than `cost` for a sequence. -/
structure Pickles (frame : Nat) (cost : Sequence → Nat) (dumps : Command → List UInt8) : Prop where
  tokens : ∀ c, c.tokens ≤ (dumps c).length
  bytes : ∀ c, (dumps c).length ≤ c.bytes frame cost

section Commanded

open Scheduler SharedMemory

variable {xxh64 : XxHash} {config : Config} {s t : Scheduler} {ids : Finset SeqId} {commands : List Command}
  {batch : List SeqId} {frame : Nat} {cost : Sequence → Nat} {dumps : Command → List UInt8}

theorem Pickles.longest (whole : ∀ seq : Sequence, seq.tokenIds.length ≤ cost seq) :
    Pickles frame cost (fun c => List.replicate (c.bytes frame cost) 0) where
  tokens c := by
    rw [List.length_replicate, Command.tokens, Command.bytes]
    exact (List.sum_le_sum (fun seq _ => whole seq)).trans (Nat.le_add_left _ frame)
  bytes c := by rw [List.length_replicate]

theorem Commanded.reachable (past : Commanded xxh64 config s ids commands) : Reachable xxh64 config s ids := by
  induction past with
  | init made => exact Reachable.init made
  | add past absent made run ih => exact ih.add absent made run
  | step past step ih => exact ih.step step

theorem tokens_batch_le (past : Reachable xxh64 config s ids) (run : schedule s = .ok batch t) (numPrefillSeqs : Nat) :
    (Command.run (batch.map t.seqs) numPrefillSeqs).tokens ≤ config.maxNumSeqs * config.maxModelLen := by
  obtain ⟨cache, inv, same⟩ := past.inv
  subst same
  obtain ⟨prefill, shape, contract⟩ := inv.contract past.seated run
  obtain ⟨chain, kept⟩ := shape.kept
  obtain ⟨_, _, scheduled⟩ := inv.scheduled run
  have short : ∀ i ∈ batch, (t.seqs i).tokenIds.length ≤ s.config.maxModelLen := by
    intro i listed
    rw [contract.order] at listed
    obtain ⟨member, live⟩ := shape.member listed
    have wf : (t.seqs i).Wf _ := kept.held.wf i member
    have limits := (shape.limits i member live).length
    rw [← wf.tokens, ← scheduled.config]
    exact limits.le
  rw [Command.tokens, Command.seqs, List.map_map]
  calc (batch.map (fun i => (t.seqs i).tokenIds.length)).sum
      ≤ (batch.map (fun _ => s.config.maxModelLen)).sum := List.sum_le_sum short
    _ = batch.length * s.config.maxModelLen := by rw [List.map_const', List.sum_replicate_nat]
    _ ≤ s.config.maxNumSeqs * s.config.maxModelLen :=
        Nat.mul_le_mul_right _ (le_trans (Nat.le_add_right _ _) contract.seats)

theorem Commanded.tokens_le (past : Commanded xxh64 config s ids commands) :
    ∀ c ∈ commands, c.tokens ≤ config.maxNumSeqs * config.maxModelLen := by
  induction past with
  | init made => nofun
  | add past absent made run ih => exact ih
  | step past step ih =>
      intro c listed
      rcases List.mem_append.mp listed with early | last
      · exact ih c early
      · rw [List.mem_singleton.mp last]
        exact tokens_batch_le past.reachable step.scheduled _

theorem Command.bytes_le {c : Command} {unit : Nat} (each : ∀ seq ∈ c.seqs, cost seq ≤ unit * seq.tokenIds.length) :
    c.bytes frame cost ≤ frame + unit * c.tokens := by
  have total : (c.seqs.map cost).sum ≤ (c.seqs.map (fun seq => unit * seq.tokenIds.length)).sum := List.sum_le_sum each
  rw [List.sum_map_mul_left] at total
  exact Nat.add_le_add_left total frame

/-- Whatever the pickle, within the bounds, the steps of a run are delivered exactly when the largest pickle of each
fits. They fit when the largest batch of the configuration does. -/
theorem commands_fit (past : Commanded xxh64 config s ids commands)
    (whole : ∀ seq : Sequence, seq.tokenIds.length ≤ cost seq) :
    ((∀ dumps, Pickles frame cost dumps → ∀ c ∈ commands, ∀ memory : SharedMemory, memory.event ≠ [] →
      Delivered dumps c memory) ↔ ∀ c ∈ commands, c.bytes frame cost + 4 ≤ 2 ^ 20) ∧
    ∀ unit, (∀ c ∈ commands, ∀ seq ∈ c.seqs, cost seq ≤ unit * seq.tokenIds.length) →
      frame + unit * (config.maxNumSeqs * config.maxModelLen) + 4 ≤ 2 ^ 20 →
      ∀ c ∈ commands, c.bytes frame cost + 4 ≤ 2 ^ 20 := by
  refine ⟨⟨fun delivered c listed => ?_, fun fits dumps pickles c listed memory workers => ?_⟩,
    fun unit each most c listed => ?_⟩
  · let memory : SharedMemory := ⟨List.replicate (2 ^ 20) 0, [false], List.length_replicate⟩
    have sent := delivered _ (Pickles.longest whole) c listed memory (List.cons_ne_nil _ _)
    rw [delivered_iff (List.cons_ne_nil _ _), List.length_replicate] at sent
    exact sent
  · have large := pickles.bytes c
    have room := fits c listed
    exact (delivered_iff workers).mpr (by omega)
  · have few := Nat.mul_le_mul_left unit (past.tokens_le c listed)
    have large := @Command.bytes_le frame _ _ _ (each c listed)
    omega

theorem commands_fit_sampled :
    ∃ s first, Commanded pageHash pairConfig s {0} [first] ∧
      ∀ dumps, Pickles 64 (fun seq => 16 * seq.tokenIds.length) dumps →
        ∀ memory : SharedMemory, memory.event ≠ [] → Delivered dumps first memory := by
  have start : Scheduler.init pairConfig = .ok _ := rfl
  have request : Sequence.init pageHash 0 [1, 2] {} 1 = .ok _ := rfl
  have added := (@Commanded.init pageHash _ _ start).add (by decide : 0 ∉ (∅ : Finset SeqId)) request
    (run_final (by decide +kernel))
  have first := @Commanded.turn _ _ _ _ _ _ added _ _ [9] (run_value (a := [0]) (by decide +kernel))
    (run_final (by decide +kernel))
  refine ⟨_, _, first, fun dumps pickles memory workers => ?_⟩
  obtain ⟨fit, small⟩ := @commands_fit _ _ _ _ _ 64 (fun seq => 16 * seq.tokenIds.length) first
    (fun seq => by omega)
  have fits := small 16 (fun c _ seq _ => le_rfl) (by decide)
  exact fit.mpr fits dumps pickles _ (List.mem_singleton_self _) memory workers

def longConfig : Config :=
  { maxModelLen := 2 ^ 21
    numKvcacheBlocks := 2 ^ 17
    chunkedPrefill := true }

theorem not_delivered (tokens : ∀ c : Command, c.tokens ≤ (dumps c).length) {c : Command} (large : 2 ^ 20 ≤ c.tokens)
    {memory : SharedMemory} (workers : memory.event ≠ []) :
    ¬Delivered dumps c memory ∧
      ∃ e s', writeShm (memory.event.length + 1) 0 dumps c memory = .error e s' ∧ s'.event = memory.event := by
  have length := tokens c
  refine ⟨fun sent => ?_, writeShm_error workers (by omega)⟩
  have fits := (delivered_iff workers).mp sent
  omega

theorem schedule_idle (past : Reachable xxh64 config s ids) (chunked : config.chunkedPrefill = true)
    (seats : 1 ≤ config.maxNumSeqs) (budget : 1 ≤ config.maxNumBatchedTokens) (roomy : config.Roomy)
    (unfinished : s.isFinished = false) (idle : s.running = []) :
    ∃ batch t, schedule s = .ok batch t ∧ batch ≠ [] := by
  obtain ⟨cache, inv, same⟩ := past.inv
  subst same
  obtain ⟨s₁, s₂, tail, plan, ranked, found, entries, phases, outcome⟩ := inv.schedule
  have idle₁ : s₁.running = [] := by
    have split : s.running = s₁.running ++ tail := phases.preempted.running
    rw [idle] at split
    exact (List.append_eq_nil_iff.mp split.symm).1
  generalize result : schedule s = ended at outcome
  cases outcome with
  | batch s₃ decoding decoded some' => exact ⟨_, _, rfl, some'⟩
  | phase s₃ split decoding decoded many =>
      rw [idle₁] at split
      exact absurd split.symm (List.append_ne_nil_of_right_ne_nil _ (List.cons_ne_nil _ _))
  | stuck none idle' kind =>
      obtain ⟨whole, -⟩ := phases.refused none idle' unfinished roomy seats budget
      rw [chunked] at whole
      cases whole

theorem tokens_le_batch {i : SeqId} (listed : i ∈ batch) (numPrefillSeqs : Nat) :
    (t.seqs i).tokenIds.length ≤ (Command.run (batch.map t.seqs) numPrefillSeqs).tokens := by
  rw [Command.tokens, Command.seqs, List.map_map]
  exact List.single_le_sum (fun _ _ => Nat.zero_le _) _ (List.mem_map_of_mem listed)

/-- A prompt of 2 ** 20 tokens is scheduled, and no pickle of it can be written. -/
theorem prompt_overflows :
    ∃ s t batch, Reachable pageHash longConfig s {0} ∧ schedule s = .ok batch t ∧
      ∀ dumps : Command → List UInt8, (∀ c, c.tokens ≤ (dumps c).length) →
        ∀ memory : SharedMemory, memory.event ≠ [] →
          ¬Delivered dumps (.run (batch.map t.seqs) t.numScheduledPrefillSeqs) memory ∧
            ∃ e s', writeShm (memory.event.length + 1) 0 dumps (.run (batch.map t.seqs) t.numScheduledPrefillSeqs)
              memory = .error e s' ∧ s'.event = memory.event := by
  have start : Scheduler.init longConfig = .ok _ := rfl
  have first := @Reachable.init pageHash longConfig _ start
  have some' : List.replicate (2 ^ 20) (0 : Token) ≠ [] := by
    refine List.ne_nil_of_length_pos ?_
    rw [List.length_replicate]
    decide
  obtain ⟨seq, made⟩ := Sequence.init_run pageHash 0 {} longConfig.kvcacheBlockSize_pos some'
  obtain ⟨wf, fresh, name, same, -⟩ := Sequence.init_ok made
  have short : (seq.numTokens : Int) ≤ (longConfig.maxModelLen : Int) - 1 := by
    rw [wf.tokens, same, List.length_replicate]
    decide
  have past := first.add (Finset.notMem_empty 0) made (run_require_bind short _ _)
  obtain ⟨batch, t, run, some'⟩ := schedule_idle past rfl (by decide) (by decide) (by decide) rfl rfl
  obtain ⟨i, listed⟩ := List.exists_mem_of_ne_nil batch some'
  obtain ⟨cache, inv, -⟩ := past.inv
  obtain ⟨prefill, _, scheduled⟩ := inv.scheduled run
  have tokens : (t.seqs i).tokenIds.length = 2 ^ 20 := by
    obtain ⟨member, -⟩ := scheduled.shape.member (scheduled.order ▸ listed)
    obtain rfl : i = seq.seqId := (Finset.mem_singleton.mp member).trans name.symm
    obtain ⟨-, -, -, -, kept, -⟩ := Sequence.request_eq (scheduled.request seq.seqId)
    refine (congrArg List.length (kept.trans ?_)).trans (List.length_replicate (a := (0 : Token)))
    exact (congrArg Sequence.tokenIds (Scheduler.setSeq_seqs_self _ seq.seqId seq)).trans same
  refine ⟨_, t, batch, past, run, fun dumps whole memory workers => not_delivered whole ?_ workers⟩
  rw [← tokens]
  exact tokens_le_batch listed _

end Commanded

end NanoVllm
