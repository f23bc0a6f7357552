import Mathlib.Algebra.BigOperators.Group.Finset.Basic
import NanoVllm.Parallel.Channel

set_option autoImplicit false

namespace NanoVllm

open Python Raising Interleave

variable {β : Type} {pickle : Pickle Command β} {workers : Nat}

def Worker.left (worker : Worker) : Nat :=
  match worker.looper with
  | .waiting => if worker.event then 6 else 0
  | .readLength => 5
  | .readData _ => 4
  | .clearing _ _ => 3
  | .calling _ _ => 2 + if worker.event then 6 else 0
  | .executing _ => 1 + if worker.event then 6 else 0
  | .exited => 0
  | .raised => 0

-- Each event that rank 0 sets costs it a step and gives the worker six.
def Caller.left (workers : Nat) (caller : Caller) : Nat :=
  match caller with
  | .ready => 0
  | .writeLength _ => workers * 7 + 4
  | .writeData _ => workers * 7 + 3
  | .setEvents _ next => (workers - next) * 7 + 2
  | .executing _ => 1

def Worker.owed (worker : Worker) : Nat :=
  match worker.looper with
  | .readLength => 1
  | .readData _ => 1
  | .clearing _ _ => 1
  | .calling _ _ => 1 + worker.event.toNat
  | _ => worker.event.toNat

-- Whether rank 0 has yet to tell the worker of its command.
def Caller.owes (caller : Caller) (w : Nat) : Nat :=
  match caller with
  | .ready => 0
  | .writeLength _ => 1
  | .writeData _ => 1
  | .setEvents _ next => if w < next then 0 else 1
  | .executing _ => 0

section Step

open Channel

variable {worker worker' : Worker} {length writer : Nat} {buf : List β}

theorem Worker.left_step (run : loopStep pickle length buf writer worker = some worker') : worker'.left <
    worker.left := by
  obtain ⟨looper, event, executed, started⟩ := worker
  cases looper with
  | waiting =>
      cases event with
      | false => cases run
      | true =>
          cases run
          simp [Worker.left]
  | readLength =>
      cases run
      simp [Worker.left]
  | readData n =>
      unfold loopStep at run
      dsimp only at run
      split at run <;>
      · cases run
        simp [Worker.left]
  | clearing command issue =>
      cases run
      simp [Worker.left]
  | calling command issue =>
      cases run
      simp [Worker.left]
  | executing command =>
      cases run
      cases command with
      | run seqs numPrefillSeqs => simp [Worker.left, Command.isExit]
      | exit => simp [Worker.left, Command.isExit]
  | exited => cases run
  | raised => cases run

theorem Worker.left_told (worker : Worker) : ({ worker with event := true } : Worker).left ≤ worker.left + 6 := by
  obtain ⟨looper, event, executed, started⟩ := worker
  cases looper with
  | waiting => cases event <;> simp [Worker.left]
  | calling command issue => cases event <;> simp [Worker.left]
  | executing command => cases event <;> simp [Worker.left]
  | readLength => simp [Worker.left]
  | readData n => simp [Worker.left]
  | clearing command issue => simp [Worker.left]
  | exited => simp [Worker.left]
  | raised => simp [Worker.left]

theorem Worker.owed_step (run : loopStep pickle length buf writer worker = some worker') :
    worker'.executed.length + worker'.owed ≤ worker.executed.length + worker.owed := by
  obtain ⟨looper, event, executed, started⟩ := worker
  cases looper with
  | waiting =>
      cases event with
      | false => cases run
      | true =>
          cases run
          simp [Worker.owed]
  | readLength =>
      cases run
      simp [Worker.owed]
  | readData n =>
      unfold loopStep at run
      dsimp only at run
      split at run <;>
      · cases run
        cases event <;> simp [Worker.owed]
  | clearing command issue =>
      cases run
      simp [Worker.owed]
  | calling command issue =>
      cases run
      simp only [Worker.owed, List.length_append, List.length_singleton]
      omega
  | executing command =>
      cases run
      cases command with
      | run seqs numPrefillSeqs => simp [Worker.owed, Command.isExit]
      | exit => simp [Worker.owed, Command.isExit]
  | exited => cases run
  | raised => cases run

theorem Worker.owed_told (worker : Worker) : ({ worker with event := true } : Worker).owed ≤ worker.owed + 1 := by
  obtain ⟨looper, event, executed, started⟩ := worker
  cases looper <;> simp [Worker.owed]

theorem Worker.Resting.owed_told (h : worker.Resting) : ({ worker with event := true } : Worker).owed = 1 := by
  obtain ⟨looper, event, executed, started⟩ := worker
  have place := h.2
  cases looper with
  | waiting => rfl
  | executing command => rfl
  | exited => rfl
  | readLength => exact place.elim
  | readData n => exact place.elim
  | clearing command issue => exact place.elim
  | calling command issue => exact place.elim
  | raised => exact place.elim

end Step

namespace Channel

variable {s s' : Channel β} {commands : List Command} {command : Command} {w : Nat}

def load (workers : Nat) (s : Channel β) : Nat := Finset.sum (Finset.range workers) fun w => (s.worker w).left

def left (workers : Nat) (s : Channel β) : Nat :=
  s.todo.length * (workers * 7 + 5) + s.caller.left workers + s.load workers

theorem load_setWorker (below : w < workers) (worker : Worker) :
    (s.setWorker w worker).load workers + (s.worker w).left = s.load workers + worker.left := by
  have member := Finset.mem_range.mpr below
  have others : Finset.sum ((Finset.range workers).erase w) (fun v => ((s.setWorker w worker).worker v).left) =
      Finset.sum ((Finset.range workers).erase w) (fun v => (s.worker v).left) := by
    refine Finset.sum_congr rfl (fun v listed => ?_)
    change (Function.update s.worker w worker v).left = _
    rw [Function.update_of_ne (Finset.ne_of_mem_erase listed)]
  have self : (s.setWorker w worker).worker w = worker := Function.update_self ..
  unfold load
  rw [← Finset.add_sum_erase _ _ member, ← Finset.add_sum_erase _ _ member, others, self]
  omega

theorem left_step (p : Party) (s s' : Channel β) (moved : Channel.step pickle workers p s = some s') :
    s'.left workers < s.left workers := by
  cases p with
  | worker w =>
      simp only [Channel.step] at moved
      split at moved
      next below =>
        obtain ⟨worker', ran, rfl⟩ := Option.map_eq_some_iff.mp moved
        have less := Worker.left_step ran
        have total := @load_setWorker β workers s w below worker'
        change s.todo.length * (workers * 7 + 5) + s.caller.left workers + _ < s.left workers
        unfold left
        omega
      next => cases moved
  | rankZero =>
      obtain ⟨todo, issued, caller, length, buf, writer, worker⟩ := s
      cases caller with
      | ready =>
          cases todo with
          | nil => cases moved
          | cons command todo =>
              cases moved
              have fewer : (todo.length + 1) * (workers * 7 + 5) = todo.length * (workers * 7 + 5) + (workers * 7 + 5) :=
                Nat.succ_mul ..
              dsimp only [left, load]
              rw [List.length_cons, fewer]
              split <;> (dsimp only [Caller.left]; omega)
      | writeLength command =>
          cases moved
          dsimp only [left, load, Caller.left]
          omega
      | writeData command =>
          cases moved
          dsimp only [left, load, Caller.left]
          omega
      | setEvents command next =>
          simp only [Channel.step, callStep] at moved
          split at moved
          next below =>
            cases moved
            have total := load_setWorker (s := ⟨todo, issued, .setEvents command next, length, buf, writer, worker⟩)
              below { worker next with event := true }
            have told := Worker.left_told (worker next)
            dsimp only [left, load, Caller.left, setEvent, setWorker] at total ⊢
            omega
          next all =>
            cases moved
            dsimp only [left, load, Caller.left]
            omega
      | executing command =>
          simp only [Channel.step, callStep] at moved
          split at moved
          next => cases moved
          next =>
            cases moved
            dsimp only [left, load, Caller.left]
            omega

def Lags (s : Channel β) (w : Nat) : Prop :=
  (s.worker w).executed.length + (s.worker w).owed + s.caller.owes w < s.issued.length

theorem Lags.step (h : s.Lags w) (p : Party) (moved : Channel.step pickle workers p s = some s') : s'.Lags w := by
  unfold Lags at h
  cases p with
  | worker v =>
      simp only [Channel.step] at moved
      split at moved
      next =>
        obtain ⟨worker', ran, rfl⟩ := Option.map_eq_some_iff.mp moved
        change (Function.update s.worker v worker' w).executed.length + (Function.update s.worker v worker' w).owed +
          s.caller.owes w < s.issued.length
        by_cases self : w = v
        · subst self
          rw [Function.update_self]
          have same := Worker.owed_step ran
          omega
        · rwa [Function.update_of_ne self]
      next => cases moved
  | rankZero =>
      obtain ⟨todo, issued, caller, length, buf, writer, worker⟩ := s
      cases caller with
      | ready =>
          cases todo with
          | nil => cases moved
          | cons command todo =>
              cases moved
              have once : Caller.owes (if workers = 0 then .executing command else .writeLength command) w ≤ 1 := by
                split
                · exact Nat.zero_le 1
                · exact Nat.le_refl 1
              dsimp only [Lags] at h ⊢
              rw [List.length_append, List.length_singleton]
              omega
      | writeLength command =>
          cases moved
          exact h
      | writeData command =>
          cases moved
          exact h
      | setEvents command next =>
          simp only [Channel.step, callStep] at moved
          dsimp only [Lags, Caller.owes] at h
          split at moved
          next =>
            cases moved
            dsimp only [Lags, Caller.owes, setEvent, setWorker]
            rcases Nat.lt_trichotomy w next with early | rfl | late
            · rw [if_pos early] at h
              rw [Function.update_of_ne (by omega), if_pos (by omega)]
              exact h
            · rw [if_neg (Nat.lt_irrefl w)] at h
              rw [Function.update_self, if_pos (Nat.lt_succ_self w)]
              have told := Worker.owed_told (worker w)
              dsimp only
              omega
            · rw [if_neg (by omega)] at h
              rw [Function.update_of_ne (by omega), if_neg (by omega)]
              exact h
          next =>
            cases moved
            dsimp only [Lags, Caller.owes]
            omega
      | executing command =>
          simp only [Channel.step, callStep] at moved
          split at moved
          next => cases moved
          next =>
            cases moved
            exact h

theorem Lags.play (h : s.Lags w) {moves : List Party}
    (run : Interleave.play (Channel.step pickle workers) moves s = some s') : s'.Lags w :=
  play_invariant (fun s => s.Lags w) (fun p _ _ h moved => h.step p moved) h run

theorem tell {next : Nat} (place : s.caller = .setEvents command next) :
    ∃ moves s', Interleave.play (Channel.step pickle workers) moves s = some s' ∧ s'.caller = .executing command ∧
      s'.issued = s.issued ∧ s'.todo = s.todo ∧ s'.length = s.length ∧ s'.buf = s.buf ∧
      ∀ w, s'.worker w = if next ≤ w ∧ w < workers then { s.worker w with event := true } else s.worker w := by
  induction more : workers - next generalizing next s with
  | zero =>
      refine ⟨[.rankZero], { s with caller := .executing command }, ?_, rfl, rfl, rfl, rfl, rfl, fun w => ?_⟩
      · simp [Interleave.play, Channel.step, callStep, place]
        omega
      · rw [if_neg (by omega)]
  | succ n ih =>
      have below : next < workers := by omega
      obtain ⟨moves, s', run, place', issued, todo, length, buf, told⟩ :=
        ih (s := { s.setEvent next with caller := .setEvents command (next + 1) }) rfl (by omega)
      refine ⟨.rankZero :: moves, s', ?_, place', issued, todo, length, buf, fun w => ?_⟩
      · have first : s.callStep pickle workers =
            some { s.setEvent next with caller := .setEvents command (next + 1) } := by
          simp [callStep, place, below]
        change (s.callStep pickle workers).bind _ = _
        rw [first]
        exact run
      · rw [told w]
        change (if next + 1 ≤ w ∧ w < workers then
          { Function.update s.worker next { s.worker next with event := true } w with event := true }
          else Function.update s.worker next { s.worker next with event := true } w) = _
        by_cases self : w = next
        · subst self
          rw [Function.update_self, if_neg (by omega), if_pos ⟨Nat.le_refl w, below⟩]
        · rw [Function.update_of_ne self]
          by_cases later : next + 1 ≤ w ∧ w < workers
          · rw [if_pos later, if_pos (by omega)]
          · rw [if_neg later, if_neg (by omega)]

theorem issue {todo : List Command} (place : s.caller = .ready) (more : s.todo = command :: todo) (some' : workers ≠ 0) :
    ∃ moves s', Interleave.play (Channel.step pickle workers) moves s = some s' ∧ s'.caller = .executing command ∧
      s'.issued = s.issued ++ [command] ∧ s'.todo = todo ∧
      ∀ w < workers, s'.worker w = { s.worker w with event := true } := by
  obtain ⟨todo', issued, caller, length, buf, writer, worker⟩ := s
  dsimp only at place more
  subst place
  subst more
  obtain ⟨moves, s', run, place, issued', todo', -, -, told⟩ := @tell β pickle workers
    { todo, issued := issued ++ [command]
      caller := .setEvents command 0
      length := (pickle.dumps command).length
      buf := pickle.dumps command ++ buf.drop (pickle.dumps command).length
      writer := (issued ++ [command]).length - 1
      worker } command 0 rfl
  refine ⟨[.rankZero, .rankZero, .rankZero] ++ moves, s', ?_, place, issued', todo', fun w below => ?_⟩
  · refine (play_append ?_).trans run
    simp [Interleave.play, Channel.step, callStep, some']
  · rw [told w, if_pos ⟨Nat.zero_le w, below⟩]

theorem lose {c d : Command} {todo : List Command} (place : s.caller = .ready) (more : s.todo = c :: d :: todo)
    (alone : c.synchronises = false) (some' : 0 < workers) (resting : (s.worker 0).Resting)
    (executed : (s.worker 0).executed.length ≤ s.issued.length) :
    ∃ moves s', Interleave.play (Channel.step pickle workers) moves s = some s' ∧ s'.Lags 0 := by
  obtain ⟨moves, s₁, run, place₁, issued₁, todo₁, told₁⟩ := @issue β pickle workers s c _ place more some'.ne'
  have returns : s₁.callStep pickle workers = some { s₁ with caller := .ready } := by
    simp [callStep, place₁, alone]
  obtain ⟨moves', s₂, run', place₂, issued₂, todo₂, told₂⟩ :=
    @issue β pickle workers { s₁ with caller := .ready } d _ rfl todo₁ some'.ne'
  refine ⟨moves ++ .rankZero :: moves', s₂, ?_, ?_⟩
  · refine (play_append run).trans ?_
    change (s₁.callStep pickle workers).bind _ = _
    rw [returns]
    exact run'
  · have worker : s₂.worker 0 = { s.worker 0 with event := true } := by
      rw [told₂ 0 some']
      dsimp only
      rw [told₁ 0 some']
    unfold Lags
    rw [worker, resting.owed_told, issued₂, place₂]
    dsimp only [Caller.owes]
    rw [issued₁, List.length_append, List.length_append, List.length_singleton, List.length_singleton]
    omega

def extend (later : List Command) (s : Channel β) : Channel β := { s with todo := s.todo ++ later }

theorem extend_step (later : List Command) (p : Party) (s s' : Channel β)
    (moved : Channel.step pickle workers p s = some s') :
    Channel.step pickle workers p (s.extend later) = some (s'.extend later) := by
  obtain ⟨todo, issued, caller, length, buf, writer, worker⟩ := s
  cases p with
  | worker w =>
      simp only [Channel.step] at moved ⊢
      split at moved
      next below =>
        obtain ⟨worker', ran, rfl⟩ := Option.map_eq_some_iff.mp moved
        rw [if_pos below]
        exact Option.map_eq_some_iff.mpr ⟨worker', ran, rfl⟩
      next => cases moved
  | rankZero =>
      cases caller with
      | ready =>
          cases todo with
          | nil => cases moved
          | cons command todo =>
              cases moved
              rfl
      | writeLength command =>
          cases moved
          rfl
      | writeData command =>
          cases moved
          rfl
      | setEvents command next =>
          simp only [Channel.step, callStep, extend] at moved ⊢
          split at moved
          next below =>
            cases moved
            rw [if_pos below]
            rfl
          next all =>
            cases moved
            rw [if_neg all]
      | executing command =>
          simp only [Channel.step, callStep] at moved
          split at moved
          next => cases moved
          next returns =>
            cases moved
            exact if_neg returns

structure InOrder (workers : Nat) (commands : List Command) (s : Channel β) : Prop where
  issued : s.issued <+: commands
  executed : ∀ w < workers, (s.worker w).executed <+: s.issued ∧ (s.worker w).looper ≠ .raised

/-- Rank 0 issued every command, and each worker executed them and left its loop. -/
structure Complete (workers : Nat) (commands : List Command) (s : Channel β) : Prop where
  issued : s.issued = commands
  executed : ∀ w < workers, (s.worker w).executed = s.issued ∧ (s.worker w).looper = .exited

def Delivers (pickle : Pickle Command β) (workers : Nat) (commands : List Command) : Prop :=
  ∀ moves s, Interleave.play (Channel.step pickle workers) moves (start (commands ++ [.exit])) = some s →
    s.InOrder workers (commands ++ [.exit]) ∧
      (Stuck (Channel.step pickle workers) s → s.Complete workers (commands ++ [.exit]))

theorem Delivering.complete (h : Delivering pickle workers (commands ++ [.exit]) s)
    (stuck : Stuck (Channel.step pickle workers) s) : s.Complete workers (commands ++ [.exit]) := by
  obtain ⟨-, issued, caught⟩ := h.stuck stuck
  refine ⟨issued, fun w below => ⟨(caught w below).executed, ?_⟩⟩
  rcases (caught w below).resting.stuck (stuck_worker stuck below) with exited | more
  · exact exited
  · rw [(caught w below).executed, issued] at more
    exact absurd List.getLast?_concat more

theorem delivers (runs : ∀ c ∈ commands, c.isExit = false) (sync : workers ≠ 0 → ∀ c ∈ commands, c.synchronises = true) :
    Delivers pickle workers commands := by
  intro moves s run
  have runs' : ∀ c ∈ (commands ++ [Command.exit]).dropLast, c.isExit = false := by
    rwa [List.dropLast_concat]
  have sync' (some' : workers ≠ 0) : ∀ c ∈ commands ++ [Command.exit], c.synchronises = true := by
    intro c listed
    rcases List.mem_append.mp listed with early | last
    · exact sync some' c early
    · rw [List.mem_singleton.mp last]
      rfl
  have h := Delivering.play runs' sync' run
  refine ⟨⟨?_, fun w below => (h.following w below).front⟩, h.complete⟩
  rw [← h.plan]
  exact List.prefix_append s.issued s.todo

theorem catch_up (runs : ∀ c ∈ commands, c.isExit = false) (sync : ∀ c ∈ commands, c.synchronises = true)
    (later : List Command) :
    ∃ moves s, Interleave.play (Channel.step pickle workers) moves (start (commands ++ later)) = some s ∧
      s.caller = .ready ∧ s.todo = later ∧ ∀ w < workers, (s.worker w).CaughtUp s.issued := by
  obtain ⟨moves, s, run, stuck⟩ := exists_stuck (Channel.left workers) (@left_step β pickle workers) (start commands)
  have h := Delivering.play (fun c listed => runs c (List.dropLast_subset commands listed)) (fun _ => sync) run
  obtain ⟨place, issued, caught⟩ := h.stuck stuck
  refine ⟨moves, s.extend later, play_map (extend later) (extend_step later) run, place, ?_, caught⟩
  have plan := h.plan
  rw [issued, List.append_right_eq_self] at plan
  change s.todo ++ later = later
  rw [plan, List.nil_append]

theorem not_delivers {c : Command} (runs : ∀ c ∈ commands, c.isExit = false) (some' : workers ≠ 0)
    (listed : c ∈ commands) (alone : c.synchronises = false) : ¬Delivers pickle workers commands := by
  intro delivers
  obtain ⟨first, found⟩ : ∃ first, commands.find? (fun c => !c.synchronises) = some first := by
    refine Option.isSome_iff_exists.mp (List.find?_isSome.mpr ⟨c, listed, ?_⟩)
    rw [alone, Bool.not_false]
  obtain ⟨lone, before, after, parts, early⟩ := List.find?_eq_some_iff_append.mp found
  subst parts
  have positive := Nat.pos_of_ne_zero some'
  obtain ⟨moves, s, run, place, todo, caught⟩ := @catch_up β pickle workers before
    (fun c listed => runs c (List.mem_append_left _ listed)) (fun c listed => by simpa using early c listed)
    (first :: after ++ [.exit])
  have caught' := caught 0 positive
  obtain ⟨d, rest, more⟩ : ∃ d rest, after ++ [Command.exit] = d :: rest :=
    List.exists_cons_of_ne_nil (List.append_ne_nil_of_right_ne_nil _ (List.cons_ne_nil _ _))
  obtain ⟨moves₁, s₁, run₁, lags⟩ := @lose β pickle workers s first d rest place
    (todo.trans (by rw [List.cons_append, more])) (by simpa using lone) positive caught'.resting
    (by rw [caught'.executed])
  obtain ⟨moves₂, s₂, run₂, stuck⟩ := exists_stuck (Channel.left workers) (@left_step β pickle workers) s₁
  have lags₂ := lags.play run₂
  have all : Interleave.play (Channel.step pickle workers) (moves ++ (moves₁ ++ moves₂))
      (start ((before ++ first :: after) ++ [.exit])) = some s₂ := by
    rw [List.append_assoc]
    exact (play_append run).trans ((play_append run₁).trans run₂)
  have complete := (delivers _ _ all).2 stuck
  unfold Lags at lags₂
  rw [(complete.executed 0 positive).1] at lags₂
  omega

theorem delivers_iff (runs : ∀ c ∈ commands, c.isExit = false) :
    Delivers pickle workers commands ↔ workers = 0 ∨ ∀ c ∈ commands, c.synchronises = true := by
  constructor
  · intro delivered
    by_cases none' : workers = 0
    · exact Or.inl none'
    · refine Or.inr (fun c listed => ?_)
      by_contra alone
      exact not_delivers runs none' listed (Bool.not_eq_true _ ▸ alone) delivered
  · rintro (none' | sync)
    · exact delivers runs (fun some' => absurd none' some')
    · exact delivers runs (fun _ => sync)

end Channel

theorem Command.synchronises_run {forward : List Token → Token} {blockSize numPrefillSeqs : Nat} {seqs : List Sequence}
    {tokenIds : List Token} {logitsIndices : List Nat}
    (run : ModelRunner.run forward blockSize seqs numPrefillSeqs = .ok (tokenIds, some logitsIndices)) :
    (Command.run seqs numPrefillSeqs).synchronises = true ↔ tokenIds ≠ [] := by
  obtain ⟨input, prepared, run⟩ := except_bind_ok run
  rw [except_pure_ok, Prod.mk.injEq] at run
  obtain ⟨rfl, needed⟩ := run
  have rows : logitsIndices = (seqs.zipIdx.filter (fun entry => ModelRunner.needsLogits entry.1)).map Prod.snd := by
    obtain ⟨_, -, prepared⟩ := except_bind_ok prepared
    obtain ⟨_, -, prepared⟩ := except_bind_ok prepared
    obtain ⟨_, -, prepared⟩ := except_bind_ok prepared
    obtain ⟨_, -, prepared⟩ := except_bind_ok prepared
    rw [except_pure_ok] at prepared
    rw [← prepared] at needed
    dsimp only at needed
    split at needed
    · exact (Option.some.inj needed).symm
    · cases needed
  rw [needed, Option.getD_some, rows]
  simp only [Command.synchronises, List.any_eq_true, ne_eq, List.filterMap_eq_nil_iff, not_forall]
  constructor
  · rintro ⟨seq, listed, needs⟩
    obtain ⟨row, below, rfl⟩ := List.getElem_of_mem listed
    refine ⟨row, List.mem_map.mpr ⟨(seqs[row], row), List.mem_filter.mpr ⟨?_, needs⟩, rfl⟩, ?_⟩
    · exact List.mk_mem_zipIdx_iff_getElem?.mpr (List.getElem?_eq_getElem below)
    · simp [below]
  · rintro ⟨row, listed, -⟩
    obtain ⟨entry, member, rfl⟩ := List.mem_map.mp listed
    obtain ⟨member, needs⟩ := List.mem_filter.mp member
    exact ⟨entry.1, List.fst_mem_of_mem_zipIdx member, needs⟩

inductive Commanded (xxh64 : XxHash) (config : Config) : Scheduler → Finset SeqId → List Command → Prop
  | init {s : Scheduler} (made : Scheduler.init config = .ok s) : Commanded xxh64 config s ∅ []
  | add {s s' : Scheduler} {ids : Finset SeqId} {commands : List Command} {i : SeqId} {tokenIds : List Token}
      {params : SamplingParams} {seq : Sequence} (past : Commanded xxh64 config s ids commands) (absent : i ∉ ids)
      (made : Sequence.init xxh64 i tokenIds params config.kvcacheBlockSize = .ok seq)
      (run : Scheduler.add seq s = .ok () s') : Commanded xxh64 config s' (insert i ids) commands
  | step {s t w : Scheduler} {ids : Finset SeqId} {commands : List Command} {batch : List SeqId}
      (past : Commanded xxh64 config s ids commands) (step : Step xxh64 s batch t w) :
      Commanded xxh64 config w ids (commands ++ [.run (batch.map t.seqs) t.numScheduledPrefillSeqs])

section Commanded

open Channel

variable {xxh64 : XxHash} {config : Config} {s w : Scheduler} {ids : Finset SeqId} {commands : List Command}

theorem Commanded.runs (past : Commanded xxh64 config s ids commands) : ∀ c ∈ commands, c.isExit = false := by
  induction past with
  | init made => nofun
  | add past absent made run ih => exact ih
  | step past step ih =>
      intro c listed
      rcases List.mem_append.mp listed with early | last
      · exact ih c early
      · rw [List.mem_singleton.mp last]
        rfl

theorem Commanded.turn (past : Commanded xxh64 config s ids commands) {batch : List SeqId} {t : Scheduler}
    {tokenIds : List Token} (scheduled : Scheduler.schedule s = .ok batch t)
    (run : (Event.step tokenIds).run xxh64 s = .ok () w) :
    Commanded xxh64 config w ids (commands ++ [.run (batch.map t.seqs) t.numScheduledPrefillSeqs]) := by
  obtain ⟨batch', t', scheduled', run⟩ := run_bind_ok run
  rw [scheduled] at scheduled'
  cases scheduled'
  exact past.step ⟨scheduled, tokenIds, _, Event.logits_rows t batch, run⟩

/-- Every interleaving of rank 0 and the workers ends, and all of them deliver the commands of the engine steps,
followed by `exit`, exactly when each step has a row to sample or there is no worker. -/
theorem commands_delivered (past : Commanded xxh64 config s ids commands) (pickle : Pickle Command β) (workers : Nat) :
    (∃ bound, ∀ moves s', play (Channel.step pickle workers) moves (start (commands ++ [.exit])) = some s' →
      moves.length ≤ bound) ∧
    (Delivers pickle workers commands ↔ workers = 0 ∨ ∀ c ∈ commands, c.synchronises = true) := by
  refine ⟨⟨Channel.left workers (@start β (commands ++ [.exit])), fun moves s' run => ?_⟩, delivers_iff past.runs⟩
  have bounded := length_play (Channel.left workers) (@left_step β pickle workers) run
  omega

def wholePickle : Pickle Command Command where
  dumps command := [command]
  loads := List.head?
  loads_dumps _ := rfl

def pairConfig : Config :=
  { maxNumBatchedTokens := 2
    maxModelLen := 8
    kvcacheBlockSize := 1
    numKvcacheBlocks := 8
    chunkedPrefill := true
    kvcacheBlockSize_pos := Nat.one_pos }

theorem commands_delivered_sampled :
    ∃ s first second, Commanded pageHash pairConfig s {0} [first, second] ∧ Delivers wholePickle 1 [first, second] := by
  have start : Scheduler.init pairConfig = .ok _ := rfl
  have request : Sequence.init pageHash 0 [1, 2] {} 1 = .ok _ := rfl
  have added := (@Commanded.init pageHash _ _ start).add (by decide : 0 ∉ (∅ : Finset SeqId)) request
    (run_final (by decide +kernel))
  have first := @Commanded.turn _ _ _ _ _ _ added _ _ [9] (run_value (a := [0]) (by decide +kernel))
    (run_final (by decide +kernel))
  have second := @Commanded.turn _ _ _ _ _ _ first _ _ [9] (run_value (a := [0]) (by decide +kernel))
    (run_final (by decide +kernel))
  refine ⟨_, _, _, second, (commands_delivered second wholePickle 1).2.mpr (Or.inr ?_)⟩
  exact List.forall_mem_cons.mpr ⟨by decide +kernel, List.forall_mem_singleton.mpr (by decide +kernel)⟩

/-- A prompt in two chunks: a worker can miss the first one. -/
theorem chunk_overwritten :
    ∃ s first second, Commanded pageHash pairConfig s {0} [first, second] ∧
      ∀ (β : Type) (pickle : Pickle Command β), ¬Delivers pickle 1 [first, second] := by
  have start : Scheduler.init pairConfig = .ok _ := rfl
  have request : Sequence.init pageHash 0 [1, 2, 3, 4] {} 1 = .ok _ := rfl
  have added := (@Commanded.init pageHash _ _ start).add (by decide : 0 ∉ (∅ : Finset SeqId)) request
    (run_final (by decide +kernel))
  have first := @Commanded.turn _ _ _ _ _ _ added _ _ [] (run_value (a := [0]) (by decide +kernel))
    (run_final (by decide +kernel))
  have second := @Commanded.turn _ _ _ _ _ _ first _ _ [9] (run_value (a := [0]) (by decide +kernel))
    (run_final (by decide +kernel))
  refine ⟨_, _, _, second, fun β pickle => ?_⟩
  exact not_delivers second.runs Nat.one_ne_zero (List.mem_cons_self) (by decide +kernel)

end Commanded

end NanoVllm
