import NanoVllm.Model.Channel
import NanoVllm.Runs.Reachable

set_option autoImplicit false

namespace NanoVllm

open Python Raising Interleave

variable {β : Type} {pickle : Pickle Command β} {workers : Nat}

def Worker.Resting (worker : Worker) : Prop :=
  worker.event = false ∧ match worker.looper with
    | .waiting => worker.executed.getLast? ≠ some .exit
    | .executing command => worker.executed.getLast? = some command
    | .exited => worker.executed.getLast? = some .exit
    | _ => False

structure Worker.CaughtUp (worker : Worker) (issued : List Command) : Prop where
  executed : worker.executed = issued
  started : worker.started = List.range issued.length
  resting : worker.Resting

/-- The worker has started every command but the last one, which it was not told of. -/
structure Worker.Behind (worker : Worker) (issued : List Command) : Prop where
  executed : worker.executed = issued.dropLast
  started : worker.started = List.range (issued.length - 1)
  resting : worker.Resting
  open' : ∀ command ∈ worker.executed, command.isExit = false

structure Worker.Signalled (pickle : Pickle Command β) (worker : Worker) (issued : List Command) (command : Command) :
    Prop where
  executed : worker.executed = issued.dropLast
  started : worker.started = List.range (issued.length - 1)
  looper : match worker.looper with
    | .waiting => worker.event = true
    | .executing previous => worker.event = true ∧ previous.isExit = false
    | .readLength => worker.event = true
    | .readData n => worker.event = true ∧ n = (pickle.dumps command).length
    | .clearing read issue => read = command ∧ issue = issued.length - 1
    | .calling read issue => worker.event = false ∧ read = command ∧ issue = issued.length - 1
    | .exited => False
    | .raised => False

def Worker.Following (pickle : Pickle Command β) (worker : Worker) (caller : Caller) (issued : List Command) (w : Nat) :
    Prop :=
  match caller with
  | .ready => worker.CaughtUp issued
  | .writeLength _ => worker.Behind issued
  | .writeData _ => worker.Behind issued
  | .setEvents command next =>
      if w < next then worker.Signalled pickle issued command ∨ worker.CaughtUp issued else worker.Behind issued
  | .executing command => worker.Signalled pickle issued command ∨ worker.CaughtUp issued

namespace Channel

structure Posted (pickle : Pickle Command β) (s : Channel β) (command : Command) : Prop where
  length : s.length = (pickle.dumps command).length
  buf : s.buf.take (pickle.dumps command).length = pickle.dumps command
  writer : s.writer = s.issued.length - 1

-- What holds of the shared memory, from where rank 0 is.
def Wrote (pickle : Pickle Command β) (workers : Nat) (s : Channel β) : Prop :=
  match s.caller with
  | .ready => True
  | .writeLength command => s.issued.getLast? = some command
  | .writeData command => s.issued.getLast? = some command ∧ s.length = (pickle.dumps command).length
  | .setEvents command _ => s.issued.getLast? = some command ∧ s.Posted pickle command
  | .executing command => s.issued.getLast? = some command ∧ (workers ≠ 0 → s.Posted pickle command)

structure Delivering (pickle : Pickle Command β) (workers : Nat) (commands : List Command) (s : Channel β) : Prop where
  plan : s.issued ++ s.todo = commands
  wrote : s.Wrote pickle workers
  following : ∀ w < workers, (s.worker w).Following pickle s.caller s.issued w

end Channel

section Follow

open Channel

variable {worker worker' : Worker} {issued : List Command} {command : Command} {length writer : Nat} {buf : List β}

theorem Worker.Resting.step (h : worker.Resting) (run : loopStep pickle length buf writer worker = some worker') :
    worker'.executed = worker.executed ∧ worker'.started = worker.started ∧ worker'.Resting := by
  obtain ⟨looper, event, executed, started⟩ := worker
  obtain ⟨quiet, place⟩ := h
  cases looper with
  | waiting =>
      dsimp only at quiet
      subst quiet
      cases run
  | executing command =>
      cases run
      refine ⟨rfl, rfl, quiet, ?_⟩
      cases command with
      | run seqs numPrefillSeqs =>
          change executed.getLast? ≠ some .exit
          rw [place]
          simp
      | exit => exact place
  | exited => cases run
  | readLength => exact place.elim
  | readData n => exact place.elim
  | clearing command issue => exact place.elim
  | calling command issue => exact place.elim
  | raised => exact place.elim

theorem Worker.CaughtUp.step (h : worker.CaughtUp issued)
    (run : loopStep pickle length buf writer worker = some worker') : worker'.CaughtUp issued := by
  obtain ⟨executed, started, resting⟩ := h.resting.step run
  exact ⟨executed.trans h.executed, started.trans h.started, resting⟩

theorem Worker.Behind.step (h : worker.Behind issued)
    (run : loopStep pickle length buf writer worker = some worker') : worker'.Behind issued := by
  obtain ⟨executed, started, resting⟩ := h.resting.step run
  refine ⟨executed.trans h.executed, started.trans h.started, resting, ?_⟩
  rw [executed]
  exact h.open'

theorem Worker.Signalled.step (h : worker.Signalled pickle issued command) (last : issued.getLast? = some command)
    (posted : length = (pickle.dumps command).length ∧
      buf.take (pickle.dumps command).length = pickle.dumps command ∧ writer = issued.length - 1)
    (run : loopStep pickle length buf writer worker = some worker') :
    worker'.Signalled pickle issued command ∨ worker'.CaughtUp issued := by
  obtain ⟨looper, event, executed, started⟩ := worker
  obtain ⟨length', buf', writer'⟩ := posted
  have place := h.looper
  cases looper with
  | waiting =>
      dsimp only at place
      subst place
      cases run
      exact Or.inl ⟨h.executed, h.started, rfl⟩
  | readLength =>
      cases run
      exact Or.inl ⟨h.executed, h.started, place, length'⟩
  | readData n =>
      obtain ⟨told, exact'⟩ := place
      simp only [loopStep, exact', buf', pickle.loads_dumps] at run
      cases run
      exact Or.inl ⟨h.executed, h.started, rfl, writer'⟩
  | clearing read issue =>
      cases run
      exact Or.inl ⟨h.executed, h.started, rfl, place⟩
  | calling read issue =>
      obtain ⟨quiet, rfl, exact'⟩ := place
      cases run
      have executed' := h.executed
      have started' := h.started
      dsimp only at quiet executed' started'
      have some' : 0 < issued.length := by
        cases issued with
        | nil => cases last
        | cons first rest => simp
      refine Or.inr ⟨?_, ?_, quiet, ?_⟩
      · change executed ++ [read] = issued
        rw [executed']
        exact List.dropLast_append_getLast? read last
      · change started ++ [issue] = _
        rw [started', exact', ← List.range_succ, Nat.succ_eq_add_one, Nat.sub_add_cancel some']
      · exact List.getLast?_concat
  | executing previous =>
      cases run
      obtain ⟨told, more⟩ := place
      refine Or.inl ⟨h.executed, h.started, ?_⟩
      simp only [more]
      exact told
  | exited => exact place.elim
  | raised => exact place.elim

theorem Worker.CaughtUp.behind (h : worker.CaughtUp issued) (more : ∀ c ∈ issued, c.isExit = false)
    (command : Command) : worker.Behind (issued ++ [command]) := by
  refine ⟨?_, ?_, h.resting, ?_⟩
  · rw [h.executed, List.dropLast_concat]
  · rw [h.started, List.length_append, List.length_singleton, Nat.add_sub_cancel]
  · rw [h.executed]
    exact more

theorem Worker.Behind.signalled (h : worker.Behind issued) (command : Command) :
    ({ worker with event := true } : Worker).Signalled pickle issued command := by
  refine ⟨h.executed, h.started, ?_⟩
  obtain ⟨looper, event, executed, started⟩ := worker
  have place := h.resting.2
  cases looper with
  | waiting => rfl
  | executing previous => exact ⟨rfl, h.open' previous (List.mem_of_getLast? place)⟩
  | exited =>
      have last := h.open' .exit (List.mem_of_getLast? place)
      cases last
  | readLength => exact place.elim
  | readData n => exact place.elim
  | clearing command issue => exact place.elim
  | calling command issue => exact place.elim
  | raised => exact place.elim

theorem Worker.Signalled.not_started (h : worker.Signalled pickle issued command) :
    issued.length - 1 ∉ worker.started := by
  rw [h.started]
  exact List.not_mem_range_self

theorem Worker.Resting.not_raised (h : worker.Resting) : worker.looper ≠ .raised := by
  intro raised
  have place := h.2
  rw [raised] at place
  exact place

theorem Worker.Following.front {caller : Caller} {w : Nat} (h : worker.Following pickle caller issued w) :
    worker.executed <+: issued ∧ worker.looper ≠ .raised := by
  have behind (b : worker.Behind issued) : worker.executed <+: issued ∧ worker.looper ≠ .raised := by
    rw [b.executed]
    exact ⟨List.dropLast_prefix issued, b.resting.not_raised⟩
  have caught (c : worker.CaughtUp issued) : worker.executed <+: issued ∧ worker.looper ≠ .raised := by
    rw [c.executed]
    exact ⟨List.prefix_rfl, c.resting.not_raised⟩
  have told {command : Command} (t : worker.Signalled pickle issued command ∨ worker.CaughtUp issued) :
      worker.executed <+: issued ∧ worker.looper ≠ .raised := by
    rcases t with t | c
    · rw [t.executed]
      refine ⟨List.dropLast_prefix issued, fun raised => ?_⟩
      have place := t.looper
      rw [raised] at place
      exact place
    · exact caught c
  cases caller with
  | ready => exact caught h
  | writeLength command => exact behind h
  | writeData command => exact behind h
  | setEvents command next =>
      unfold Worker.Following at h
      dsimp only at h
      split at h
      · exact told h
      · exact behind h
  | executing command => exact told h

theorem Worker.Signalled.moves (h : worker.Signalled pickle issued command) :
    loopStep pickle length buf writer worker ≠ none := by
  obtain ⟨looper, event, executed, started⟩ := worker
  have place := h.looper
  cases looper with
  | waiting =>
      dsimp only at place
      simp [loopStep, place]
  | readData n =>
      unfold loopStep
      dsimp only
      split <;> nofun
  | exited => exact place.elim
  | raised => exact place.elim
  | readLength => nofun
  | clearing read issue => nofun
  | calling read issue => nofun
  | executing previous => nofun

theorem Worker.Resting.stuck (h : worker.Resting) (stuck : loopStep pickle length buf writer worker = none) :
    worker.looper = .exited ∨ worker.executed.getLast? ≠ some .exit := by
  obtain ⟨looper, event, executed, started⟩ := worker
  have place := h.2
  cases looper with
  | waiting => exact Or.inr place
  | exited => exact Or.inl rfl
  | executing command => cases stuck
  | readLength => exact place.elim
  | readData n => exact place.elim
  | clearing command issue => exact place.elim
  | calling command issue => exact place.elim
  | raised => exact place.elim

end Follow

namespace Channel

variable {commands : List Command} {s s' : Channel β}

theorem plan_todo {issued todo : List Command} {command : Command}
    (plan : issued ++ command :: todo = commands) : ∀ c ∈ issued, c ∈ commands.dropLast := by
  intro c listed
  rw [← plan, List.dropLast_append_of_ne_nil (List.cons_ne_nil command todo)]
  exact List.mem_append_left _ listed

theorem Delivering.start : Delivering pickle workers commands (start commands) where
  plan := rfl
  wrote := trivial
  following _ _ := ⟨rfl, rfl, rfl, nofun⟩

theorem Delivering.callStep (h : Delivering pickle workers commands s)
    (runs : ∀ c ∈ commands.dropLast, c.isExit = false) (sync : workers ≠ 0 → ∀ c ∈ commands, c.synchronises = true)
    (step : s.callStep pickle workers = some s') :
    Delivering pickle workers commands s' := by
  obtain ⟨todo, issued, caller, length, buf, writer, worker⟩ := s
  obtain ⟨plan, wrote, following⟩ := h
  dsimp only at plan following
  cases caller with
  | ready =>
      cases todo with
      | nil => cases step
      | cons command todo =>
          cases step
          have known := plan_todo plan
          have plan' : (issued ++ [command]) ++ todo = commands := by
            rw [List.append_assoc]
            exact plan
          by_cases alone : workers = 0
          · refine ⟨plan', ?_, fun w below => absurd below (by omega)⟩
            simp only [Wrote, if_pos alone]
            exact ⟨List.getLast?_concat, fun some' => absurd alone some'⟩
          · refine ⟨plan', ?_, fun w below => ?_⟩
            · simp only [Wrote, if_neg alone]
              exact List.getLast?_concat
            · simp only [if_neg alone]
              exact (following w below).behind (fun c listed => runs c (known c listed)) command
  | writeLength command =>
      cases step
      exact ⟨plan, ⟨wrote, rfl⟩, following⟩
  | writeData command =>
      cases step
      refine ⟨plan, ⟨wrote.1, wrote.2, List.take_left, rfl⟩, fun w below => ?_⟩
      exact following w below
  | setEvents command next =>
      simp only [Channel.callStep] at step
      split at step
      next more =>
        cases step
        refine ⟨plan, ⟨wrote.1, wrote.2.length, wrote.2.buf, wrote.2.writer⟩, fun w below => ?_⟩
        have before : if w < next then (worker w).Signalled pickle issued command ∨ (worker w).CaughtUp issued
            else (worker w).Behind issued := following w below
        change if w < next + 1 then (Function.update worker next { worker next with event := true } w).Signalled
            pickle issued command ∨ (Function.update worker next { worker next with event := true } w).CaughtUp issued
          else (Function.update worker next { worker next with event := true } w).Behind issued
        rcases Nat.lt_trichotomy w next with early | rfl | late
        · rw [if_pos early] at before
          rw [if_pos (by omega), Function.update_of_ne (by omega)]
          exact before
        · rw [if_neg (Nat.lt_irrefl w)] at before
          rw [if_pos (Nat.lt_succ_self w), Function.update_self]
          exact Or.inl (before.signalled command)
        · rw [if_neg (by omega)] at before
          rw [if_neg (by omega), Function.update_of_ne (by omega)]
          exact before
      next all =>
        cases step
        refine ⟨plan, ⟨wrote.1, fun _ => ⟨wrote.2.length, wrote.2.buf, wrote.2.writer⟩⟩, fun w below => ?_⟩
        have before : if w < next then (worker w).Signalled pickle issued command ∨ (worker w).CaughtUp issued
            else (worker w).Behind issued := following w below
        rwa [if_pos (by omega)] at before
  | executing command =>
      simp only [Channel.callStep] at step
      split at step
      next => cases step
      next returns =>
        cases step
        refine ⟨plan, trivial, fun w below => ?_⟩
        have before : (worker w).Signalled pickle issued command ∨ (worker w).CaughtUp issued := following w below
        rcases before with told | caught
        · have listed : command ∈ commands := by
            rw [← plan]
            exact List.mem_append_left _ (List.mem_of_getLast? wrote.1)
          have waits : command.synchronises = true := sync (by omega) command listed
          rw [waits, Bool.true_and, Bool.not_eq_true', Bool.not_eq_false, everyStarted, List.all_eq_true] at returns
          have started := of_decide_eq_true (returns w (List.mem_range.mpr below))
          exact absurd started told.not_started
        · exact caught

theorem Delivering.loopStep (h : Delivering pickle workers commands s) {w : Nat} {worker' : Worker} (below : w < workers)
    (step : Channel.loopStep pickle s.length s.buf s.writer (s.worker w) = some worker') :
    Delivering pickle workers commands (s.setWorker w worker') := by
  obtain ⟨todo, issued, caller, length, buf, writer, worker⟩ := s
  obtain ⟨plan, wrote, following⟩ := h
  dsimp only at plan following step
  refine ⟨plan, ?_, fun v within => ?_⟩
  · cases caller with
    | ready => trivial
    | writeLength command => exact wrote
    | writeData command => exact wrote
    | setEvents command next => exact ⟨wrote.1, wrote.2.length, wrote.2.buf, wrote.2.writer⟩
    | executing command =>
        exact ⟨wrote.1, fun some' => ⟨(wrote.2 some').length, (wrote.2 some').buf, (wrote.2 some').writer⟩⟩
  · change (Function.update worker w worker' v).Following pickle caller issued v
    by_cases self : v = w
    · subst self
      rw [Function.update_self]
      have before := following v within
      cases caller with
      | ready => exact Worker.CaughtUp.step before step
      | writeLength command => exact Worker.Behind.step before step
      | writeData command => exact Worker.Behind.step before step
      | setEvents command next =>
          unfold Worker.Following at before ⊢
          dsimp only at before ⊢
          split at before
          next early =>
            rw [if_pos early]
            rcases before with told | caught
            · exact told.step wrote.1 ⟨wrote.2.length, wrote.2.buf, wrote.2.writer⟩ step
            · exact Or.inr (caught.step step)
          next late =>
            rw [if_neg late]
            exact before.step step
      | executing command =>
          have posted := wrote.2 (by omega)
          rcases before with told | caught
          · exact told.step wrote.1 ⟨posted.length, posted.buf, posted.writer⟩ step
          · exact Or.inr (caught.step step)
    · rw [Function.update_of_ne self]
      exact following v within

theorem Delivering.step (h : Delivering pickle workers commands s) (runs : ∀ c ∈ commands.dropLast, c.isExit = false)
    (sync : workers ≠ 0 → ∀ c ∈ commands, c.synchronises = true) (p : Party)
    (step : Channel.step pickle workers p s = some s') : Delivering pickle workers commands s' := by
  cases p with
  | rankZero => exact h.callStep runs sync step
  | worker w =>
      simp only [Channel.step] at step
      split at step
      next below =>
        obtain ⟨worker', moved, rfl⟩ := Option.map_eq_some_iff.mp step
        exact h.loopStep below moved
      next => cases step

theorem Delivering.play (runs : ∀ c ∈ commands.dropLast, c.isExit = false)
    (sync : workers ≠ 0 → ∀ c ∈ commands, c.synchronises = true) {moves : List Party}
    (run : Interleave.play (Channel.step pickle workers) moves (Channel.start commands) = some s) :
    Delivering pickle workers commands s :=
  play_invariant (Delivering pickle workers commands) (fun p _ _ h moved => h.step runs sync p moved)
    Delivering.start run

theorem stuck_worker (stuck : Stuck (Channel.step pickle workers) s) {w : Nat} (below : w < workers) :
    Channel.loopStep pickle s.length s.buf s.writer (s.worker w) = none := by
  have none' := stuck (.worker w)
  rw [Channel.step, if_pos below, Option.map_eq_none_iff] at none'
  exact none'

theorem Delivering.stuck (h : Delivering pickle workers commands s) (stuck : Stuck (Channel.step pickle workers) s) :
    s.caller = .ready ∧ s.issued = commands ∧ ∀ w < workers, (s.worker w).CaughtUp s.issued := by
  have none' : s.callStep pickle workers = none := stuck .rankZero
  have following := h.following
  unfold Channel.callStep at none'
  cases place : s.caller with
  | ready =>
      rw [place] at none' following
      refine ⟨rfl, ?_, following⟩
      cases left : s.todo with
      | nil =>
          have plan := h.plan
          rwa [left, List.append_nil] at plan
      | cons command todo =>
          rw [left] at none'
          cases none'
  | writeLength command =>
      rw [place] at none'
      cases none'
  | writeData command =>
      rw [place] at none'
      cases none'
  | setEvents command next =>
      rw [place] at none'
      dsimp only at none'
      split at none' <;> cases none'
  | executing command =>
      rw [place] at none' following
      dsimp only at none'
      split at none'
      next waits =>
        rw [Bool.and_eq_true, Bool.not_eq_true', everyStarted, List.all_eq_false] at waits
        obtain ⟨-, w, member, missing⟩ := waits
        have below := List.mem_range.mp member
        rcases following w below with told | caught
        · exact absurd (stuck_worker stuck below) told.moves
        · have wrote := h.wrote
          unfold Wrote at wrote
          rw [place] at wrote
          have some' : s.issued ≠ [] := fun empty => by
            rw [empty] at wrote
            cases wrote.1
          have started : s.issued.length - 1 ∈ (s.worker w).started := by
            rw [caught.started, List.mem_range]
            have positive := List.length_pos_iff.mpr some'
            omega
          exact absurd (decide_eq_true started) missing
      next => cases none'

end Channel

end NanoVllm
