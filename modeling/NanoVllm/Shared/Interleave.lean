import Mathlib.Tactic.Common

set_option autoImplicit false

namespace Interleave

variable {Party State : Type} (step : Party → State → Option State)

def play : List Party → State → Option State
  | [], s => some s
  | p :: moves, s => (step p s).bind (play moves)

def Stuck (s : State) : Prop := ∀ p, step p s = none

variable {step} {s s' : State} {p : Party} {moves : List Party}

theorem play_cons (run : play step (p :: moves) s = some s') :
    ∃ next, step p s = some next ∧ play step moves next = some s' := Option.bind_eq_some_iff.mp run

theorem play_append {later : List Party} (run : play step moves s = some s') :
    play step (moves ++ later) s = play step later s' := by
  induction moves generalizing s with
  | nil =>
      cases run
      rfl
  | cons p moves ih =>
      obtain ⟨next, moved, run⟩ := play_cons run
      change (step p s).bind (play step (moves ++ later)) = _
      rw [moved]
      exact ih run

theorem play_invariant (Holds : State → Prop)
    (preserved : ∀ p s s', Holds s → step p s = some s' → Holds s') (start : Holds s)
    (run : play step moves s = some s') : Holds s' := by
  induction moves generalizing s with
  | nil =>
      cases run
      exact start
  | cons p moves ih =>
      obtain ⟨next, moved, run⟩ := play_cons run
      exact ih (preserved p s next start moved) run

theorem length_play (measure : State → Nat)
    (decreases : ∀ p s s', step p s = some s' → measure s' < measure s)
    (run : play step moves s = some s') : moves.length + measure s' ≤ measure s := by
  induction moves generalizing s with
  | nil =>
      cases run
      simp
  | cons p moves ih =>
      obtain ⟨next, moved, run⟩ := play_cons run
      have later := ih run
      have first := decreases p s next moved
      rw [List.length_cons]
      omega

theorem exists_stuck (measure : State → Nat) (decreases : ∀ p s s', step p s = some s' → measure s' < measure s)
    (s : State) : ∃ moves s', play step moves s = some s' ∧ Stuck step s' := by
  induction left : measure s using Nat.strongRecOn generalizing s with
  | ind n ih =>
      by_cases stuck : Stuck step s
      · exact ⟨[], s, rfl, stuck⟩
      · obtain ⟨p, moves⟩ := not_forall.mp stuck
        obtain ⟨next, moved⟩ := Option.ne_none_iff_exists'.mp moves
        have less := decreases p s next moved
        obtain ⟨later, s', run, ended⟩ := ih (measure next) (by omega) next rfl
        refine ⟨p :: later, s', ?_, ended⟩
        change (step p s).bind (play step later) = _
        rw [moved]
        exact run

variable {State' : Type} {step' : Party → State' → Option State'}

theorem play_map (f : State → State') (simulates : ∀ p s s', step p s = some s' → step' p (f s) = some (f s'))
    (run : play step moves s = some s') : play step' moves (f s) = some (f s') := by
  induction moves generalizing s with
  | nil =>
      cases run
      rfl
  | cons p moves ih =>
      obtain ⟨next, moved, run⟩ := play_cons run
      change (step' p (f s)).bind (play step' moves) = _
      rw [simulates p s next moved]
      exact ih run

end Interleave
