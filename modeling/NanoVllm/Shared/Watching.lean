import NanoVllm.Shared.Raising

set_option autoImplicit false

namespace Raising

variable {ε σ τ α β : Type}

def onPart (part : σ → τ) : EStateM.Result ε σ α → EStateM.Result ε τ α
  | .ok a s => .ok a (part s)
  | .error e s => .error e (part s)

def Watches (part : σ → τ) (x' : EStateM ε σ α) (x : EStateM ε τ α) : Prop := ∀ s, onPart part (x' s) = x (part s)

namespace Watches

variable {part : σ → τ} {x' : EStateM ε σ α} {x : EStateM ε τ α} {s t : σ} {a : α}

theorem returns (h : Watches part x' x) (run : x' s = .ok a t) : x (part s) = .ok a (part t) := by
  rw [← h s, run]
  rfl

theorem raises (h : Watches part x' x) {e : ε} (run : x' s = .error e t) : x (part s) = .error e (part t) := by
  rw [← h s, run]
  rfl

theorem ok (h : Watches part x' x) {u : τ} (run : x (part s) = .ok a u) : ∃ t, x' s = .ok a t ∧ part t = u := by
  cases run' : x' s with
  | ok b t =>
      cases (h.returns run').symm.trans run
      exact ⟨t, rfl, rfl⟩
  | error e t => cases (h.raises run').symm.trans run

theorem pure (a : α) : Watches part (Pure.pure a : EStateM ε σ α) (Pure.pure a) := fun _ => rfl

theorem throw (e : ε) : Watches part (MonadExcept.throw e : EStateM ε σ α) (MonadExcept.throw e) := fun _ => rfl

theorem ofExcept (x : Except ε α) :
    Watches part (MonadExcept.ofExcept x : EStateM ε σ α) (MonadExcept.ofExcept x) := by
  intro s
  cases x <;> rfl

theorem require (p : Prop) [Decidable p] (e : ε) :
    Watches part (Raising.require p e : EStateM ε σ Unit) (Raising.require p e) := by
  unfold Raising.require
  split
  · exact pure ()
  · exact throw e

theorem zoom {put : σ → τ → σ} (gets : ∀ s t, part (put s t) = t) (x : EStateM ε τ α) :
    Watches part (Raising.zoom part put x) x := by
  intro s
  unfold Raising.zoom
  cases x (part s) with
  | ok a t => exact congrArg (EStateM.Result.ok a) (gets s t)
  | error e t => exact congrArg (EStateM.Result.error e) (gets s t)

theorem bind {y' : EStateM ε σ β} {y : EStateM ε τ β} {f' : β → EStateM ε σ α} {f : β → EStateM ε τ α}
    (first : Watches part y' y) (rest : ∀ b, Watches part (f' b) (f b)) : Watches part (y' >>= f') (y >>= f) := by
  intro s
  cases run : y' s with
  | ok b t =>
      rw [bind_ok run, bind_ok (first.returns run)]
      exact rest b t
  | error e t =>
      rw [bind_error run, bind_error (first.raises run)]
      rfl

theorem then_modify {y' : EStateM ε σ Unit} {y : EStateM ε τ Unit} (first : Watches part y' y) (g : σ → σ)
    (same : ∀ s, part (g s) = part s) : Watches part (y' >>= fun _ => modify g) y := by
  intro s
  cases run : y' s with
  | ok b t =>
      rw [bind_ok run, first.returns run]
      exact congrArg (EStateM.Result.ok ()) (same t)
  | error e t =>
      rw [bind_error run, first.raises run]
      rfl

theorem get_bind {f' : σ → EStateM ε σ α} {f : τ → EStateM ε τ α} (rest : ∀ s, Watches part (f' s) (f (part s))) :
    Watches part (get >>= f') (get >>= f) := fun s => rest s s

theorem forEach {ι : Type} {body' : ι → EStateM ε σ Unit} {body : ι → EStateM ε τ Unit}
    (turn : ∀ x, Watches part (body' x) (body x)) (xs : List ι) :
    Watches part (Raising.forEach body' xs) (Raising.forEach body xs) := by
  induction xs with
  | nil => exact pure ()
  | cons x xs ih => exact (turn x).bind (fun _ => ih)

theorem ite (p : Prop) [Decidable p] {y' : EStateM ε σ α} {y : EStateM ε τ α} (yes : Watches part x' x)
    (no : Watches part y' y) : Watches part (if p then x' else y') (if p then x else y) := by
  split
  · exact yes
  · exact no

end Watches

end Raising
