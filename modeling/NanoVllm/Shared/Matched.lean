import NanoVllm.Shared.Raising

set_option autoImplicit false

namespace Raising

/-- Two runs with one outcome: both return the same value, in related states, or both raise the same error. -/
inductive Matched {ε σ τ α : Type} (post : α → σ → τ → Prop) : EStateM.Result ε σ α → EStateM.Result ε τ α → Prop
  | ok {a : α} {s : σ} {t : τ} (related : post a s t) : Matched post (.ok a s) (.ok a t)
  | error {e : ε} {s : σ} {t : τ} : Matched post (.error e s) (.error e t)

namespace Matched

variable {ε σ τ α β ι : Type} {mid : β → σ → τ → Prop} {post : α → σ → τ → Prop} {inv : σ → τ → Prop} {s s' : σ}
  {t t' : τ}

theorem bind {x : EStateM ε σ β} {y : EStateM ε τ β} {f : β → EStateM ε σ α} {g : β → EStateM ε τ α}
    (first : Matched mid (x s) (y t)) (later : ∀ b s t, mid b s t → Matched post (f b s) (g b t)) :
    Matched post ((x >>= f) s) ((y >>= g) t) := by
  generalize left : x s = r at first
  generalize right : y t = r' at first
  cases first with
  | ok related =>
      rw [bind_ok left, bind_ok right]
      exact later _ _ _ related
  | error =>
      rw [bind_error left, bind_error right]
      exact .error

theorem forEach {body : ι → EStateM ε σ Unit} {body' : ι → EStateM ε τ Unit} {xs : List ι} (start : inv s t)
    (turn : ∀ x ∈ xs, ∀ s t, inv s t → Matched (fun _ => inv) (body x s) (body' x t)) :
    Matched (fun _ => inv) (Raising.forEach body xs s) (Raising.forEach body' xs t) := by
  induction xs generalizing s t with
  | nil => exact .ok start
  | cons x rest ih =>
      exact (turn x (List.mem_cons_self ..) s t start).bind (fun _ s t related =>
        ih related (fun y later => turn y (List.mem_cons_of_mem x later)))

theorem zoom {part : σ → τ} {put : σ → τ → σ} {y : EStateM ε τ α}
    (kept : ∀ a t', y (part s) = .ok a t' → post a (put s t') t') :
    Matched post (Raising.zoom part put y s) (y (part s)) := by
  unfold Raising.zoom
  cases run : y (part s) with
  | ok a t' => exact .ok (kept a t' run)
  | error e t' => exact .error

theorem left {x : EStateM.Result ε σ α} {y : EStateM.Result ε τ α} (matched : Matched post x y) {a : α}
    (run : x = .ok a s') : ∃ t', y = .ok a t' ∧ post a s' t' := by
  subst run
  cases matched with
  | ok related => exact ⟨_, rfl, related⟩

theorem right {x : EStateM.Result ε σ α} {y : EStateM.Result ε τ α} (matched : Matched post x y) {a : α}
    (run : y = .ok a t') : ∃ s', x = .ok a s' ∧ post a s' t' := by
  subst run
  cases matched with
  | ok related => exact ⟨_, rfl, related⟩

end Matched

end Raising
