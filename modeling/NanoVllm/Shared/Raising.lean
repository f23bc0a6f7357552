import Mathlib.Tactic.Common

set_option autoImplicit false

namespace Raising

def require {ε : Type} {m : Type → Type} [Monad m] [MonadExcept ε m] (p : Prop) [Decidable p] (e : ε) :
    m Unit :=
  if p then pure () else throw e

def zoom {ε σ τ α : Type} (part : σ → τ) (put : σ → τ → σ) (x : EStateM ε τ α) : EStateM ε σ α :=
  fun s => match x (part s) with
    | .ok a t => .ok a (put s t)
    | .error e t => .error e (put s t)

def forEach {ε σ ι : Type} (body : ι → EStateM ε σ Unit) : List ι → EStateM ε σ Unit
  | [] => pure ()
  | x :: xs => do
    body x
    forEach body xs

-- The elements of a `for` loop with the states in which their turns start.
def turns {ε σ ι : Type} (body : ι → EStateM ε σ Unit) : List ι → σ → List (ι × σ)
  | [], _ => []
  | x :: xs, s => (x, s) :: match body x s with
    | .ok _ t => turns body xs t
    | .error _ _ => []

def wp {ε σ α : Type} (x : EStateM ε σ α) (Q : α → σ → Prop) (E : ε → σ → Prop) (s : σ) : Prop :=
  match x s with
  | .ok a t => Q a t
  | .error e t => E e t

instance {ε σ α : Type} (x : EStateM ε σ α) (Q : α → σ → Prop) (E : ε → σ → Prop) (s : σ)
    [∀ a t, Decidable (Q a t)] [∀ e t, Decidable (E e t)] : Decidable (wp x Q E s) :=
  match run : x s with
  | .ok a t => decidable_of_iff (Q a t) (by simp only [wp, run])
  | .error e t => decidable_of_iff (E e t) (by simp only [wp, run])

-- The state that a run leaves, and whether it returned.
def final {ε σ α : Type} : EStateM.Result ε σ α → σ
  | .ok _ t => t
  | .error _ t => t

def returned {ε σ α : Type} : EStateM.Result ε σ α → Bool
  | .ok _ _ => true
  | .error _ _ => false

section Run

variable {ε σ τ α β : Type} {s t : σ}

theorem bind_ok {x : EStateM ε σ β} {f : β → EStateM ε σ α} {b : β} (run : x s = .ok b t) :
    (x >>= f) s = f b t := by
  simp only [bind, EStateM.bind, run]

theorem bind_error {x : EStateM ε σ β} {f : β → EStateM ε σ α} {e : ε} (run : x s = .error e t) :
    (x >>= f) s = .error e t := by
  simp only [bind, EStateM.bind, run]

@[simp] theorem run_pure (a : α) : (pure a : EStateM ε σ α) s = .ok a s := rfl

@[simp] theorem run_throw (e : ε) : (throw e : EStateM ε σ α) s = .error e s := rfl

@[simp] theorem run_get_bind (f : σ → EStateM ε σ α) : (get >>= f) s = f s s := rfl

@[simp] theorem run_set (u : σ) : (set u : EStateM ε σ PUnit) s = .ok () u := rfl

@[simp] theorem run_set_bind (u : σ) (f : PUnit → EStateM ε σ α) :
    ((set u : EStateM ε σ PUnit) >>= f) s = f () u := rfl

@[simp] theorem run_modify (g : σ → σ) : (modify g : EStateM ε σ PUnit) s = .ok () (g s) := rfl

@[simp] theorem run_modify_bind (g : σ → σ) (f : PUnit → EStateM ε σ α) :
    ((modify g : EStateM ε σ PUnit) >>= f) s = f () (g s) := rfl

@[simp] theorem run_pure_bind (b : β) (f : β → EStateM ε σ α) :
    ((pure b : EStateM ε σ β) >>= f) s = f b s := rfl

theorem run_require_bind {p : Prop} [Decidable p] (holds : p) (e : ε) (f : Unit → EStateM ε σ α) :
    ((require p e : EStateM ε σ Unit) >>= f) s = f () s := by
  simp [require, holds]

theorem run_ofExcept_bind {x : Except ε β} {b : β} (value : x = .ok b) (f : β → EStateM ε σ α) :
    ((ofExcept x : EStateM ε σ β) >>= f) s = f b s := by
  subst value
  rfl

theorem run_bind_ok {x : EStateM ε σ β} {f : β → EStateM ε σ α} {a : α} (run : (x >>= f) s = .ok a t) :
    ∃ b u, x s = .ok b u ∧ f b u = .ok a t := by
  simp only [bind, EStateM.bind] at run
  cases first : x s with
  | error e u => simp [first] at run
  | ok b u =>
      rw [first] at run
      exact ⟨b, u, rfl, run⟩

theorem run_require_ok {p : Prop} [Decidable p] {e : ε} {f : Unit → EStateM ε σ α} {a : α}
    (run : ((require p e : EStateM ε σ Unit) >>= f) s = .ok a t) : p ∧ f () s = .ok a t := by
  by_cases holds : p
  · exact ⟨holds, (run_require_bind holds e f) ▸ run⟩
  · obtain ⟨_, _, impossible, -⟩ := run_bind_ok run
    simp [require, holds] at impossible

theorem run_ofExcept_ok {x : Except ε β} {f : β → EStateM ε σ α} {a : α}
    (run : ((ofExcept x : EStateM ε σ β) >>= f) s = .ok a t) : ∃ b, x = .ok b ∧ f b s = .ok a t := by
  cases x with
  | error e => cases run
  | ok b => exact ⟨b, rfl, run⟩

theorem run_final {x : EStateM ε σ Unit} (ok : returned (x s) = true) : x s = .ok () (final (x s)) := by
  cases run : x s with
  | ok a t => rfl
  | error e t => simp [run, returned] at ok

theorem zoom_ok {part : σ → τ} {put : σ → τ → σ} {x : EStateM ε τ α} {a : α} {u : τ}
    (run : x (part s) = .ok a u) : zoom part put x s = .ok a (put s u) := by
  simp only [zoom, run]

theorem run_zoom_ok {part : σ → τ} {put : σ → τ → σ} {x : EStateM ε τ α} {a : α}
    (run : zoom part put x s = .ok a t) : ∃ u, x (part s) = .ok a u ∧ put s u = t := by
  unfold zoom at run
  cases inner : x (part s) with
  | ok b u =>
      simp only [inner, EStateM.Result.ok.injEq] at run
      obtain ⟨rfl, same⟩ := run
      exact ⟨u, rfl, same⟩
  | error e u => simp [inner] at run

theorem forEach_map {ι κ : Type} (body : ι → EStateM ε σ Unit) (g : κ → ι) (xs : List κ) :
    forEach body (xs.map g) = forEach (fun x => body (g x)) xs := by
  induction xs with
  | nil => rfl
  | cons x xs ih => simp only [List.map_cons, forEach, ih]

theorem forEach_append_ok {ι : Type} {body : ι → EStateM ε σ Unit} {xs ys : List ι}
    (run : forEach body (xs ++ ys) s = .ok () t) :
    ∃ u, forEach body xs s = .ok () u ∧ forEach body ys u = .ok () t := by
  induction xs generalizing s with
  | nil => exact ⟨s, rfl, run⟩
  | cons x xs ih =>
      obtain ⟨⟨⟩, v, first, run⟩ := run_bind_ok run
      obtain ⟨u, front, rest⟩ := ih run
      exact ⟨u, (bind_ok first).trans front, rest⟩

theorem turns_ok {ι : Type} {body : ι → EStateM ε σ Unit} {x : ι} {xs : List ι} {u : σ} (run : body x s = .ok () u) :
    turns body (x :: xs) s = (x, s) :: turns body xs u := by
  simp only [turns, run]

theorem forEach_keeps {ι : Type} {body : ι → EStateM ε σ Unit} {xs : List ι} {I : σ → Prop}
    (turn : ∀ e ∈ turns body xs s, ∀ u, I e.2 → body e.1 e.2 = .ok () u → I u) (start : I s)
    (run : forEach body xs s = .ok () t) : I t := by
  induction xs generalizing s with
  | nil =>
      cases run
      exact start
  | cons x xs ih =>
      obtain ⟨⟨⟩, u, first, run⟩ := run_bind_ok run
      rw [turns_ok first] at turn
      exact ih (fun e later => turn e (List.mem_cons_of_mem _ later)) (turn (x, s) List.mem_cons_self u start first) run

theorem turns_keep {ι : Type} {body : ι → EStateM ε σ Unit} {xs : List ι} {I : σ → Prop}
    (turn : ∀ x ∈ xs, ∀ s u, I s → body x s = .ok () u → I u) (start : I s) : ∀ e ∈ turns body xs s, I e.2 := by
  induction xs generalizing s with
  | nil => simp [turns]
  | cons x xs ih =>
      unfold turns
      rw [List.forall_mem_cons]
      refine ⟨start, ?_⟩
      split
      next _ t run =>
        exact ih (fun y later => turn y (List.mem_cons_of_mem x later)) (turn x List.mem_cons_self s t start run)
      next => simp

theorem fst_mem_of_mem_turns {ι : Type} {body : ι → EStateM ε σ Unit} {xs : List ι} {e : ι × σ}
    (listed : e ∈ turns body xs s) : e.1 ∈ xs := by
  induction xs generalizing s with
  | nil => cases listed
  | cons x xs ih =>
      unfold turns at listed
      rcases List.mem_cons.mp listed with rfl | later
      · exact List.mem_cons_self
      · cases run : body x s with
        | ok a t =>
            rw [run] at later
            exact List.mem_cons_of_mem x (ih later)
        | error e t =>
            rw [run] at later
            cases later

end Run

section Rules

variable {ε σ τ α β : Type} {Q : α → σ → Prop} {E : ε → σ → Prop} {s : σ}

@[simp] theorem wp_pure (a : α) : wp (pure a : EStateM ε σ α) Q E s ↔ Q a s := Iff.rfl

@[simp] theorem wp_throw (e : ε) : wp (throw e : EStateM ε σ α) Q E s ↔ E e s := Iff.rfl

@[simp] theorem wp_get {Q : σ → σ → Prop} : wp (get : EStateM ε σ σ) Q E s ↔ Q s s := Iff.rfl

@[simp] theorem wp_set {Q : PUnit → σ → Prop} (t : σ) :
    wp (set t : EStateM ε σ PUnit) Q E s ↔ Q () t := Iff.rfl

@[simp] theorem wp_modify {Q : PUnit → σ → Prop} (f : σ → σ) :
    wp (modify f : EStateM ε σ PUnit) Q E s ↔ Q () (f s) := Iff.rfl

@[simp] theorem wp_bind (x : EStateM ε σ β) (f : β → EStateM ε σ α) :
    wp (x >>= f) Q E s ↔ wp x (fun b t => wp (f b) Q E t) E s := by
  simp only [wp, bind, EStateM.bind]
  cases x s <;> rfl

@[simp] theorem wp_map (f : β → α) (x : EStateM ε σ β) :
    wp (f <$> x) Q E s ↔ wp x (fun b t => Q (f b) t) E s := by
  simp only [wp, Functor.map, EStateM.map]
  cases x s <;> rfl

@[simp] theorem wp_ite (p : Prop) [Decidable p] (x y : EStateM ε σ α) :
    wp (if p then x else y) Q E s ↔ (p → wp x Q E s) ∧ (¬p → wp y Q E s) := by
  split <;> simp_all

@[simp] theorem wp_require {Q : Unit → σ → Prop} (p : Prop) [Decidable p] (e : ε) :
    wp (require p e : EStateM ε σ Unit) Q E s ↔ (p → Q () s) ∧ (¬p → E e s) := by
  unfold require
  split <;> simp_all

theorem wp_ofExcept {x : Except ε α} (returns : ∀ a, x = .ok a → Q a s) (raises : ∀ e, x = .error e → E e s) :
    wp (ofExcept x : EStateM ε σ α) Q E s := by
  cases x with
  | error e => exact raises e rfl
  | ok a => exact returns a rfl

theorem wp_returns {x : EStateM ε σ α} {a : α} {t : σ} (h : wp x Q E s) (run : x s = .ok a t) : Q a t := by
  simpa [wp, run] using h

theorem run_error {x : EStateM ε σ α} {e : ε} (h : wp x (fun _ _ => False) (fun e' _ => e' = e) s) :
    x s = .error e (final (x s)) := by
  unfold wp at h
  cases run : x s with
  | ok a t => simp [run] at h
  | error e' t =>
      simp only [run] at h
      subst h
      rfl

theorem run_value {x : EStateM ε σ α} {a : α} (h : wp x (fun b _ => b = a) (fun _ _ => False) s) :
    x s = .ok a (final (x s)) := by
  unfold wp at h
  cases run : x s with
  | ok b t =>
      simp only [run] at h
      subst h
      rfl
  | error e t => simp [run] at h

theorem wp_of_run {x : EStateM ε σ α} {a : α} {t : σ} (run : x s = .ok a t) (h : Q a t) : wp x Q E s := by
  simpa [wp, run] using h

theorem wp_total {x : EStateM ε σ α} (h : wp x Q (fun _ _ => False) s) : ∃ a t, x s = .ok a t ∧ Q a t := by
  unfold wp at h
  cases hx : x s <;> simp only [hx] at h
  · exact ⟨_, _, rfl, h⟩

end Rules

section Read

variable {ε α β : Type}

theorem except_bind_ok {x : Except ε α} {f : α → Except ε β} {b : β} (h : (x >>= f) = .ok b) :
    ∃ a, x = .ok a ∧ f a = .ok b := by
  cases x with
  | error e => cases h
  | ok a => exact ⟨a, rfl, h⟩

@[simp] theorem except_ok_bind (a : α) (f : α → Except ε β) : ((.ok a : Except ε α) >>= f) = f a := rfl

theorem forM_ok {xs : List α} {f : α → Except ε Unit} (each : ∀ x ∈ xs, f x = .ok ()) : xs.forM f = .ok () := by
  induction xs with
  | nil => rfl
  | cons x xs ih =>
      change (f x >>= fun _ => xs.forM f) = .ok ()
      rw [each x (List.mem_cons_self ..), except_ok_bind]
      exact ih (fun y later => each y (List.mem_cons_of_mem x later))

theorem mapM_ok {xs : List α} {f : α → Except ε β} (each : ∀ x ∈ xs, ∃ y, f x = .ok y) :
    ∃ ys, xs.mapM f = .ok ys ∧ List.Forall₂ (fun x y => f x = .ok y) xs ys := by
  induction xs with
  | nil => exact ⟨[], rfl, .nil⟩
  | cons x rest ih =>
      obtain ⟨y, first⟩ := each x (List.mem_cons_self ..)
      obtain ⟨ys, later, all⟩ := ih (fun z listed => each z (List.mem_cons_of_mem x listed))
      refine ⟨y :: ys, ?_, .cons first all⟩
      rw [List.mapM_cons, first, later]
      rfl

theorem mapM_eq {xs : List α} {f : α → Except ε β} {g : α → β} (each : ∀ x ∈ xs, f x = .ok (g x)) :
    xs.mapM f = .ok (xs.map g) := by
  induction xs with
  | nil => rfl
  | cons x xs ih =>
      rw [List.mapM_cons, each x (List.mem_cons_self ..), except_ok_bind,
        ih (fun y later => each y (List.mem_cons_of_mem x later))]
      rfl

@[simp] theorem except_pure_ok (a b : α) : (pure a : Except ε α) = .ok b ↔ a = b := by
  simp [pure, Except.pure]

@[simp] theorem except_require_ok (p : Prop) [Decidable p] (e : ε) (u : Unit) :
    (require p e : Except ε Unit) = .ok u ↔ p := by
  unfold require
  split <;> simp_all [pure, Except.pure, throw, throwThe, MonadExceptOf.throw]

theorem require_of {ε : Type} {m : Type → Type} [Monad m] [MonadExcept ε m] {p : Prop} [Decidable p]
    (h : p) (e : ε) : (require p e : m Unit) = pure () := by
  simp [require, h]

end Read

end Raising
