import NanoVllm.Shared.Raising

set_option autoImplicit false

namespace Storage

open Raising

/-- A reference to one of the storages that a program has allocated. -/
abbrev Ref := Nat

variable {ε α β γ : Type}

def alloc (x : γ) : EStateM ε (List γ) Ref := do
  let storages ← get
  set (storages ++ [x])
  pure storages.length

-- A program has no reference without a storage; `dangling` stands for one.
def load (dangling : ε) (r : Ref) : EStateM ε (List γ) γ := do
  let storages ← get
  match storages[r]? with
  | some x => pure x
  | none => throw dangling

def store (r : Ref) (x : γ) : EStateM ε (List γ) Unit := modify (fun storages => storages.set r x)

section StoredAt

variable {s t u : List γ} {r r' : Ref} {x y : γ}

def StoredAt (storages : List γ) (r : Ref) (x : γ) : Prop := storages[r]? = some x

theorem load_ok {dangling : ε} (h : StoredAt s r x) : load dangling r s = .ok x s := by
  simp only [load, run_get_bind, show s[r]? = some x from h, run_pure]

theorem StoredAt.lt (h : StoredAt s r x) : r < s.length := (List.getElem?_eq_some_iff.mp h).1

theorem StoredAt.kept (h : StoredAt s r x) (before : s <+: t) : StoredAt t r x := by
  obtain ⟨later, rfl⟩ := before
  exact (List.getElem?_append_left h.lt).trans h

theorem storedAt_new (s : List γ) (x : γ) : StoredAt (s ++ [x]) s.length x := by simp [StoredAt]

theorem StoredAt.set_self (h : StoredAt s r x) (y : γ) : StoredAt (s.set r y) r y := by simp [StoredAt, h.lt]

theorem StoredAt.set_of_ne (h : StoredAt s r x) (other : r' ≠ r) (y : γ) : StoredAt (s.set r' y) r x :=
  (List.getElem?_set_ne other).trans h

/-- A storage that a program allocated, where it left the old ones as they were. -/
structure Allocated (s t : List γ) (r : Ref) (x : γ) : Prop where
  kept : s <+: t
  new : s.length ≤ r
  holds : StoredAt t r x

theorem allocated_alloc (s : List γ) (x : γ) : Allocated s (s ++ [x]) s.length x :=
  ⟨List.prefix_append s [x], Nat.le_refl _, storedAt_new s x⟩

theorem Allocated.after (h : Allocated t u r x) (kept : s <+: t) : Allocated s u r x :=
  ⟨kept.trans h.kept, Nat.le_trans kept.length_le h.new, h.holds⟩

theorem Allocated.alloc (h : Allocated s t r x) (y : γ) : Allocated s (t ++ [y]) r x :=
  ⟨h.kept.trans (List.prefix_append t [y]), h.new, h.holds.kept (List.prefix_append t [y])⟩

theorem Allocated.set (h : Allocated s t r x) (y : γ) : Allocated s (t.set r y) r y := by
  constructor
  case kept =>
    obtain ⟨later, rfl⟩ := h.kept
    rw [List.set_append_right _ _ h.new]
    exact List.prefix_append s _
  case new => exact h.new
  case holds => exact h.holds.set_self y

theorem Allocated.set_of_ne (h : Allocated s t r x) (h' : Allocated s t r' y) (other : r' ≠ r) (z : γ) :
    Allocated s (t.set r' z) r x :=
  ⟨(h'.set z).kept, h.new, h.holds.set_of_ne other z⟩

theorem Allocated.ne (h : Allocated s t r x) (old : StoredAt s r' y) : r' ≠ r :=
  Nat.ne_of_lt (Nat.lt_of_lt_of_le old.lt h.new)

theorem StoredAt.ne_new (h : StoredAt s r x) : r ≠ s.length := Nat.ne_of_lt h.lt

end StoredAt

/-- A program on storages does what a program on values does: both raise, or both return related results. -/
def Realises {ε' : Type} (x : EStateM ε (List γ) α) (y : Except ε' β) (rel : α → β → List γ → Prop) (s : List γ) : Prop :=
  wp x (fun a t => ∃ b, y = .ok b ∧ rel a b t) (fun _ _ => ∃ e, y = .error e) s

namespace Realises

variable {α' β' ε' : Type} {x : EStateM ε (List γ) α} {y : Except ε' β} {rel rel' : α → β → List γ → Prop}
  {f : α → EStateM ε (List γ) α'} {g : β → Except ε' β'} {rel'' : α' → β' → List γ → Prop} {s : List γ}

theorem returns {a : α} {b : β} (related : rel a b s) :
    Realises (pure a : EStateM ε (List γ) α) (.ok b : Except ε' β) rel s := ⟨b, rfl, related⟩

theorem bind (first : Realises x y rel s) (next : ∀ a b t, rel a b t → Realises (f a) (g b) rel'' t) :
    Realises (x >>= f) (y >>= g) rel'' s := by
  unfold Realises at first ⊢
  rw [wp_bind]
  unfold wp at first ⊢
  cases run : x s with
  | ok a t =>
      rw [run] at first
      obtain ⟨b, rfl, related⟩ := first
      exact next a b t related
  | error e t =>
      rw [run] at first
      obtain ⟨e', rfl⟩ := first
      exact ⟨e', rfl⟩

theorem mono (h : Realises x y rel s) (weaker : ∀ a b t, rel a b t → rel' a b t) : Realises x y rel' s := by
  unfold Realises wp at h ⊢
  cases run : x s with
  | ok a t =>
      rw [run] at h
      obtain ⟨b, same, related⟩ := h
      exact ⟨b, same, weaker a b t related⟩
  | error e t =>
      rw [run] at h
      exact h

theorem load_bind {dangling : ε} {r : Ref} {v : γ} {f : γ → EStateM ε (List γ) α} (held : StoredAt s r v)
    (h : Realises (f v) y rel s) : Realises (load dangling r >>= f) y rel s := by
  unfold Realises wp at h ⊢
  rwa [bind_ok (load_ok held)]

theorem store_bind {r : Ref} {v : γ} {f : Unit → EStateM ε (List γ) α} (h : Realises (f ()) y rel (s.set r v)) :
    Realises (store r v >>= f) y rel s := h

theorem alloc_bind {v : γ} {f : Ref → EStateM ε (List γ) α} (h : Realises (f s.length) y rel (s ++ [v])) :
    Realises (alloc v >>= f) y rel s := h

theorem value (y : Except ε α) : Realises (ofExcept y : EStateM ε (List γ) α) y (fun a b t => a = b ∧ t = s) s := by
  cases y with
  | ok a => exact ⟨a, rfl, rfl, rfl⟩
  | error e => exact ⟨e, rfl⟩

theorem of_ok {a : α} {t : List γ} (h : Realises x y rel s) (run : x s = .ok a t) : ∃ b, y = .ok b ∧ rel a b t :=
  wp_returns h run

theorem returns_iff {y : Except ε' α} (h : Realises x y (fun a b _ => a = b) s) (a : α) :
    (∃ t, x s = .ok a t) ↔ y = .ok a := by
  unfold Realises wp at h
  cases run : x s with
  | ok a' t =>
      rw [run] at h
      obtain ⟨b, rfl, rfl⟩ := h
      simp
  | error e t =>
      rw [run] at h
      obtain ⟨e', rfl⟩ := h
      simp

end Realises

end Storage
