import Mathlib.Tactic.Common

set_option autoImplicit false

namespace Loop

variable {σ : Type}

def repeatUntil (next : σ → σ) (stop : σ → Bool) : Nat → σ → σ
  | 0, s => s
  | fuel + 1, s => if stop (next s) then next s else repeatUntil next stop fuel (next s)

variable {next : σ → σ} {stop : σ → Bool} {I : σ → Prop} {fuel : Nat} {s : σ}

theorem repeatUntil_last (ends : stop (next s) = true) : repeatUntil next stop (fuel + 1) s = next s := by
  rw [repeatUntil, if_pos ends]

theorem repeatUntil_more (more : stop (next s) = false) :
    repeatUntil next stop (fuel + 1) s = repeatUntil next stop fuel (next s) := by
  rw [repeatUntil, more]
  rfl

theorem repeatUntil_keeps (keeps : ∀ s, I s → I (next s)) (start : I s) : I (repeatUntil next stop fuel s) := by
  induction fuel generalizing s with
  | zero => exact start
  | succ fuel ih =>
      cases ends : stop (next s) with
      | true =>
          rw [repeatUntil_last ends]
          exact keeps s start
      | false =>
          rw [repeatUntil_more ends]
          exact ih (keeps s start)

theorem repeatUntil_stops (measure : σ → Nat) (keeps : ∀ s, I s → I (next s))
    (descends : ∀ s, I s → stop (next s) = false → measure (next s) < measure s) (start : I s)
    (enough : measure s < fuel) : stop (repeatUntil next stop fuel s) = true := by
  induction fuel generalizing s with
  | zero => exact absurd enough (Nat.not_lt_zero _)
  | succ fuel ih =>
      cases ends : stop (next s) with
      | true => rw [repeatUntil_last ends, ends]
      | false =>
          rw [repeatUntil_more ends]
          have lower := descends s start ends
          exact ih (keeps s start) (by omega)

end Loop
