import Mathlib.Data.List.Basic
import Mathlib.Logic.Function.Basic
import Mathlib.Tactic.Common

set_option autoImplicit false

namespace Naming

variable {ι τ : Type}

/-- A node of a forest of chains: its identity, the identity of the node before it, its own segment. -/
structure Link (ι τ : Type) where
  identity : ι
  parent : ι
  segment : List τ

-- `chain` says which tokens an identity stands for, wherever the nodes that carry it are.
def Names (chain : ι → List τ) (link : Link ι τ) : Prop :=
  chain link.identity = chain link.parent ++ link.segment

theorem chain_of_linked {chain : ι → List τ} {root : ι} (links : Nat → Link ι τ) (k : Nat)
    (named : ∀ j ≤ k, Names chain (links j)) (empty : chain root = [])
    (first : (links 0).parent = root)
    (next : ∀ j < k, (links (j + 1)).parent = (links j).identity) :
    chain (links k).identity = (List.range (k + 1)).flatMap (fun j => (links j).segment) := by
  induction k with
  | zero =>
      have start := named 0 (Nat.le_refl _)
      simpa [Names, first, empty] using start
  | succ k ih =>
      have before := ih (fun j le => named j (by omega)) (fun j lt => next j (by omega))
      have last := named (k + 1) (Nat.le_refl _)
      rw [Names, next k (by omega), before] at last
      rw [last, List.range_succ (n := k + 1), List.flatMap_append]
      simp

end Naming
