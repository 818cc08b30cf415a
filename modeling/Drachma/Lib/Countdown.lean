import Mathlib.Logic.Basic
import Mathlib.Tactic.Common

/-!
# Countdowns

A machine that is **busy** for a while: every step takes one off what is `left`,
and the step that finds nothing left is the last.  Such a machine is busy for one
step more than was left when it began, whatever else its steps do.

The states of a run are given as a sequence `σ`, with a relation `next` between one
and the following, so that the rules apply to the iterates of a function as well as
to the states of a machine that reads inputs.
-/

namespace Machine

variable {S : Type*}

/-- Along `σ`, `busy` holds for the first `n` states and no longer. -/
structure LastsFor (busy : S → Prop) (σ : ℕ → S) (n : ℕ) : Prop where
  during : ∀ k < n, busy (σ k)
  after : ¬ busy (σ n)

/-- While the machine is busy, a step takes one off what is left, and ends if there
is nothing. -/
structure Countdown (next : S → S → Prop) (busy : S → Prop) (left : S → ℕ) : Prop where
  counts : ∀ {s s'}, busy s → left s ≠ 0 → next s s' → busy s' ∧ left s' + 1 = left s
  ends : ∀ {s s'}, busy s → left s = 0 → next s s' → ¬ busy s'

namespace Countdown

variable {next : S → S → Prop} {busy : S → Prop} {left : S → ℕ} {σ : ℕ → S} {N : ℕ}

/-- After `k` steps, `k` have been taken off. -/
theorem during (count : Countdown next busy left)
    (steps : ∀ k < N, next (σ k) (σ (k + 1))) (start : busy (σ 0)) :
    ∀ k ≤ N, k ≤ left (σ 0) → busy (σ k) ∧ left (σ k) + k = left (σ 0) := by
  intro k
  induction k with
  | zero => exact fun _ _ => ⟨start, rfl⟩
  | succ k ih =>
      intro hk hleft
      obtain ⟨hbusy, hcount⟩ := ih (by omega) (by omega)
      obtain ⟨hbusy', hcount'⟩ := count.counts hbusy (by omega) (steps k hk)
      exact ⟨hbusy', by omega⟩

/-- **The duration**: one step for each that was left, and the one that ends. -/
theorem lastsFor (count : Countdown next busy left)
    (steps : ∀ k < N, next (σ k) (σ (k + 1))) (start : busy (σ 0)) (long : left (σ 0) < N) :
    LastsFor busy σ (left (σ 0) + 1) where
  during k hk := (count.during steps start k (by omega) (by omega)).1
  after := by
    obtain ⟨hbusy, hcount⟩ := count.during steps start (left (σ 0)) (by omega) (Nat.le_refl _)
    exact count.ends hbusy (by omega) (steps _ long)

end Countdown

end Machine
