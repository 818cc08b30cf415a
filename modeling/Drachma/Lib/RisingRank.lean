import Mathlib.Data.Fintype.Card
import Mathlib.Order.Interval.Finset.Nat

/-!
# A rank that never falls

Along a run of `N` steps every part of a system has a rank, and no step lowers the
rank of a part.  Then a part leaves a rank behind for good: it goes over a rank at
most once, and the number of steps in which some part goes over a rank is at most
the number of parts.

* `GoesOver.unique` — a part goes over a rank in at most one step.
* `card_goesOver_le` — at most as many steps as there are parts.
-/

namespace Machine

universe u v

variable {α : Type u} [Preorder α] {rank : ℕ → α} {N : ℕ}

/-- No step of the first `N` lowers the rank. -/
def NeverFalls (N : ℕ) (rank : ℕ → α) : Prop := ∀ k < N, rank k ≤ rank (k + 1)

/-- The rank is at most `level` before step `k`, and not after it. -/
def GoesOver (rank : ℕ → α) (level : α) (k : ℕ) : Prop :=
  rank k ≤ level ∧ ¬ rank (k + 1) ≤ level

namespace NeverFalls

variable (rising : NeverFalls N rank)

include rising

theorem le_of_le {j k : ℕ} (hjk : j ≤ k) (hk : k ≤ N) : rank j ≤ rank k := by
  induction k, hjk using Nat.le_induction with
  | base => exact le_refl _
  | succ k _ ih => exact (ih (by omega)).trans (rising k (by omega))

/-- What has gone over a rank stays over it. -/
theorem not_le_of_goesOver {level : α} {j k : ℕ} (crossed : GoesOver rank level j) (hjk : j < k)
    (hk : k ≤ N) : ¬ rank k ≤ level := fun low =>
  crossed.2 ((rising.le_of_le hjk hk).trans low)

end NeverFalls

/-- **A rank is gone over at most once.** -/
theorem GoesOver.unique (rising : NeverFalls N rank) {level : α} {j k : ℕ} (hj : j < N)
    (hk : k < N) (crossed : GoesOver rank level j) (crossed' : GoesOver rank level k) : j = k := by
  rcases lt_trichotomy j k with hlt | rfl | hlt
  · exact absurd crossed'.1 (rising.not_le_of_goesOver crossed hlt hk.le)
  · rfl
  · exact absurd crossed.1 (rising.not_le_of_goesOver crossed' hlt hj.le)

/-- **As many steps as parts.**  Steps in each of which some part goes over a rank are no
more than the parts. -/
theorem card_goesOver_le {ι : Type v} [Fintype ι] {rank : ι → ℕ → α} {level : α}
    (rising : ∀ i, NeverFalls N (rank i)) {steps : Finset ℕ} (bound : ∀ k ∈ steps, k < N)
    (crossed : ∀ k ∈ steps, ∃ i, GoesOver (rank i) level k) : steps.card ≤ Fintype.card ι := by
  obtain rfl | ⟨k₀, hk₀⟩ := steps.eq_empty_or_nonempty
  · exact Nat.zero_le _
  have : Nonempty ι := (crossed k₀ hk₀).nonempty
  choose! part goes using crossed
  apply Finset.card_le_card_of_injOn part (fun k _ => Finset.mem_univ _)
  intro j hj k hk same
  have goes' := goes k hk
  rw [← same] at goes'
  exact (goes j hj).unique (rising _) (bound j hj) (bound k hk) goes'

end Machine
