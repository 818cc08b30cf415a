import Drachma.Lib.Worklist
import Mathlib.Algebra.Order.BigOperators.Group.Finset
import Mathlib.Data.Finite.Sigma
import Mathlib.Data.Finite.Sum
import Mathlib.SetTheory.Cardinal.Finite

/-!
# How often a worklist serves an item

A worklist without memory serves an item once for every walk that leads to it.  Items are
told apart by a key, walks go along a relation between keys, and they begin at the keys
that are queued at first.

* `WalkTo start edge v` — the walks to `v`, as a type;
* `card_walkTo` — a walk to `v` is none, or a walk to a predecessor and an edge;
* `count_of_history` — how often an item has been queued, where some of what is taken off
  the queue is dropped and has no successors queued;
* `count_le_card` — it is not queued more often than there are walks to it;
* `Serves.count_eq_card` — the number of times an exhausted worklist has served `v`;
* `Serves.count_le_card` — no worklist serves it more often.
-/

namespace Machine

namespace Worklist

section Walks

variable {κ : Type} {start : κ → Prop} {edge : κ → κ → Prop}

/-- A walk to `v`, from a starting key along the edges. -/
inductive WalkTo (start : κ → Prop) (edge : κ → κ → Prop) : κ → Type
  | stay {v : κ} (here : start v) : WalkTo start edge v
  | extend {u v : κ} (walk : WalkTo start edge u) (next : edge u v) : WalkTo start edge v

/-- The last step of a walk. -/
def WalkTo.equivLast (v : κ) :
    WalkTo start edge v ≃ PLift (start v) ⊕ Σ u : {u // edge u v}, WalkTo start edge u where
  toFun
    | .stay here => .inl ⟨here⟩
    | .extend walk next => .inr ⟨⟨_, next⟩, walk⟩
  invFun
    | .inl here => .stay here.down
    | .inr last => .extend last.2 last.1.2
  left_inv walk := by cases walk <;> rfl
  right_inv last := by cases last <;> rfl

variable [∀ v, Finite {u // edge u v}] {v : κ}

/-- Where every key has finitely many predecessors, and walks backwards end, there are
finitely many walks. -/
theorem WalkTo.finite (acc : Acc edge v) : Finite (WalkTo start edge v) := by
  induction acc with
  | intro v _ ih =>
      have : ∀ u : {u // edge u v}, Finite (WalkTo start edge u) := fun u => ih u.1 u.2
      exact Finite.of_equiv _ (equivLast v).symm

/-- **The number of walks**, by their last step. -/
theorem card_walkTo [Decidable (start v)] [Fintype {u // edge u v}] (acc : Acc edge v) :
    Nat.card (WalkTo start edge v) =
      (if start v then 1 else 0) + ∑ u : {u // edge u v}, Nat.card (WalkTo start edge u) := by
  have : ∀ u : {u // edge u v}, Finite (WalkTo start edge u) := fun u =>
    WalkTo.finite (acc.inv u.2)
  rw [Nat.card_congr (WalkTo.equivLast v), Nat.card_sum, Nat.card_sigma]
  congr 1
  by_cases here : start v
  · rw [if_pos here]
    have : Unique (PLift (start v)) := ⟨⟨⟨here⟩⟩, fun _ => rfl⟩
    exact Nat.card_unique
  · rw [if_neg here]
    have : IsEmpty (PLift (start v)) := ⟨fun h => here h.down⟩
    exact Nat.card_of_isEmpty

end Walks

section Counts

variable {α κ : Type} [DecidableEq κ] {succ : α → List α} {key : α → κ}
  {q q' served : List α} {start : κ → Prop} {edge : κ → κ → Prop} {v : κ}

/-- The entries that satisfy `p`, counted value by value. -/
theorem countP_eq_sum (p : κ → Prop) [DecidablePred p] [Fintype {u // p u}] (l : List κ) :
    l.countP p = ∑ u : {u // p u}, l.count u.1 := by
  induction l with
  | nil => simp
  | cons a l ih =>
      simp only [List.countP_cons, List.count_cons, Finset.sum_add_distrib, ih]
      congr 1
      by_cases h : p a
      · have single : ∀ u : {u // p u}, u ≠ ⟨a, h⟩ → (if (a == u.1) = true then 1 else 0) = 0 := by
          intro u hu
          refine if_neg fun same => hu (Subtype.ext ?_)
          exact (beq_iff_eq.mp same).symm
        rw [Fintype.sum_eq_single (⟨a, h⟩ : {u // p u}) single]
        simp [h]
      · have none : ∀ u : {u // p u}, (if (a == u.1) = true then 1 else 0) = 0 := by
          intro u
          refine if_neg fun same => h ?_
          rw [beq_iff_eq.mp same]
          exact u.2
        rw [Finset.sum_eq_zero fun u _ => none u]
        simp [h]

/-- A list is no longer than bounds on how often its items occur allow. -/
theorem length_le_of_count_le {l : List κ} {items : Finset κ} {bound : κ → ℕ}
    (mem : ∀ v ∈ l, v ∈ items) (bounded : ∀ v, l.count v ≤ bound v) :
    l.length ≤ ∑ v ∈ items, bound v := by
  have sub : l.toFinset ⊆ items := fun v hv => mem v (List.mem_toFinset.mp hv)
  calc l.length = ∑ v ∈ l.toFinset, l.count v := l.sum_toFinset_count_eq_length.symm
    _ ≤ ∑ v ∈ l.toFinset, bound v := Finset.sum_le_sum fun v _ => bounded v
    _ ≤ ∑ v ∈ items, bound v := Finset.sum_le_sum_of_subset sub

/-- The successors of what was served bring `v` in once for every predecessor. -/
theorem count_flatMap [DecidablePred fun u => edge u v]
    (nodup : ∀ a ∈ served, ((succ a).map key).Nodup)
    (mem : ∀ a ∈ served, v ∈ (succ a).map key ↔ edge (key a) v) :
    ((served.flatMap succ).map key).count v = (served.map key).countP (edge · v) := by
  induction served with
  | nil => rfl
  | cons a rest ih =>
      rw [List.forall_mem_cons] at nodup mem
      rw [List.flatMap_cons, List.map_append, List.count_append, ih nodup.2 mem.2, List.map_cons,
        List.countP_cons, Nat.add_comm]
      congr 1
      by_cases h : edge (key a) v
      · rw [List.count_eq_one_of_mem nodup.1 (mem.1.mpr h)]
        simp [h]
      · rw [List.count_eq_zero_of_not_mem fun hv => h (mem.1.mp hv)]
        simp [h]

/-- **An account of the queue.**  Where all that was ever queued was queued at first, or is
a successor of what was `kept`, an item was queued once at the start and once for every
predecessor that was kept. -/
theorem count_of_history {queued kept : List α} (startNodup : (q.map key).Nodup)
    (memStart : ∀ v, v ∈ q.map key ↔ start v) (history : queued = q ++ kept.flatMap succ)
    (nodup : ∀ a ∈ kept, ((succ a).map key).Nodup)
    (mem : ∀ a ∈ kept, ∀ v, v ∈ (succ a).map key ↔ edge (key a) v) (v : κ)
    [Decidable (start v)] [DecidablePred fun u => edge u v] :
    (queued.map key).count v =
      (if start v then 1 else 0) + (kept.map key).countP (edge · v) := by
  rw [history, List.map_append, List.count_append, count_flatMap nodup fun a ha => mem a ha v]
  congr 1
  by_cases here : start v
  · rw [if_pos here, List.count_eq_one_of_mem startNodup ((memStart v).mpr here)]
  · rw [if_neg here, List.count_eq_zero_of_not_mem fun hv => here ((memStart v).mp hv)]

variable [∀ v, Finite {u // edge u v}] (acc : ∀ v, Acc edge v)
  (startNodup : (q.map key).Nodup) (memStart : ∀ v, v ∈ q.map key ↔ start v)

include acc startNodup memStart

/-- **No item is queued more often than there are walks to it**, whatever of the queue is
kept. -/
theorem count_le_card {queued kept : List α} (history : queued = q ++ kept.flatMap succ)
    (taken : kept.Sublist queued) (nodup : ∀ a ∈ kept, ((succ a).map key).Nodup)
    (mem : ∀ a ∈ kept, ∀ v, v ∈ (succ a).map key ↔ edge (key a) v) (v : κ) :
    (queued.map key).count v ≤ Nat.card (WalkTo start edge v) := by
  classical
  -- along the edges, backwards
  have back := acc v
  induction back with
  | intro v _ ih =>
      have := Fintype.ofFinite {u // edge u v}
      rw [count_of_history startNodup memStart history nodup mem v, card_walkTo (acc v),
        countP_eq_sum]
      refine Nat.add_le_add_left (Finset.sum_le_sum fun u _ => ?_) _
      exact ((taken.map key).count_le u.1).trans (ih u.1 u.2)

namespace Serves

/-- **An exhausted worklist has served an item once for every walk to it.** -/
theorem count_eq_card (h : Serves succ q served [])
    (nodup : ∀ a ∈ served, ((succ a).map key).Nodup)
    (mem : ∀ a ∈ served, ∀ v, v ∈ (succ a).map key ↔ edge (key a) v) (v : κ) :
    (served.map key).count v = Nat.card (WalkTo start edge v) := by
  classical
  have history := h.history
  rw [List.append_nil] at history
  have back := acc v
  induction back with
  | intro v _ ih =>
      have := Fintype.ofFinite {u // edge u v}
      rw [count_of_history startNodup memStart history nodup mem v, card_walkTo (acc v),
        countP_eq_sum]
      congr 1
      exact Finset.sum_congr rfl fun u _ => ih u.1 u.2

/-- **No worklist serves an item more often.** -/
theorem count_le_card (h : Serves succ q served q')
    (nodup : ∀ a ∈ served, ((succ a).map key).Nodup)
    (mem : ∀ a ∈ served, ∀ v, v ∈ (succ a).map key ↔ edge (key a) v) (v : κ) :
    (served.map key).count v ≤ Nat.card (WalkTo start edge v) := by
  have bound := Worklist.count_le_card acc startNodup memStart h.history
    (List.sublist_append_left served q') nodup mem v
  rw [List.map_append, List.count_append] at bound
  omega

end Serves

end Counts

end Worklist

end Machine
