import Mathlib.Data.List.Infix
import Mathlib.Data.List.Nodup
import Mathlib.Logic.Relation

/-!
# Worklists without memory

A worklist takes the item at the front of a queue and appends the successors of
that item at the back, until the queue is empty.  The worklist here keeps no
record of what it has queued before: an item comes back once for every walk that
leads to it.

* `Serves succ q served q'` — from queue `q` the items `served` are taken, in
  this order, and `q'` is the queue that is left;
* `level succ q d` — the ends of the walks of length `d` from `q`, in the order
  in which a breadth-first enumeration lists the walks;
* `levels succ q d` — the ends of all shorter walks, the shortest ones first.

## Main results

* `Serves.history` — what has been served and what is still queued is what was
  queued at first, followed by the successors of what has been served;
* `Serves.isPrefix_levels` — items are served in breadth-first order;
* `exists_serves_length_iff` — a worklist goes on for as long as there are walks;
* `exists_level_eq_nil` — over well-founded successors it stops;
* `Serves.invariant` — what the successors preserve holds of all that is ever queued.
-/

namespace Machine

namespace Worklist

variable {α : Type*} {succ : α → List α} {q q' q₁ q₂ served served' : List α} {a b : α}

/-- From queue `q` the items `served` are taken, in this order, and `q'` is left. -/
inductive Serves (succ : α → List α) (q : List α) : List α → List α → Prop
  | start : Serves succ q [] q
  | round {served : List α} {a : α} {rest : List α}
      (before : Serves succ q served (a :: rest)) :
      Serves succ q (served ++ [a]) (rest ++ succ a)

/-- The ends of the walks of length `d` from `q`. -/
def level (succ : α → List α) (q : List α) : ℕ → List α
  | 0 => q
  | d + 1 => (level succ q d).flatMap succ

/-- The ends of the walks of fewer than `d` steps from `q`, level by level. -/
def levels (succ : α → List α) (q : List α) : ℕ → List α
  | 0 => []
  | d + 1 => levels succ q d ++ level succ q d

namespace Serves

/-- **The history of the queue.**  Everything that was ever queued has been served
or is still waiting, and it was queued at first or as a successor. -/
theorem history (h : Serves succ q served q') : served ++ q' = q ++ served.flatMap succ := by
  induction h with
  | start => simp
  | @round served a rest before ih =>
      calc served ++ [a] ++ (rest ++ succ a)
          = (served ++ a :: rest) ++ succ a := by simp
        _ = q ++ served.flatMap succ ++ succ a := by rw [ih]
        _ = q ++ (served ++ [a]).flatMap succ := by simp

theorem trans (h : Serves succ q served q₁) (k : Serves succ q₁ served' q₂) :
    Serves succ q (served ++ served') q₂ := by
  induction k with
  | start => simpa using h
  | round before ih =>
      rw [← List.append_assoc]
      exact .round ih

/-- How many items are served determines which. -/
theorem functional (h : Serves succ q served q₁) (k : Serves succ q served' q₂)
    (hlen : served.length = served'.length) : served = served' ∧ q₁ = q₂ := by
  induction h generalizing served' q₂ with
  | start =>
      cases k with
      | start => exact ⟨rfl, rfl⟩
      | round before => simp at hlen
  | round before ih =>
      cases k with
      | start => simp at hlen
      | round before' =>
          obtain ⟨rfl, hqueue⟩ := ih before' (by simpa using hlen)
          cases hqueue
          exact ⟨rfl, rfl⟩

/-- Serving has gone through every shorter stage. -/
theorem take (h : Serves succ q served q') {k : ℕ} (hk : k ≤ served.length) :
    ∃ q₁, Serves succ q (served.take k) q₁ := by
  induction h with
  | start => exact ⟨q, by simpa using Serves.start⟩
  | @round served a rest before ih =>
      rcases Nat.lt_or_ge served.length k with hlt | hle
      · refine ⟨rest ++ succ a, ?_⟩
        rw [List.take_of_length_le (by rw [List.length_append]; exact hlt)]
        exact .round before
      · rw [List.take_append_of_le_length hle]
        exact ih hle

/-- Of two stages, the earlier one has served a part of what the later one has. -/
theorem isPrefix (h : Serves succ q served q₁) (k : Serves succ q served' q₂)
    (hlen : served.length ≤ served'.length) : served <+: served' := by
  obtain ⟨q₃, h₃⟩ := k.take hlen
  have same : served = served'.take served.length := by
    refine (h.functional h₃ ?_).1
    rw [List.length_take]
    omega
  rw [same]
  exact List.take_prefix _ _

/-- An exhausted worklist has served all there is to serve. -/
theorem length_le_of_exhausted (h : Serves succ q served []) (k : Serves succ q served' q') :
    served'.length ≤ served.length := by
  by_contra hlt
  obtain ⟨q₁, next⟩ := k.take (k := served.length + 1) (by omega)
  generalize hs : served'.take (served.length + 1) = s at next
  have hlen : s.length = served.length + 1 := by rw [← hs, List.length_take]; omega
  cases next with
  | start => simp at hlen
  | round before =>
      obtain ⟨-, hqueue⟩ := h.functional before (by simpa using hlen.symm)
      cases hqueue

/-- Every item served was queued at first, or is a successor of an earlier one. -/
theorem origin {before after : List α} (h : Serves succ q (before ++ a :: after) q') :
    a ∈ q ∨ ∃ b ∈ before, a ∈ succ b := by
  obtain ⟨q₁, h₁⟩ := h.take (k := before.length + 1) (by simp)
  rw [List.take_append, List.take_of_length_le (by omega), Nat.add_sub_cancel_left,
    List.take_succ_cons, List.take_zero] at h₁
  generalize hs : before ++ [a] = s at h₁
  cases h₁ with
  | start => simp at hs
  | @round s a' rest h₀ =>
      obtain ⟨rfl, hcons⟩ := List.append_inj' hs rfl
      cases hcons
      have mem : a ∈ q ++ before.flatMap succ := by
        rw [← h₀.history]
        simp
      simpa using mem

end Serves

/-- The front part of a queue is served first. -/
theorem serves_append (succ : α → List α) (x y : List α) :
    Serves succ (x ++ y) x (y ++ x.flatMap succ) := by
  induction x generalizing y with
  | nil => simpa using Serves.start
  | cons a x ih =>
      have first : Serves succ (a :: x ++ y) ([] ++ [a]) (x ++ y ++ succ a) := .round .start
      rw [List.append_assoc] at first
      have both := first.trans (ih (y ++ succ a))
      simpa using both

/-! ## Levels -/

theorem level_append (x y : List α) (d : ℕ) :
    level succ (x ++ y) d = level succ x d ++ level succ y d := by
  induction d with
  | zero => rfl
  | succ d ih => rw [level, ih, List.flatMap_append]; rfl

theorem level_flatMap (q : List α) (d : ℕ) :
    level succ (q.flatMap succ) d = level succ q (d + 1) := by
  induction d with
  | zero => rfl
  | succ d ih => rw [level, ih]; rfl

theorem level_eq_nil_of_le {d e : ℕ} (hle : d ≤ e) (h : level succ q d = []) :
    level succ q e = [] := by
  induction hle with
  | refl => exact h
  | step _ ih => rw [level, ih, List.flatMap_nil]

theorem levels_mono {d e : ℕ} (hle : d ≤ e) : levels succ q d <+: levels succ q e := by
  induction hle with
  | refl => exact List.prefix_rfl
  | step _ ih => exact ih.trans (List.prefix_append _ _)

/-- Successors that agree on a closed class of items have the same levels. -/
theorem level_congr {succ' : α → List α} {P : α → Prop} (init : ∀ a ∈ q, P a)
    (closed : ∀ a, P a → ∀ b ∈ succ a, P b) (agree : ∀ a, P a → succ' a = succ a) (d : ℕ) :
    level succ' q d = level succ q d := by
  have both : level succ' q d = level succ q d ∧ ∀ a ∈ level succ q d, P a := by
    induction d with
    | zero => exact ⟨rfl, init⟩
    | succ d ih =>
        refine ⟨?_, fun b hb => ?_⟩
        · rw [level, level, ih.1]
          exact List.flatMap_congr fun a ha => agree a (ih.2 a ha)
        · obtain ⟨a, ha, hb⟩ := List.mem_flatMap.mp hb
          exact closed a (ih.2 a ha) b hb
  exact both.1

/-- The items of the first levels are served first. -/
theorem serves_levels (succ : α → List α) (q : List α) (d : ℕ) :
    Serves succ q (levels succ q d) (level succ q d) := by
  induction d with
  | zero => exact .start
  | succ d ih =>
      have next := serves_append succ (level succ q d) []
      rw [List.append_nil] at next
      exact ih.trans next

namespace Serves

/-- No more items are served than there are walks. -/
theorem exists_length_le (h : Serves succ q served q') :
    ∃ d, served.length ≤ (levels succ q d).length := by
  induction h with
  | start => exact ⟨0, Nat.zero_le _⟩
  | @round served a rest before ih =>
      obtain ⟨d, hd⟩ := ih
      rcases Nat.lt_or_eq_of_le hd with hlt | heq
      · exact ⟨d, by rw [List.length_append]; exact hlt⟩
      · -- all of the first `d` levels is served, so the front item is one of level `d`
        obtain ⟨hserved, hqueue⟩ := before.functional (serves_levels succ q d) heq
        refine ⟨d + 1, ?_⟩
        rw [levels, ← hqueue, hserved]
        simp

/-- **Items are served in breadth-first order.** -/
theorem isPrefix_levels (h : Serves succ q served q') :
    ∃ d, served <+: levels succ q d := by
  obtain ⟨d, hd⟩ := h.exists_length_le
  exact ⟨d, h.isPrefix (serves_levels succ q d) hd⟩

end Serves

/-- **A worklist goes on for as long as there are walks**: it serves `k` items exactly
when there are `k` walks. -/
theorem exists_serves_length_iff {k : ℕ} :
    (∃ served q', Serves succ q served q' ∧ served.length = k) ↔
      ∃ d, k ≤ (levels succ q d).length := by
  constructor
  · rintro ⟨served, q', h, rfl⟩
    exact h.exists_length_le
  · rintro ⟨d, hd⟩
    obtain ⟨q₁, h₁⟩ := (serves_levels succ q d).take hd
    exact ⟨_, q₁, h₁, by rw [List.length_take]; omega⟩

/-- Well-founded successors are exhausted at some level. -/
theorem exists_level_eq_nil (succ : α → List α) (wf : ∀ a ∈ q, Acc (fun b a => b ∈ succ a) a) :
    ∃ d, level succ q d = [] := by
  -- a queue whose items are each exhausted is exhausted
  have exhausted : ∀ l : List α, (∀ a ∈ l, ∃ d, level succ [a] d = []) →
      ∃ d, level succ l d = [] := by
    intro l
    induction l with
    | nil => intro _; exact ⟨0, rfl⟩
    | cons a l ih =>
        intro each
        obtain ⟨d, hd⟩ := each a (by simp)
        obtain ⟨e, he⟩ := ih fun b hb => each b (by simp [hb])
        refine ⟨max d e, ?_⟩
        rw [← List.singleton_append, level_append,
          level_eq_nil_of_le (Nat.le_max_left d e) hd,
          level_eq_nil_of_le (Nat.le_max_right d e) he, List.append_nil]
  refine exhausted q fun a ha => ?_
  have acc := wf a ha
  clear ha wf
  induction acc with
  | intro a _ ih =>
      obtain ⟨d, hd⟩ := exhausted (succ a) ih
      refine ⟨d + 1, ?_⟩
      rw [← level_flatMap, List.flatMap_singleton, hd]

namespace Serves

/-- What an exhausted worklist has served is closed under successors. -/
theorem mem_of_mem_succ (h : Serves succ q served []) (ha : a ∈ served) (hb : b ∈ succ a) :
    b ∈ served := by
  have history := h.history
  rw [List.append_nil] at history
  rw [history]
  exact List.mem_append_right _ (List.mem_flatMap.mpr ⟨a, ha, hb⟩)

/-- Every item served can be reached. -/
theorem reachable (h : Serves succ q served q') :
    ∀ a ∈ served ++ q', ∃ b ∈ q, Relation.ReflTransGen (fun x y => y ∈ succ x) b a := by
  induction h with
  | start => exact fun a ha => ⟨a, by simpa using ha, .refl⟩
  | @round served a rest before ih =>
      intro c hc
      simp only [List.mem_append, List.mem_singleton] at hc
      rcases hc with (hserved | rfl) | hrest | hsucc
      · exact ih c (List.mem_append_left _ hserved)
      · exact ih c (by simp)
      · exact ih c (by simp [hrest])
      · obtain ⟨b, hb, walk⟩ := ih a (by simp)
        exact ⟨b, hb, walk.tail hsucc⟩

/-- What holds of the queue, and of the successors of what it holds of, holds of
everything that is ever queued. -/
theorem invariant {P : α → Prop} (h : Serves succ q served q') (init : ∀ a ∈ q, P a)
    (closed : ∀ a, P a → ∀ b ∈ succ a, P b) : ∀ a ∈ served ++ q', P a := by
  intro a ha
  obtain ⟨b, hb, walk⟩ := h.reachable a ha
  clear ha
  induction walk with
  | refl => exact init b hb
  | tail _ hstep ih => exact closed _ ih _ hstep

end Serves

/-! ## First occurrences -/

section Keys

variable {κ : Type*} {key : α → κ} {u v : κ}

/-- Where `v` occurs first in the list, `u` has occurred earlier. -/
def Precedes (l : List κ) (u v : κ) : Prop :=
  ∀ before after, l = before ++ v :: after → v ∉ before → u ∈ before

/-- In breadth-first order `u` comes before `v`: at a level below which `v` does not
occur, `u` is listed before `v` is. -/
def FirstInLevels (succ : α → List α) (q : List α) (key : α → κ) (u v : κ) : Prop :=
  ∃ d, (∀ e < d, v ∉ (level succ q e).map key) ∧
    ∃ before after, (level succ q d).map key = before ++ u :: after ∧ v ∉ before

/-- What occurs at no level does not occur in the levels together. -/
theorem mem_levels {d : ℕ} : a ∈ levels succ q d ↔ ∃ e < d, a ∈ level succ q e := by
  induction d with
  | zero => simp [levels]
  | succ d ih =>
      rw [levels, List.mem_append, ih]
      constructor
      · rintro (⟨e, he, hmem⟩ | hmem)
        · exact ⟨e, by omega, hmem⟩
        · exact ⟨d, by omega, hmem⟩
      · rintro ⟨e, he, hmem⟩
        rcases Nat.lt_succ_iff_lt_or_eq.mp he with hlt | rfl
        · exact .inl ⟨e, hlt, hmem⟩
        · exact .inr hmem

/-- A first occurrence in the levels together is one in some level. -/
theorem firstInLevels_of_levels {d : ℕ} {before after : List κ}
    (h : (levels succ q d).map key = before ++ u :: after) (fresh : v ∉ before) :
    FirstInLevels succ q key u v := by
  induction d generalizing before after with
  | zero => simp [levels] at h
  | succ d ih =>
      rw [levels, List.map_append, List.append_eq_append_iff] at h
      rcases h with ⟨middle, hbefore, hlevel⟩ | ⟨middle, hlevels, hafter⟩
      · -- all earlier levels lie in `before`
        subst hbefore
        rw [List.mem_append, not_or] at fresh
        refine ⟨d, fun e he hv => ?_, middle, after, hlevel, fresh.2⟩
        obtain ⟨a, ha, rfl⟩ := List.mem_map.mp hv
        exact fresh.1 (List.mem_map.mpr ⟨a, mem_levels.mpr ⟨e, he, ha⟩, rfl⟩)
      · cases middle with
        | nil =>
            rw [List.append_nil] at hlevels
            rw [List.nil_append] at hafter
            refine ⟨d, fun e he hv => ?_, [], after, hafter.symm, by simp⟩
            obtain ⟨a, ha, rfl⟩ := List.mem_map.mp hv
            refine fresh ?_
            rw [← hlevels]
            exact List.mem_map.mpr ⟨a, mem_levels.mpr ⟨e, he, ha⟩, rfl⟩
        | cons w middle =>
            rw [List.cons_append, List.cons.injEq] at hafter
            obtain ⟨rfl, -⟩ := hafter
            exact ih hlevels fresh

/-- A list that begins with `u`, and with no `v` before it, lists `u` before every `v`. -/
theorem mem_of_isPrefix {l x before : List κ} (hne : u ≠ v) (fresh : v ∉ x)
    (hx : x ++ [u] <+: l) (hv : before ++ [v] <+: l) : u ∈ before := by
  rcases List.prefix_or_prefix_of_prefix hx hv with hpre | hpre
  · rcases List.prefix_concat_iff.mp hpre with heq | hbefore
    · exact absurd (List.append_inj' heq rfl).2 (by simpa using hne)
    · exact hbefore.subset (by simp)
  · rcases List.prefix_concat_iff.mp hpre with heq | hx
    · exact absurd (List.append_inj' heq rfl).2 (by simpa using hne.symm)
    · exact absurd (hx.subset (by simp)) fresh

/-- **The order of first visits.**  Where `v` is served at some time, it is always
preceded by `u` exactly when `u` comes first in breadth-first order. -/
theorem precedes_iff (hne : u ≠ v) {d : ℕ} (occurs : v ∈ (levels succ q d).map key) :
    (∀ served q', Serves succ q served q' → Precedes (served.map key) u v) ↔
      FirstInLevels succ q key u v := by
  constructor
  · intro precedes
    obtain ⟨before, after, hv, fresh⟩ := List.eq_append_cons_of_mem occurs
    have earlier := precedes _ _ (serves_levels succ q d) before after hv fresh
    obtain ⟨first, middle, rfl⟩ := List.mem_iff_append.mp earlier
    rw [List.append_assoc, List.cons_append] at hv
    refine firstInLevels_of_levels hv fun hmem => fresh ?_
    exact List.mem_append_left _ hmem
  · rintro ⟨e, notBelow, first, rest, hlevel, fresh⟩ served q' h before after hserved -
    obtain ⟨D, hD⟩ := h.isPrefix_levels
    -- both lists are initial segments of the first `max D (e + 1)` levels
    have hu : (levels succ q e).map key ++ first ++ [u] <+:
        (levels succ q (max D (e + 1))).map key := by
      refine List.IsPrefix.trans ⟨rest, ?_⟩
        ((levels_mono (Nat.le_max_right D (e + 1))).map key)
      rw [levels, List.map_append, hlevel]
      simp
    have hv : before ++ [v] <+: (levels succ q (max D (e + 1))).map key := by
      refine List.IsPrefix.trans ⟨after, ?_⟩
        ((hD.trans (levels_mono (Nat.le_max_left D (e + 1)))).map key)
      rw [hserved]
      simp
    refine mem_of_isPrefix hne (fun hmem => ?_) hu hv
    rcases List.mem_append.mp hmem with hlow | hfirst
    · obtain ⟨a, ha, rfl⟩ := List.mem_map.mp hlow
      obtain ⟨i, hi, hmem⟩ := mem_levels.mp ha
      exact notBelow i hi (List.mem_map.mpr ⟨a, hmem, rfl⟩)
    · exact fresh hfirst

end Keys

end Worklist

end Machine
