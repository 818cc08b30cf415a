import Mathlib.Data.List.Nodup
import Mathlib.Logic.Function.Basic

/-!
# Chains of linked objects

Objects on a heap each have a value and the address of a child, or none.  A program
builds a chain by making objects and linking each under the one before, and reads it by
following the children.

* `LinkedHeap.IsChain` — the addresses of a chain, from its top to an object without a
  child;
* `LinkedHeap.walk_of_isChain` — following the children reads a chain off;
* `LinkedHeap.IsChain.append` — a chain is longer by what is linked under its last object.
-/

namespace Machine

/-- Objects with a value and the address of a child. -/
structure LinkedHeap (α : Type*) where
  value : ℕ → α
  child : ℕ → Option ℕ
  next : ℕ

namespace LinkedHeap

variable {α : Type*}

/-- One object, without a child. -/
def single (a : α) : LinkedHeap α := ⟨fun _ => a, fun _ => none, 1⟩

/-- Make an object without a child. -/
def alloc (h : LinkedHeap α) (a : α) : ℕ × LinkedHeap α :=
  (h.next,
    { value := Function.update h.value h.next a
      child := Function.update h.child h.next none
      next := h.next + 1 })

/-- Link one object under another. -/
def setChild (h : LinkedHeap α) (parent child : ℕ) : LinkedHeap α :=
  { h with child := Function.update h.child parent (some child) }

/-- The value at an address and those of the children below it. -/
def walk (h : LinkedHeap α) : ℕ → ℕ → List α
  | 0, _ => []
  | fuel + 1, a =>
      h.value a ::
        match h.child a with
        | none => []
        | some b => h.walk fuel b

/-- The addresses lead from one to the next, and end at an object without a child. -/
def IsChain (h : LinkedHeap α) : List ℕ → Prop
  | [] => False
  | [a] => h.child a = none
  | a :: b :: rest => h.child a = some b ∧ h.IsChain (b :: rest)

variable {h : LinkedHeap α} {addresses : List ℕ} {a b : ℕ}

/-- **Following the children** reads off a chain, whose length is enough fuel. -/
theorem walk_of_isChain (chain : h.IsChain (a :: addresses)) {fuel : ℕ}
    (enough : addresses.length < fuel) : h.walk fuel a = (a :: addresses).map h.value := by
  induction addresses generalizing a fuel with
  | nil =>
      obtain ⟨fuel, rfl⟩ := Nat.exists_eq_add_of_lt enough
      rw [walk, show h.child a = none from chain]
      rfl
  | cons b rest ih =>
      obtain ⟨fuel, rfl⟩ := Nat.exists_eq_add_of_lt (Nat.zero_lt_of_lt enough)
      rw [List.length_cons] at enough
      rw [walk, chain.1]
      dsimp only
      rw [ih chain.2 (by omega), List.map_cons, List.map_cons, List.map_cons]

/-- A chain is not affected by other addresses. -/
theorem IsChain.congr {h' : LinkedHeap α} (chain : h.IsChain addresses)
    (same : ∀ c ∈ addresses, h'.child c = h.child c) : h'.IsChain addresses := by
  induction addresses with
  | nil => exact chain
  | cons c rest ih =>
      cases rest with
      | nil => exact (same c List.mem_cons_self).trans chain
      | cons d rest =>
          refine ⟨(same c List.mem_cons_self).trans chain.1, ih chain.2 fun e he => ?_⟩
          exact same e (List.mem_cons_of_mem _ he)

/-- **Linking an object under the last one of a chain.** -/
theorem IsChain.append (chain : h.IsChain (addresses ++ [a]))
    (nodup : (addresses ++ [a]).Nodup) (last : h.child b = none) (fresh : b ≠ a) :
    (h.setChild a b).IsChain (addresses ++ [a, b]) := by
  induction addresses with
  | nil =>
      refine ⟨Function.update_self _ _ _, ?_⟩
      exact (Function.update_of_ne fresh _ _).trans last
  | cons c rest ih =>
      rw [List.cons_append, List.nodup_cons, List.mem_append, List.mem_singleton, not_or] at nodup
      have linked : (h.setChild a b).child c = h.child c := Function.update_of_ne nodup.1.2 _ _
      cases rest with
      | nil => exact ⟨linked.trans chain.1, ih chain.2 nodup.2⟩
      | cons d rest => exact ⟨linked.trans chain.1, ih chain.2 nodup.2⟩

/-- The addresses of a chain of made objects. -/
structure Built (h : LinkedHeap α) (addresses : List ℕ) (values : List α) : Prop where
  chain : h.IsChain addresses
  nodup : addresses.Nodup
  made : ∀ c ∈ addresses, c < h.next
  values : addresses.map h.value = values

namespace Built

variable {values : List α} {v : α}

theorem single (v : α) : (LinkedHeap.single v).Built [0] [v] :=
  ⟨rfl, List.nodup_singleton _, by simp [LinkedHeap.single], rfl⟩

/-- A chain that is being built keeps its objects while others are made. -/
theorem alloc (built : h.Built addresses values) (v : α) :
    (h.alloc v).2.Built addresses values := by
  have old : ∀ c ∈ addresses, c ≠ h.next := fun c hc => Nat.ne_of_lt (built.made c hc)
  refine ⟨?_, built.nodup, fun c hc => Nat.lt_succ_of_lt (built.made c hc), ?_⟩
  · apply built.chain.congr
    intro c hc
    exact Function.update_of_ne (old c hc) _ _
  · rw [← built.values]
    apply List.map_congr_left
    intro c hc
    exact Function.update_of_ne (old c hc) _ _

/-- Linking another object under the last one. -/
theorem setChild (built : h.Built (addresses ++ [a]) values) (last : h.child b = none)
    (fresh : b ∉ addresses ++ [a]) (made : b < h.next) :
    (h.setChild a b).Built (addresses ++ [a, b]) (values ++ [h.value b]) := by
  have other : b ≠ a := by
    rintro rfl
    exact fresh (List.mem_append_right _ List.mem_cons_self)
  have split : addresses ++ [a, b] = (addresses ++ [a]) ++ [b] := by simp
  refine ⟨built.chain.append built.nodup last other, ?_, fun c hc => ?_, ?_⟩
  · rw [split, ← List.concat_eq_append]
    exact built.nodup.concat fresh
  · rw [split, List.mem_append, List.mem_singleton] at hc
    rcases hc with hc | rfl
    · exact built.made c hc
    · exact made
  · rw [split, List.map_append]
    show (addresses ++ [a]).map h.value ++ [h.value b] = _
    rw [built.values]

end Built

end LinkedHeap

end Machine
