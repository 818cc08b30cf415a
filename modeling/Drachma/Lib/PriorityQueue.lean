import Mathlib.Data.List.Perm.Basic
import Mathlib.Order.Lattice

/-!
# Priority queues

`PriorityQueue lt` is a priority queue over a comparator `lt`, in the sense of
the C++ adaptor of that name: `top` is an element that no element exceeds,
`lt x y` reading "`x` is exceeded by `y`".  The content is kept in insertion
order.  Which of several unexceeded elements `top` returns is not specified by
the language; here it is the one inserted first, and since the insertion order
is arbitrary, so is the choice.  `drain` lists the elements in the order in which
they are popped.
-/

namespace Machine

/-- A priority queue under the comparator `lt`, in insertion order. -/
structure PriorityQueue {α : Type*} (lt : α → α → Bool) where
  items : List α

namespace PriorityQueue

variable {α : Type*} {lt : α → α → Bool}

instance : Inhabited (PriorityQueue lt) := ⟨⟨[]⟩⟩

/-- The queue without elements. -/
def empty : PriorityQueue lt := ⟨[]⟩

/-- The number of elements. -/
def size (q : PriorityQueue lt) : ℕ := q.items.length

/-- Add an element. -/
def push (q : PriorityQueue lt) (a : α) : PriorityQueue lt := ⟨q.items ++ [a]⟩

/-- The first element of the list that no other exceeds, starting from the
candidate `a`. -/
def topFrom (lt : α → α → Bool) : α → List α → α
  | a, [] => a
  | a, b :: rest => topFrom lt (if lt a b then b else a) rest

/-- The top element; there is none in an empty queue. -/
def top? (q : PriorityQueue lt) : Option α :=
  match q.items with
  | [] => none
  | a :: rest => some (topFrom lt a rest)

variable [DecidableEq α]

/-- Remove the top element. -/
def pop (q : PriorityQueue lt) : PriorityQueue lt :=
  match q.top? with
  | none => q
  | some a => ⟨q.items.erase a⟩

omit [DecidableEq α] in
/-- Pushing one element after the other. -/
theorem foldl_push {β : Type*} (f : β → α) (l : List β) (q : PriorityQueue lt) :
    l.foldl (fun q x => q.push (f x)) q = ⟨q.items ++ l.map f⟩ := by
  induction l generalizing q with
  | nil => simp
  | cons x l ih =>
      rw [List.foldl_cons, ih]
      simp [push]

/-! ## The top element -/

omit [DecidableEq α]

/-- The comparator is a strict weak order, as the language requires. -/
structure IsStrictWeak (lt : α → α → Bool) : Prop where
  asymm : ∀ a b, lt a b = true → lt b a = false
  negTrans : ∀ a b c, lt a b = false → lt b c = false → lt a c = false

namespace IsStrictWeak

variable (weak : IsStrictWeak lt) {a b c : α}

include weak

theorem irrefl : lt a a = false := by
  cases h : lt a a with
  | false => rfl
  | true => exact h.symm.trans (weak.asymm a a h)

/-- What is exceeded by `b` is exceeded by whatever does not fall short of `b`. -/
theorem lt_of_lt_of_not_lt (h : lt a b = true) (k : lt c b = false) : lt a c = true := by
  cases hac : lt a c with
  | true => rfl
  | false =>
      have := weak.negTrans a c b hac k
      rw [h] at this
      cases this

end IsStrictWeak

/-- The first unexceeded element: everything before it is exceeded by it. -/
theorem topFrom_spec (weak : IsStrictWeak lt) (a : α) (l : List α) :
    ∃ before after, a :: l = before ++ topFrom lt a l :: after ∧
      (∀ b ∈ before, lt b (topFrom lt a l) = true) ∧
        ∀ b ∈ a :: l, lt (topFrom lt a l) b = false := by
  induction l generalizing a with
  | nil => exact ⟨[], [], rfl, by simp, by simp [topFrom, weak.irrefl]⟩
  | cons b l ih =>
      rw [topFrom]
      cases hab : lt a b with
      | true =>
          obtain ⟨before, after, hsplit, hbefore, hall⟩ := ih b
          simp only [if_true]
          generalize topFrom lt b l = top at *
          -- the old candidate is exceeded by the new one, so by the top element
          have hatop : lt a top = true :=
            weak.lt_of_lt_of_not_lt hab (hall b (by simp))
          refine ⟨a :: before, after, by rw [hsplit]; rfl, ?_, ?_⟩
          · intro c hc
            rcases List.mem_cons.mp hc with rfl | hc
            · exact hatop
            · exact hbefore c hc
          · intro c hc
            rcases List.mem_cons.mp hc with rfl | hc
            · exact weak.asymm _ _ hatop
            · exact hall c hc
      | false =>
          obtain ⟨before, after, hsplit, hbefore, hall⟩ := ih a
          simp only [Bool.false_eq_true, if_false]
          generalize topFrom lt a l = top at *
          have htopb : lt top b = false :=
            weak.negTrans _ _ _ (hall a (by simp)) hab
          have rest : ∀ c ∈ a :: b :: l, lt top c = false := by
            intro c hc
            rcases List.mem_cons.mp hc with rfl | hc
            · exact hall _ (by simp)
            · rcases List.mem_cons.mp hc with rfl | hc
              · exact htopb
              · exact hall c (by simp [hc])
          cases before with
          | nil =>
              cases hsplit
              exact ⟨[], b :: l, rfl, by simp, rest⟩
          | cons c before =>
              cases hsplit
              have hatop := hbefore a (by simp)
              refine ⟨a :: b :: before, after, rfl, ?_, rest⟩
              intro c hc
              rcases List.mem_cons.mp hc with rfl | hc
              · exact hatop
              · rcases List.mem_cons.mp hc with rfl | hc
                · -- a new element that does not exceed the candidate is exceeded as it is
                  cases hctop : lt c top with
                  | true => rfl
                  | false =>
                      have := weak.negTrans _ _ _ hab hctop
                      rw [hatop] at this
                      cases this
                · exact hbefore c (by simp [hc])

/-- **The top element** is stored, exceeds whatever was inserted before it, and is
exceeded by nothing. -/
theorem of_top?_eq_some (weak : IsStrictWeak lt) {q : PriorityQueue lt} {a : α}
    (h : q.top? = some a) :
    ∃ before after, q.items = before ++ a :: after ∧ (∀ b ∈ before, lt b a = true) ∧
      ∀ b ∈ q.items, lt a b = false := by
  unfold top? at h
  cases hitems : q.items with
  | nil => rw [hitems] at h; cases h
  | cons b rest =>
      rw [hitems] at h
      cases h
      exact topFrom_spec weak b rest

theorem top?_eq_none {q : PriorityQueue lt} : q.top? = none ↔ q.items = [] := by
  unfold top?
  cases q.items <;> simp

theorem mem_of_top? (weak : IsStrictWeak lt) {q : PriorityQueue lt} {a : α}
    (h : q.top? = some a) : a ∈ q.items := by
  obtain ⟨before, after, hitems, -⟩ := of_top?_eq_some weak h
  rw [hitems]
  simp

/-- **The top of a queue of images** is the image of the first unexceeded element. -/
theorem exists_top?_of_map (weak : IsStrictWeak lt) {β : Type*} {f : β → α} {l : List β}
    {q : PriorityQueue lt} (hitems : q.items = l.map f) (hne : l ≠ []) :
    ∃ before x after, l = before ++ x :: after ∧ q.top? = some (f x) ∧
      (∀ y ∈ before, lt (f y) (f x) = true) ∧ ∀ y ∈ l, lt (f x) (f y) = false := by
  obtain ⟨a, ha⟩ : ∃ a, q.top? = some a := by
    rw [← Option.ne_none_iff_exists', ne_eq, top?_eq_none, hitems, List.map_eq_nil_iff]
    exact hne
  obtain ⟨before, after, hsplit, hbefore, hall⟩ := of_top?_eq_some weak ha
  rw [hitems, List.map_eq_append_iff] at hsplit
  obtain ⟨before', rest, rfl, rfl, hrest⟩ := hsplit
  obtain ⟨x, after', rfl, rfl, -⟩ := List.map_eq_cons_iff.mp hrest
  refine ⟨before', x, after', rfl, ha, ?_, ?_⟩
  · intro y hy
    exact hbefore _ (List.mem_map_of_mem hy)
  · intro y hy
    exact hall _ (hitems ▸ List.mem_map_of_mem hy)

/-- A comparator that compares a number of its arguments is a strict weak order. -/
theorem isStrictWeak_of_key {β : Type*} [LinearOrder β] (key : α → β) :
    IsStrictWeak fun a b => decide (key a < key b) where
  asymm a b h := by
    simp only [decide_eq_true_eq, decide_eq_false_iff_not, not_lt] at h ⊢
    exact le_of_lt h
  negTrans a b c h k := by
    simp only [decide_eq_false_iff_not, not_lt] at h k ⊢
    exact le_trans k h

variable [DecidableEq α]

theorem pop_items {q : PriorityQueue lt} {a : α} (h : q.top? = some a) :
    q.pop.items = q.items.erase a := by
  unfold pop
  rw [h]

theorem mem_of_mem_pop {q : PriorityQueue lt} {a b : α} (h : q.top? = some a)
    (hb : b ∈ q.pop.items) : b ∈ q.items := by
  rw [pop_items h] at hb
  exact List.mem_of_mem_erase hb

theorem mem_pop_of_ne {q : PriorityQueue lt} {a b : α} (h : q.top? = some a)
    (hb : b ∈ q.items) (hne : b ≠ a) : b ∈ q.pop.items := by
  rw [pop_items h]
  exact (List.mem_erase_of_ne hne).mpr hb

theorem size_pop (weak : IsStrictWeak lt) {q : PriorityQueue lt} {a : α}
    (h : q.top? = some a) : q.pop.size + 1 = q.size := by
  have mem := mem_of_top? weak h
  have := List.length_pos_of_mem mem
  unfold size
  rw [pop_items h, List.length_erase_of_mem mem]
  omega

end PriorityQueue

/-! ## Popping everything -/

namespace PriorityQueue

variable {α : Type*} {lt : α → α → Bool} [DecidableEq α]

/-- The elements in the order in which they are popped, as far as `fuel` pops go. -/
def drain : ℕ → PriorityQueue lt → List α
  | 0, _ => []
  | fuel + 1, q =>
      match q.top? with
      | none => []
      | some a => a :: drain fuel q.pop

theorem drain_succ_of_top {fuel : ℕ} {q : PriorityQueue lt} {a : α} (h : q.top? = some a) :
    q.drain (fuel + 1) = a :: q.pop.drain fuel := by
  rw [drain, h]

theorem drain_of_empty {fuel : ℕ} {q : PriorityQueue lt} (h : q.top? = none) :
    q.drain fuel = [] := by
  cases fuel with
  | zero => rfl
  | succ fuel => rw [drain, h]

/-- **Everything is popped**, once. -/
theorem drain_perm (weak : IsStrictWeak lt) {fuel : ℕ} {q : PriorityQueue lt}
    (enough : q.size ≤ fuel) : (q.drain fuel).Perm q.items := by
  induction fuel generalizing q with
  | zero =>
      have empty : q.items = [] := List.eq_nil_of_length_eq_zero (Nat.le_zero.mp enough)
      rw [empty]
      exact .refl _
  | succ fuel ih =>
      cases top : q.top? with
      | none =>
          rw [drain_of_empty top, top?_eq_none.mp top]
      | some a =>
          have shrunk := size_pop weak top
          have popped := ih (show q.pop.size ≤ fuel by omega)
          rw [pop_items top] at popped
          rw [drain_succ_of_top top]
          exact (popped.cons a).trans (List.perm_cons_erase (mem_of_top? weak top)).symm

/-- **In order**: nothing is exceeded by what is popped later. -/
theorem pairwise_drain (weak : IsStrictWeak lt) {fuel : ℕ} {q : PriorityQueue lt}
    (enough : q.size ≤ fuel) : (q.drain fuel).Pairwise fun a b => lt a b = false := by
  induction fuel generalizing q with
  | zero => exact .nil
  | succ fuel ih =>
      cases top : q.top? with
      | none =>
          rw [drain_of_empty top]
          exact .nil
      | some a =>
          have shrunk := size_pop weak top
          obtain ⟨_, _, -, -, unexceeded⟩ := of_top?_eq_some weak top
          rw [drain_succ_of_top top, List.pairwise_cons]
          refine ⟨fun b hb => unexceeded b ?_, ih (by omega)⟩
          exact mem_of_mem_pop top ((drain_perm weak (by omega)).mem_iff.mp hb)

end PriorityQueue

end Machine
