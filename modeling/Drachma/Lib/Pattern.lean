import Mathlib.Data.List.Basic
import Mathlib.Tactic.Common

/-!
# Patterns

A language of regular patterns whose repetitions are of single characters, with
word boundaries.  A boundary looks at the characters on both of its sides, so a
pattern is matched against the rest of a text *and* the character before it.

`ends r prev w` lists the ways in which `r` can match a beginning of `w`, each by
the character it stops at and what it leaves of `w`.  The rules `mem_ends_one`,
`mem_ends_seq` and so on say what these are, one constructor each.
-/

namespace Machine

/-- A pattern. -/
inductive Pattern
  | empty
  | one (p : Char → Bool)
  | many (p : Char → Bool)
  | seq (r s : Pattern)
  | alt (r s : Pattern)
  | boundary

namespace Pattern

/-- A letter, a digit or an underscore. -/
def isWord (c : Char) : Bool := c.isAlphanum || c == '_'

/-- Any number of characters of a class. -/
def manyEnds (p : Char → Bool) : Option Char → List Char → List (Option Char × List Char)
  | prev, [] => [(prev, [])]
  | prev, c :: w => (prev, c :: w) :: if p c then manyEnds p (some c) w else []

/-- Where a match that starts after `prev`, at the beginning of `w`, can end. -/
def ends : Pattern → Option Char → List Char → List (Option Char × List Char)
  | empty, prev, w => [(prev, w)]
  | one _, _, [] => []
  | one p, _, c :: w => if p c then [(some c, w)] else []
  | many p, prev, w => manyEnds p prev w
  | seq r s, prev, w => (r.ends prev w).flatMap fun e => s.ends e.1 e.2
  | alt r s, prev, w => r.ends prev w ++ s.ends prev w
  | boundary, prev, w => if prev.any isWord = w.head?.any isWord then [] else [(prev, w)]

/-- The pattern matches the whole text. -/
def fullMatch (r : Pattern) (w : List Char) : Bool :=
  (r.ends none w).any fun e => e.2.isEmpty

/-- One given character. -/
def char (c : Char) : Pattern := one fun c' => c' == c

/-- A given text. -/
def text : List Char → Pattern
  | [] => empty
  | c :: w => seq (char c) (text w)

/-- One or more characters of a class. -/
def some (p : Char → Bool) : Pattern := seq (one p) (many p)

/-- A match of the pattern, or nothing. -/
def opt (r : Pattern) : Pattern := alt r empty

/-! ## Rules -/

variable {r s : Pattern} {p : Char → Bool} {prev last : Option Char} {w v : List Char}

theorem fullMatch_iff : r.fullMatch w = true ↔ ∃ last, (last, []) ∈ r.ends none w := by
  unfold fullMatch
  rw [List.any_eq_true]
  constructor
  · rintro ⟨⟨last, rest⟩, hmem, hrest⟩
    rw [List.isEmpty_iff] at hrest
    exact ⟨last, hrest ▸ hmem⟩
  · rintro ⟨last, hmem⟩
    exact ⟨_, hmem, rfl⟩

@[simp] theorem mem_ends_empty : (last, v) ∈ empty.ends prev w ↔ last = prev ∧ v = w := by
  simp [ends]

@[simp] theorem mem_ends_one :
    (last, v) ∈ (one p).ends prev w ↔ ∃ c, w = c :: v ∧ p c = true ∧ last = Option.some c := by
  cases w with
  | nil => simp [ends]
  | cons c w =>
      rw [ends]
      by_cases h : p c
      · simp only [h, if_true, List.mem_singleton, Prod.mk.injEq, List.cons.injEq]
        constructor
        · rintro ⟨rfl, rfl⟩
          exact ⟨c, ⟨rfl, rfl⟩, h, rfl⟩
        · rintro ⟨_, ⟨rfl, rfl⟩, -, rfl⟩
          exact ⟨rfl, rfl⟩
      · simp only [h, Bool.false_eq_true, if_false, List.not_mem_nil, false_iff]
        rintro ⟨_, heq, hp, -⟩
        cases heq
        exact h hp

@[simp] theorem mem_ends_char {c : Char} :
    (last, v) ∈ (char c).ends prev w ↔ w = c :: v ∧ last = Option.some c := by
  simp [char]

@[simp] theorem mem_ends_seq :
    (last, v) ∈ (seq r s).ends prev w ↔
      ∃ mid u, (mid, u) ∈ r.ends prev w ∧ (last, v) ∈ s.ends mid u := by
  simp [ends]

@[simp] theorem mem_ends_alt :
    (last, v) ∈ (alt r s).ends prev w ↔
      (last, v) ∈ r.ends prev w ∨ (last, v) ∈ s.ends prev w := by
  simp [ends]

@[simp] theorem mem_ends_boundary :
    (last, v) ∈ boundary.ends prev w ↔
      last = prev ∧ v = w ∧ prev.any isWord ≠ w.head?.any isWord := by
  rw [ends]
  by_cases h : prev.any isWord = w.head?.any isWord
  · simp [h]
  · simp [h]

/-- A repetition takes characters of its class. -/
theorem of_mem_ends_many (h : (last, v) ∈ (many p).ends prev w) :
    ∃ cs, w = cs ++ v ∧ ∀ c ∈ cs, p c = true := by
  change (last, v) ∈ manyEnds p prev w at h
  induction w generalizing prev with
  | nil =>
      obtain ⟨-, rfl⟩ := Prod.mk.inj (List.mem_singleton.mp h)
      exact ⟨[], rfl, by simp⟩
  | cons c w ih =>
      rw [manyEnds, List.mem_cons] at h
      rcases h with heq | h
      · obtain ⟨-, rfl⟩ := Prod.mk.inj heq
        exact ⟨[], rfl, by simp⟩
      · by_cases hc : p c
        · rw [if_pos hc] at h
          obtain ⟨cs, rfl, hcs⟩ := ih h
          refine ⟨c :: cs, rfl, ?_⟩
          intro c' hc'
          rcases List.mem_cons.mp hc' with rfl | hc'
          · exact hc
          · exact hcs c' hc'
        · rw [if_neg hc] at h
          cases h

/-- A repetition that is not empty takes a character of its class first. -/
theorem of_mem_ends_some (h : (last, v) ∈ (some p).ends prev w) :
    ∃ c cs, w = c :: cs ++ v ∧ ∀ c' ∈ c :: cs, p c' = true := by
  unfold some at h
  rw [mem_ends_seq] at h
  obtain ⟨mid, u, hone, hmany⟩ := h
  obtain ⟨c, rfl, hc, -⟩ := mem_ends_one.mp hone
  obtain ⟨cs, rfl, hcs⟩ := of_mem_ends_many hmany
  refine ⟨c, cs, rfl, ?_⟩
  intro c' hc'
  rcases List.mem_cons.mp hc' with rfl | hc'
  · exact hc
  · exact hcs c' hc'

theorem of_mem_ends_text {t : List Char} (h : (last, v) ∈ (text t).ends prev w) : w = t ++ v := by
  induction t generalizing prev w with
  | nil =>
      obtain ⟨-, rfl⟩ := mem_ends_empty.mp h
      rfl
  | cons c t ih =>
      rw [text, mem_ends_seq] at h
      obtain ⟨mid, u, hchar, hrest⟩ := h
      obtain ⟨rfl, -⟩ := mem_ends_char.mp hchar
      rw [ih hrest]
      rfl

end Pattern

end Machine
