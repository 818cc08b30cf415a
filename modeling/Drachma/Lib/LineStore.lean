import Mathlib.Data.List.Basic

/-!
# Entries kept on lines

A list of entries can be kept as lines of a text, one for each entry, among groups of lines
that are remarks.  `Lists line plain remark lines store` says that the lines list the entries
of the store, each of which is `plain`, in this order.

* `Lists.append` — appending the lines of some entries appends the entries.
* `Lists.mem_iff` — an entry is in the store if its line is there.
* `Lists.erase` — without the first line of an entry, the store is without the entry.
* `Lists.read_eq` — what is read off the lines is read off the entries.
-/

universe u v w

namespace Machine

variable {L : Type u} {E : Type v}

/-- Some lines, and the entries that they list. -/
inductive Lists (line : E → L) (plain : E → Prop) (remark : List L → Prop) :
    List L → List E → Prop
  | nil : Lists line plain remark [] []
  | entry {e : E} {lines : List L} {store : List E} :
      plain e → Lists line plain remark lines store →
        Lists line plain remark (line e :: lines) (e :: store)
  | others {group lines : List L} {store : List E} :
      remark group → Lists line plain remark lines store →
        Lists line plain remark (group ++ lines) store

namespace Lists

variable {line : E → L} {plain : E → Prop} {remark : List L → Prop}
  {lines before after : List L} {store : List E} {e : E}

/-- The lines of some entries, without remarks. -/
theorem of_plain (all : ∀ e ∈ store, plain e) :
    Lists line plain remark (store.map line) store := by
  induction store with
  | nil => exact .nil
  | cons e store ih =>
      obtain ⟨first, rest⟩ := List.forall_mem_cons.mp all
      exact .entry first (ih rest)

theorem append {lines' : List L} {store' : List E} (lists : Lists line plain remark lines store)
    (lists' : Lists line plain remark lines' store') :
    Lists line plain remark (lines ++ lines') (store ++ store') := by
  induction lists with
  | nil => exact lists'
  | entry plain _ ih => exact .entry plain ih
  | others remark _ ih =>
      rw [List.append_assoc]
      exact .others remark ih

section Apart

variable (injective : Function.Injective line)
  (apart : ∀ e group, remark group → line e ∉ group)

include injective apart

theorem mem_iff (lists : Lists line plain remark lines store) : line e ∈ lines ↔ e ∈ store := by
  induction lists with
  | nil => simp
  | @entry e' _ _ _ _ ih => rw [List.mem_cons, List.mem_cons, ih, injective.eq_iff]
  | others remark _ ih => rw [List.mem_append, ih, or_iff_right (apart e _ remark)]

/-- The first line of an entry is the one of its first occurrence. -/
theorem erase [DecidableEq E] (lists : Lists line plain remark (before ++ line e :: after) store)
    (first : line e ∉ before) : Lists line plain remark (before ++ after) (store.erase e) := by
  generalize hlines : before ++ line e :: after = lines at lists
  induction lists generalizing before with
  | nil => cases (List.append_eq_nil_iff.mp hlines).2
  | @entry e' lines store plain rest ih =>
      cases before with
      | nil =>
          obtain ⟨same, rfl⟩ := List.cons.inj hlines
          obtain rfl := injective same
          rw [List.erase_cons_head]
          exact rest
      | cons l before =>
          obtain ⟨rfl, tail⟩ := List.cons.inj hlines
          rw [List.mem_cons, not_or] at first
          rw [List.erase_cons_tail]
          · exact .entry plain (ih first.2 tail)
          · rw [beq_iff_eq]
            rintro rfl
            exact first.1 rfl
  | @others group lines store remark rest ih =>
      -- the line is not one of the group, so the group is a part of `before`
      rcases List.append_eq_append_iff.mp hlines with ⟨inner, hgroup, hrest⟩ | ⟨before', rfl, hrest⟩
      · cases inner with
        | nil =>
            rw [List.append_nil] at hgroup
            subst hgroup
            exact .others remark (ih List.not_mem_nil hrest)
        | cons l inner =>
            obtain ⟨rfl, -⟩ := List.cons.inj hrest
            refine absurd ?_ (apart e group remark)
            rw [hgroup]
            exact List.mem_append_right _ List.mem_cons_self
      · rw [List.append_assoc]
        exact .others remark
          (ih (fun mem => first (List.mem_append_right _ mem)) hrest.symm)

end Apart

/-- What is read off the lines, where a remark makes no difference. -/
theorem read_eq {R : Type w} {read : List L → List R} {out : E → List R}
    (lists : Lists line plain remark lines store) (empty : read [] = [])
    (entries : ∀ e lines, plain e → read (line e :: lines) = out e ++ read lines)
    (remarks : ∀ group lines, remark group → read (group ++ lines) = read lines) :
    read lines = store.flatMap out := by
  induction lists with
  | nil => exact empty
  | entry plain _ ih => rw [entries _ _ plain, ih, List.flatMap_cons]
  | others remark _ ih => rw [remarks _ _ remark, ih]

end Lists

end Machine
