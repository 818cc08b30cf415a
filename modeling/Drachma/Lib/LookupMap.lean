import Mathlib.Data.List.Induction
import Mathlib.Data.List.Nodup
import Mathlib.Data.List.Perm.Subperm
import Mathlib.Data.List.Range

/-!
# Finite maps with an iteration order

An unordered map of a program is a finite partial function together with the
order in which a loop over it happens to visit the entries.  `LookupMap κ α`
keeps both: the entries as a list, which *is* the iteration order, and the proof
that no key occurs twice.  A statement about every `LookupMap` is therefore a
statement about every iteration order.

`alter` is the update through `operator[]`: a missing key is first inserted with
a default value.  Where a new key is put in the iteration order is not specified
by the language; here it goes last.
-/

namespace Machine

/-- A finite map whose entries are listed in iteration order. -/
structure LookupMap (κ α : Type*) where
  entries : List (κ × α)
  nodup : (entries.map Prod.fst).Nodup

namespace LookupMap

variable {κ α β : Type*}

/-- The map without entries. -/
def empty : LookupMap κ α := ⟨[], List.nodup_nil⟩

instance : Inhabited (LookupMap κ α) := ⟨empty⟩

/-- The number of entries. -/
def size (m : LookupMap κ α) : ℕ := m.entries.length

/-- The keys, in iteration order. -/
def keys (m : LookupMap κ α) : List κ := m.entries.map Prod.fst

variable [DecidableEq κ]

/-- The value stored under `k`. -/
def find? (m : LookupMap κ α) (k : κ) : Option α := m.entries.lookup k

/-- Apply `f` to the value under `k`, after inserting `d` there if `k` is new. -/
def alterEntries (k : κ) (d : α) (f : α → α) : List (κ × α) → List (κ × α)
  | [] => [(k, f d)]
  | (k', a) :: rest =>
      if k' = k then (k', f a) :: rest else (k', a) :: alterEntries k d f rest

theorem mem_keys_alterEntries {k k' : κ} {d : α} {f : α → α} {l : List (κ × α)} :
    k' ∈ (alterEntries k d f l).map Prod.fst ↔ k' ∈ l.map Prod.fst ∨ k' = k := by
  induction l with
  | nil => simp [alterEntries]
  | cons e l ih =>
      rw [alterEntries]
      split
      · rename_i h; subst h; simp; tauto
      · simp only [List.map_cons, List.mem_cons, ih]; tauto

theorem nodup_alterEntries {k : κ} {d : α} {f : α → α} {l : List (κ × α)}
    (h : (l.map Prod.fst).Nodup) : ((alterEntries k d f l).map Prod.fst).Nodup := by
  induction l with
  | nil => simp [alterEntries]
  | cons e l ih =>
      rw [List.map_cons, List.nodup_cons] at h
      rw [alterEntries]
      split
      · simpa using h
      · rename_i hne
        rw [List.map_cons, List.nodup_cons, mem_keys_alterEntries]
        exact ⟨by rintro (hmem | heq); exacts [h.1 hmem, hne heq], ih h.2⟩

/-- `m[k] = f (m[k])`, where an absent `m[k]` starts as `d`. -/
def alter (m : LookupMap κ α) (k : κ) (d : α) (f : α → α) : LookupMap κ α :=
  ⟨alterEntries k d f m.entries, nodup_alterEntries m.nodup⟩

/-- `m[k] = a`. -/
def insert (m : LookupMap κ α) (k : κ) (a : α) : LookupMap κ α :=
  m.alter k a fun _ => a

/-! ## Lookups -/

variable {m : LookupMap κ α} {k k' : κ} {a : α}

@[simp] theorem find?_empty : (empty : LookupMap κ α).find? k = none := rfl

theorem lookup_cons_eq_ite (k : κ) (e : κ × α) (l : List (κ × α)) :
    List.lookup k (e :: l) = if k = e.1 then some e.2 else List.lookup k l := by
  rw [List.lookup_cons]
  by_cases h : k = e.1
  · simp [h]
  · rw [beq_false_of_ne h, if_neg h]

theorem lookup_alterEntries (k k' : κ) (d : α) (f : α → α) (l : List (κ × α)) :
    (alterEntries k d f l).lookup k' =
      if k' = k then some (f ((l.lookup k).getD d)) else l.lookup k' := by
  induction l with
  | nil => simp only [alterEntries, lookup_cons_eq_ite, List.lookup_nil, Option.getD_none]
  | cons e l ih =>
      rw [alterEntries]
      by_cases hk : e.1 = k
      · subst hk
        simp only [if_true, lookup_cons_eq_ite, Option.getD_some]
        by_cases h : k' = e.1 <;> simp [h]
      · simp only [hk, if_false, lookup_cons_eq_ite, Ne.symm hk, ih]
        by_cases h : k' = k
        · subst h; simp [Ne.symm hk]
        · simp [h]

/-- **An update is seen under its own key, and under no other.** -/
theorem find?_alter (d : α) (f : α → α) :
    (m.alter k d f).find? k' =
      if k' = k then some (f ((m.find? k).getD d)) else m.find? k' :=
  lookup_alterEntries k k' d f m.entries

theorem find?_insert : (m.insert k a).find? k' = if k' = k then some a else m.find? k' :=
  find?_alter a fun _ => a

/-- What a lookup finds is what is stored. -/
theorem find?_eq_some : m.find? k = some a ↔ (k, a) ∈ m.entries := by
  obtain ⟨entries, nodup⟩ := m
  change entries.lookup k = some a ↔ (k, a) ∈ entries
  induction entries with
  | nil => simp
  | cons e l ih =>
      rw [List.map_cons, List.nodup_cons] at nodup
      rw [lookup_cons_eq_ite, List.mem_cons]
      by_cases h : k = e.1
      · subst h
        rw [if_pos rfl, Option.some.injEq]
        constructor
        · rintro rfl
          exact .inl rfl
        · rintro (heq | hmem)
          · rw [← heq]
          · exact absurd (List.mem_map_of_mem hmem) nodup.1
      · rw [if_neg h, ih nodup.2]
        constructor
        · exact .inr
        · rintro (heq | hmem)
          · exact absurd (by rw [← heq]) h
          · exact hmem

theorem find?_eq_none : m.find? k = none ↔ k ∉ m.keys := by
  constructor
  · intro h hk
    obtain ⟨e, he, rfl⟩ := List.mem_map.mp hk
    rw [find?_eq_some.mpr he] at h
    cases h
  · intro h
    cases hfind : m.find? k with
    | none => rfl
    | some a => exact absurd (List.mem_map_of_mem (find?_eq_some.mp hfind)) h

theorem exists_find?_eq_some (h : k ∈ m.keys) : ∃ a, m.find? k = some a := by
  cases hfind : m.find? k with
  | none => exact absurd h (find?_eq_none.mp hfind)
  | some a => exact ⟨a, rfl⟩

theorem mem_keys_of_find? (h : m.find? k = some a) : k ∈ m.keys :=
  List.mem_map_of_mem (find?_eq_some.mp h)

omit [DecidableEq κ] in
/-- Maps with the same keys have them in some order. -/
theorem perm_keys {m' : LookupMap κ β} (same : ∀ k, k ∈ m.keys ↔ k ∈ m'.keys) :
    m.keys.Perm m'.keys :=
  (List.perm_ext_iff_of_nodup m.nodup m'.nodup).mpr same

omit [DecidableEq κ] in
theorem size_eq_of_keys {m' : LookupMap κ β} (same : ∀ k, k ∈ m.keys ↔ k ∈ m'.keys) :
    m.size = m'.size := by
  have length := (perm_keys same).length_eq
  unfold keys at length
  rwa [List.length_map, List.length_map] at length

/-- Keys that are all below their number are the first numbers. -/
theorem mem_keys_iff_lt_size {m : LookupMap ℕ α} (bounded : ∀ k ∈ m.keys, k < m.size) {k : ℕ} :
    k ∈ m.keys ↔ k < m.size := by
  have within : m.keys ⊆ List.range m.size :=
    fun k hk => List.mem_range.mpr (bounded k hk)
  have all : m.keys.Perm (List.range m.size) := by
    apply (List.subperm_of_subset m.nodup within).perm_of_length_le
    rw [List.length_range]
    exact (List.length_map _).ge
  exact all.mem_iff.trans List.mem_range

theorem keys_lt_size_iff {m : LookupMap ℕ α} :
    (∀ k ∈ m.keys, k < m.size) ↔ ∃ n, ∀ k, k ∈ m.keys ↔ k < n := by
  constructor
  · intro bounded
    exact ⟨m.size, fun k => mem_keys_iff_lt_size bounded⟩
  · rintro ⟨n, numbered⟩ k hk
    have all : m.keys.Perm (List.range n) :=
      (List.perm_ext_iff_of_nodup m.nodup List.nodup_range).mpr
        fun k => (numbered k).trans List.mem_range.symm
    have count : m.size = n := by
      have length := all.length_eq
      rw [List.length_range] at length
      exact (List.length_map _).symm.trans length
    rw [count]
    exact (numbered k).mp hk

/-- The keys of a map that is updated once for each element of a list. -/
theorem mem_keys_foldl {β : Type*} (key : β → κ) (d : β → α) (f : β → α → α) (l : List β)
    (m : LookupMap κ α) :
    k ∈ (l.foldl (fun m x => m.alter (key x) (d x) (f x)) m).keys ↔
      k ∈ m.keys ∨ ∃ x ∈ l, key x = k := by
  induction l generalizing m with
  | nil => simp
  | cons x l ih =>
      rw [List.foldl_cons, ih, List.exists_mem_cons_iff, ← or_assoc]
      unfold keys alter
      rw [mem_keys_alterEntries, eq_comm (a := k)]

/-- Setting the keys of another map, one after the other. -/
theorem find?_foldl_insert {β : Type*} (g : κ × β → α) (l : List (κ × β))
    (nodup : (l.map Prod.fst).Nodup) (m : LookupMap κ α) :
    (l.foldl (fun m e => m.insert e.1 (g e)) m).find? k =
      match l.lookup k with
      | some b => some (g (k, b))
      | none => m.find? k := by
  induction l generalizing m with
  | nil => rfl
  | cons e l ih =>
      rw [List.map_cons, List.nodup_cons] at nodup
      rw [List.foldl_cons, ih nodup.2, lookup_cons_eq_ite]
      by_cases h : k = e.1
      · subst h
        rw [if_pos rfl, find?_insert, if_pos rfl]
        have absent : l.lookup e.1 = none := by
          rw [List.lookup_eq_none_iff]
          intro e' he'
          rw [bne_iff_ne]
          intro heq
          exact nodup.1 (heq ▸ List.mem_map_of_mem he')
        rw [absent]
      · rw [if_neg h, find?_insert, if_neg h]

/-- Inserting the keys of a list, where a key that is there stays as it is. -/
theorem find?_foldl_keep {β : Type*} (g : κ × β → α) (l : List (κ × β)) (m : LookupMap κ α) :
    (l.foldl (fun m e => m.alter e.1 (g e) id) m).find? k =
      (m.find? k).or ((l.lookup k).map fun b => g (k, b)) := by
  induction l generalizing m with
  | nil => simp
  | cons e l ih =>
      rw [List.foldl_cons, ih, find?_alter, lookup_cons_eq_ite]
      by_cases h : k = e.1
      · subst h
        rw [if_pos rfl, if_pos rfl]
        cases m.find? e.1 <;> rfl
      · rw [if_neg h, if_neg h]

/-! ## Maps of maps -/

section TwoLevels

variable {ι : Type*} [DecidableEq ι]

/-- The value stored under `k` and then `i`. -/
def find2? (m : LookupMap κ (LookupMap ι α)) (k : κ) (i : ι) : Option α :=
  (m.find? k).bind fun inner => inner.find? i

/-- `m[k][i] = f (m[k][i])`, where an absent `m[k][i]` starts as `d`. -/
def alter2 (m : LookupMap κ (LookupMap ι α)) (k : κ) (i : ι) (d : α) (f : α → α) :
    LookupMap κ (LookupMap ι α) :=
  m.alter k .empty fun inner => inner.alter i d f

variable {m : LookupMap κ (LookupMap ι α)} {k k' : κ} {i i' : ι}

@[simp] theorem find2?_empty : (empty : LookupMap κ (LookupMap ι α)).find2? k i = none := rfl

theorem find2?_eq_some {a : α} :
    m.find2? k i = some a ↔ ∃ inner, m.find? k = some inner ∧ inner.find? i = some a := by
  simp [find2?, Option.bind_eq_some_iff]

theorem find2?_alter2 (d : α) (f : α → α) :
    (m.alter2 k i d f).find2? k' i' =
      if k' = k ∧ i' = i then some (f ((m.find2? k i).getD d)) else m.find2? k' i' := by
  unfold find2? alter2
  rw [find?_alter]
  by_cases hk : k' = k
  · subst hk
    simp only [if_true, Option.bind_some, find?_alter, true_and]
    cases m.find? k' <;> simp
  · simp [hk]

/-- **Grouping a list.**  A loop that adds each element of a list under its two keys
leaves, under a pair of keys, the elements with these keys, in the order of the list. -/
theorem find2?_foldl {β : Type*} (key : β → κ) (index : β → ι) (d : α) (add : α → β → α)
    (l : List β) (m : LookupMap κ (LookupMap ι α)) :
    (l.foldl (fun m x => m.alter2 (key x) (index x) d fun a => add a x) m).find2? k i =
      if l.filter (fun x => decide (key x = k ∧ index x = i)) = [] then
        m.find2? k i
      else
        some ((l.filter fun x => decide (key x = k ∧ index x = i)).foldl add
          ((m.find2? k i).getD d)) := by
  induction l generalizing m with
  | nil => rfl
  | cons x l ih =>
      rw [List.foldl_cons, ih, find2?_alter2]
      by_cases h : key x = k ∧ index x = i
      · have here : k = key x ∧ i = index x := ⟨h.1.symm, h.2.symm⟩
        obtain ⟨rfl, rfl⟩ := here
        rw [List.filter_cons_of_pos (by simp)]
        generalize l.filter (fun y => decide (key y = key x ∧ index y = index x)) = rest
        cases rest <;> simp
      · have other : ¬ (k = key x ∧ i = index x) := fun hk => h ⟨hk.1.symm, hk.2.symm⟩
        rw [List.filter_cons_of_neg (by simpa using h), if_neg other]

/-- **The last one stays.**  A loop that stores each element of a list under its two keys
leaves, under a pair of keys, the last element with these keys. -/
theorem find2?_foldl_store (key : α → κ) (index : α → ι) (d : α) (l : List α) :
    (l.foldl (fun m x => m.alter2 (key x) (index x) d fun _ => x)
        (empty : LookupMap κ (LookupMap ι α))).find2? k i =
      (l.filter fun x => decide (key x = k ∧ index x = i)).getLast? := by
  rw [find2?_foldl key index d (fun _ x => x)]
  generalize l.filter (fun x => decide (key x = k ∧ index x = i)) = here
  induction here using List.reverseRecOn with
  | nil => rfl
  | append_singleton here x _ => simp

end TwoLevels

end LookupMap

end Machine
