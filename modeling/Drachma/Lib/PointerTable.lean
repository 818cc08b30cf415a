import Drachma.Lib.PartialRun
import Mathlib.Data.List.Induction
import Mathlib.Logic.Function.Basic

/-!
# Tables of pointers

A `PointerTable` is a map to pointers as a program has it: an entry is absent, null, or
the address of an object.  Two calls look something up in it.  A `query` asks whether the
table has what it names, and leaves the table alone.  A `fetch` reads the pointer under a
key; where there is no entry, it inserts a null pointer and returns that.

`slot` is the key an object is inserted under, and `key` the key a query asks about.  What
a query makes of an object it finds is `names`, and what it makes of a null pointer `null`.

## Main results

* `PointerTable.after_apply` — what a table holds after some calls.
* `PointerTable.faithful_iff` — when a table tells what was inserted, and lookups do not
  show.
-/

namespace Machine

/-- A map to pointers. -/
abbrev PointerTable (κ α : Type*) := κ → Option (Option α)

/-- A call on a table. -/
inductive TableCall (κ α ι : Type*)
  | insert (a : α)
  | query (i : ι)
  | fetch (k : κ)

/-- What a call returns. -/
inductive TableAnswer (α : Type*)
  | done
  | found (b : Bool)
  | pointer (p : Option α)
deriving DecidableEq

namespace TableCall

variable {κ α ι : Type*}

/-- The call is a lookup. -/
def IsLookup : TableCall κ α ι → Prop
  | insert _ => False
  | query _ => True
  | fetch _ => True

/-- The objects that some calls insert. -/
def inserted (calls : List (TableCall κ α ι)) : List α :=
  calls.filterMap fun
    | insert a => some a
    | query _ => none
    | fetch _ => none

theorem mem_inserted {calls : List (TableCall κ α ι)} {a : α} :
    a ∈ inserted calls ↔ insert a ∈ calls := by
  unfold inserted
  rw [List.mem_filterMap]
  constructor
  · rintro ⟨call, hcall, h⟩
    cases call with
    | insert b => cases h; exact hcall
    | query i => cases h
    | fetch k => cases h
  · intro h
    exact ⟨_, h, rfl⟩

/-- The last object inserted under a key. -/
def lastInserted [DecidableEq κ] (slot : α → κ) (calls : List (TableCall κ α ι)) (k : κ) :
    Option α :=
  ((inserted calls).filter fun a => decide (slot a = k)).getLast?

variable [DecidableEq κ] {slot : α → κ} {calls : List (TableCall κ α ι)} {k : κ}

theorem lastInserted_eq_none :
    lastInserted slot calls k = none ↔ ∀ a, insert a ∈ calls → slot a ≠ k := by
  unfold lastInserted
  rw [List.getLast?_eq_none_iff, List.filter_eq_nil_iff]
  simp only [mem_inserted, decide_eq_true_eq, ne_eq]

theorem exists_lastInserted_iff :
    (∃ a, lastInserted slot calls k = some a) ↔ ∃ a, insert a ∈ calls ∧ slot a = k := by
  rw [← Option.ne_none_iff_exists', ne_eq, lastInserted_eq_none]
  push Not
  rfl

theorem lastInserted_append_insert (a : α) :
    lastInserted slot (calls ++ [insert a]) k =
      if slot a = k then some a else lastInserted slot calls k := by
  unfold lastInserted inserted
  rw [List.filterMap_append, List.filter_append]
  by_cases h : slot a = k
  · simp [h]
  · simp [h]

@[simp] theorem lastInserted_append_query (i : ι) :
    lastInserted slot (calls ++ [query i]) k = lastInserted slot calls k := by
  simp [lastInserted, inserted]

@[simp] theorem lastInserted_append_fetch (k' : κ) :
    lastInserted slot (calls ++ [fetch k']) k = lastInserted slot calls k := by
  simp [lastInserted, inserted]

end TableCall

/-! ## The answers of a run -/

section Answers

universe u v

variable {σ τ A : Type u} {C : Type*} {ε : Type v} {perform : σ → C → Except ε (A × σ)}

/-- The answers to some calls, made one after the other. -/
def answers (perform : σ → C → Except ε (A × σ)) : σ → List C → Except ε (List A)
  | _, [] => .ok []
  | s, call :: calls => do
      let (a, s) ← perform s call
      let as ← answers perform s calls
      return a :: as

theorem answers_cons_eq_ok {s : σ} {call : C} {calls : List C} {as : List A} :
    answers perform s (call :: calls) = .ok as ↔
      ∃ a t as', perform s call = .ok (a, t) ∧ answers perform t calls = .ok as' ∧
        as = a :: as' := by
  rw [answers, bind_eq_ok]
  constructor
  · rintro ⟨⟨a, t⟩, hcall, h⟩
    obtain ⟨as', hcalls, h⟩ := bind_eq_ok.mp h
    cases h
    exact ⟨a, t, as', hcall, hcalls, rfl⟩
  · rintro ⟨a, t, as', hcall, hcalls, rfl⟩
    exact ⟨(a, t), hcall, bind_eq_ok.mpr ⟨as', hcalls, rfl⟩⟩

/-- A view of the states under which the calls do the same gives the same answers. -/
theorem answers_eq_of_view {perform' : τ → C → Except ε (A × τ)} {view : σ → τ}
    (same : ∀ s call, (perform s call).map (fun x => (x.1, view x.2)) = perform' (view s) call)
    (s : σ) (calls : List C) : answers perform s calls = answers perform' (view s) calls := by
  induction calls generalizing s with
  | nil => rfl
  | cons call calls ih =>
      rw [answers, answers, ← same, bind_map]
      cases perform s call with
      | error e => rfl
      | ok x =>
          show (answers perform x.2 calls >>= _) = answers perform' (view x.2) calls >>= _
          rw [ih]

end Answers

namespace PointerTable

universe u v

variable {κ α : Type u} {ι : Type*} {ε : Type v} [DecidableEq κ]

/-- The table after a call. -/
def apply (slot : α → κ) (t : PointerTable κ α) : TableCall κ α ι → PointerTable κ α
  | .insert a => Function.update t (slot a) (some (some a))
  | .query _ => t
  | .fetch k => Function.update t k (some (t k).join)

/-- What a query makes of the entry under its key. -/
def tell (names : ι → α → Bool) (null : Except ε Bool) (i : ι) :
    Option (Option α) → Except ε Bool
  | none => .ok false
  | some none => null
  | some (some a) => .ok (names i a)

/-- What a call returns. -/
def answer (key : ι → κ) (names : ι → α → Bool) (null : Except ε Bool) (t : PointerTable κ α) :
    TableCall κ α ι → Except ε (TableAnswer α)
  | .insert _ => .ok .done
  | .query i => (tell names null i (t (key i))).map .found
  | .fetch k => .ok (.pointer (t k).join)

/-- A call on a table. -/
def perform (slot : α → κ) (key : ι → κ) (names : ι → α → Bool) (null : Except ε Bool)
    (t : PointerTable κ α) (call : TableCall κ α ι) :
    Except ε (TableAnswer α × PointerTable κ α) :=
  (answer key names null t call).map fun a => (a, apply slot t call)

variable {slot : α → κ} {key : ι → κ} {names : ι → α → Bool} {null : Except ε Bool}
  {t : PointerTable κ α}

omit [DecidableEq κ] in
theorem answer_query (i : ι) :
    answer key names null t (.query i) = (tell names null i (t (key i))).map .found := rfl

omit [DecidableEq κ] in
theorem answer_fetch (k : κ) :
    answer key names null t (.fetch k) = .ok (.pointer (t k).join) := rfl

/-- Storing the pointer that is there changes nothing. -/
theorem update_of_some {k : κ} {p : Option α} (h : t k = some p) :
    Function.update t k (some p) = t := by
  rw [← h, Function.update_eq_self]

theorem perform_insert (a : α) :
    perform (ι := ι) slot key names null t (.insert a) =
      .ok (.done, Function.update t (slot a) (some (some a))) := rfl

theorem perform_query (i : ι) :
    perform slot key names null t (.query i) =
      (tell names null i (t (key i))).map fun b => (.found b, t) := by
  rw [perform, answer_query]
  cases tell names null i (t (key i)) <;> rfl

theorem perform_fetch (k : κ) :
    perform slot key names null t (.fetch k) =
      .ok (.pointer (t k).join, Function.update t k (some (t k).join)) := rfl

theorem perform_eq_ok {call : TableCall κ α ι} {a : TableAnswer α} {t' : PointerTable κ α} :
    perform slot key names null t call = .ok (a, t') ↔
      answer key names null t call = .ok a ∧ t' = apply slot t call := by
  unfold perform
  rw [map_eq_ok]
  constructor
  · rintro ⟨_, h, heq⟩
    cases heq
    exact ⟨h, rfl⟩
  · rintro ⟨h, rfl⟩
    exact ⟨a, h, rfl⟩

@[simp] theorem apply_insert (a : α) :
    apply (ι := ι) slot t (.insert a) = Function.update t (slot a) (some (some a)) := rfl

@[simp] theorem apply_query (i : ι) : apply slot t (.query i) = t := rfl

@[simp] theorem apply_fetch (k : κ) :
    apply (ι := ι) slot t (.fetch k) = Function.update t k (some (t k).join) := rfl

/-- The table without entries. -/
def empty : PointerTable κ α := fun _ => none

/-- The table after some calls. -/
def after (slot : α → κ) (t : PointerTable κ α) (calls : List (TableCall κ α ι)) :
    PointerTable κ α :=
  calls.foldl (apply slot) t

open Classical in
/-- **What a table holds**: the last object inserted under a key, and else a null pointer
where one was fetched. -/
theorem after_empty (calls : List (TableCall κ α ι)) (k : κ) :
    after slot empty calls k =
      match TableCall.lastInserted slot calls k with
      | some a => some (some a)
      | none => if .fetch k ∈ calls then some none else none := by
  induction calls using List.reverseRecOn with
  | nil => rfl
  | append_singleton calls call ih =>
      unfold after at ih ⊢
      rw [List.foldl_append, List.foldl_cons, List.foldl_nil]
      cases call with
      | insert a =>
          rw [apply_insert, TableCall.lastInserted_append_insert]
          by_cases h : slot a = k
          · rw [if_pos h, ← h, Function.update_self]
          · rw [if_neg h, Function.update_of_ne (Ne.symm h), ih]
            simp
      | query i =>
          rw [apply_query, ih, TableCall.lastInserted_append_query]
          simp
      | fetch k' =>
          rw [apply_fetch, TableCall.lastInserted_append_fetch]
          by_cases h : k' = k
          · subst h
            rw [Function.update_self, ih]
            cases TableCall.lastInserted slot calls k' with
            | some a => rfl
            | none => simp [apply_ite]
          · rw [Function.update_of_ne (Ne.symm h), ih]
            simp [Ne.symm h]

/-- Where there is no entry, nothing was inserted. -/
theorem not_inserted_of_after {calls : List (TableCall κ α ι)} {k : κ}
    (absent : after slot empty calls k = none) : ∀ a, .insert a ∈ calls → slot a ≠ k := by
  rw [← TableCall.lastInserted_eq_none]
  rw [after_empty] at absent
  cases last : TableCall.lastInserted slot calls k with
  | none => rfl
  | some a => rw [last] at absent; cases absent

/-! ## Faithful answers -/

/-- **A store is faithful** on some calls: none of them faults, a query is answered as what
was inserted before demands, and leaving out a lookup changes no other answer. -/
def Faithful {σ : Type u} (perform : σ → TableCall κ α ι → Except ε (TableAnswer α × σ)) (s : σ)
    (reports : List (TableCall κ α ι) → ι → Prop) (calls : List (TableCall κ α ι)) : Prop :=
  ∃ as, answers perform s calls = .ok as ∧
    (∀ before i rest, calls = before ++ .query i :: rest →
      ∃ b, as[before.length]? = some (.found b) ∧ (b = true ↔ reports before i)) ∧
    ∀ before call rest, calls = before ++ call :: rest → call.IsLookup →
      answers perform s (before ++ rest) = .ok (as.eraseIdx before.length)

omit [DecidableEq κ] in
/-- A view of the states under which the calls do the same is as faithful. -/
theorem Faithful.iff_of_view {σ τ : Type u}
    {perform : σ → TableCall κ α ι → Except ε (TableAnswer α × σ)}
    {perform' : τ → TableCall κ α ι → Except ε (TableAnswer α × τ)} {view : σ → τ}
    (same : ∀ s call, (perform s call).map (fun x => (x.1, view x.2)) = perform' (view s) call)
    {reports reports' : List (TableCall κ α ι) → ι → Prop}
    (report : ∀ before i, reports before i ↔ reports' before i) {s : σ}
    {calls : List (TableCall κ α ι)} :
    Faithful perform s reports calls ↔ Faithful perform' (view s) reports' calls := by
  unfold Faithful
  simp only [answers_eq_of_view same, report]

/-- A query that comes after a fetch of its key comes after an insertion under it, too. -/
def QueriesInserted (slot : α → κ) (key : ι → κ) (calls : List (TableCall κ α ι)) : Prop :=
  ∀ before i rest, calls = before ++ .query i :: rest → .fetch (key i) ∈ before →
    ∃ a, .insert a ∈ before ∧ slot a = key i

/-- What a query is to be told: whether it names the last object under its key. -/
def Reports (slot : α → κ) (key : ι → κ) (names : ι → α → Bool)
    (before : List (TableCall κ α ι)) (i : ι) : Prop :=
  ∃ a, TableCall.lastInserted slot before (key i) = some a ∧ names i a = true

variable {calls before rest : List (TableCall κ α ι)} {as : List (TableAnswer α)}

/-- The answers up to a point, and those from there on. -/
theorem answers_append_eq_ok :
    answers (perform slot key names null) t (before ++ rest) = .ok as ↔
      ∃ as₁ as₂, answers (perform slot key names null) t before = .ok as₁ ∧
        as₁.length = before.length ∧
          answers (perform slot key names null) (after slot t before) rest = .ok as₂ ∧
            as = as₁ ++ as₂ := by
  induction before generalizing t as with
  | nil =>
      constructor
      · intro h
        exact ⟨[], as, rfl, rfl, h, rfl⟩
      · rintro ⟨_, as₂, h, -, hrest, rfl⟩
        cases h
        exact hrest
  | cons call before ih =>
      rw [List.cons_append, answers_cons_eq_ok]
      constructor
      · rintro ⟨a, t', as', hcall, h, rfl⟩
        obtain ⟨as₁, as₂, h₁, length, h₂, rfl⟩ := ih.mp h
        obtain ⟨-, rfl⟩ := perform_eq_ok.mp hcall
        refine ⟨a :: as₁, as₂, answers_cons_eq_ok.mpr ⟨a, _, as₁, hcall, h₁, rfl⟩, ?_, h₂, rfl⟩
        rw [List.length_cons, List.length_cons, length]
      · rintro ⟨_, as₂, h, length, h₂, rfl⟩
        obtain ⟨a, t', as₁, hcall, h₁, rfl⟩ := answers_cons_eq_ok.mp h
        obtain ⟨-, rfl⟩ := perform_eq_ok.mp hcall
        exact ⟨a, _, as₁ ++ as₂, hcall,
          ih.mpr ⟨as₁, as₂, h₁, Nat.succ.inj length, h₂, rfl⟩, rfl⟩

/-- The answer to one of the calls. -/
theorem answers_split {call : TableCall κ α ι}
    (h : answers (perform slot key names null) t (before ++ call :: rest) = .ok as) :
    ∃ as₁ a as₂, as = as₁ ++ a :: as₂ ∧ as₁.length = before.length ∧
      as[before.length]? = some a ∧ answers (perform slot key names null) t before = .ok as₁ ∧
        answer key names null (after slot t before) call = .ok a ∧
          answers (perform slot key names null) (apply slot (after slot t before) call) rest =
            .ok as₂ := by
  obtain ⟨as₁, _, h₁, length, hrest, rfl⟩ := answers_append_eq_ok.mp h
  obtain ⟨a, t', as₂, hcall, h₂, rfl⟩ := answers_cons_eq_ok.mp hrest
  obtain ⟨hanswer, rfl⟩ := perform_eq_ok.mp hcall
  refine ⟨as₁, a, as₂, rfl, length, ?_, h₁, hanswer, h₂⟩
  rw [← length, List.getElem?_append_right (Nat.le_refl _), Nat.sub_self, List.getElem?_cons_zero]

/-- Only a query can fault. -/
theorem exists_answers (queries : ∀ before i rest, calls = before ++ .query i :: rest →
      ∃ a, answer key names null (after slot t before) (.query i) = .ok a) :
    ∃ as, answers (perform slot key names null) t calls = .ok as := by
  induction calls generalizing t with
  | nil => exact ⟨[], rfl⟩
  | cons call calls ih =>
      obtain ⟨a, hcall⟩ : ∃ a, answer key names null t call = .ok a := by
        cases call with
        | insert a => exact ⟨_, rfl⟩
        | query i => exact queries [] i calls rfl
        | fetch k => exact ⟨_, rfl⟩
      obtain ⟨as, hcalls⟩ := ih (t := apply slot t call) fun before i rest h =>
        queries (call :: before) i rest (congrArg (call :: ·) h)
      exact ⟨a :: as, answers_cons_eq_ok.mpr
        ⟨a, _, as, perform_eq_ok.mpr ⟨hcall, rfl⟩, hcalls, rfl⟩⟩

theorem answers_cons_congr {t t' : PointerTable κ α} {call : TableCall κ α ι}
    (same : answer key names null t call = answer key names null t' call)
    (next : answers (perform slot key names null) (apply slot t call) calls =
      answers (perform slot key names null) (apply slot t' call) calls) :
    answers (perform slot key names null) t (call :: calls) =
      answers (perform slot key names null) t' (call :: calls) := by
  rw [answers, answers]
  unfold perform at next ⊢
  rw [same, bind_map, bind_map]
  cases answer key names null t' call with
  | error e => rfl
  | ok a =>
      show (answers _ (apply slot t call) calls >>= _) = answers _ (apply slot t' call) calls >>= _
      rw [next]

/-- A null pointer under a key shows in the answers to the queries of this key only, until
something is inserted under it. -/
theorem answers_update_null {k : κ} (absent : t k = none)
    (inserted : ∀ before i rest, calls = before ++ .query i :: rest → key i = k →
      ∃ a, .insert a ∈ before ∧ slot a = k) :
    answers (perform slot key names null) (Function.update t k (some none)) calls =
      answers (perform slot key names null) t calls := by
  induction calls generalizing t with
  | nil => rfl
  | cons call calls ih =>
      have later : (∀ a, call = .insert a → slot a ≠ k) →
          ∀ before i rest, calls = before ++ .query i :: rest → key i = k →
            ∃ a, .insert a ∈ before ∧ slot a = k := by
        intro other before i rest h hi
        obtain ⟨a, ha, hslot⟩ := inserted (call :: before) i rest (congrArg (call :: ·) h) hi
        rcases List.mem_cons.mp ha with hcall | ha
        · exact absurd hslot (other a hcall.symm)
        · exact ⟨a, ha, hslot⟩
      cases call with
      | insert a =>
          refine answers_cons_congr rfl ?_
          rw [apply_insert, apply_insert]
          by_cases h : slot a = k
          · -- the null pointer is overwritten
            rw [h, Function.update_idem]
          · rw [Function.update_comm (Ne.symm h)]
            refine ih ?_ (later fun a' ha' => ?_)
            · rw [Function.update_of_ne (Ne.symm h), absent]
            · cases ha'
              exact h
      | query i =>
          have hi : key i ≠ k := by
            intro hi
            obtain ⟨a, ha, -⟩ := inserted [] i calls rfl hi
            cases ha
          refine answers_cons_congr ?_ (ih absent (later fun a ha => nomatch ha))
          rw [answer_query, answer_query, Function.update_of_ne hi]
      | fetch k' =>
          by_cases h : k' = k
          · -- the same null pointer is read, and there is one afterwards
            subst h
            refine answers_cons_congr ?_ ?_
            · rw [answer_fetch, answer_fetch, Function.update_self, absent]
              rfl
            · rw [apply_fetch, apply_fetch, Function.update_idem, Function.update_self, absent]
              rfl
          · refine answers_cons_congr ?_ ?_
            · rw [answer_fetch, answer_fetch, Function.update_of_ne h]
            · rw [apply_fetch, apply_fetch, Function.update_of_ne h,
                Function.update_comm (Ne.symm h)]
              refine ih ?_ (later fun a ha => nomatch ha)
              rw [Function.update_of_ne (Ne.symm h), absent]

/-- A query that does not see a null pointer is told what it is to be told. -/
theorem answer_of_queriesInserted (sound : QueriesInserted slot key calls) {i : ι}
    (h : calls = before ++ .query i :: rest) :
    ∃ b, answer key names null (after slot empty before) (.query i) = .ok (.found b) ∧
      (b = true ↔ Reports slot key names before i) := by
  rw [answer_query, after_empty]
  unfold Reports
  cases last : TableCall.lastInserted slot before (key i) with
  | some a => exact ⟨names i a, rfl, by simp⟩
  | none =>
      have unfetched : .fetch (key i) ∉ before := fun fetched => by
        obtain ⟨a, ha, hslot⟩ := sound before i rest h fetched
        exact TableCall.lastInserted_eq_none.mp last a ha hslot
      dsimp only
      rw [if_neg unfetched]
      exact ⟨false, rfl, by simp⟩

/-- What a call without effect adds can be left out. -/
theorem answers_of_apply_eq {call : TableCall κ α ι}
    (h : answers (perform slot key names null) t (before ++ call :: rest) = .ok as)
    (same : answers (perform slot key names null) (apply slot (after slot t before) call) rest =
      answers (perform slot key names null) (after slot t before) rest) :
    answers (perform slot key names null) t (before ++ rest) = .ok (as.eraseIdx before.length) := by
  obtain ⟨as₁, a, as₂, rfl, length, -, h₁, -, h₂⟩ := answers_split h
  rw [same] at h₂
  rw [← length, List.eraseIdx_append_of_length_le (Nat.le_refl _), Nat.sub_self]
  exact answers_append_eq_ok.mpr ⟨as₁, as₂, h₁, length, h₂, rfl⟩

/-- **When a table is faithful**: exactly when no query sees a null pointer. -/
theorem faithful_iff (hnull : null ≠ .ok false) :
    Faithful (perform slot key names null) empty (Reports slot key names) calls ↔
      QueriesInserted slot key calls := by
  constructor
  · rintro ⟨as, has, queries, -⟩ before i rest rfl fetched
    by_contra missing
    obtain ⟨-, a, -, -, -, ha, -, hanswer, -⟩ := answers_split has
    obtain ⟨b, hb, told⟩ := queries before i rest rfl
    cases ha.symm.trans hb
    have last : TableCall.lastInserted slot before (key i) = none := by
      rw [TableCall.lastInserted_eq_none]
      exact fun a ha hslot => missing ⟨a, ha, hslot⟩
    rw [answer_query, after_empty, last] at hanswer
    dsimp only at hanswer
    rw [if_pos fetched] at hanswer
    obtain ⟨_, answered, heq⟩ := map_eq_ok.mp hanswer
    cases heq
    have false_alarm : b = false := by
      rw [← Bool.not_eq_true, told]
      rintro ⟨a, ha, -⟩
      rw [last] at ha
      cases ha
    exact hnull (answered.trans (congrArg _ false_alarm))
  · intro sound
    have told : ∀ before i rest, calls = before ++ .query i :: rest →
        ∃ b, answer key names null (after slot empty before) (.query i) = .ok (.found b) ∧
          (b = true ↔ Reports slot key names before i) :=
      fun before i rest h => answer_of_queriesInserted sound h
    obtain ⟨as, has⟩ := exists_answers fun before i rest h => by
      obtain ⟨b, hanswer, -⟩ := told before i rest h
      exact ⟨_, hanswer⟩
    refine ⟨as, has, ?_, ?_⟩
    · rintro before i rest rfl
      obtain ⟨-, a, -, -, -, ha, -, hanswer, -⟩ := answers_split has
      obtain ⟨b, hb, report⟩ := told before i rest rfl
      cases hanswer.symm.trans hb
      exact ⟨b, ha, report⟩
    · rintro before call rest rfl lookup
      refine answers_of_apply_eq has ?_
      cases call with
      | insert a => exact lookup.elim
      | query i => rfl
      | fetch k =>
          rw [apply_fetch]
          cases entry : after slot empty before k with
          | some p =>
              exact congrArg (answers _ · rest) (update_of_some entry)
          | none =>
              refine answers_update_null entry fun later i rest' h hi => ?_
              obtain ⟨a, ha, hslot⟩ := sound (before ++ .fetch k :: later) i rest'
                (by rw [h, List.append_assoc, List.cons_append]) (by simp [hi])
              rw [hi] at hslot
              have notBefore : .insert a ∉ before := fun ha =>
                not_inserted_of_after entry a ha hslot
              refine ⟨a, ?_, hslot⟩
              rcases List.mem_append.mp ha with ha | ha
              · exact absurd ha notBefore
              · exact (List.mem_cons.mp ha).resolve_left fun same => nomatch same

end PointerTable

end Machine
