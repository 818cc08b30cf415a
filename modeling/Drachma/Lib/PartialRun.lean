import Mathlib.Logic.Basic
import Mathlib.Tactic.Common

/-!
# Runs of a partial machine

A machine here is a **partial step function** `step : I → S → Except ε S`: it
reads one input, moves, and may fault.  A fault ends the run.  `run` feeds the
machine a stream of inputs; `run step inputs s₀ k` is the state reached after
`k` steps, or the fault that stopped it earlier.

Nothing in this file knows what the machine is.  The rules are the two an
invariant proof needs:

* `run_succ_eq_ok` — a run of `k + 1` steps is a run of `k` steps and one more;
* `run_invariant` — an indexed property that holds at the start and is carried
  by every step *of this run* holds wherever the run arrives.

The last section has the rule for a queue among the data of the states:

* `queue_conserved` — what was taken off its front and what is left in it is what
  was put at its end.
-/

namespace Machine

universe u v

variable {ε : Type v} {α β : Type u}

/-- A first half that succeeds hands its result on. -/
@[simp] theorem ok_bind (a : α) (f : α → Except ε β) :
    ((Except.ok a : Except ε α) >>= f) = f a := rfl

/-- A sequential composition succeeds exactly when both halves do. -/
theorem bind_eq_ok {x : Except ε α} {f : α → Except ε β} {b : β} :
    (x >>= f) = .ok b ↔ ∃ a, x = .ok a ∧ f a = .ok b := by
  cases x with
  | error e =>
      constructor
      · intro h; cases h
      · rintro ⟨a, ha, -⟩; cases ha
  | ok a =>
      constructor
      · intro h; exact ⟨a, rfl, h⟩
      · rintro ⟨a', ha, h⟩; cases ha; exact h

/-- It faults when the first half does, or when the second one does. -/
theorem bind_eq_error {x : Except ε α} {f : α → Except ε β} {e : ε} :
    (x >>= f) = .error e ↔ x = .error e ∨ ∃ a, x = .ok a ∧ f a = .error e := by
  cases x with
  | error e' =>
      constructor
      · intro h; cases h; exact Or.inl rfl
      · rintro (h | ⟨a, ha, -⟩)
        · cases h; rfl
        · cases ha
  | ok a =>
      constructor
      · intro h; exact Or.inr ⟨a, rfl, h⟩
      · rintro (h | ⟨a', ha, h⟩)
        · cases h
        · cases ha; exact h

theorem map_eq_ok {γ δ : Type*} {x : Except ε γ} {f : γ → δ} {b : δ} :
    x.map f = .ok b ↔ ∃ c, x = .ok c ∧ f c = b := by
  cases x with
  | error e =>
      constructor
      · intro h; cases h
      · rintro ⟨a, ha, -⟩; cases ha
  | ok a =>
      constructor
      · intro h; exact ⟨a, rfl, Except.ok.inj h⟩
      · rintro ⟨a', ha, rfl⟩; cases ha; rfl

theorem map_eq_error {γ δ : Type*} {x : Except ε γ} {f : γ → δ} {e : ε} :
    x.map f = .error e ↔ x = .error e := by
  cases x with
  | error e' =>
      constructor
      · intro h; cases h; rfl
      · intro h; cases h; rfl
  | ok a =>
      constructor
      · intro h; cases h
      · intro h; cases h

/-- Mapping the result of a sequential composition maps that of its second half. -/
theorem map_bind {γ : Type u} (x : Except ε α) (f : α → Except ε β) (g : β → γ) :
    (x >>= f).map g = x >>= fun a => (f a).map g := by
  cases x with
  | error e => rfl
  | ok a => rfl

/-- A second half that is handed a mapped result. -/
theorem bind_map {γ : Type u} (x : Except ε α) (g : α → γ) (f : γ → Except ε β) :
    x.map g >>= f = x >>= fun a => f (g a) := by
  cases x with
  | error e => rfl
  | ok a => rfl

/-- A computation that, if it faults, does so with none of the `bad` faults. -/
def Avoids (bad : ε → Prop) (x : Except ε α) : Prop := ∀ e, x = .error e → ¬ bad e

theorem avoids_ok {bad : ε → Prop} (a : α) : Avoids bad (.ok a) := by
  intro e h
  cases h

theorem avoids_error {bad : ε → Prop} {e : ε} (h : ¬ bad e) :
    Avoids bad (.error e : Except ε α) := by
  intro e' he
  cases he
  exact h

/-- A sequential composition avoids what both halves avoid. -/
theorem Avoids.bind {bad : ε → Prop} {x : Except ε α} {f : α → Except ε β}
    (hx : Avoids bad x) (hf : ∀ a, x = .ok a → Avoids bad (f a)) :
    Avoids bad (x >>= f) := by
  intro e h
  rcases bind_eq_error.mp h with h | ⟨a, ha, h⟩
  · exact hx e h
  · exact hf a ha e h

/-- What every step of a schedule preserves, the schedule preserves. -/
theorem foldlM_invariant {S : Type u} {κ : Type*} {step : S → κ → Except ε S}
    {P : S → Prop} (carried : ∀ k s s', P s → step s k = .ok s' → P s') {l : List κ} :
    ∀ {s s'}, P s → l.foldlM step s = .ok s' → P s' := by
  induction l with
  | nil => intro s s' hs h; cases h; exact hs
  | cons k l ih =>
      intro s s' hs h
      rw [List.foldlM_cons, bind_eq_ok] at h
      obtain ⟨t, ht, h⟩ := h
      exact ih (carried k s t hs ht) h

/-- A schedule whose steps do what a function does, where they do not fault, does
where it does not fault what the function does one after the other. -/
theorem eq_foldl_of_foldlM {S : Type u} {κ : Type*} {step : S → κ → Except ε S}
    {f : S → κ → S} (agree : ∀ s k s', step s k = .ok s' → s' = f s k) {l : List κ} :
    ∀ {s s'}, l.foldlM step s = .ok s' → s' = l.foldl f s := by
  induction l with
  | nil => intro s s' h; cases h; rfl
  | cons k l ih =>
      intro s s' h
      rw [List.foldlM_cons, bind_eq_ok] at h
      obtain ⟨t, ht, h⟩ := h
      rw [List.foldl_cons, ← agree s k t ht]
      exact ih h

/-- A schedule whose steps do not fault. -/
theorem foldlM_eq_ok_foldl {S : Type u} {κ : Type*} {step : S → κ → Except ε S}
    {f : S → κ → S} {l : List κ} (agree : ∀ k ∈ l, ∀ s, step s k = .ok (f s k)) (s : S) :
    l.foldlM step s = .ok (l.foldl f s) := by
  induction l generalizing s with
  | nil => rfl
  | cons k l ih =>
      rw [List.foldlM_cons, agree k (by simp) s, ok_bind, List.foldl_cons]
      exact ih (fun k hk => agree k (by simp [hk])) _

/-- A schedule does not fault exactly when none of its steps does, where that depends on
the step alone. -/
theorem exists_foldlM_eq_ok {S : Type u} {κ : Type*} {step : S → κ → Except ε S}
    {P : κ → Prop} {l : List κ} (h : ∀ k ∈ l, ∀ s, (∃ s', step s k = .ok s') ↔ P k) (s : S) :
    (∃ s', l.foldlM step s = .ok s') ↔ ∀ k ∈ l, P k := by
  induction l generalizing s with
  | nil => exact ⟨fun _ k hk => absurd hk List.not_mem_nil, fun _ => ⟨s, rfl⟩⟩
  | cons k l ih =>
      have rest := fun t => ih (fun k hk => h k (List.mem_cons_of_mem _ hk)) t
      rw [List.forall_mem_cons, ← h k List.mem_cons_self s]
      simp only [List.foldlM_cons, bind_eq_ok]
      constructor
      · rintro ⟨s', t, ht, hs'⟩
        exact ⟨⟨t, ht⟩, (rest t).mp ⟨s', hs'⟩⟩
      · rintro ⟨⟨t, ht⟩, hall⟩
        obtain ⟨s', hs'⟩ := (rest t).mpr hall
        exact ⟨s', t, ht, hs'⟩

/-- A schedule whose steps do not fault where an invariant holds, and keep it. -/
theorem exists_foldlM_of_invariant {S : Type u} {κ : Type*} {step : S → κ → Except ε S}
    {P : S → Prop} {l : List κ}
    (steps : ∀ k ∈ l, ∀ s, P s → ∃ s', step s k = .ok s' ∧ P s') {s : S} (hs : P s) :
    ∃ s', l.foldlM step s = .ok s' ∧ P s' := by
  induction l generalizing s with
  | nil => exact ⟨s, rfl, hs⟩
  | cons k l ih =>
      obtain ⟨t, ht, hPt⟩ := steps k List.mem_cons_self s hs
      obtain ⟨s', hs', hP⟩ := ih (fun k hk => steps k (List.mem_cons_of_mem _ hk)) hPt
      exact ⟨s', by rw [List.foldlM_cons, ht]; exact hs', hP⟩

/-- A schedule whose steps keep an invariant or fault in one and the same way, and one of
which always does. -/
theorem foldlM_eq_error {S : Type u} {κ : Type*} {step : S → κ → Except ε S} {P : S → Prop}
    {e : ε} {l : List κ}
    (steps : ∀ k ∈ l, ∀ s, P s → (∃ s', step s k = .ok s' ∧ P s') ∨ step s k = .error e)
    (bad : ∃ k ∈ l, ∀ s, P s → step s k = .error e) {s : S} (hs : P s) :
    l.foldlM step s = .error e := by
  induction l generalizing s with
  | nil =>
      obtain ⟨k, hk, -⟩ := bad
      exact absurd hk List.not_mem_nil
  | cons k l ih =>
      rw [List.foldlM_cons, bind_eq_error]
      rcases steps k List.mem_cons_self s hs with ⟨t, ht, hPt⟩ | fault
      · refine .inr ⟨t, ht, ih (fun k hk => steps k (List.mem_cons_of_mem _ hk)) ?_ hPt⟩
        obtain ⟨b, hb, always⟩ := bad
        rcases List.mem_cons.mp hb with rfl | hb
        · have contra := (always s hs).symm.trans ht
          cases contra
        · exact ⟨b, hb, always⟩
      · exact .inl fault

/-- A schedule whose steps read something and then move with what they have read: it may
as well read everything first. -/
theorem foldlM_eq_map_mapM {S A : Type u} {κ : Type*} {step : S → κ → Except ε S}
    {read : κ → Except ε A} {move : S → A → S}
    (agree : ∀ s k, step s k = (read k).map (move s)) (l : List κ) (s : S) :
    l.foldlM step s = (l.mapM read).map fun as => as.foldl move s := by
  induction l generalizing s with
  | nil => rfl
  | cons k l ih =>
      rw [List.foldlM_cons, List.mapM_cons, agree]
      cases read k with
      | error e => rfl
      | ok a =>
          show l.foldlM step (move s a) = _
          rw [ih, ok_bind]
          cases l.mapM read with
          | error e => rfl
          | ok as => rfl

variable {I S : Type*}

/-- The state after `k` steps from `s₀` under the given stream of inputs. -/
def run (step : I → S → Except ε S) (inputs : ℕ → I) (s₀ : S) : ℕ → Except ε S
  | 0 => .ok s₀
  | k + 1 => run step inputs s₀ k >>= step (inputs k)

variable {step : I → S → Except ε S} {inputs : ℕ → I} {s₀ : S}

@[simp] theorem run_zero : run step inputs s₀ 0 = .ok s₀ := rfl

theorem run_succ (k : ℕ) :
    run step inputs s₀ (k + 1) = run step inputs s₀ k >>= step (inputs k) := rfl

theorem run_succ_eq_ok {k : ℕ} {s' : S} :
    run step inputs s₀ (k + 1) = .ok s' ↔
      ∃ s, run step inputs s₀ k = .ok s ∧ step (inputs k) s = .ok s' := by
  rw [run_succ, bind_eq_ok]

/-- The run at `k + 1` is the step taken from the state at `k`. -/
theorem run_succ_of_ok {k : ℕ} {s : S} (h : run step inputs s₀ k = .ok s) :
    run step inputs s₀ (k + 1) = step (inputs k) s := by
  rw [run_succ, h]
  rfl

theorem run_succ_eq_error {k : ℕ} {e : ε} :
    run step inputs s₀ (k + 1) = .error e ↔
      run step inputs s₀ k = .error e ∨
        ∃ s, run step inputs s₀ k = .ok s ∧ step (inputs k) s = .error e := by
  rw [run_succ, bind_eq_error]

/-- A run of `k + 1` steps is one step and a run of `k` steps on the inputs that are left. -/
theorem run_succ_left (k : ℕ) :
    run step inputs s₀ (k + 1) =
      step (inputs 0) s₀ >>= fun s => run step (fun i => inputs (i + 1)) s k := by
  induction k with
  | zero =>
      rw [run_succ, run_zero, ok_bind]
      cases step (inputs 0) s₀ with
      | error e => rfl
      | ok s => rfl
  | succ k ih =>
      rw [run_succ, ih]
      cases step (inputs 0) s₀ with
      | error e => rfl
      | ok s => rfl

/-- A run that has faulted stays at its fault. -/
theorem run_error_of_le {j k : ℕ} (hle : j ≤ k) {e : ε}
    (h : run step inputs s₀ j = .error e) : run step inputs s₀ k = .error e := by
  obtain ⟨d, rfl⟩ := Nat.exists_eq_add_of_le hle
  clear hle
  induction d with
  | zero => exact h
  | succ d ih => exact run_succ_eq_error.mpr (.inl ih)

/-- A run that got to step `k` has passed through every earlier step. -/
theorem run_ok_of_le {j k : ℕ} (hle : j ≤ k) {s : S}
    (h : run step inputs s₀ k = .ok s) : ∃ t, run step inputs s₀ j = .ok t := by
  obtain ⟨d, rfl⟩ := Nat.exists_eq_add_of_le hle
  clear hle
  induction d generalizing s with
  | zero => exact ⟨s, h⟩
  | succ d ih =>
      obtain ⟨t, ht, -⟩ := run_succ_eq_ok.mp h
      exact ih ht

/-- **The invariant rule.**  The step premise may use that the run itself
reached the state, so assumptions about this run's inputs are available. -/
theorem run_invariant {P : ℕ → S → Prop} (init : P 0 s₀)
    (carried : ∀ k s s', run step inputs s₀ k = .ok s → P k s →
      step (inputs k) s = .ok s' → P (k + 1) s') :
    ∀ k s, run step inputs s₀ k = .ok s → P k s := by
  intro k
  induction k with
  | zero => intro s h; cases h; exact init
  | succ k ih =>
      intro s' h
      obtain ⟨s, hs, hstep⟩ := run_succ_eq_ok.mp h
      exact carried k s s' hs (ih s hs) hstep

/-- `σ` lists the states of a run of `N` steps. -/
def Trace (step : I → S → Except ε S) (inputs : ℕ → I) (s₀ : S) (N : ℕ) (σ : ℕ → S) :
    Prop :=
  ∀ k ≤ N, run step inputs s₀ k = .ok (σ k)

namespace Trace

variable {N : ℕ} {σ : ℕ → S}

theorem start (h : Trace step inputs s₀ N σ) : σ 0 = s₀ :=
  (Except.ok.inj (h 0 (Nat.zero_le N))).symm

theorem step_eq (h : Trace step inputs s₀ N σ) {k : ℕ} (hk : k < N) :
    step (inputs k) (σ k) = .ok (σ (k + 1)) :=
  (run_succ_of_ok (h k (by omega))).symm.trans (h (k + 1) hk)

/-- States that follow each other are those of a run. -/
theorem of_steps (start : σ 0 = s₀)
    (steps : ∀ k < N, step (inputs k) (σ k) = .ok (σ (k + 1))) :
    Trace step inputs s₀ N σ := by
  intro k
  induction k with
  | zero => intro _; rw [start]; rfl
  | succ k ih => intro hk; exact (run_succ_of_ok (ih (by omega))).trans (steps k hk)

/-- Every run that has got somewhere has a trace. -/
theorem exists_of_run {s : S} (h : run step inputs s₀ N = .ok s) :
    ∃ σ, Trace step inputs s₀ N σ ∧ σ N = s := by
  have states : ∀ k, ∃ t, k ≤ N → run step inputs s₀ k = .ok t := by
    intro k
    by_cases hk : k ≤ N
    · obtain ⟨t, ht⟩ := run_ok_of_le hk h
      exact ⟨t, fun _ => ht⟩
    · exact ⟨s, fun hle => absurd hle hk⟩
  choose σ hσ using states
  exact ⟨σ, hσ, Except.ok.inj ((hσ N (Nat.le_refl N)).symm.trans h)⟩

theorem exists_of_isOk (h : (run step inputs s₀ N).isOk = true) :
    ∃ σ, Trace step inputs s₀ N σ := by
  cases hrun : run step inputs s₀ N with
  | error e => rw [hrun] at h; cases h
  | ok s =>
      obtain ⟨σ, trace, -⟩ := exists_of_run hrun
      exact ⟨σ, trace⟩

/-- What an observation of the run says about the trace. -/
theorem observe (h : Trace step inputs s₀ N σ) {k : ℕ} (hk : k ≤ N) {β : Type*}
    {f : S → β} {b : β} (obs : (run step inputs s₀ k).map f = .ok b) : f (σ k) = b := by
  obtain ⟨s, hs, rfl⟩ := map_eq_ok.mp obs
  rw [Except.ok.inj ((h k hk).symm.trans hs)]

/-- **The invariant rule, on a trace.** -/
theorem invariant (h : Trace step inputs s₀ N σ) {P : ℕ → S → Prop} (init : P 0 s₀)
    (carried : ∀ k < N, P k (σ k) → step (inputs k) (σ k) = .ok (σ (k + 1)) →
      P (k + 1) (σ (k + 1))) :
    ∀ k ≤ N, P k (σ k) := by
  intro k
  induction k with
  | zero => intro _; rw [h.start]; exact init
  | succ k ih => intro hk; exact carried k hk (ih (by omega)) (h.step_eq hk)

/-- **The invariant rule, up to bad states.**  An invariant that is lost in bad states
only, and itself keeps the run out of them, holds throughout. -/
theorem invariant_avoiding (h : Trace step inputs s₀ N σ) {P bad : S → Prop} (init : P s₀)
    (carried : ∀ k < N, P (σ k) → ¬ bad (σ k) → step (inputs k) (σ k) = .ok (σ (k + 1)) →
      P (σ (k + 1)))
    (avoids : ∀ k ≤ N, P (σ k) → ¬ bad (σ k)) : ∀ k ≤ N, P (σ k) ∧ ¬ bad (σ k) := by
  have holds : ∀ k ≤ N, P (σ k) := by
    refine h.invariant (P := fun _ => P) init fun k hk hP hstep => ?_
    exact carried k hk hP (avoids k (by omega) hP) hstep
  exact fun k hk => ⟨holds k hk, avoids k hk (holds k hk)⟩

/-- **The rule of a history.**  What every step can carry along, the run carries along:
there is a history of it, each entry of which follows from the one before. -/
theorem exists_history (h : Trace step inputs s₀ N σ) {G : Type*} {P : S → G → Prop}
    {Q : ℕ → G → G → Prop} {g₀ : G} (init : P s₀ g₀)
    (carried : ∀ k < N, ∀ g, P (σ k) g → step (inputs k) (σ k) = .ok (σ (k + 1)) →
      ∃ g', P (σ (k + 1)) g' ∧ Q k g g') :
    ∃ history : ℕ → G, history 0 = g₀ ∧ (∀ k ≤ N, P (σ k) (history k)) ∧
      ∀ k < N, Q k (history k) (history (k + 1)) := by
  have steps : ∀ k g, ∃ g', k < N → P (σ k) g → P (σ (k + 1)) g' ∧ Q k g g' := by
    intro k g
    by_cases possible : k < N ∧ P (σ k) g
    · obtain ⟨g', hg'⟩ := carried k possible.1 g possible.2 (h.step_eq possible.1)
      exact ⟨g', fun _ _ => hg'⟩
    · exact ⟨g, fun hk hg => absurd ⟨hk, hg⟩ possible⟩
  choose next hnext using steps
  let history : ℕ → G := Nat.rec g₀ next
  have held : ∀ k ≤ N, P (σ k) (history k) := by
    refine h.invariant (P := fun k s => P s (history k)) init fun k hk hold _ => ?_
    exact (hnext k (history k) hk hold).1
  refine ⟨history, rfl, held, fun k hk => ?_⟩
  exact (hnext k (history k) hk (held k (by omega))).2

end Trace

/-! ## A queue along a run -/

section Queue

variable {α : Type*}

theorem filterMap_range_succ (f : ℕ → Option α) (k : ℕ) :
    (List.range (k + 1)).filterMap f = (List.range k).filterMap f ++ (f k).toList := by
  rw [List.range_succ, List.filterMap_append]
  cases h : f k <;> simp [h]

/-- **A queue is conserved.**  Where every step puts at most one entry at the end of a
queue and takes at most one off its front, the entries taken and those left are the ones
that were there and the ones put in, in their order. -/
theorem queue_conserved {queue : ℕ → List α} {pushed popped : ℕ → Option α} {N : ℕ}
    (step : ∀ k < N, queue k ++ (pushed k).toList = (popped k).toList ++ queue (k + 1)) :
    ∀ k ≤ N, (List.range k).filterMap popped ++ queue k =
      queue 0 ++ (List.range k).filterMap pushed := by
  intro k
  induction k with
  | zero => intro _; simp
  | succ k ih =>
      intro hk
      calc (List.range (k + 1)).filterMap popped ++ queue (k + 1)
          = (List.range k).filterMap popped ++ ((popped k).toList ++ queue (k + 1)) := by
            rw [filterMap_range_succ, List.append_assoc]
        _ = ((List.range k).filterMap popped ++ queue k) ++ (pushed k).toList := by
            rw [← step k hk, List.append_assoc]
        _ = queue 0 ++ (List.range (k + 1)).filterMap pushed := by
            rw [ih (by omega), List.append_assoc, filterMap_range_succ]

end Queue

end Machine
