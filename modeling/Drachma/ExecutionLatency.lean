import Drachma.Lib.Countdown
import Drachma.Storage
import Mathlib.Algebra.Order.Floor.Ring
import Mathlib.Order.Bounds.Basic

/-!
# How long an execution takes

`beginExecution` works out a latency, the least number of simulator cycles in which
the module gets through its task's cycles, and `step` counts them.  It counts one too
many: the counter is incremented first, and then has to *exceed* the latency.

`getRemainingExecutionLatency` is to report what is left of the latency, but takes
the timestep off the number of task cycles, which are cycles of the module's clock.

## Main results

* `RrModule.takesSteps_iff` — an execution takes one step more than its latency.
* `RrModule.not_executionsTakeTheirLatency` — so no sequence of executions on a module
  takes the steps it needs.
* `RrModule.reportsRemaining_iff` — the report counts down the latency exactly if the
  task needs as many simulator cycles as it has cycles.
-/

namespace Drachma

open Machine (Countdown)

/-- The least number of simulator cycles in which a module of the given speed gets
through a number of cycles of its own. -/
def cyclesNeeded (simSpeed speed : Double) (cycles : ℕ) : ℕ := ⌈cycles * simSpeed / speed⌉₊

namespace RrModule

/-- The module after `k` calls of `step`. -/
def stepped (m : RrModule) (k : ℕ) : RrModule := (fun m => m.step.2)^[k] m

/-- An execution takes `n` steps: the calls of `step` before the last say that it has
not finished, the last one says that it has, and leaves the module idle. -/
structure TakesSteps (m : RrModule) (n : ℕ) : Prop where
  unfinished : ∀ k, k + 1 < n → (m.stepped k).step.1 = false
  finished : ∃ k, k + 1 = n ∧ (m.stepped k).step.1 = true
  idle : (m.stepped n).currentState = .idle
  timestep : (m.stepped n).internalTimestep = 0

/-- Executions for the given numbers of cycles, one after the other on one module, take
the simulator cycles they need. -/
def ExecutionsTakeTheirLatency (simSpeed : Double) : RrModule → List ℕ → Prop
  | _, [] => True
  | m, cycles :: rest =>
      (m.beginExecution simSpeed cycles).TakesSteps
          (cyclesNeeded simSpeed m.operatingSpeed cycles) ∧
        ExecutionsTakeTheirLatency simSpeed
          ((m.beginExecution simSpeed cycles).stepped
            (cyclesNeeded simSpeed m.operatingSpeed cycles)) rest

variable {m : RrModule} {simSpeed : Double} {cycles k n : ℕ}

@[simp] theorem stepped_zero : m.stepped 0 = m := rfl

theorem stepped_succ : m.stepped (k + 1) = (m.stepped k).step.2 :=
  Function.iterate_succ_apply' _ _ _

/-- The latency is the number of cycles needed, as far as an `unsigned` holds it. -/
theorem beginExecution_latency :
    (m.beginExecution simSpeed cycles).executionLatency =
      cyclesNeeded simSpeed m.operatingSpeed cycles % 2 ^ 32 := by
  show toUnsigned _ = _
  unfold toUnsigned cyclesNeeded
  rw [Int.floor_intCast, Int.ceil_toNat]

/-! ## One execution -/

/-- An execution is under way. -/
def Executing (m : RrModule) : Prop :=
  m.currentState = .exec ∧ m.internalTimestep ≤ m.executionLatency ∧
    m.executionLatency < 2 ^ 32

/-- What the counter has still to count. -/
def cyclesLeft (m : RrModule) : ℕ := m.executionLatency - m.internalTimestep

/-- What `step` does to an execution: it counts, or ends it. -/
theorem step_of_executing (executing : m.Executing) :
    m.step =
      if m.cyclesLeft = 0 then
        (true, { m with inSimulation := true, internalTimestep := 0, currentState := .idle })
      else
        (false, { m with inSimulation := true, internalTimestep := m.internalTimestep + 1 }) := by
  obtain ⟨-, started, bound⟩ := executing
  have small : (m.internalTimestep + 1) % 2 ^ 64 = m.internalTimestep + 1 :=
    Nat.mod_eq_of_lt (by omega)
  unfold step cyclesLeft
  rw [small]
  by_cases exceeds : m.internalTimestep + 1 > m.executionLatency
  · rw [if_pos exceeds, if_pos (by omega)]
  · rw [if_neg exceeds, if_neg (by omega)]

/-- **The steps of an execution count down.** -/
theorem countdown : Countdown (fun m m' => m' = m.step.2) Executing cyclesLeft where
  counts := by
    rintro m _ executing left rfl
    rw [step_of_executing executing, if_neg left]
    obtain ⟨exec, started, bound⟩ := executing
    unfold cyclesLeft at left ⊢
    refine ⟨⟨exec, ?_, bound⟩, ?_⟩
    · show m.internalTimestep + 1 ≤ m.executionLatency
      omega
    · show m.executionLatency - (m.internalTimestep + 1) + 1 = _
      omega
  ends := by
    rintro m _ executing left rfl
    rw [step_of_executing executing, if_pos left]
    rintro ⟨exec, -⟩
    cases exec

/-- What holds of an execution along its calls of `step`. -/
theorem Executing.stepped (executing : m.Executing) (fresh : m.internalTimestep = 0) :
    ∀ k ≤ m.executionLatency,
      (m.stepped k).Executing ∧ (m.stepped k).cyclesLeft + k = m.executionLatency := by
  intro k hk
  have left : m.cyclesLeft = m.executionLatency := by
    unfold cyclesLeft
    omega
  have during := countdown.during (σ := m.stepped) (N := m.executionLatency)
    (fun j _ => stepped_succ) executing k hk
  rw [stepped_zero, left] at during
  exact during hk

/-- Calls of `step` leave the figures of an execution as `beginExecution` has set them. -/
theorem stepped_figures :
    (m.stepped k).executionTime = m.executionTime ∧
      (m.stepped k).executionLatency = m.executionLatency := by
  induction k with
  | zero => exact ⟨rfl, rfl⟩
  | succ k ih =>
      rw [stepped_succ, ← ih.1, ← ih.2]
      unfold step
      dsimp only
      split <;> exact ⟨rfl, rfl⟩

/-- The counter has counted the calls. -/
theorem Executing.stepped_timestep (executing : m.Executing) (fresh : m.internalTimestep = 0)
    (hk : k ≤ m.executionLatency) : (m.stepped k).internalTimestep = k := by
  obtain ⟨⟨-, started, -⟩, left⟩ := executing.stepped fresh k hk
  rw [stepped_figures.2] at started
  unfold cyclesLeft at left
  rw [stepped_figures.2] at left
  omega

/-- Which call says that the execution has finished. -/
theorem Executing.step_fst (executing : m.Executing) (fresh : m.internalTimestep = 0)
    (hk : k ≤ m.executionLatency) :
    (m.stepped k).step.1 = decide (k = m.executionLatency) := by
  obtain ⟨executing', left⟩ := executing.stepped fresh k hk
  rw [step_of_executing executing']
  by_cases none : (m.stepped k).cyclesLeft = 0
  · rw [if_pos none, decide_eq_true (by omega)]
  · rw [if_neg none, decide_eq_false (by omega)]

/-- **An execution takes one step more than its latency.** -/
theorem takesSteps_iff (executing : m.Executing) (fresh : m.internalTimestep = 0) :
    m.TakesSteps n ↔ n = m.executionLatency + 1 := by
  constructor
  · rintro ⟨unfinished, ⟨k, rfl, finished⟩, -, -⟩
    rcases Nat.lt_trichotomy k m.executionLatency with early | rfl | late
    · rw [executing.step_fst fresh (by omega), decide_eq_true_eq] at finished
      omega
    · rfl
    · -- the last call of the execution was not the last of these
      have last := unfinished m.executionLatency (by omega)
      rw [executing.step_fst fresh (Nat.le_refl _), decide_eq_false_iff_not] at last
      exact absurd rfl last
  · rintro rfl
    obtain ⟨executing', left⟩ := executing.stepped fresh m.executionLatency (Nat.le_refl _)
    have last := step_of_executing executing'
    rw [if_pos (by omega)] at last
    refine ⟨fun k hk => ?_, ⟨m.executionLatency, rfl, ?_⟩, ?_, ?_⟩
    · rw [executing.step_fst fresh (by omega), decide_eq_false (by omega)]
    · rw [last]
    · rw [stepped_succ, last]
    · rw [stepped_succ, last]

/-- A module that has not been stepped since its last execution is executing once it
was told to. -/
theorem executing_beginExecution (fresh : m.internalTimestep = 0) :
    (m.beginExecution simSpeed cycles).Executing := by
  refine ⟨rfl, ?_, toUnsigned_lt _⟩
  show m.internalTimestep ≤ _
  rw [fresh]
  exact Nat.zero_le _

/-! ## The latency -/

/-- **No sequence of executions takes its latency**: already the first one takes a step
more, or, where the latency does not fit an `unsigned`, a different number. -/
theorem not_executionsTakeTheirLatency (fresh : m.internalTimestep = 0) (cycles : ℕ)
    (rest : List ℕ) : ¬ ExecutionsTakeTheirLatency simSpeed m (cycles :: rest) := by
  rintro ⟨takes, -⟩
  rw [takesSteps_iff (executing_beginExecution fresh) fresh, beginExecution_latency] at takes
  have reduced := Nat.mod_le (cyclesNeeded simSpeed m.operatingSpeed cycles) (2 ^ 32)
  have bound := Nat.mod_lt (cyclesNeeded simSpeed m.operatingSpeed cycles)
    (Nat.two_pow_pos 32)
  omega

/-- A module as fast as a simulator of speed 1. -/
def unitModule : RrModule := { idleModule 0 0 with operatingSpeed := 1 }

theorem not_executionsTakeTheirLatency_unitModule :
    ¬ ExecutionsTakeTheirLatency 1 unitModule [1, 3] :=
  not_executionsTakeTheirLatency rfl 1 [3]

/-- **One step more than needed**: a task of one cycle needs one simulator cycle, but it
is the second call of `step` that says it has finished. -/
theorem single_cycle_takes_two :
    cyclesNeeded 1 unitModule.operatingSpeed 1 = 1 ∧
      (unitModule.beginExecution 1 1).executionLatency = 1 ∧
      ((unitModule.beginExecution 1 1).stepped 0).step.1 = false ∧
      ((unitModule.beginExecution 1 1).stepped 1).step.1 = true ∧
      ¬ ExecutionsTakeTheirLatency 1 unitModule [1] := by
  have needed : cyclesNeeded 1 unitModule.operatingSpeed 1 = 1 := by
    simp [cyclesNeeded, unitModule]
  have first : ((unitModule.beginExecution 1 1).stepped 0).step.1 = false := by
    decide +kernel
  refine ⟨needed, by decide +kernel, first, by decide +kernel, fun takes => ?_⟩
  obtain ⟨-, ⟨k, hk, finished⟩, -, -⟩ := takes.1
  obtain rfl : k = 0 := by omega
  rw [first] at finished
  cases finished

/-! ## The report of what remains -/

/-- None of the first `k` calls of `step` has finished the execution. -/
def Unfinished (m : RrModule) (k : ℕ) : Prop := ∀ j < k, (m.stepped j).step.1 = false

/-- **Reporting what remains**, of an execution `m` has just begun: from the beginning to
the step that finishes it, `getRemainingExecutionLatency` is the number of calls of
`step` until the counter reaches the latency, and its subtraction does not wrap. -/
structure ReportsRemaining (m : RrModule) : Prop where
  starts : m.getRemainingExecutionLatency = m.executionLatency
  drops : ∀ k, m.Unfinished (k + 1) →
    (m.stepped (k + 1)).getRemainingExecutionLatency + 1 =
      (m.stepped k).getRemainingExecutionLatency
  remaining : ∀ k, m.Unfinished k →
    IsLeast {j | (m.stepped (k + j)).internalTimestep = m.executionLatency}
      (m.stepped k).getRemainingExecutionLatency
  noWrap : ∀ k, m.Unfinished k →
    (m.stepped k).internalTimestep ≤ (m.stepped k).executionTime

/-- An execution is unfinished for as many calls as its latency. -/
theorem Executing.unfinished_iff (executing : m.Executing) (fresh : m.internalTimestep = 0) :
    m.Unfinished k ↔ k ≤ m.executionLatency := by
  constructor
  · intro unfinished
    by_contra late
    have last := unfinished m.executionLatency (by omega)
    rw [executing.step_fst fresh (Nat.le_refl _), decide_eq_false_iff_not] at last
    exact last rfl
  · intro hk j hj
    rw [executing.step_fst fresh (by omega), decide_eq_false (by omega)]

/-- What the report says after `k` calls, where it does not wrap. -/
theorem Executing.remaining_eq (executing : m.Executing) (fresh : m.internalTimestep = 0)
    (hk : k ≤ m.executionLatency) (time : m.executionTime = m.executionLatency) :
    (m.stepped k).getRemainingExecutionLatency = m.executionLatency - k := by
  have bound := executing.2.2
  unfold getRemainingExecutionLatency
  rw [stepped_figures.1, executing.stepped_timestep fresh hk, time]
  omega

/-- **The report is right exactly if the task needs as many simulator cycles as it has
cycles of its own**, that is, if the clocks make no difference to it. -/
theorem reportsRemaining_iff (fresh : m.internalTimestep = 0) (unsigned : cycles < 2 ^ 32) :
    (m.beginExecution simSpeed cycles).ReportsRemaining ↔
      cyclesNeeded simSpeed m.operatingSpeed cycles % 2 ^ 32 = cycles := by
  have executing : (m.beginExecution simSpeed cycles).Executing :=
    executing_beginExecution fresh
  have fresh' : (m.beginExecution simSpeed cycles).internalTimestep = 0 := fresh
  have time : (m.beginExecution simSpeed cycles).executionTime = cycles := rfl
  rw [← beginExecution_latency]
  generalize m.beginExecution simSpeed cycles = begun at *
  constructor
  · rintro ⟨starts, -⟩
    rw [← starts, getRemainingExecutionLatency, fresh', time]
    omega
  · intro needed
    have remaining := fun k (hk : k ≤ begun.executionLatency) =>
      executing.remaining_eq fresh' hk (time.trans needed.symm)
    refine ⟨?_, fun k unfinished => ?_, fun k unfinished => ?_, fun k unfinished => ?_⟩
    · exact remaining 0 (Nat.zero_le _)
    · rw [executing.unfinished_iff fresh'] at unfinished
      rw [remaining _ unfinished, remaining k (by omega)]
      omega
    · rw [executing.unfinished_iff fresh'] at unfinished
      rw [remaining k unfinished]
      refine ⟨?_, fun j hj => ?_⟩
      · show (begun.stepped _).internalTimestep = _
        rw [executing.stepped_timestep fresh' (by omega)]
        omega
      · by_contra early
        have reached : (begun.stepped (k + j)).internalTimestep = begun.executionLatency := hj
        rw [executing.stepped_timestep fresh' (by omega)] at reached
        omega
    · rw [executing.unfinished_iff fresh'] at unfinished
      rw [executing.stepped_timestep fresh' unfinished, stepped_figures.1, time, ← needed]
      exact unfinished

theorem reportsRemaining_iff_unitModule :
    (unitModule.beginExecution 1 3).ReportsRemaining ↔
      cyclesNeeded 1 unitModule.operatingSpeed 3 % 2 ^ 32 = 3 :=
  reportsRemaining_iff rfl (by decide)

/-- **Clocks of two speeds**: where the simulator is twice as fast as the module, a task
of one cycle takes two simulator cycles, but one is reported, and 2^32 - 1 when the
counter has reached two.  Where it is half as fast, a task of two cycles takes one, but
two are reported. -/
theorem remaining_wraps :
    (unitModule.beginExecution 2 1).executionLatency = 2 ∧
      (unitModule.beginExecution 2 1).getRemainingExecutionLatency = 1 ∧
      ((unitModule.beginExecution 2 1).stepped 2).getRemainingExecutionLatency = 2 ^ 32 - 1 ∧
      ¬ (unitModule.beginExecution 2 1).ReportsRemaining ∧
      (unitModule.beginExecution (1 / 2) 2).executionLatency = 1 ∧
      (unitModule.beginExecution (1 / 2) 2).getRemainingExecutionLatency = 2 ∧
      ¬ (unitModule.beginExecution (1 / 2) 2).ReportsRemaining := by
  have fast : (unitModule.beginExecution 2 1).executionLatency = 2 := by decide +kernel
  have slow : (unitModule.beginExecution (1 / 2) 2).executionLatency = 1 := by decide +kernel
  refine ⟨fast, by decide +kernel, by decide +kernel, ?_, slow, by decide +kernel, ?_⟩
  · rintro ⟨starts, -⟩
    rw [fast] at starts
    revert starts
    decide +kernel
  · rintro ⟨starts, -⟩
    rw [slow] at starts
    revert starts
    decide +kernel

end RrModule

end Drachma
