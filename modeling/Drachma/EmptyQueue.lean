import Drachma.Simulation
import Drachma.TaskConservation
import Drachma.TaskOrder
import Mathlib.Data.Nat.Count

/-!
# Scheduling from an empty queue

`PRC_TASK_SCHEDULE` asks the task scheduler for its current task and has it prepare
the next one, and never asks whether there is a task.  `front` and `pop_front` of an
empty queue are undefined (`Prc.SchedulesFromEmpty`).

A PRC gets to `PRC_TASK_SCHEDULE` once after `PRC_INIT`, then after every choice it
rejects and every request the ICAP acknowledges, for as long as the simulation goes
on.  The scheduler has a task for every walk in the task graph that starts at a start
node and does not come back to one: there are finitely many, unless a cycle can be
reached.

## Main results

* `Prc.never_empty_iff` — a PRC never schedules from an empty queue exactly when it
  gets to `PRC_TASK_SCHEDULE` no more often than there are walks.
* `Prc.taken_tasks_run_out` — a run that gets there once more.
-/

namespace Drachma

open Machine (Worklist.Serves Worklist.levels Worklist.exists_serves_length_iff)

/-- The number of walks of fewer than `d` edges from the start nodes that do not come
back to a start node. -/
def TaskGraph.walkCount {Node : Type} [GraphNode Node] (graph : TaskGraph Node) (d : ℕ) : ℕ :=
  (Worklist.levels (FcfsScheduler.successors graph) graph.getStartNodeMap d).length

namespace Prc

variable {n : ℕ} {Node : Type} [GraphNode Node]

/-- The step to be taken is `PRC_TASK_SCHEDULE`, and the queue of the scheduler it
uses is empty. -/
def SchedulesFromEmpty (s : Prc n Node (FcfsScheduler Node)) : Prop :=
  s.stallCount = 0 ∧ s.nextState = .taskSchedule ∧ s.schedulingAlg.taskQueue = []

variable {selector : LftFeSelector} {w : PrcWires n} {s s' : Prc n Node (FcfsScheduler Node)}

/-- In `PRC_TASK_SCHEDULE`, nothing but an empty queue stops the step: with a task in
it, the three operations on the queue all find one. -/
theorem schedulesFromEmpty_iff (ready : s.stallCount = 0) (state : s.nextState = .taskSchedule) :
    SchedulesFromEmpty s ↔ ¬ ∃ s', step (lftFePolicies selector) w s = .ok s' := by
  constructor
  · rintro ⟨-, -, empty⟩ ⟨s', hstep⟩
    obtain ⟨task, alg, current, -⟩ := (moves_of_step hstep).of_taskSchedule ready state
    obtain ⟨key, rest, hqueue⟩ := FcfsScheduler.getCurrentTask_eq_ok.mp current
    rw [empty] at hqueue
    cases hqueue
  · intro stuck
    refine ⟨ready, state, ?_⟩
    cases queue : s.schedulingAlg.taskQueue with
    | nil => rfl
    | cons entry rest =>
        have current : s.schedulingAlg.getCurrentTask = .ok entry.2 :=
          FcfsScheduler.getCurrentTask_eq_ok.mpr ⟨entry.1, rest, queue⟩
        have prepared := FcfsScheduler.prepareNextTask_eq_ok.mpr
          ⟨entry.1, entry.2, rest, queue, rfl⟩
        have moves : Moves (lftFePolicies selector) w s _ :=
          .schedule ready state current prepared
        exact absurd ⟨_, step_of_moves moves⟩ stuck

/-- The scheduler is at the stage of its loop at which it has returned `k` tasks. -/
def Scheduled (graph : TaskGraph Node) (k : ℕ) (s : Prc n Node (FcfsScheduler Node)) : Prop :=
  ∃ served queue, Worklist.Serves (FcfsScheduler.successors graph) graph.getStartNodeMap
    served queue ∧ served.length = k ∧
      s.schedulingAlg = { FcfsScheduler.initializeQueue graph with taskQueue := queue }

/-- A step returns a task in `PRC_TASK_SCHEDULE` and in no other state. -/
theorem Scheduled.step {graph : TaskGraph Node} {k : ℕ} (h : Scheduled graph k s)
    (ready : s.stallCount = 0) (moves : Moves (lftFePolicies selector) w s s') :
    Scheduled graph (if s.nextState = .taskSchedule then k + 1 else k) s' := by
  obtain ⟨served, queue, serves, hlen, halg⟩ := h
  by_cases state : s.nextState = .taskSchedule
  · obtain ⟨task, alg, current, prepared, rfl⟩ := moves.of_taskSchedule ready state
    rw [if_pos state]
    obtain ⟨key, task, rest, hqueue, rfl⟩ := FcfsScheduler.prepareNextTask_eq_ok.mp prepared
    rw [halg] at hqueue
    dsimp only at hqueue
    subst hqueue
    refine ⟨_, _, serves.round, by simp [hlen], ?_⟩
    simp [halg, FcfsScheduler.successors, FcfsScheduler.newSuccessors]
  · rw [if_neg state]
    refine ⟨served, queue, serves, hlen, ?_⟩
    cases moves with
    | schedule _ taking => exact absurd taking state
    | _ => simpa using halg

section Run

variable {graph : TaskGraph Node} {raw : Prc n Node (FcfsScheduler Node)}
  {inputs : ℕ → PrcWires n} {N : ℕ} {σ : ℕ → Prc n Node (FcfsScheduler Node)}

/-- As many tasks have been returned as the PRC has been in `PRC_TASK_SCHEDULE`. -/
theorem scheduled_of_trace
    (trace : Machine.Trace (step (lftFePolicies selector)) inputs
      (new raw (.initializeQueue graph)) N σ) :
    ∀ k ≤ N, Scheduled graph (Nat.count (fun j => (σ j).nextState = .taskSchedule) k) (σ k) := by
  refine trace.invariant
    (P := fun k s => Scheduled graph (Nat.count (fun j => (σ j).nextState = .taskSchedule) k) s)
    ⟨[], _, .start, rfl, rfl⟩ fun k hk scheduled hstep => ?_
  have ready := ready_of_run k _ (trace k (by omega))
  have next := scheduled.step ready (moves_of_step hstep)
  rw [Nat.count_succ]
  split at next
  · rename_i state
    rw [if_pos state]
    exact next
  · rename_i state
    rw [if_neg state]
    exact next

/-- **When the queue never runs dry**: no step of a run schedules from an empty queue
exactly when the run gets to `PRC_TASK_SCHEDULE` no more often than there are walks
from the start nodes. -/
theorem never_empty_iff
    (trace : Machine.Trace (step (lftFePolicies selector)) inputs
      (new raw (.initializeQueue graph)) N σ) :
    (∀ k ≤ N, ¬ SchedulesFromEmpty (σ k)) ↔
      ∃ d, Nat.count (fun k => (σ k).nextState = .taskSchedule) (N + 1) ≤ graph.walkCount d := by
  have scheduled := scheduled_of_trace trace
  constructor
  · intro never
    obtain ⟨served, queue, serves, hlen, halg⟩ := scheduled N (Nat.le_refl N)
    rw [Nat.count_succ]
    refine Worklist.exists_serves_length_iff.mp ?_
    by_cases state : (σ N).nextState = .taskSchedule
    · -- the last state is about to take one more task
      rw [if_pos state]
      have ready := ready_of_run N _ (trace N (Nat.le_refl N))
      cases hqueue : queue with
      | nil =>
          subst hqueue
          exact absurd ⟨ready, state, by rw [halg]⟩ (never N (Nat.le_refl N))
      | cons entry rest =>
          subst hqueue
          exact ⟨_, _, serves.round, by simp [hlen]⟩
    · rw [if_neg state]
      exact ⟨served, queue, serves, hlen⟩
  · rintro ⟨d, hd⟩ k hk ⟨-, state, empty⟩
    obtain ⟨served, queue, serves, hlen, halg⟩ := scheduled k hk
    rw [halg] at empty
    dsimp only at empty
    subst empty
    have more : Nat.count (fun j => (σ j).nextState = .taskSchedule) (k + 1) ≤
        graph.walkCount d := (Nat.count_monotone _ (by omega)).trans hd
    rw [Nat.count_succ, if_pos state, ← hlen] at more
    obtain ⟨served', queue', serves', hlen'⟩ :=
      Worklist.exists_serves_length_iff.mpr ⟨d, more⟩
    have bound := serves.length_le_of_exhausted serves'
    omega

end Run

/-! ## A run that takes all tasks -/

/-- The only task, taken in the second step of a run. -/
def oneTaskPrc : Prc 1 LoneTask (FcfsScheduler LoneTask) :=
  new rawPrc (.initializeQueue oneTask)

/-- The first two steps of a run, on either side. -/
theorem never_empty_iff_oneTask :
    ∃ capabilities selector σ,
      Application.getRrTaskCapabilites Application.oneRegion.rrSpecMap = .ok capabilities ∧
      LftFeSelector.new capabilities Application.oneRegion.rrSpecMap = .ok selector ∧
      Machine.Trace (step (lftFePolicies selector)) busyInputs oneTaskPrc 2 σ ∧
      ((∀ k ≤ 2, ¬ SchedulesFromEmpty (σ k)) ↔
        ∃ d, Nat.count (fun k => (σ k).nextState = .taskSchedule) 3 ≤
          oneTask.walkCount d) := by
  have completes : ∃ capabilities selector,
      Application.getRrTaskCapabilites Application.oneRegion.rrSpecMap = .ok capabilities ∧
      LftFeSelector.new capabilities Application.oneRegion.rrSpecMap = .ok selector ∧
      (Machine.run (step (lftFePolicies selector)) busyInputs oneTaskPrc 2).isOk = true :=
    ⟨_, _, rfl, rfl, rfl⟩
  obtain ⟨capabilities, selector, hcap, hnew, isOk⟩ := completes
  obtain ⟨σ, trace⟩ := Machine.Trace.exists_of_isOk isOk
  exact ⟨capabilities, selector, σ, hcap, hnew, trace, never_empty_iff trace⟩

/-- **The tasks run out**: the only task is rejected in the third step, and the fourth
is to take a task from the empty queue. -/
theorem taken_tasks_run_out :
    ∃ capabilities selector s,
      Application.getRrTaskCapabilites Application.oneRegion.rrSpecMap = .ok capabilities ∧
      LftFeSelector.new capabilities Application.oneRegion.rrSpecMap = .ok selector ∧
      run (lftFePolicies selector) busyInputs oneTaskPrc 3 = .ok s ∧ SchedulesFromEmpty s ∧
        step (lftFePolicies selector) (busyInputs 3) s = .error .emptyContainer :=
  ⟨_, _, _, rfl, rfl, rfl, ⟨rfl, rfl, rfl⟩, rfl⟩

end Prc

end Drachma
