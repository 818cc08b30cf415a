import Drachma.EmptyQueue
import Drachma.HitPath
import Drachma.Lib.WalkCount

/-!
# How often a task is scheduled

The lookup that is to keep a task from being queued twice has only the start nodes.  Every
other task is queued again each time one of its predecessors is returned, and so it is
returned once for every walk from a start node to it.

The PRC takes its tasks off the scheduler one after the other, whatever becomes of them.
Which tasks it takes, and in which order, does not depend on anything else: neither on the
signals it reads, nor on the selector, nor on the number of regions.

## Main results

* `FcfsScheduler.returned_per_walk` — a task is returned once for every walk to it.
* `Prc.schedules_in_order` — the PRC schedules what the scheduler alone would return.
* `Prc.order_independent` — two PRCs on the same graph schedule the same tasks.
-/

namespace Drachma

open Machine (Worklist.Serves Worklist.WalkTo Worklist.Serves.count_eq_card
  Worklist.Serves.count_le_card)

/-! ## The walks of a task graph -/

namespace TaskDependencies

variable (g : TaskDependencies)

/-- The walks to a task, from a start task along the edges. -/
abbrev Walk (v : String) : Type := Worklist.WalkTo g.IsStart g.edge v

theorem mem_tasks_of_walk {v : String} (walk : g.Walk v) : v ∈ g.tasks := by
  cases walk with
  | stay here => exact here.1
  | extend _ next => exact g.target_mem _ _ next

instance (v : String) : Finite {u // g.edge u v} :=
  Finite.of_injective (fun u => (⟨u.1, g.source_mem _ _ u.2⟩ : g.tasks))
    fun _ _ same => Subtype.ext (congrArg (fun x : g.tasks => x.1) same)

end TaskDependencies

namespace FcfsScheduler

variable {Node : Type} [GraphNode Node] {graph : TaskGraph Node} {g : TaskDependencies}
  {standsFor : Node → String → Prop}

section Represents

variable (represents : graph.Represents g standsFor) {served queue : List (String × Node)}
  (serves : Worklist.Serves (successors graph) graph.getStartNodeMap served queue)

include represents serves

theorem nodup_successors {entry : String × Node} (mem : entry ∈ served) :
    ((successors graph entry).map Prod.fst).Nodup := by
  have stands := standsFor_of_serves represents serves entry (List.mem_append_left _ mem)
  rw [successors_eq represents stands]
  exact represents.neighbor_nodup _ _ stands

theorem mem_successors_of_served {entry : String × Node} (mem : entry ∈ served) (v : String) :
    v ∈ (successors graph entry).map Prod.fst ↔ g.edge entry.1 v :=
  mem_successors represents
    (standsFor_of_serves represents serves entry (List.mem_append_left _ mem))

end Represents

/-- **Tasks are returned once for every walk to them**: no run returns a task more often than
there are walks to it, and when the queue has run empty it has been returned as often. -/
theorem returned_per_walk (represents : graph.Represents g standsFor) :
    (∀ k r, run graph k = .ok r → ∀ key,
        (r.returned.map Prod.fst).count key ≤ Nat.card (g.Walk key)) ∧
      ∃ k r, run graph k = .ok r ∧ r.scheduler.taskQueue = [] ∧
        ∀ key, (r.returned.map Prod.fst).count key = Nat.card (g.Walk key) := by
  constructor
  · intro k r h key
    obtain ⟨served, queue, serves, -, rfl⟩ := run_eq_ok.mp h
    exact Worklist.Serves.count_le_card g.acc_predecessor represents.start_nodup
      represents.mem_start serves (fun _ => nodup_successors represents serves)
      (fun _ => mem_successors_of_served represents serves) key
  · obtain ⟨all, exhausted⟩ := exists_exhausted represents
    refine ⟨_, _, run_eq_ok.mpr ⟨all, [], exhausted, rfl, rfl⟩, rfl, fun key => ?_⟩
    exact Worklist.Serves.count_eq_card g.acc_predecessor represents.start_nodup
      represents.mem_start exhausted (fun _ => nodup_successors represents exhausted)
      (fun _ => mem_successors_of_served represents exhausted) key

/-- The graph with a join. -/
theorem returned_per_walk_joinGraph :
    (∀ k r, run JoinTask.graph k = .ok r → ∀ key,
        (r.returned.map Prod.fst).count key ≤ Nat.card (JoinTask.dependencies.Walk key)) ∧
      ∃ k r, run JoinTask.graph k = .ok r ∧ r.scheduler.taskQueue = [] ∧
        ∀ key, (r.returned.map Prod.fst).count key =
          Nat.card (JoinTask.dependencies.Walk key) :=
  returned_per_walk JoinTask.represents

end FcfsScheduler

/-! ## What the PRC schedules -/

namespace Prc

section Moves

variable {n : ℕ} {Node σ : Type} {policies : SchedulingPolicies n Node σ} {w : PrcWires n}
  {s s' : Prc n Node σ}

/-- The scheduler is used in `PRC_TASK_SCHEDULE` only. -/
theorem Moves.schedulingAlg_eq (moves : Moves policies w s s')
    (other : s.nextState ≠ .taskSchedule) : s'.schedulingAlg = s.schedulingAlg := by
  cases moves with
  | schedule _ taking => exact absurd taking other
  | _ => rfl

end Moves

variable {n n' : ℕ} {Node : Type} [GraphNode Node] {graph : TaskGraph Node}

omit [GraphNode Node] in
/-- The tasks the PRC has scheduled in the first `k` steps of a run. -/
def scheduledTasks (σ : ℕ → Prc n Node (FcfsScheduler Node)) (k : ℕ) : List Node :=
  (List.range k).filterMap fun j =>
    if (σ j).nextState = .taskSchedule then (σ (j + 1)).scheduledTask else none

variable {selector selector' : LftFeSelector} {raw : Prc n Node (FcfsScheduler Node)}
  {raw' : Prc n' Node (FcfsScheduler Node)} {inputs : ℕ → PrcWires n} {inputs' : ℕ → PrcWires n'}
  {N N' : ℕ} {σ : ℕ → Prc n Node (FcfsScheduler Node)} {σ' : ℕ → Prc n' Node (FcfsScheduler Node)}

/-- **The PRC schedules what the scheduler alone would return**, one task each time it is in
`PRC_TASK_SCHEDULE`. -/
theorem schedules_in_order
    (trace : Machine.Trace (step (lftFePolicies selector)) inputs
      (new raw (.initializeQueue graph)) N σ) :
    ∀ k ≤ N, ∃ r, FcfsScheduler.run graph
        (Nat.count (fun j => (σ j).nextState = .taskSchedule) k) = .ok r ∧
      r.scheduler = (σ k).schedulingAlg ∧ scheduledTasks σ k = r.returned.map Prod.snd := by
  intro k hk
  induction k with
  | zero => exact ⟨_, rfl, by rw [trace.start]; rfl, rfl⟩
  | succ k ih =>
      obtain ⟨r, hr, alg, tasks⟩ := ih (by omega)
      have ready := ready_of_run k _ (trace k (by omega))
      have moves := moves_of_step (trace.step_eq (by omega : k < N))
      have so_far : scheduledTasks σ (k + 1) = scheduledTasks σ k ++
          (if (σ k).nextState = .taskSchedule then (σ (k + 1)).scheduledTask else none).toList :=
        Machine.filterMap_range_succ _ k
      rw [Nat.count_succ, so_far, tasks]
      by_cases state : (σ k).nextState = .taskSchedule
      · obtain ⟨task, next, current, prepared, after⟩ := moves.of_taskSchedule ready state
        obtain ⟨key, _, rest, queue, rfl⟩ := FcfsScheduler.prepareNextTask_eq_ok.mp prepared
        obtain ⟨_, _, queue'⟩ := FcfsScheduler.getCurrentTask_eq_ok.mp current
        rw [queue] at queue'
        cases queue'
        rw [← alg] at queue
        rw [if_pos state, if_pos state, after]
        refine ⟨_, (Machine.run_succ_of_ok hr).trans
          (FcfsScheduler.Recorded.round_eq_ok.mpr ⟨_, _, queue, rfl⟩), ?_, ?_⟩
        · simp [alg]
        · simp
      · rw [if_neg state, if_neg state, Option.toList_none, List.append_nil]
        exact ⟨r, hr, alg.trans (moves.schedulingAlg_eq state).symm, rfl⟩

/-- **The order of scheduling is the scheduler's alone.**  Of two PRCs on the same task graph,
with whatever signals, selectors and regions, one has scheduled an initial part of what the
other has. -/
theorem order_independent
    (trace : Machine.Trace (step (lftFePolicies selector)) inputs
      (new raw (.initializeQueue graph)) N σ)
    (trace' : Machine.Trace (step (lftFePolicies selector')) inputs'
      (new raw' (.initializeQueue graph)) N' σ') :
    ∀ k ≤ N, ∀ k' ≤ N',
      scheduledTasks σ k <+: scheduledTasks σ' k' ∨
        scheduledTasks σ' k' <+: scheduledTasks σ k := by
  intro k hk k' hk'
  obtain ⟨r, hr, -, tasks⟩ := schedules_in_order trace k hk
  obtain ⟨r', hr', -, tasks'⟩ := schedules_in_order trace' k' hk'
  obtain ⟨served, queue, serves, -, rfl⟩ := FcfsScheduler.run_eq_ok.mp hr
  obtain ⟨served', queue', serves', -, rfl⟩ := FcfsScheduler.run_eq_ok.mp hr'
  rw [tasks, tasks']
  rcases Nat.le_total served.length served'.length with shorter | shorter
  · exact .inl ((serves.isPrefix serves' shorter).map _)
  · exact .inr ((serves'.isPrefix serves shorter).map _)

/-- A region that executes, and one in which the bitstream is installed. -/
theorem order_independent_oneTask :
    ∃ selector σ σ',
      Machine.Trace (step (lftFePolicies selector)) busyInputs oneTaskPrc 3 σ ∧
        Machine.Trace (step (lftFePolicies selector)) installedInputs oneTaskPrc 2 σ' ∧
          (scheduledTasks σ 3 <+: scheduledTasks σ' 2 ∨
            scheduledTasks σ' 2 <+: scheduledTasks σ 3) := by
  have completes : ∃ capabilities selector,
      Application.getRrTaskCapabilites Application.oneRegion.rrSpecMap = .ok capabilities ∧
      LftFeSelector.new capabilities Application.oneRegion.rrSpecMap = .ok selector ∧
      (Machine.run (step (lftFePolicies selector)) busyInputs oneTaskPrc 3).isOk = true ∧
      (Machine.run (step (lftFePolicies selector)) installedInputs oneTaskPrc 2).isOk = true :=
    ⟨_, _, rfl, rfl, rfl, rfl⟩
  obtain ⟨_, selector, -, -, busy, installed⟩ := completes
  obtain ⟨σ, trace⟩ := Machine.Trace.exists_of_isOk busy
  obtain ⟨σ', trace'⟩ := Machine.Trace.exists_of_isOk installed
  exact ⟨selector, σ, σ', trace, trace', order_independent trace trace' 3 le_rfl 2 le_rfl⟩

end Prc

end Drachma
