import Drachma.Lib.Worklist
import Drachma.Scheduler
import Mathlib.Data.Fintype.Card
import Mathlib.Data.List.Pairwise
import Mathlib.Data.Set.Finite.Basic

/-!
# The order in which tasks are scheduled

The task scheduler hands out one task after the other: `getCurrentTask`, then
`prepareNextTask`, for as long as the queue is not empty.  `Recorded` is the
scheduler together with what this loop has done so far, and `TaskDependencies`
says what the loop is about: a finite acyclic graph of tasks.

What is assumed of the graph library is `TaskGraph.Represents`: the start nodes
are the tasks without predecessor, and the traversable neighbours of a node are
its direct successors.  Both come as lists, in whatever order the program visits
the maps, and a task's node object may be copied, and so its neighbours visited
in another order, each time.

## Main results

* `FcfsScheduler.run_eq_ok` — the loop is a worklist without memory.
* `FcfsScheduler.queued_once_iff` — no task is queued twice exactly when no task
  has two predecessors.
* `FcfsScheduler.returned_after_iff` — when the tasks of a graph are returned
  after their predecessors.
* `FcfsScheduler.drains` — the queue runs empty, with every task returned.
-/

namespace Drachma

open Machine (Worklist.Serves Worklist.level Worklist.levels Worklist.Precedes
  Worklist.FirstInLevels Worklist.level_congr Worklist.exists_level_eq_nil
  Worklist.serves_levels Worklist.precedes_iff)

/-! ## Task graphs -/

/-- What a task graph says: which tasks there are, and which of them come directly
before which.  No task comes before itself. -/
structure TaskDependencies where
  tasks : Finset String
  edge : String → String → Prop
  source_mem : ∀ u v, edge u v → u ∈ tasks
  target_mem : ∀ u v, edge u v → v ∈ tasks
  acyclic : ∀ u, ¬ Relation.TransGen edge u u

namespace TaskDependencies

variable (g : TaskDependencies)

/-- A task without predecessor. -/
def IsStart (v : String) : Prop := v ∈ g.tasks ∧ ∀ u, ¬ g.edge u v

/-- The task can be reached from a start task. -/
def Reachable (v : String) : Prop := ∃ u, g.IsStart u ∧ Relation.ReflTransGen g.edge u v

variable {g}

/-- A walk along edges, in either direction, ends. -/
private theorem acc_of_step {r : String → String → Prop}
    (mem : ∀ u v, r u v → u ∈ g.tasks ∧ v ∈ g.tasks)
    (irrefl : ∀ u, ¬ Relation.TransGen r u u) (v : String) : Acc r v := by
  let below : g.tasks → g.tasks → Prop := fun x y => Relation.TransGen r x.1 y.1
  have trans : IsTrans g.tasks below := ⟨fun _ _ _ h k => Relation.TransGen.trans h k⟩
  have irr : Std.Irrefl below := ⟨fun x => irrefl x.1⟩
  have wf : WellFounded below := Finite.wellFounded_of_trans_of_irrefl below
  have member : ∀ x : g.tasks, Acc r x.1 := by
    intro x
    induction x using wf.induction with
    | _ x ih => exact ⟨_, fun u hu => ih ⟨u, (mem u _ hu).1⟩ (.single hu)⟩
  exact ⟨_, fun u hu => member ⟨u, (mem u v hu).1⟩⟩

/-- Successors are well founded. -/
theorem acc_successor (v : String) : Acc (fun w u => g.edge u w) v := by
  refine acc_of_step (g := g) (fun u v h => ⟨g.target_mem _ _ h, g.source_mem _ _ h⟩)
    (fun u hu => g.acyclic u ?_) v
  exact Relation.transGen_swap.mp hu

/-- Predecessors are well founded. -/
theorem acc_predecessor (v : String) : Acc g.edge v :=
  acc_of_step (fun _ _ h => ⟨g.source_mem _ _ h, g.target_mem _ _ h⟩) g.acyclic v

/-- Every task can be reached from a start task. -/
theorem reachable_iff {v : String} : g.Reachable v ↔ v ∈ g.tasks := by
  constructor
  · rintro ⟨u, hu, walk⟩
    cases walk with
    | refl => exact hu.1
    | tail _ hstep => exact g.target_mem _ _ hstep
  · intro hv
    have acc := g.acc_predecessor v
    induction acc with
    | intro v _ ih =>
        by_cases start : ∃ u, g.edge u v
        · obtain ⟨u, hu⟩ := start
          obtain ⟨s, hs, walk⟩ := ih u hu (g.source_mem _ _ hu)
          exact ⟨s, hs, walk.tail hu⟩
        · exact ⟨v, ⟨hv, fun u hu => start ⟨u, hu⟩⟩, .refl⟩

theorem ne_of_edge {u v : String} (h : g.edge u v) : u ≠ v := by
  rintro rfl
  exact g.acyclic u (.single h)

end TaskDependencies

variable {Node : Type} [GraphNode Node]

/-- **What is relied on of the graph library.**  The node objects that stand for a
task list its direct successors as their traversable neighbours; the start nodes
are the tasks without predecessor. -/
structure TaskGraph.Represents (graph : TaskGraph Node) (g : TaskDependencies)
    (standsFor : Node → String → Prop) : Prop where
  start_nodup : (graph.getStartNodeMap.map Prod.fst).Nodup
  mem_start : ∀ key, key ∈ graph.getStartNodeMap.map Prod.fst ↔ g.IsStart key
  start_standsFor : ∀ entry ∈ graph.getStartNodeMap, standsFor entry.2 entry.1
  neighbor_nodup : ∀ task key, standsFor task key →
    ((GraphNode.getTraversableNeighborMap task).map Prod.fst).Nodup
  mem_neighbor : ∀ task key, standsFor task key → ∀ next,
    next ∈ (GraphNode.getTraversableNeighborMap task).map Prod.fst ↔ g.edge key next
  neighbor_standsFor : ∀ task key, standsFor task key →
    ∀ entry ∈ GraphNode.getTraversableNeighborMap task, standsFor entry.2 entry.1

/-- The successors of a queue entry, as the graph library lists them. -/
def neighbors (entry : String × Node) : List (String × Node) :=
  GraphNode.getTraversableNeighborMap entry.2

/-- The tasks at the ends of the walks of `d` edges from the start nodes, in the
order in which the program's iteration orders list these walks. -/
def TaskGraph.walkEnds (graph : TaskGraph Node) (d : ℕ) : List String :=
  (Worklist.level neighbors graph.getStartNodeMap d).map Prod.fst

/-- Breadth first, the graph lists task `u` before task `v`: among the ends of the
walks of some length, below which `v` is not an end, `u` comes before any `v`. -/
def TaskGraph.ListsFirst (graph : TaskGraph Node) (u v : String) : Prop :=
  ∃ d, (∀ e < d, v ∉ graph.walkEnds e) ∧
    ∃ before after, graph.walkEnds d = before ++ u :: after ∧ v ∉ before

/-! ### A graph with a join -/

/-- Three tasks; the last one depends on both others, and is listed first among the
neighbours of the first. -/
inductive JoinTask
  | first
  | second
  | join
deriving DecidableEq, Repr

namespace JoinTask

/-- The key of a task. -/
def key : JoinTask → String
  | first => "first"
  | second => "second"
  | join => "join"

instance : GraphNode JoinTask where
  getMetadata _ := [("type", "a")]
  getTraversableNeighborMap
    | first => [("join", join), ("second", second)]
    | second => [("join", join)]
    | join => []

/-- The graph of the three tasks. -/
def graph : TaskGraph JoinTask := ⟨[("first", first)]⟩

/-- Which task comes directly before which. -/
def edges : List (String × String) :=
  [("first", "second"), ("first", "join"), ("second", "join")]

/-- A number that grows along the edges. -/
def rank (key : String) : ℕ := if key = "first" then 0 else if key = "second" then 1 else 2

theorem edges_cases {u v : String} (h : (u, v) ∈ edges) :
    u = "first" ∧ v = "second" ∨ u = "first" ∧ v = "join" ∨ u = "second" ∧ v = "join" := by
  simpa [edges] using h

theorem rank_lt {u v : String} (h : (u, v) ∈ edges) : rank u < rank v := by
  rcases edges_cases h with ⟨rfl, rfl⟩ | ⟨rfl, rfl⟩ | ⟨rfl, rfl⟩ <;> decide

/-- What the graph says. -/
def dependencies : TaskDependencies where
  tasks := {"first", "second", "join"}
  edge u v := (u, v) ∈ edges
  source_mem u v h := by
    rcases edges_cases h with ⟨rfl, rfl⟩ | ⟨rfl, rfl⟩ | ⟨rfl, rfl⟩ <;> decide
  target_mem u v h := by
    rcases edges_cases h with ⟨rfl, rfl⟩ | ⟨rfl, rfl⟩ | ⟨rfl, rfl⟩ <;> decide
  acyclic u h := by
    have grows : ∀ {v}, Relation.TransGen (fun u v => (u, v) ∈ edges) u v → rank u < rank v := by
      intro v walk
      induction walk with
      | single h => exact rank_lt h
      | tail _ h ih => exact ih.trans (rank_lt h)
    exact lt_irrefl _ (grows h)

theorem represents : graph.Represents dependencies fun task key => task.key = key where
  start_nodup := by decide
  mem_start k := by
    constructor
    · intro h
      have hk : k = "first" := by simpa [graph] using h
      subst hk
      refine ⟨by decide, fun u h => ?_⟩
      rcases edges_cases h with ⟨-, h⟩ | ⟨-, h⟩ | ⟨-, h⟩ <;> revert h <;> decide
    · rintro ⟨hk, noEdge⟩
      have hk' : k = "first" ∨ k = "second" ∨ k = "join" := by simpa [dependencies] using hk
      rcases hk' with rfl | rfl | rfl
      · decide
      · exact (noEdge "first" (show ("first", "second") ∈ edges by decide)).elim
      · exact (noEdge "first" (show ("first", "join") ∈ edges by decide)).elim
  start_standsFor entry h := by
    have he : entry = ("first", first) := by simpa [graph] using h
    rw [he]
    rfl
  neighbor_nodup task _ _ := by cases task <;> decide
  mem_neighbor task _ stands next := by
    subst stands
    cases task <;>
      simp [GraphNode.getTraversableNeighborMap, dependencies, edges, key, or_comm]
  neighbor_standsFor task _ _ := by cases task <;> decide

end JoinTask

/-! ## Runs of the scheduler -/

namespace FcfsScheduler

/-- A scheduler with the history of its queue: every entry that was put in the
queue, and every entry whose task `getCurrentTask` has returned. -/
structure Recorded (Node : Type) where
  scheduler : FcfsScheduler Node
  queued : List (String × Node)
  returned : List (String × Node)

/-- The scheduler after `initialize`. -/
def Recorded.start (graph : TaskGraph Node) : Recorded Node :=
  { scheduler := initializeQueue graph
    queued := graph.getStartNodeMap
    returned := [] }

/-- One round: `getCurrentTask`, then `prepareNextTask`. -/
def Recorded.round (r : Recorded Node) : Exec (Recorded Node) := do
  let entry ← r.scheduler.front
  let task ← r.scheduler.getCurrentTask
  let scheduler ← r.scheduler.prepareNextTask
  return {
    scheduler := scheduler
    queued := r.queued ++ r.scheduler.newSuccessors task
    returned := r.returned ++ [(entry.1, task)] }

/-- The scheduler after `k` rounds; there is no round with an empty queue. -/
abbrev run (graph : TaskGraph Node) : ℕ → Exec (Recorded Node) :=
  Machine.run (fun _ : Unit => Recorded.round) (fun _ => ()) (Recorded.start graph)

/-- The successors of an entry that `prepareNextTask` queues: the lookup is that of
the start nodes. -/
def successors (graph : TaskGraph Node) (entry : String × Node) : List (String × Node) :=
  (initializeQueue graph).newSuccessors entry.2

/-- The recorded scheduler of a stage of the worklist. -/
def Recorded.stage (graph : TaskGraph Node) (served queue : List (String × Node)) : Recorded Node :=
  { scheduler := { initializeQueue graph with taskQueue := queue }
    queued := served ++ queue
    returned := served }

variable {graph : TaskGraph Node} {k : ℕ} {r r' : Recorded Node}

theorem Recorded.round_eq_ok :
    r.round = .ok r' ↔
      ∃ entry rest, r.scheduler.taskQueue = entry :: rest ∧
        r' =
          { scheduler :=
              { r.scheduler with taskQueue := rest ++ r.scheduler.newSuccessors entry.2 }
            queued := r.queued ++ r.scheduler.newSuccessors entry.2
            returned := r.returned ++ [entry] } := by
  unfold round front
  cases hq : r.scheduler.taskQueue with
  | nil =>
      constructor
      · intro h; cases h
      · rintro ⟨_, _, h, _⟩; cases h
  | cons entry rest =>
      have current : r.scheduler.getCurrentTask = .ok entry.2 :=
        getCurrentTask_eq_ok.mpr ⟨entry.1, rest, hq⟩
      have prepared := prepareNextTask_eq_ok.mpr ⟨entry.1, entry.2, rest, hq, rfl⟩
      simp only [Machine.ok_bind, current, prepared]
      constructor
      · intro h
        exact ⟨entry, rest, rfl, (Except.ok.inj h).symm⟩
      · rintro ⟨_, _, h, rfl⟩
        cases h
        rfl

/-- **The scheduler is a worklist without memory.** -/
theorem run_eq_ok :
    run graph k = .ok r ↔
      ∃ served queue, Worklist.Serves (successors graph) graph.getStartNodeMap served queue ∧
        served.length = k ∧ r = .stage graph served queue := by
  constructor
  · have stages : ∀ k r, run graph k = .ok r → ∃ served queue,
        Worklist.Serves (successors graph) graph.getStartNodeMap served queue ∧
          served.length = k ∧ r = .stage graph served queue := by
      refine Machine.run_invariant ⟨[], _, .start, rfl, rfl⟩ ?_
      rintro k r r' - ⟨served, queue, serves, rfl, rfl⟩ hround
      obtain ⟨entry, rest, hq, rfl⟩ := Recorded.round_eq_ok.mp hround
      dsimp only [Recorded.stage] at hq
      subst hq
      refine ⟨_, _, serves.round, by simp, ?_⟩
      simp [Recorded.stage, successors, newSuccessors]
    exact stages k r
  · rintro ⟨served, queue, serves, rfl, rfl⟩
    induction serves with
    | start => rfl
    | @round served entry rest _ ih =>
        rw [List.length_append, List.length_singleton, run, Machine.run_succ_of_ok ih,
          Recorded.round_eq_ok]
        refine ⟨entry, rest, rfl, ?_⟩
        simp [Recorded.stage, successors, newSuccessors]

/-! ### Over a graph the library represents -/

section Represents

variable {g : TaskDependencies} {standsFor : Node → String → Prop}
  (represents : graph.Represents g standsFor)

include represents

/-- No successor is held back: a start node has no predecessor. -/
theorem successors_eq {entry : String × Node} (stands : standsFor entry.2 entry.1) :
    successors graph entry = neighbors entry := by
  unfold successors newSuccessors neighbors
  refine List.filter_eq_self.mpr fun next hnext => ?_
  have edge := (represents.mem_neighbor _ _ stands next.1).mp (List.mem_map_of_mem hnext)
  have fresh : next.1 ∉ graph.getStartNodeMap.map Prod.fst := fun hmem =>
    ((represents.mem_start next.1).mp hmem).2 _ edge
  simpa [initializeQueue] using fresh

theorem mem_successors {entry : String × Node} (stands : standsFor entry.2 entry.1)
    {next : String} :
    next ∈ (successors graph entry).map Prod.fst ↔ g.edge entry.1 next := by
  rw [successors_eq represents stands]
  exact represents.mem_neighbor _ _ stands next

theorem successors_standsFor {entry : String × Node} (stands : standsFor entry.2 entry.1) :
    ∀ next ∈ successors graph entry, standsFor next.2 next.1 := by
  rw [successors_eq represents stands]
  exact represents.neighbor_standsFor _ _ stands

/-- Every entry that was ever queued stands for the task under whose key it is. -/
theorem standsFor_of_serves {served queue : List (String × Node)}
    (serves : Worklist.Serves (successors graph) graph.getStartNodeMap served queue) :
    ∀ entry ∈ served ++ queue, standsFor entry.2 entry.1 :=
  serves.invariant represents.start_standsFor fun _ stands =>
    successors_standsFor represents stands

/-- The levels of the worklist are the walks of the graph. -/
theorem level_keys (d : ℕ) :
    (Worklist.level (successors graph) graph.getStartNodeMap d).map Prod.fst =
      graph.walkEnds d := by
  unfold TaskGraph.walkEnds
  rw [Worklist.level_congr (P := fun entry => standsFor entry.2 entry.1)
    represents.start_standsFor (fun _ stands => successors_standsFor represents stands)
    (fun _ stands => (successors_eq represents stands).symm)]

/-- Successors are well founded, as the edges are. -/
theorem acc_successors {entry : String × Node} (stands : standsFor entry.2 entry.1) :
    Acc (fun next entry => next ∈ successors graph entry) entry := by
  obtain ⟨key, task⟩ := entry
  have acc := g.acc_successor key
  induction acc generalizing task with
  | intro key _ ih =>
      refine ⟨_, fun next hnext => ?_⟩
      have edge := (mem_successors represents stands).mp (List.mem_map_of_mem hnext)
      exact ih next.1 edge next.2 (successors_standsFor represents stands next hnext)

/-- The worklist runs empty. -/
theorem exists_exhausted :
    ∃ served, Worklist.Serves (successors graph) graph.getStartNodeMap served [] := by
  obtain ⟨d, hd⟩ := Worklist.exists_level_eq_nil (successors graph) fun entry hentry =>
    acc_successors represents (represents.start_standsFor entry hentry)
  have serves := Worklist.serves_levels (successors graph) graph.getStartNodeMap d
  rw [hd] at serves
  exact ⟨_, serves⟩

/-- A worklist that has run empty has served the tasks of the graph. -/
theorem mem_served {served : List (String × Node)}
    (serves : Worklist.Serves (successors graph) graph.getStartNodeMap served [])
    {key : String} : key ∈ served.map Prod.fst ↔ key ∈ g.tasks := by
  have stands : ∀ entry ∈ served, standsFor entry.2 entry.1 := fun entry hentry =>
    standsFor_of_serves represents serves entry (List.mem_append_left _ hentry)
  have history := serves.history
  rw [List.append_nil] at history
  constructor
  · intro hkey
    obtain ⟨entry, hentry, rfl⟩ := List.mem_map.mp hkey
    rw [history, List.mem_append, List.mem_flatMap] at hentry
    rcases hentry with hstart | ⟨before, hbefore, hentry⟩
    · exact ((represents.mem_start _).mp (List.mem_map_of_mem hstart)).1
    · exact g.target_mem _ _
        ((mem_successors represents (stands before hbefore)).mp (List.mem_map_of_mem hentry))
  · intro hkey
    obtain ⟨s, hs, walk⟩ := TaskDependencies.reachable_iff.mpr hkey
    -- along the walk that reaches the task
    induction walk with
    | refl =>
        have hstart := (represents.mem_start s).mpr hs
        rw [history, List.map_append]
        exact List.mem_append_left _ hstart
    | tail _ hedge ih =>
        obtain ⟨entry, hentry, rfl⟩ := List.mem_map.mp (ih (g.source_mem _ _ hedge))
        obtain ⟨next, hnext, rfl⟩ := List.mem_map.mp
          ((mem_successors represents (stands entry hentry)).mpr hedge)
        exact List.mem_map_of_mem (serves.mem_of_mem_succ hentry hnext)

end Represents

/-! ### The results -/

variable {g : TaskDependencies} {standsFor : Node → String → Prop}

/-- **Every task is reached, and the scheduler stops**: after finitely many rounds the
queue is empty, and the tasks returned are those that can be reached from the start
nodes, which are all tasks. -/
theorem drains (represents : graph.Represents g standsFor) :
    ∃ k r, run graph k = .ok r ∧ r.scheduler.taskQueue = [] ∧
      (∀ key, key ∈ r.returned.map Prod.fst ↔ g.Reachable key) ∧
        ∀ key, key ∈ r.returned.map Prod.fst ↔ key ∈ g.tasks := by
  obtain ⟨served, serves⟩ := exists_exhausted represents
  refine ⟨_, _, run_eq_ok.mpr ⟨served, [], serves, rfl, rfl⟩, rfl, fun key => ?_, fun key => ?_⟩
  · rw [TaskDependencies.reachable_iff]
    exact mem_served represents serves
  · exact mem_served represents serves

/-- The graph with a join is drained. -/
theorem drains_joinGraph :
    ∃ k r, run JoinTask.graph k = .ok r ∧ r.scheduler.taskQueue = [] ∧
      (∀ key, key ∈ r.returned.map Prod.fst ↔ JoinTask.dependencies.Reachable key) ∧
        ∀ key, key ∈ r.returned.map Prod.fst ↔ key ∈ JoinTask.dependencies.tasks :=
  drains JoinTask.represents

/-- A task with one predecessor at most is queued once, while its predecessors are. -/
theorem queued_nodup_of_unique (represents : graph.Represents g standsFor)
    (unique : ∀ u u' v, g.edge u v → g.edge u' v → u = u')
    {served queue : List (String × Node)}
    (serves : Worklist.Serves (successors graph) graph.getStartNodeMap served queue) :
    ((served ++ queue).map Prod.fst).Nodup := by
  induction serves with
  | start => exact represents.start_nodup
  | @round served entry rest before ih =>
      have stands := standsFor_of_serves represents before
      have standsEntry : standsFor entry.2 entry.1 := stands entry (by simp)
      have history : served ++ [entry] ++ (rest ++ successors graph entry) =
          (served ++ entry :: rest) ++ successors graph entry := by simp
      rw [history, List.map_append, List.nodup_append']
      refine ⟨ih, ?_, ?_⟩
      · rw [successors_eq represents standsEntry]
        exact represents.neighbor_nodup _ _ standsEntry
      · intro key hold hnew
        have edge := (mem_successors represents standsEntry).mp hnew
        rw [before.history, List.map_append, List.mem_append, List.mem_map, List.mem_map] at hold
        rcases hold with ⟨start, hstart, rfl⟩ | ⟨next, hnext, rfl⟩
        · exact ((represents.mem_start _).mp (List.mem_map_of_mem hstart)).2 _ edge
        · -- the entry that queued the task before has the key of this one
          obtain ⟨earlier, hearlier, hnext⟩ := List.mem_flatMap.mp hnext
          have edge' := (mem_successors represents
            (stands earlier (List.mem_append_left _ hearlier))).mp (List.mem_map_of_mem hnext)
          have same := unique _ _ _ edge edge'
          rw [List.map_append, List.nodup_append'] at ih
          refine ih.2.2 (List.mem_map_of_mem hearlier) ?_
          rw [← same]
          simp

/-- **When tasks are queued once**: no task is ever queued twice exactly when no task
has two predecessors. -/
theorem queued_once_iff (represents : graph.Represents g standsFor) :
    (∀ k r, run graph k = .ok r → (r.queued.map Prod.fst).Nodup) ↔
      ∀ u u' v, g.edge u v → g.edge u' v → u = u' := by
  constructor
  · intro once u u' v edge edge'
    by_contra hne
    obtain ⟨served, serves⟩ := exists_exhausted represents
    have stands : ∀ entry ∈ served, standsFor entry.2 entry.1 := fun entry hentry =>
      standsFor_of_serves represents serves entry (List.mem_append_left _ hentry)
    have nodup := once _ _ (run_eq_ok.mpr ⟨served, [], serves, rfl, rfl⟩)
    dsimp only [Recorded.stage] at nodup
    rw [serves.history, List.map_append, List.nodup_append', List.map_flatMap,
      List.nodup_flatMap] at nodup
    -- both predecessors were returned, and each of them queued the task
    obtain ⟨first, hfirst, rfl⟩ :=
      List.mem_map.mp ((mem_served represents serves).mpr (g.source_mem _ _ edge))
    obtain ⟨second, hsecond, rfl⟩ :=
      List.mem_map.mp ((mem_served represents serves).mpr (g.source_mem _ _ edge'))
    have symm : Std.Symm (Function.onFun List.Disjoint
        fun entry => (successors graph entry).map Prod.fst) := ⟨fun _ _ h => h.symm⟩
    have disjoint := nodup.2.1.2.forall hfirst hsecond (fun h => hne (by rw [h]))
    exact disjoint ((mem_successors represents (stands first hfirst)).mpr edge)
      ((mem_successors represents (stands second hsecond)).mpr edge')
  · rintro unique k r hrun
    obtain ⟨served, queue, serves, -, rfl⟩ := run_eq_ok.mp hrun
    exact queued_nodup_of_unique represents unique serves

/-- The graph with a join, on either side. -/
theorem queued_once_iff_joinGraph :
    (∀ k r, run JoinTask.graph k = .ok r → (r.queued.map Prod.fst).Nodup) ↔
      ∀ u u' v, JoinTask.dependencies.edge u v → JoinTask.dependencies.edge u' v → u = u' :=
  queued_once_iff JoinTask.represents

/-- The last task of the graph with a join is queued by both its predecessors. -/
theorem join_queued_twice :
    JoinTask.graph.Represents JoinTask.dependencies (fun task key => task.key = key) ∧
      ∃ r, run JoinTask.graph 3 = .ok r ∧
        r.queued.map Prod.fst = ["first", "join", "second", "join"] ∧
          ¬ (r.queued.map Prod.fst).Nodup := by
  have queued : (run JoinTask.graph 3).map (fun r => r.queued.map Prod.fst) =
      .ok ["first", "join", "second", "join"] := by decide
  obtain ⟨r, hr, hqueued⟩ := Machine.map_eq_ok.mp queued
  refine ⟨JoinTask.represents, r, hr, hqueued, ?_⟩
  rw [hqueued]
  decide

/-- **The order of scheduling.**  A task is a start node, or is first returned after
one of its predecessors has been; and it is first returned after a given predecessor
exactly when the graph lists that one first. -/
theorem returned_after_iff (represents : graph.Represents g standsFor) :
    (∀ k r, run graph k = .ok r → ∀ before v after,
        r.returned.map Prod.fst = before ++ v :: after → v ∉ before →
          g.IsStart v ∨ ∃ u ∈ before, g.edge u v) ∧
      ∀ u v, g.edge u v →
        ((∀ k r, run graph k = .ok r → ∀ before after,
            r.returned.map Prod.fst = before ++ v :: after → v ∉ before → u ∈ before) ↔
          graph.ListsFirst u v) := by
  refine ⟨fun k r hrun before v after hreturned _ => ?_, fun u v edge => ?_⟩
  · obtain ⟨served, queue, serves, -, rfl⟩ := run_eq_ok.mp hrun
    obtain ⟨earlier, rest, hserved, hbefore, hrest⟩ := List.map_eq_append_iff.mp hreturned
    obtain ⟨entry, later, rfl, rfl, -⟩ := List.map_eq_cons_iff.mp hrest
    dsimp only [Recorded.stage] at hserved
    subst hserved hbefore
    rcases serves.origin with hstart | ⟨next, hnext, hentry⟩
    · exact .inl ((represents.mem_start _).mp (List.mem_map_of_mem hstart))
    · have stands := standsFor_of_serves represents serves next (by simp [hnext])
      exact .inr ⟨next.1, List.mem_map_of_mem hnext,
        (mem_successors represents stands).mp (List.mem_map_of_mem hentry)⟩
  · obtain ⟨served, serves⟩ := exists_exhausted represents
    have hv := (mem_served represents serves).mpr (g.target_mem _ _ edge)
    obtain ⟨d, hd⟩ := serves.isPrefix_levels
    have occurs := (hd.map Prod.fst).subset hv
    have order := Worklist.precedes_iff (TaskDependencies.ne_of_edge edge) occurs
    simp only [Worklist.FirstInLevels, level_keys represents] at order
    rw [TaskGraph.ListsFirst, ← order]
    constructor
    · intro after served queue serves
      exact after _ _ (run_eq_ok.mpr ⟨served, queue, serves, rfl, rfl⟩)
    · intro precedes k r hrun
      obtain ⟨served, queue, serves, -, rfl⟩ := run_eq_ok.mp hrun
      exact precedes served queue serves

/-- The graph with a join, on either side. -/
theorem returned_after_iff_joinGraph :
    (∀ k r, run JoinTask.graph k = .ok r → ∀ before v after,
        r.returned.map Prod.fst = before ++ v :: after → v ∉ before →
          JoinTask.dependencies.IsStart v ∨ ∃ u ∈ before, JoinTask.dependencies.edge u v) ∧
      ∀ u v, JoinTask.dependencies.edge u v →
        ((∀ k r, run JoinTask.graph k = .ok r → ∀ before after,
            r.returned.map Prod.fst = before ++ v :: after → v ∉ before → u ∈ before) ↔
          JoinTask.graph.ListsFirst u v) :=
  returned_after_iff JoinTask.represents

/-- The last task of the graph with a join is returned before one of its predecessors. -/
theorem join_returned_early :
    JoinTask.graph.Represents JoinTask.dependencies (fun task key => task.key = key) ∧
      ∃ r, run JoinTask.graph 2 = .ok r ∧ r.returned.map Prod.fst = ["first", "join"] ∧
        JoinTask.dependencies.edge "second" "join" ∧
          ¬ ∀ before after, r.returned.map Prod.fst = before ++ "join" :: after →
            "join" ∉ before → "second" ∈ before := by
  have returned : (run JoinTask.graph 2).map (fun r => r.returned.map Prod.fst) =
      .ok ["first", "join"] := by decide
  obtain ⟨r, hr, hreturned⟩ := Machine.map_eq_ok.mp returned
  refine ⟨JoinTask.represents, r, hr, hreturned,
    show ("second", "join") ∈ JoinTask.edges by decide, fun respects => ?_⟩
  have early := respects ["first"] [] hreturned (by decide)
  revert early
  decide

end FcfsScheduler

end Drachma
