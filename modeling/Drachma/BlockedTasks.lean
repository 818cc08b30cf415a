import Drachma.TaskCounts

/-!
# Preparing and blocking

A task leaves the front of the queue in one of two ways: `prepareNextTask` queues its
successors, and `blockCurrentTask` files it with the blocked tasks, from which nothing
takes it back.  The PRC calls the first only, but the scheduler offers both, in any
order.

What has been queued is what was queued at first and the successors of the tasks that
were prepared.  So blocking a task can only keep others from being queued, and however
the two calls alternate, the queue runs empty.

## Main results

* `FcfsScheduler.Accounts` — what any sequence of calls leaves.
* `FcfsScheduler.accounts_of_trace` — it does.
-/

namespace Drachma

open Machine (LookupMap)

namespace FcfsScheduler

/-- The calls that take the current task off the queue. -/
inductive Call
  | prepareNextTask
  | blockCurrentTask
deriving DecidableEq, Repr

variable {Node : Type} [GraphNode Node]

/-- The scheduler after a call. -/
def call (c : Call) (s : FcfsScheduler Node) : Exec (FcfsScheduler Node) :=
  match c with
  | .prepareNextTask => s.prepareNextTask
  | .blockCurrentTask => s.blockCurrentTask

/-- The entries the first `N` calls take off the queue, each with its call. -/
def log (calls : ℕ → Call) (states : ℕ → FcfsScheduler Node) (N : ℕ) :
    List ((String × Node) × Call) :=
  (List.range N).filterMap fun k => (states k).taskQueue.head?.map fun entry => (entry, calls k)

/-- The entries that were taken by call `c`. -/
def takenBy (c : Call) (log : List ((String × Node) × Call)) : List (String × Node) :=
  (log.filter fun x => x.2 = c).map Prod.fst

/-- Every entry that was in the queue: those that were taken, and those that are left. -/
def queued (calls : ℕ → Call) (states : ℕ → FcfsScheduler Node) (N : ℕ) : List (String × Node) :=
  (log calls states N).map Prod.fst ++ (states N).taskQueue

/-- What `N` calls leave of the tasks of a graph. -/
structure Accounts (graph : TaskGraph Node) (g : TaskDependencies) (calls : ℕ → Call)
    (states : ℕ → FcfsScheduler Node) (N : ℕ) : Prop where
  /-- First come, first served: the queue was filled in the order of the preparations. -/
  order : queued calls states N =
    graph.getStartNodeMap ++ (takenBy .prepareNextTask (log calls states N)).flatMap neighbors
  /-- The blocked tasks are listed in the order in which they were blocked. -/
  blocked : (states N).blockedTasks =
    (takenBy .blockCurrentTask (log calls states N)).map Prod.snd
  /-- Under a key, the map has the task that was blocked first. -/
  blockedMap : ∀ key, (states N).blockedTasksMap.find? key =
    (takenBy .blockCurrentTask (log calls states N)).lookup key
  /-- A task is queued iff it is a start task, or a predecessor has been prepared. -/
  mem_iff : ∀ key, key ∈ (queued calls states N).map Prod.fst ↔ g.IsStart key ∨
    ∃ u ∈ (takenBy .prepareNextTask (log calls states N)).map Prod.fst, g.edge u key
  /-- It is not queued more often than there are walks to it. -/
  perWalk : ∀ key, ((queued calls states N).map Prod.fst).count key ≤ Nat.card (g.Walk key)
  /-- There are not more calls than walks. -/
  ends : N ≤ ∑ key ∈ g.tasks, Nat.card (g.Walk key)

/-! ## One call -/

variable {s s' : FcfsScheduler Node} {c : Call} {entry : String × Node}

/-- What a call does, if there is a task in the queue. -/
theorem call_eq_ok :
    call c s = .ok s' ↔ ∃ entry rest, s.taskQueue = entry :: rest ∧
      s' = match c with
        | .prepareNextTask => { s with taskQueue := rest ++ s.newSuccessors entry.2 }
        | .blockCurrentTask =>
            { s with
              taskQueue := rest
              blockedTasks := s.blockedTasks ++ [entry.2]
              blockedTasksMap := s.blockedTasksMap.alter entry.1 entry.2 id } := by
  cases c with
  | prepareNextTask =>
      unfold call
      rw [prepareNextTask_eq_ok]
      constructor
      · rintro ⟨key, task, rest, queue, h⟩
        exact ⟨(key, task), rest, queue, h⟩
      · rintro ⟨⟨key, task⟩, rest, queue, h⟩
        exact ⟨key, task, rest, queue, h⟩
  | blockCurrentTask =>
      unfold call blockCurrentTask front removeCurrentTask
      cases queue : s.taskQueue with
      | nil =>
          constructor
          · intro h
            cases h
          · rintro ⟨entry, rest, h, -⟩
            cases h
      | cons entry rest =>
          constructor
          · intro h
            exact ⟨entry, rest, rfl, (Except.ok.inj h).symm⟩
          · rintro ⟨entry', rest', h, rfl⟩
            cases h
            rfl

omit [GraphNode Node] in
theorem log_succ {calls : ℕ → Call} {states : ℕ → FcfsScheduler Node} {k : ℕ}
    {rest : List (String × Node)} (queue : (states k).taskQueue = entry :: rest) :
    log calls states (k + 1) = log calls states k ++ [(entry, calls k)] := by
  unfold log
  rw [List.range_succ, List.filterMap_append]
  simp [queue]

omit [GraphNode Node] in
theorem takenBy_concat (entries : List ((String × Node) × Call)) (c' : Call) :
    takenBy c (entries ++ [(entry, c')]) =
      takenBy c entries ++ if c' = c then [entry] else [] := by
  unfold takenBy
  rw [List.filter_append, List.map_append]
  by_cases same : c' = c
  · simp [same]
  · simp [same]

omit [GraphNode Node] in
theorem takenBy_sublist (entries : List ((String × Node) × Call)) :
    (takenBy c entries).Sublist (entries.map Prod.fst) :=
  List.filter_sublist.map _

/-! ## Sequences of calls -/

section Represents

variable {graph : TaskGraph Node} {g : TaskDependencies} {standsFor : Node → String → Prop}
  (represents : graph.Represents g standsFor)
  {calls : ℕ → Call} {states : ℕ → FcfsScheduler Node} {N : ℕ}

/-- The invariant of a sequence of calls. -/
structure CallInv (graph : TaskGraph Node) (standsFor : Node → String → Prop)
    (entries : List ((String × Node) × Call)) (s : FcfsScheduler Node) : Prop where
  history : entries.map Prod.fst ++ s.taskQueue =
    graph.getStartNodeMap ++ (takenBy .prepareNextTask entries).flatMap neighbors
  blocked : s.blockedTasks = (takenBy .blockCurrentTask entries).map Prod.snd
  blockedMap : s.blockedTasksMap = (takenBy .blockCurrentTask entries).foldl
    (fun m entry => m.alter entry.1 entry.2 id) .empty
  lookup : s.taskQueueLookup = (initializeQueue graph).taskQueueLookup
  stands : ∀ entry ∈ entries.map Prod.fst ++ s.taskQueue, standsFor entry.2 entry.1

include represents

theorem CallInv.start : CallInv graph standsFor [] (.initializeQueue graph) where
  history := (List.append_nil graph.getStartNodeMap).symm
  blocked := rfl
  blockedMap := rfl
  lookup := rfl
  stands := represents.start_standsFor

/-- What is queued for a task that is prepared: no successor is held back. -/
theorem CallInv.newSuccessors_eq {entries : List ((String × Node) × Call)}
    (inv : CallInv graph standsFor entries s) (stands : standsFor entry.2 entry.1) :
    s.newSuccessors entry.2 = neighbors entry := by
  rw [← successors_eq represents stands]
  unfold successors newSuccessors
  rw [inv.lookup]

/-- **The step lemma.** -/
theorem CallInv.step {entries : List ((String × Node) × Call)} {rest : List (String × Node)}
    (inv : CallInv graph standsFor entries s) (queue : s.taskQueue = entry :: rest)
    (h : call c s = .ok s') : CallInv graph standsFor (entries ++ [(entry, c)]) s' := by
  obtain ⟨entry', rest', queue', rfl⟩ := call_eq_ok.mp h
  cases queue.symm.trans queue'
  have history := inv.history
  have stands := inv.stands
  rw [queue] at history stands
  have here : standsFor entry.2 entry.1 := stands entry (by simp)
  have taken : (entries ++ [(entry, c)]).map Prod.fst ++ rest =
      entries.map Prod.fst ++ entry :: rest := by simp
  cases c with
  | prepareNextTask =>
      have new := inv.newSuccessors_eq represents here
      refine ⟨?_, ?_, ?_, inv.lookup, ?_⟩
      · dsimp only
        rw [new, ← List.append_assoc, taken, history, takenBy_concat, if_pos rfl,
          List.flatMap_append, List.flatMap_singleton, List.append_assoc]
      · rw [takenBy_concat, if_neg nofun, List.append_nil]
        exact inv.blocked
      · rw [takenBy_concat, if_neg nofun, List.append_nil]
        exact inv.blockedMap
      · dsimp only
        rw [new, ← List.append_assoc, taken]
        intro later mem
        rcases List.mem_append.mp mem with mem | mem
        · exact stands later mem
        · exact represents.neighbor_standsFor _ _ here later mem
  | blockCurrentTask =>
      refine ⟨?_, ?_, ?_, inv.lookup, ?_⟩
      · dsimp only
        rw [taken, history, takenBy_concat, if_neg nofun, List.append_nil]
      · rw [takenBy_concat, if_pos rfl, List.map_append, ← inv.blocked]
        rfl
      · rw [takenBy_concat, if_pos rfl, List.foldl_append, ← inv.blockedMap]
        rfl
      · dsimp only
        rw [taken]
        exact stands

/-- The run lemma. -/
theorem callInv_of_trace (trace : Machine.Trace call calls (.initializeQueue graph) N states) :
    ∀ k ≤ N, CallInv graph standsFor (log calls states k) (states k) ∧
      (log calls states k).length = k := by
  refine trace.invariant (P := fun k s =>
    CallInv graph standsFor (log calls states k) s ∧ (log calls states k).length = k)
      ⟨.start represents, rfl⟩ ?_
  rintro k hk ⟨inv, length⟩ hstep
  obtain ⟨entry, rest, queue, -⟩ := call_eq_ok.mp hstep
  rw [log_succ queue, List.length_append, length]
  exact ⟨inv.step represents queue hstep, rfl⟩

/-- **Whatever is prepared and blocked**, tasks are served in the order in which they were
queued, and the queue runs empty. -/
theorem accounts_of_trace (trace : Machine.Trace call calls (.initializeQueue graph) N states) :
    Accounts graph g calls states N := by
  obtain ⟨inv, length⟩ := callInv_of_trace represents trace N le_rfl
  obtain ⟨history, blocked, blockedMap, -, stands⟩ := inv
  have taken := (takenBy_sublist (c := .prepareNextTask) (log calls states N)).trans
    (List.sublist_append_left _ (states N).taskQueue)
  have stands' : ∀ entry ∈ takenBy .prepareNextTask (log calls states N),
      standsFor entry.2 entry.1 := fun entry mem => stands entry (taken.subset mem)
  have perWalk : ∀ key,
      ((queued calls states N).map Prod.fst).count key ≤ Nat.card (g.Walk key) :=
    Machine.Worklist.count_le_card g.acc_predecessor represents.start_nodup
      represents.mem_start history taken
      (fun entry mem => represents.neighbor_nodup _ _ (stands' entry mem))
      (fun entry mem => represents.mem_neighbor _ _ (stands' entry mem))
  refine ⟨history, blocked, fun key => ?_, fun key => ?_, perWalk, ?_⟩
  · -- a key that is in the map keeps its task
    rw [blockedMap, LookupMap.find?_foldl_keep Prod.snd]
    cases (takenBy .blockCurrentTask (log calls states N)).lookup key <;> rfl
  · unfold queued
    rw [history, List.map_append, List.mem_append, represents.mem_start, List.map_flatMap,
      List.mem_flatMap]
    refine or_congr_right ?_
    constructor
    · rintro ⟨entry, mem, next⟩
      exact ⟨entry.1, List.mem_map_of_mem mem,
        (represents.mem_neighbor _ _ (stands' entry mem) key).mp next⟩
    · rintro ⟨u, mem, edge⟩
      obtain ⟨entry, taken', rfl⟩ := List.mem_map.mp mem
      exact ⟨entry, taken', (represents.mem_neighbor _ _ (stands' entry taken') key).mpr edge⟩
  · -- every call has taken a task, which was queued for one of the walks to it
    have keys : ∀ key ∈ (queued calls states N).map Prod.fst, key ∈ g.tasks := by
      intro key mem
      have positive := (List.count_pos_iff.mpr mem).trans_le (perWalk key)
      exact g.mem_tasks_of_walk (Nat.card_pos_iff.mp positive).1.some
    have bound := Machine.Worklist.length_le_of_count_le keys perWalk
    unfold queued at bound
    rw [List.length_map, List.length_append, List.length_map, length] at bound
    exact (Nat.le_add_right _ _).trans bound

end Represents

/-- The second call blocks, the others prepare. -/
def blockSecond (k : ℕ) : Call := if k = 1 then .blockCurrentTask else .prepareNextTask

/-- The task that is listed first is blocked, and queued again by the other one. -/
theorem accounts_of_trace_joinGraph :
    ∃ states, Machine.Trace call blockSecond (.initializeQueue JoinTask.graph) 4 states ∧
      (states 4).taskQueue = [] ∧ (states 4).blockedTasks = [.join] ∧
        Accounts JoinTask.graph JoinTask.dependencies blockSecond states 4 := by
  obtain ⟨states, trace⟩ := Machine.Trace.exists_of_isOk
    (show (Machine.run call blockSecond (.initializeQueue JoinTask.graph) 4).isOk = true from rfl)
  refine ⟨states, trace, ?_, ?_, accounts_of_trace JoinTask.represents trace⟩
  · exact trace.observe (f := FcfsScheduler.taskQueue) (by omega) rfl
  · exact trace.observe (f := FcfsScheduler.blockedTasks) (by omega) rfl

end FcfsScheduler

end Drachma
