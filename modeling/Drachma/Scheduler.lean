import Drachma.Fault
import Drachma.Lib.LookupMap
import Drachma.Lib.PartialRun

/-!
# Task graphs and the task scheduler

The graph library is not part of the simulator.  What the simulator calls of it
is an interface here: a node's metadata and its traversable neighbours, and a
graph's start nodes, the two maps in the order a loop visits them.

`FcfsScheduler` is the first-come-first-serve scheduler: a queue of keyed nodes,
the lookup of keys that were start nodes, and the blocked tasks, as a list and under
their keys.
-/

namespace Drachma

open Machine (LookupMap)

/-- `nallj::graphNode`, as far as the simulator uses it. -/
class GraphNode (Node : Type) where
  getMetadata : Node → List (String × String)
  getTraversableNeighborMap : Node → List (String × Node)

/-- `nallj::graph`, as far as the simulator uses it. -/
structure TaskGraph (Node : Type) where
  getStartNodeMap : List (String × Node)

/-- A node without neighbours, of a given task type: the node of a graph of
independent tasks. -/
structure LoneTask where
  type : String
deriving DecidableEq, Repr

instance : GraphNode LoneTask where
  getMetadata task := [("type", task.type)]
  getTraversableNeighborMap _ := []

/-- `getTaskTypeId`: the "type" entry of a task's metadata. -/
def getTaskTypeId {Node : Type} [GraphNode Node] (task : Node) : Exec String :=
  lookupAt ((GraphNode.getMetadata task).lookup "type")

/-- `fcfsScheduler`. -/
structure FcfsScheduler (Node : Type) where
  taskQueue : List (String × Node)
  taskQueueLookup : List String
  blockedTasks : List Node
  blockedTasksMap : LookupMap String Node

namespace FcfsScheduler

variable {Node : Type}

/-- `initialize`: put all start nodes in the queue, and record their keys. -/
def initializeQueue (graph : TaskGraph Node) : FcfsScheduler Node :=
  { taskQueue := graph.getStartNodeMap
    taskQueueLookup := graph.getStartNodeMap.map Prod.fst
    blockedTasks := []
    blockedTasksMap := .empty }

/-- `task_queue_.front()`. -/
def front (s : FcfsScheduler Node) : Exec (String × Node) :=
  match s.taskQueue with
  | [] => .error .emptyContainer
  | entry :: _ => .ok entry

/-- `getCurrentTask`. -/
def getCurrentTask (s : FcfsScheduler Node) : Exec Node := do
  let entry ← s.front
  return entry.2

/-- `removeCurrentTask`. -/
def removeCurrentTask (s : FcfsScheduler Node) : Exec (FcfsScheduler Node) :=
  match s.taskQueue with
  | [] => .error .emptyContainer
  | _ :: rest => .ok { s with taskQueue := rest }

/-- `blockCurrentTask`: move the front task from the queue to the blocked list.  In the
map, `emplace` keeps the task that was blocked first under its key. -/
def blockCurrentTask (s : FcfsScheduler Node) : Exec (FcfsScheduler Node) := do
  let entry ← s.front
  let s := { s with
    blockedTasks := s.blockedTasks ++ [entry.2]
    blockedTasksMap := s.blockedTasksMap.alter entry.1 entry.2 id }
  s.removeCurrentTask

theorem getCurrentTask_eq_ok {s : FcfsScheduler Node} {task : Node} :
    s.getCurrentTask = .ok task ↔ ∃ key rest, s.taskQueue = (key, task) :: rest := by
  unfold getCurrentTask front
  cases s.taskQueue with
  | nil => simp
  | cons entry rest =>
      constructor
      · intro h; cases h; exact ⟨entry.1, rest, rfl⟩
      · rintro ⟨key, rest', h⟩; cases h; rfl

variable [GraphNode Node]

/-- The successors `prepareNextTask` adds: those whose key is not in the lookup. -/
def newSuccessors (s : FcfsScheduler Node) (task : Node) : List (String × Node) :=
  (GraphNode.getTraversableNeighborMap task).filter fun entry =>
    !s.taskQueueLookup.contains entry.1

/-- `prepareNextTask`: queue the successors of the current task, then remove it.
The lookup is consulted but not extended. -/
def prepareNextTask (s : FcfsScheduler Node) : Exec (FcfsScheduler Node) := do
  let task ← s.getCurrentTask
  let s := { s with taskQueue := s.taskQueue ++ s.newSuccessors task }
  s.removeCurrentTask

/-- The keys of the tasks the scheduler still holds, queued or blocked. -/
def heldKeys (s : FcfsScheduler Node) : List String :=
  s.taskQueue.map Prod.fst ++ s.blockedTasksMap.keys

/-- What a scheduling step does: it needs a queued task, removes the first one
and queues its new successors at the back. -/
theorem prepareNextTask_eq_ok {s s' : FcfsScheduler Node} :
    s.prepareNextTask = .ok s' ↔
      ∃ key task rest, s.taskQueue = (key, task) :: rest ∧
        s' = { s with taskQueue := rest ++ s.newSuccessors task } := by
  unfold prepareNextTask
  simp only [Machine.bind_eq_ok, getCurrentTask_eq_ok]
  constructor
  · rintro ⟨task, ⟨key, rest, hq⟩, h⟩
    simp only [removeCurrentTask, hq, List.cons_append] at h
    exact ⟨key, task, rest, hq, (Except.ok.inj h).symm⟩
  · rintro ⟨key, task, rest, hq, rfl⟩
    exact ⟨task, ⟨key, rest, hq⟩, by simp only [removeCurrentTask, hq, List.cons_append]⟩

end FcfsScheduler

end Drachma
