import Drachma.Scheduler
import Drachma.Specs
import Drachma.Lib.PriorityQueue

/-!
# Bitstream selection

`LftFeSelector` answers the question "which bitstream shall run this task?" in
two stages: the least flexible RR that can run the task's type and is not
executing, and in that RR the fastest bitstream that implements the type.  Both
stages read priority queues that are built once, when the selector is
constructed.

The functions that build the queues are generic in the type of speeds.
-/

namespace Drachma

open Machine (LookupMap PriorityQueue)

/-- `max_pair_compare`. -/
def maxPairCompare {S : Type} [LinearOrder S] (left right : ℕ × S) : Bool :=
  decide (left.2 > right.2)

/-- `min_pair_compare`. -/
def minPairCompare {S : Type} [LinearOrder S] (left right : ℕ × S) : Bool :=
  decide (left.2 < right.2)

/-- `fastedSpeedMaxPq_t`, of pairs of a bitstream id and a speed. -/
abbrev FastedSpeedMaxPq (S : Type) [LinearOrder S] :=
  PriorityQueue (maxPairCompare (S := S))

/-- `lfRrModuleMinPq_t`, of pairs of an RR id and a flexibility. -/
abbrev LfRrModuleMinPq := PriorityQueue (minPairCompare (S := ℕ))

/-- `bsSpeedMap_t`. -/
abbrev BsSpeedMap (S : Type) [LinearOrder S] :=
  LookupMap String (LookupMap ℕ (FastedSpeedMaxPq S))

/-- `lfRrMap_t`. -/
abbrev LfRrMap := LookupMap String LfRrModuleMinPq

/-- `rrFlexabilityMap_t`. -/
abbrev RrFlexabilityMap := LookupMap ℕ ℕ

/-- `getBsSpeedMap`: for every task type and RR, the speeds of the bitstreams. -/
def getBsSpeedMap {S : Type} [LinearOrder S] (rrSpecMap : RrSpecMap S) : BsSpeedMap S :=
  rrSpecMap.entries.foldl (fun speeds rr =>
    rr.2.entries.foldl (fun speeds module =>
      module.2.tasks.foldl (fun speeds task =>
        speeds.alter task.typeId .empty fun rrs =>
          rrs.alter rr.1 .empty fun queue => queue.push (module.1, task.speed))
        speeds)
      speeds)
    .empty

/-- The task types that occur in a region's modules, each once. -/
def uniqueTaskTypes {S : Type} (modules : LookupMap ℕ (ModuleSpec S)) :
    LookupMap String Unit :=
  modules.entries.foldl (fun types module =>
    module.2.tasks.foldl (fun types task => types.insert task.typeId ()) types) .empty

/-- `getRrTaskFlexabilies`: the number of task types each RR can host. -/
def getRrTaskFlexabilies {S : Type} (rrSpecMap : RrSpecMap S) : RrFlexabilityMap :=
  rrSpecMap.entries.foldl
    (fun flexabilies rr => flexabilies.insert rr.1 (uniqueTaskTypes rr.2).size) .empty

/-- One task type's queue of `getLftRrMap`. -/
def lftRrQueue (flexabilies : RrFlexabilityMap) (rrs : LookupMap ℕ (List ℕ)) :
    Exec LfRrModuleMinPq :=
  rrs.entries.foldlM (fun queue rr => do
    let flexability ← lookupAt (flexabilies.find? rr.1)
    return queue.push (rr.1, flexability)) .empty

/-- `getLftRrMap`: for every task type, the capable RRs by flexibility. -/
def getLftRrMap {S : Type} (rrSpecMap : RrSpecMap S) (bsCapabilites : TaskRrLookupMap) :
    Exec LfRrMap :=
  bsCapabilites.entries.foldlM (fun lfRr capable => do
    let queue ← lftRrQueue (getRrTaskFlexabilies rrSpecMap) capable.2
    return lfRr.insert capable.1 queue) .empty

/-- `lftFeSelector`; the simulator's own has speeds of type `Double`. -/
structure LftFeSelector (S : Type := Double) [LinearOrder S] where
  bsSpeedMap : BsSpeedMap S
  rrSpecMap : RrSpecMap S
  taskLftRrMap : LfRrMap

namespace LftFeSelector

variable {n : ℕ} {Node : Type} [GraphNode Node] {S : Type} [LinearOrder S]

/-- The constructor. -/
def new (bsCapabilites : TaskRrLookupMap) (rrSpecMap : RrSpecMap S) :
    Exec (LftFeSelector S) := do
  let taskLftRrMap ← getLftRrMap rrSpecMap bsCapabilites
  return { bsSpeedMap := getBsSpeedMap rrSpecMap, rrSpecMap, taskLftRrMap }

/-- The loop of `getRrForTask`: pop RRs until one is not executing.  `fuel`
bounds the number of pops; the queue's size is always enough. -/
def firstIdleRr (exeBus : Bus n Bool) : ℕ → LfRrModuleMinPq → Exec (Bool × ℕ)
  | 0, _ => .ok (false, 0)
  | fuel + 1, queue =>
      match queue.top? with
      | none => .ok (false, 0)
      | some (rrId, _) => do
          let busy ← exeBus.read rrId
          if busy then firstIdleRr exeBus fuel queue.pop else .ok (true, rrId)

/-- `getRrForTask`: whether an RR was found, and which. -/
def getRrForTask (s : LftFeSelector S) (task : Node) (exeBus : Bus n Bool) :
    Exec (Bool × ℕ) := do
  let typeId ← getTaskTypeId task
  match s.taskLftRrMap.find? typeId with
  | none => .error (.userError "Task encountered without bitstream able to handle it.")
  | some queue => firstIdleRr exeBus queue.size queue

/-- `getBitstreamForTask`: whether a bitstream was found, and which. -/
def getBitstreamForTask (s : LftFeSelector S) (task : Node) (exeBus : Bus n Bool) :
    Exec (Bool × ModuleSpec S) := do
  let choice ← s.getRrForTask task exeBus
  if choice.1 then
    let typeId ← getTaskTypeId task
    let rrs ← lookupAt (s.bsSpeedMap.find? typeId)
    let speeds ← lookupAt (rrs.find? choice.2)
    let top ← (match speeds.top? with
      | some top => .ok top
      | none => .error .emptyContainer : Exec (ℕ × S))
    let modules ← lookupAt (s.rrSpecMap.find? choice.2)
    let bitstream ← lookupAt (modules.find? top.1)
    return (true, bitstream)
  else
    return (false, ModuleSpec.default S)

/-! ## Two regions -/

/-- Region 0 has two modules for the type "a", the slower one first; region 1 has a
module for "a" and "b". -/
def twoSpeeds : RrSpecMap Double :=
  ⟨[(0, ⟨[
      (7, { regionId := 0, id := 7, bitstreamWidth := 4
            tasks := [{ regionId := 0, moduleId := 7, typeId := "a", speed := 1, cycles := 2 }] }),
      (8, { regionId := 0, id := 8, bitstreamWidth := 4
            tasks := [{ regionId := 0, moduleId := 8, typeId := "a", speed := 2, cycles := 2 }] })],
      by decide⟩),
    (1, ⟨[
      (9, { regionId := 1, id := 9, bitstreamWidth := 4
            tasks := [{ regionId := 1, moduleId := 9, typeId := "a", speed := 1, cycles := 2 },
              { regionId := 1, moduleId := 9, typeId := "b", speed := 1, cycles := 2 }] })],
      by decide⟩)],
    by decide⟩

end LftFeSelector

/-- An application with these regions. -/
def Application.twoRegions : Application :=
  { Application.oneRegion with rrSpecMap := LftFeSelector.twoSpeeds }

end Drachma
