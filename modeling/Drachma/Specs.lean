import Drachma.Fault
import Drachma.Lib.LookupMap

/-!
# Task, module and application specifications

The static description of an application: which reconfigurable regions (RRs) it
has, which module designs (bitstreams) each of them can hold, and which task
types a design performs, how fast and in how many cycles.

Specifications are generic in the type of speeds; the simulator instantiates it
with `Double`.
-/

namespace Drachma

open Machine (LookupMap)

/-- What a module design needs for one task type. -/
structure TaskSpec (S : Type) where
  regionId : ℕ
  moduleId : ℕ
  typeId : String
  speed : S
  cycles : ℕ
deriving DecidableEq, Repr

/-- A module design for one region, with the tasks it implements. -/
structure ModuleSpec (S : Type) where
  regionId : ℕ
  id : ℕ
  bitstreamWidth : ℕ
  tasks : List (TaskSpec S)
deriving DecidableEq, Repr

/-- `moduleSpec()`: a value-initialised specification. -/
def ModuleSpec.default (S : Type) : ModuleSpec S :=
  { regionId := 0, id := 0, bitstreamWidth := 0, tasks := [] }

/-- `map[rr_id][module_id]` with the module specifications. -/
abbrev RrSpecMap (S : Type) := LookupMap ℕ (LookupMap ℕ (ModuleSpec S))

/-- `map[task_type_id][rr_id]` with lists of module ids. -/
abbrev TaskRrLookupMap := LookupMap String (LookupMap ℕ (List ℕ))

/-- `map[rr_id]` with bitstream sizes in bytes. -/
abbrev BitstreamSizeMap := LookupMap ℕ ℕ

/-- `getSpecForTaskFromBs`: the first task of the bitstream with the wanted type. -/
def getSpecForTaskFromBs (bitstream : ModuleSpec Double) (taskId : String) :
    Exec (TaskSpec Double) :=
  match bitstream.tasks.find? fun task => task.typeId == taskId with
  | some task => .ok task
  | none => .error (.runtimeError "Expected task spec was not present in module spec.")

/-- The task scheduling algorithms. -/
inductive TaskSchedulingType
  | fcfs
deriving DecidableEq, Repr

/-- The RR selection policies. -/
inductive RrSelectionType
  | lftFe
deriving DecidableEq, Repr

/-- The part of an application file the simulation of an application uses. -/
structure Application where
  icapBusWidth : ℕ
  icapSpeed : Double
  rrSchedulingAlg : RrSelectionType
  rrSpecMap : RrSpecMap Double
  simulatorSpeed : Double
  taskSchedulingAlg : TaskSchedulingType

namespace Application

/-- One region's entry of `getRrBitstreamSizes`: its first module's width. -/
def addBitstreamSize (sizes : BitstreamSizeMap)
    (rr : ℕ × LookupMap ℕ (ModuleSpec Double)) : Exec BitstreamSizeMap :=
  match rr.2.entries with
  | [] => .error (.runtimeError "Target RR has no modules to draw data from.")
  | (_, spec) :: _ => .ok (sizes.insert rr.1 spec.bitstreamWidth)

/-- `getRrBitstreamSizes`. -/
def getRrBitstreamSizes (app : Application) : Exec BitstreamSizeMap :=
  app.rrSpecMap.entries.foldlM addBitstreamSize .empty

/-- One module's entries of `getRrTaskCapabilites`: its id is appended under
every task type it lists. -/
def addModuleCapabilities {S : Type} (rrId : ℕ) (capabilities : TaskRrLookupMap)
    (module : ℕ × ModuleSpec S) : Exec TaskRrLookupMap :=
  if module.2.tasks = [] then
    .error (.runtimeError "Target module doesn't support any tasks.")
  else
    .ok <| module.2.tasks.foldl
      (fun caps task =>
        caps.alter task.typeId .empty fun rrs =>
          rrs.alter rrId [] fun ids => ids ++ [module.1])
      capabilities

/-- One region's entries of `getRrTaskCapabilites`. -/
def addRrCapabilities {S : Type} (capabilities : TaskRrLookupMap)
    (rr : ℕ × LookupMap ℕ (ModuleSpec S)) : Exec TaskRrLookupMap :=
  if rr.2.entries = [] then
    .error (.runtimeError "Target RR has no modules to draw data from.")
  else
    rr.2.entries.foldlM (addModuleCapabilities rr.1) capabilities

/-- `getRrTaskCapabilites`, on the specification map it reads. -/
def getRrTaskCapabilites {S : Type} (rrSpecMap : RrSpecMap S) : Exec TaskRrLookupMap :=
  rrSpecMap.entries.foldlM addRrCapabilities .empty

/-- A bitstream of region 0, for one task type. -/
def oneRegionBs : ModuleSpec Double :=
  { regionId := 0, id := 7, bitstreamWidth := 4
    tasks := [{ regionId := 0, moduleId := 7, typeId := "a", speed := 1, cycles := 2 }] }

/-- The smallest application: one region, with one module for one task type. -/
def oneRegion : Application :=
  { icapBusWidth := 32
    icapSpeed := 1
    rrSchedulingAlg := .lftFe
    rrSpecMap := ⟨[(0, ⟨[(7, oneRegionBs)], by decide⟩)], by decide⟩
    simulatorSpeed := 1
    taskSchedulingAlg := .fcfs }

end Application

end Drachma
