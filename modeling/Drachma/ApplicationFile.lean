import Drachma.Capabilities
import Drachma.FileHandler
import Drachma.Simulation
import Mathlib.Order.Bounds.Basic

/-!
# Application files

An application file is a YAML document.  `decode` reads the regions with their modules
off it, one node after the other, and keeps a running maximum of the speeds of the tasks.

What `decode` calls of the YAML library is `YamlNode`.  A module node whose region and id
have occurred before replaces the module that was stored under them, whose tasks have
then already been counted; and the running maximum starts from a variable that is not
initialised, for which `raw` stands.

## Main results

* `YamlNode.spec_of_decode` — the specifications and the speed, read off the modules that
  the document declares.
* `YamlNode.find2?_storeModules` — the module that is stored is the last one declared.
* `YamlNode.simulatorSpeed_isFastest_iff` — when the simulator has the speed of the
  fastest task.
-/

namespace Drachma

open Machine (LookupMap bind_eq_ok)

/-- What `decode` calls of the YAML library. -/
class YamlNode (Node : Type) where
  /-- `node[key]`. -/
  get : Node → String → Except LoadError Node
  /-- The nodes that a loop over a node visits. -/
  items : Node → List Node
  /-- `node.as<std::string>()`. -/
  asString : Node → Except LoadError String
  /-- `node.as<double>()`. -/
  asDouble : Node → Except LoadError Double
  /-- `node.as<unsigned>()`. -/
  asUnsigned : Node → Except LoadError ℕ

/-- The application that `decode` fills in. -/
structure ApplicationFile extends Application where
  name : String
  prcSpeed : Double
  staticRegionSpeed : Double
  staticModules : LookupMap ℕ ℕ

/-- `getTasktaskSchedulingType`. -/
def getTaskSchedulingType (str : String) : Except LoadError TaskSchedulingType :=
  if str = "fcfs" then .ok .fcfs
  else .error (.userError "Invalid task scheduling algorithm specified.")

/-- `getrrSelectionAlgPolicyType`. -/
def getRrSelectionAlgPolicyType (str : String) : Except LoadError RrSelectionType :=
  if str = "lft" then .ok .lftFe
  else .error (.userError "Invalid PRR scheduling algorithm specified.")

namespace YamlNode

variable {Node : Type} [YamlNode Node]

/-! ## The conversion -/

/-- A round of the loop over the tasks of a module: the fastest speed so far, and the
tasks. -/
def decodeTask (rrId moduleId : ℕ) (acc : Double × List (TaskSpec Double)) (task : Node) :
    Except LoadError (Double × List (TaskSpec Double)) := do
  let speed ← asDouble (← get task "speed")
  let fastestModuleSpeed := if speed > acc.1 then speed else acc.1
  let typeId ← asString (← get task "type")
  let cycles ← asUnsigned (← get task "cycles")
  return (fastestModuleSpeed,
    acc.2 ++ [{ regionId := rrId, moduleId := moduleId, typeId, speed, cycles }])

/-- A round of the loop over the modules of a region. -/
def decodeModule (rrId bitstreamSize : ℕ) (acc : Double × RrSpecMap Double)
    (moduleNode : Node) : Except LoadError (Double × RrSpecMap Double) := do
  let moduleId ← asUnsigned (← get moduleNode "id")
  let (fastestModuleSpeed, tasks) ←
    (items (← get moduleNode "tasks")).foldlM (decodeTask rrId moduleId) (acc.1, [])
  let moduleSpec : ModuleSpec Double :=
    { regionId := rrId, id := moduleId, bitstreamWidth := bitstreamSize, tasks }
  return (fastestModuleSpeed,
    acc.2.alter2 rrId moduleId (.default Double) fun _ => moduleSpec)

/-- A round of the loop over the regions. -/
def decodeRr (acc : Double × RrSpecMap Double) (rrNode : Node) :
    Except LoadError (Double × RrSpecMap Double) := do
  let rrId ← asUnsigned (← get rrNode "id")
  let bitstreamSize ← asUnsigned (← get rrNode "bitstream size")
  (items (← get rrNode "modules")).foldlM (decodeModule rrId bitstreamSize) acc

/-- A round of the loop over the static regions. -/
def decodeSr (srMap : LookupMap ℕ ℕ) (srNode : Node) : Except LoadError (LookupMap ℕ ℕ) := do
  let id ← asUnsigned (← get srNode "id")
  let moduleCount ← asUnsigned (← get srNode "module count")
  return srMap.insert id moduleCount

/-- `convert<application>::decode`; `raw` is what `fastest_module_speed` held. -/
def decode (raw : Double) (node : Node) : Except LoadError ApplicationFile := do
  let name ← asString (← get node "name")
  let icapNode ← get node "ICAP"
  let icapSpeed ← asDouble (← get icapNode "speed")
  let icapBusWidth ← asUnsigned (← get icapNode "width")
  let prcNode ← get node "PRC"
  let prcSpeed ← asDouble (← get prcNode "speed")
  let taskSchedulingType ← asString (← get node "task scheduling")
  let rrSchedulingAlgType ← asString (← get node "rr selection policy")
  let taskSchedulingAlg ← getTaskSchedulingType taskSchedulingType
  let rrSchedulingAlg ← getRrSelectionAlgPolicyType rrSchedulingAlgType
  let staticRegionSpeed ← asDouble (← get node "static region speed")
  let staticModules ← (items (← get node "SRs")).foldlM decodeSr .empty
  let (fastestModuleSpeed, rrSpecMap) ←
    (items (← get node "RRs")).foldlM decodeRr (raw, .empty)
  return {
    name := name
    icapSpeed := icapSpeed
    icapBusWidth := icapBusWidth
    prcSpeed := prcSpeed
    taskSchedulingAlg := taskSchedulingAlg
    rrSchedulingAlg := rrSchedulingAlg
    staticRegionSpeed := staticRegionSpeed
    staticModules := staticModules
    rrSpecMap := rrSpecMap
    simulatorSpeed := fastestModuleSpeed }

/-! ## What a document declares -/

/-- The task of a node. -/
def declaredTask (rrId moduleId : ℕ) (task : Node) : Except LoadError (TaskSpec Double) := do
  let speed ← asDouble (← get task "speed")
  let typeId ← asString (← get task "type")
  let cycles ← asUnsigned (← get task "cycles")
  return { regionId := rrId, moduleId := moduleId, typeId, speed, cycles }

/-- The module of a node. -/
def declaredModule (rrId bitstreamSize : ℕ) (moduleNode : Node) :
    Except LoadError (ModuleSpec Double) := do
  let moduleId ← asUnsigned (← get moduleNode "id")
  let tasks ← (items (← get moduleNode "tasks")).mapM (declaredTask rrId moduleId)
  return { regionId := rrId, id := moduleId, bitstreamWidth := bitstreamSize, tasks }

/-- The modules of a region's node. -/
def declaredRr (rrNode : Node) : Except LoadError (List (ModuleSpec Double)) := do
  let rrId ← asUnsigned (← get rrNode "id")
  let bitstreamSize ← asUnsigned (← get rrNode "bitstream size")
  (items (← get rrNode "modules")).mapM (declaredModule rrId bitstreamSize)

/-- **The modules a document declares**, in its order: one for each module node, with the
bitstream size of the region node it is in. -/
def declaredModules (node : Node) : Except LoadError (List (ModuleSpec Double)) := do
  let rrs ← (items (← get node "RRs")).mapM declaredRr
  return rrs.flatten

/-- The speeds of the tasks of some modules. -/
def taskSpeeds (specs : List (ModuleSpec Double)) : List Double :=
  specs.flatMap fun spec => spec.tasks.map TaskSpec.speed

/-- Some modules, stored one after the other. -/
def storeModules (specs : List (ModuleSpec Double)) : RrSpecMap Double :=
  specs.foldl (fun rrMap spec => rrMap.alter2 spec.regionId spec.id (.default Double)
    fun _ => spec) .empty

/-- The module is declared, and no later module has its region and id. -/
def Kept (specs : List (ModuleSpec Double)) (spec : ModuleSpec Double) : Prop :=
  ∃ before later, specs = before ++ spec :: later ∧
    ∀ other ∈ later, ¬ (other.regionId = spec.regionId ∧ other.id = spec.id)

/-! ## The conversion reads what is declared -/

/-- What a module does to the state of the loops. -/
def addModule (acc : Double × RrSpecMap Double) (spec : ModuleSpec Double) :
    Double × RrSpecMap Double :=
  ((spec.tasks.map TaskSpec.speed).foldl max acc.1,
    acc.2.alter2 spec.regionId spec.id (.default Double) fun _ => spec)

theorem decodeTask_eq (rrId moduleId : ℕ) (acc : Double × List (TaskSpec Double))
    (task : Node) :
    decodeTask rrId moduleId acc task =
      (declaredTask rrId moduleId task).map fun spec =>
        (max acc.1 spec.speed, acc.2 ++ [spec]) := by
  have running : ∀ speed : Double, (if speed > acc.1 then speed else acc.1) = max acc.1 speed :=
    fun speed => (max_def_lt _ _).symm
  unfold decodeTask declaredTask
  simp only [running, Machine.map_bind]
  rfl

/-- The loop over the tasks of a module. -/
theorem foldl_addTask (speed : Double) (specs before : List (TaskSpec Double)) :
    specs.foldl (fun acc spec => (max acc.1 spec.speed, acc.2 ++ [spec])) (speed, before) =
      ((specs.map TaskSpec.speed).foldl max speed, before ++ specs) := by
  induction specs generalizing speed before with
  | nil => rw [List.append_nil]; rfl
  | cons spec specs ih =>
      rw [List.foldl_cons, ih, List.append_assoc]
      rfl

theorem decodeModule_eq (rrId bitstreamSize : ℕ) (acc : Double × RrSpecMap Double)
    (moduleNode : Node) :
    decodeModule rrId bitstreamSize acc moduleNode =
      (declaredModule rrId bitstreamSize moduleNode).map (addModule acc) := by
  unfold decodeModule declaredModule
  simp only [Machine.foldlM_eq_map_mapM (decodeTask_eq _ _), foldl_addTask, List.nil_append,
    Machine.map_bind, Machine.bind_map]
  rfl

theorem decodeRr_eq (acc : Double × RrSpecMap Double) (rrNode : Node) :
    decodeRr acc rrNode = (declaredRr rrNode).map fun specs => specs.foldl addModule acc := by
  unfold decodeRr declaredRr
  simp only [Machine.foldlM_eq_map_mapM (decodeModule_eq _ _), Machine.map_bind]

/-- The loop over the regions. -/
theorem foldlM_decodeRr_eq_ok {nodes : List Node} {acc acc' : Double × RrSpecMap Double}
    (h : nodes.foldlM decodeRr acc = .ok acc') :
    ∃ rrs, nodes.mapM declaredRr = .ok rrs ∧ acc' = rrs.flatten.foldl addModule acc := by
  rw [Machine.foldlM_eq_map_mapM decodeRr_eq] at h
  obtain ⟨rrs, hrrs, rfl⟩ := Machine.map_eq_ok.mp h
  exact ⟨rrs, hrrs, List.foldl_flatten.symm⟩

theorem foldl_addModule (specs : List (ModuleSpec Double)) (acc : Double × RrSpecMap Double) :
    specs.foldl addModule acc =
      ((taskSpeeds specs).foldl max acc.1,
        specs.foldl (fun rrMap spec => rrMap.alter2 spec.regionId spec.id (.default Double)
          fun _ => spec) acc.2) := by
  induction specs generalizing acc with
  | nil => rfl
  | cons spec specs ih =>
      have speeds : taskSpeeds (spec :: specs) =
          spec.tasks.map TaskSpec.speed ++ taskSpeeds specs := List.flatMap_cons
      rw [List.foldl_cons, ih, speeds, List.foldl_append]
      rfl

/-- **What `decode` makes of a document**: it stores the declared modules, and its speed is
the greatest among theirs and what the variable held. -/
theorem spec_of_decode {raw : Double} {node : Node} {app : ApplicationFile}
    (accepted : decode raw node = .ok app) :
    ∃ specs, declaredModules node = .ok specs ∧ app.rrSpecMap = storeModules specs ∧
      app.simulatorSpeed = (taskSpeeds specs).foldl max raw := by
  unfold decode at accepted
  simp only [bind_eq_ok] at accepted
  obtain ⟨_, -, _, -, _, -, _, -, _, -, _, -, _, -, _, -, _, -, _, -, _, -, _, -, _, -, _, -,
    _, -, _, -, _, -, _, -, _, -, _, -, rrsNode, hnode, ⟨speed, rrMap⟩, hrrs, h⟩ := accepted
  obtain ⟨rrs, declared, hacc⟩ := foldlM_decodeRr_eq_ok hrrs
  rw [foldl_addModule] at hacc
  obtain ⟨rfl, rfl⟩ := Prod.mk.inj hacc
  cases h
  refine ⟨rrs.flatten, ?_, rfl, rfl⟩
  unfold declaredModules
  rw [hnode, Machine.ok_bind, declared]
  rfl

theorem stored_of_declared {raw : Double} {node : Node} {app : ApplicationFile}
    {specs : List (ModuleSpec Double)} (accepted : decode raw node = .ok app)
    (declared : declaredModules node = .ok specs) :
    app.rrSpecMap = storeModules specs ∧
      app.simulatorSpeed = (taskSpeeds specs).foldl max raw := by
  obtain ⟨specs', declared', stored⟩ := spec_of_decode accepted
  obtain rfl := Except.ok.inj (declared.symm.trans declared')
  exact stored

/-! ## The modules that are stored -/

/-- **The module that is stored** under two ids is the last one declared with them. -/
theorem find2?_storeModules {specs : List (ModuleSpec Double)} {r id : ℕ}
    {spec : ModuleSpec Double} :
    (storeModules specs).find2? r id = some spec ↔
      spec.regionId = r ∧ spec.id = id ∧ Kept specs spec := by
  unfold storeModules
  rw [LookupMap.find2?_foldl_store, List.getLast?_filter, List.find?_eq_some_iff_append,
    decide_eq_true_eq]
  constructor
  · rintro ⟨⟨rfl, rfl⟩, later, before, hspecs, other⟩
    refine ⟨rfl, rfl, before.reverse, later.reverse, ?_, fun x hx => ?_⟩
    · rw [← List.reverse_reverse specs, hspecs]
      simp
    · have another := other x (List.mem_reverse.mp hx)
      rwa [Bool.not_eq_true', decide_eq_false_iff_not] at another
  · rintro ⟨rfl, rfl, before, later, rfl, other⟩
    refine ⟨⟨rfl, rfl⟩, later.reverse, before.reverse, by simp, fun x hx => ?_⟩
    rw [Bool.not_eq_true', decide_eq_false_iff_not]
    exact other x (List.mem_reverse.mp hx)

theorem kept_iff {specs : List (ModuleSpec Double)} {spec : ModuleSpec Double} :
    Kept specs spec ↔ (storeModules specs).find2? spec.regionId spec.id = some spec := by
  rw [find2?_storeModules]
  exact ⟨fun kept => ⟨rfl, rfl, kept⟩, fun h => h.2.2⟩

theorem holds_storeModules {specs : List (ModuleSpec Double)} {r : ℕ}
    {spec : ModuleSpec Double} :
    (storeModules specs).Holds r spec ↔ spec.regionId = r ∧ Kept specs spec := by
  unfold RrSpecMap.Holds
  simp only [find2?_storeModules]
  constructor
  · rintro ⟨_, region, -, kept⟩
    exact ⟨region, kept⟩
  · rintro ⟨region, kept⟩
    exact ⟨_, region, rfl, kept⟩

theorem Kept.mem {specs : List (ModuleSpec Double)} {spec : ModuleSpec Double}
    (kept : Kept specs spec) : spec ∈ specs := by
  obtain ⟨before, later, rfl, -⟩ := kept
  exact List.mem_append_right _ List.mem_cons_self

/-! ## The speed of the simulator -/

/-- A running maximum. -/
theorem isGreatest_foldl_max (speeds : List Double) (raw : Double) :
    IsGreatest {v | v = raw ∨ v ∈ speeds} (speeds.foldl max raw) := by
  induction speeds generalizing raw with
  | nil =>
      refine ⟨.inl rfl, ?_⟩
      rintro v (rfl | h)
      · exact le_refl _
      · cases h
  | cons speed speeds ih =>
      obtain ⟨reached, bound⟩ := ih (max raw speed)
      refine ⟨?_, ?_⟩
      · rcases reached with h | h
        · rw [List.foldl_cons, h]
          rcases max_choice raw speed with h | h
          · exact .inl h
          · rw [h]
            exact .inr List.mem_cons_self
        · exact .inr (List.mem_cons_of_mem _ h)
      · rintro v (rfl | h)
        · exact (le_max_left _ _).trans (bound (.inl rfl))
        · rcases List.mem_cons.mp h with rfl | h
          · exact (le_max_right _ _).trans (bound (.inl rfl))
          · exact bound (.inr h)

/-- The simulator has the greatest of the speeds of the tasks of the modules stored. -/
def SimulatorSpeedIsFastest (app : ApplicationFile) : Prop :=
  IsGreatest {v | ∃ r spec, app.rrSpecMap.Holds r spec ∧ ∃ task ∈ spec.tasks, task.speed = v}
    app.simulatorSpeed

/-- No declared task is faster than some task of a module that is stored, and the variable
for the fastest speed held nothing greater than its speed. -/
def FastestIsKept (raw : Double) (specs : List (ModuleSpec Double)) : Prop :=
  ∃ spec, Kept specs spec ∧ ∃ task ∈ spec.tasks, raw ≤ task.speed ∧
    ∀ v ∈ taskSpeeds specs, v ≤ task.speed

theorem mem_taskSpeeds {specs : List (ModuleSpec Double)} {spec : ModuleSpec Double}
    (declared : spec ∈ specs) {task : TaskSpec Double} (htask : task ∈ spec.tasks) :
    task.speed ∈ taskSpeeds specs :=
  List.mem_flatMap.mpr ⟨spec, declared, List.mem_map_of_mem htask⟩

/-- **When the simulator has the speed of the fastest task.** -/
theorem simulatorSpeed_isFastest_iff {raw : Double} {node : Node} {app : ApplicationFile}
    (accepted : decode raw node = .ok app) :
    ∃ specs, declaredModules node = .ok specs ∧
      (SimulatorSpeedIsFastest app ↔ FastestIsKept raw specs) := by
  obtain ⟨specs, declared, stored, speed⟩ := spec_of_decode accepted
  obtain ⟨reached, bound⟩ := isGreatest_foldl_max (taskSpeeds specs) raw
  refine ⟨specs, declared, ?_⟩
  unfold SimulatorSpeedIsFastest FastestIsKept
  rw [stored, speed]
  simp only [holds_storeModules]
  constructor
  · rintro ⟨⟨r, spec, ⟨-, kept⟩, task, htask, fastest⟩, -⟩
    rw [← fastest] at bound
    exact ⟨spec, kept, task, htask, bound (.inl rfl), fun v hv => bound (.inr hv)⟩
  · rintro ⟨spec, kept, task, htask, low, all⟩
    have fastest : (taskSpeeds specs).foldl max raw = task.speed := by
      refine le_antisymm ?_ (bound (.inr (mem_taskSpeeds kept.mem htask)))
      rcases reached with h | h
      · rw [h]
        exact low
      · exact all _ h
    rw [fastest]
    refine ⟨⟨_, spec, ⟨rfl, kept⟩, task, htask, rfl⟩, ?_⟩
    rintro v ⟨r, spec', ⟨-, kept'⟩, task', htask', rfl⟩
    exact all _ (mem_taskSpeeds kept'.mem htask')

end YamlNode

/-! ## Documents -/

/-- A document of texts, unsigned numbers, sequences and maps. -/
inductive YamlTree
  | undefined
  | text (value : String)
  | number (value : ℕ)
  | sequence (nodes : List YamlTree)
  | map (entries : List (String × YamlTree))

namespace YamlTree

instance : YamlNode YamlTree where
  get
    | map entries, key => .ok ((entries.lookup key).getD undefined)
    | sequence _, _ => .ok undefined
    | undefined, _ => .error (.exception "invalid node")
    | _, _ => .error (.exception "operator[] call on a scalar")
  items
    | sequence nodes => nodes
    | map entries => entries.map fun _ => undefined
    | _ => []
  asString
    | text value => .ok value
    | number value => .ok (toString value)
    | _ => .error (.exception "bad conversion")
  asDouble
    | number value => .ok value
    | _ => .error (.exception "bad conversion")
  asUnsigned
    | number value =>
        if value < 2 ^ 32 then .ok value else .error (.exception "bad conversion")
    | _ => .error (.exception "bad conversion")

/-- The node of a task. -/
def task (type : String) (speed cycles : ℕ) : YamlTree :=
  map [("type", text type), ("speed", number speed), ("cycles", number cycles)]

/-- The node of a module. -/
def moduleNode (id : ℕ) (tasks : List YamlTree) : YamlTree :=
  map [("id", number id), ("tasks", sequence tasks)]

/-- The node of a region. -/
def rr (id bitstreamSize : ℕ) (modules : List YamlTree) : YamlTree :=
  map [("id", number id), ("bitstream size", number bitstreamSize),
    ("modules", sequence modules)]

/-- An application file with some regions, and everything else as it is in the example. -/
def application (rrs : List YamlTree) : YamlTree :=
  map [("name", text "Random Application"),
    ("ICAP", map [("speed", number 100), ("width", number 32)]),
    ("PRC", map [("speed", number 100)]),
    ("task scheduling", text "fcfs"), ("rr selection policy", text "lft"),
    ("static region speed", number 100),
    ("SRs", sequence [map [("id", number 0), ("module count", number 2)]]),
    ("RRs", sequence rrs)]

/-- One region, with one module for one task type. -/
def oneRegion : YamlTree := application [rr 0 64 [moduleNode 0 [task "a" 100 10]]]

/-- Its module. -/
def oneRegionModule : ModuleSpec Double := ⟨0, 0, 64, [⟨0, 0, "a", 100, 10⟩]⟩

/-- Two regions with modules of their own sizes.  A later node of the first region
replaces its second module. -/
def twoRegions : YamlTree :=
  application
    [rr 0 64 [moduleNode 0 [task "a" 100 10, task "b" 50 20],
      moduleNode 1 [task "a" 150 10, task "a" 60 10]],
    rr 1 32 [moduleNode 0 [task "b" 200 30]],
    rr 0 64 [moduleNode 1 [task "b" 120 40]]]

/-- The modules that it declares. -/
def twoRegionsModules : List (ModuleSpec Double) :=
  [⟨0, 0, 64, [⟨0, 0, "a", 100, 10⟩, ⟨0, 0, "b", 50, 20⟩]⟩,
    ⟨0, 1, 64, [⟨0, 1, "a", 150, 10⟩, ⟨0, 1, "a", 60, 10⟩]⟩,
    ⟨1, 0, 32, [⟨1, 0, "b", 200, 30⟩]⟩,
    ⟨0, 1, 64, [⟨0, 1, "b", 120, 40⟩]⟩]

end YamlTree

namespace YamlNode

theorem exists_decode_oneRegion (raw : Double) :
    ∃ app, decode raw YamlTree.oneRegion = .ok app ∧
      app.rrSpecMap = storeModules [YamlTree.oneRegionModule] ∧
        app.simulatorSpeed = max raw 100 := by
  have declared : declaredModules YamlTree.oneRegion = .ok [YamlTree.oneRegionModule] := rfl
  have accepted : ∃ app, decode raw YamlTree.oneRegion = .ok app := ⟨_, rfl⟩
  obtain ⟨app, accepted⟩ := accepted
  exact ⟨app, accepted, stored_of_declared accepted declared⟩

theorem declaredModules_twoRegions :
    declaredModules YamlTree.twoRegions = .ok YamlTree.twoRegionsModules := rfl

theorem exists_decode_twoRegions (raw : Double) :
    ∃ app, decode raw YamlTree.twoRegions = .ok app ∧
      app.rrSpecMap = storeModules YamlTree.twoRegionsModules ∧
        app.simulatorSpeed = (taskSpeeds YamlTree.twoRegionsModules).foldl max raw := by
  have accepted : ∃ app, decode raw YamlTree.twoRegions = .ok app := ⟨_, rfl⟩
  obtain ⟨app, accepted⟩ := accepted
  exact ⟨app, accepted, stored_of_declared accepted declaredModules_twoRegions⟩

/-- Where the variable held zero, the simulator has the speed of the only task of region 1. -/
theorem simulatorSpeed_isFastest_iff_twoRegions :
    ∃ app, decode 0 YamlTree.twoRegions = .ok app ∧ app.simulatorSpeed = 200 ∧
      SimulatorSpeedIsFastest app := by
  obtain ⟨app, accepted, -, speed⟩ := exists_decode_twoRegions 0
  obtain ⟨specs, declared, fastest⟩ := simulatorSpeed_isFastest_iff accepted
  obtain rfl := Except.ok.inj (declaredModules_twoRegions.symm.trans declared)
  refine ⟨app, accepted, speed.trans (by decide +kernel), fastest.mpr ?_⟩
  refine ⟨⟨1, 0, 32, [⟨1, 0, "b", 200, 30⟩]⟩, kept_iff.mpr (by decide +kernel), _,
    List.mem_cons_self, by decide +kernel, by decide +kernel⟩

/-- **A speed that no task has**: the variable held 1000, and the only task has speed
100. -/
theorem simulatorSpeed_not_isFastest :
    ∃ app, decode 1000 YamlTree.oneRegion = .ok app ∧
      (∃ r spec, app.rrSpecMap.Holds r spec ∧ spec.tasks ≠ []) ∧
        ¬ SimulatorSpeedIsFastest app := by
  obtain ⟨app, accepted, stored, speed⟩ := exists_decode_oneRegion 1000
  have kept : Kept [YamlTree.oneRegionModule] YamlTree.oneRegionModule := ⟨[], [], rfl, by simp⟩
  refine ⟨app, accepted, ⟨0, YamlTree.oneRegionModule, ?_, List.cons_ne_nil _ _⟩, ?_⟩
  · rw [stored]
    exact holds_storeModules.mpr ⟨rfl, kept⟩
  · rintro ⟨⟨r, spec, holds, task, htask, fastest⟩, -⟩
    rw [stored] at holds
    obtain rfl := List.mem_singleton.mp (holds_storeModules.mp holds).2.mem
    obtain rfl := List.mem_singleton.mp htask
    rw [speed] at fastest
    exact absurd fastest (by decide +kernel)

end YamlNode

end Drachma
