import Drachma.Lib.PartialRun
import Drachma.Specs
import Mathlib.Logic.Function.Basic

/-!
# Modules and the storage hierarchy

Module objects (`rrModule`) live on a heap and are shared by pointer: the RR
table, the memory levels and the RR controllers may all hold the address of one
object, and a bitstream that is installed in a region *is* the library's object.
`Memory` is that heap together with the two kinds of tables that point into it.

* `ReconfigurableRegions` — one module pointer for each region;
* `MemoryLevel` — one module pointer for each region and module id;
* `StorageUnit` — an entry of the memory hierarchy, which is one or the other.

Both tables are `std::map`s read through `operator[]`, which inserts a null
pointer under a missing key; a table entry is therefore absent, null, or an
address.
-/

namespace Drachma

/-- The states of a region's module.  The constructor of a placeholder module
leaves its state uninitialised; `unknown` is a bit pattern that is none of the
enumerators, for which the controller has a branch of its own. -/
inductive ModuleState
  | vacant
  | idle
  | transfer
  | exec
  | unknown
deriving DecidableEq, Repr

/-- An `rrModule` object. -/
structure RrModule where
  currentState : ModuleState
  regionId : ℕ
  moduleId : ℕ
  bitstreamWidth : ℕ
  executing : Bool
  operatingSpeed : Double
  executionTime : ℕ
  executionLatency : ℕ
  internalTimestep : ℕ
  inSimulation : Bool
  taskTypeIds : List String
deriving Repr

namespace RrModule

/-- The constructor of a placeholder module; `raw` is what the memory held. -/
def placeholder (raw : RrModule) (regionId : ℕ) : RrModule :=
  { raw with
    regionId := regionId
    moduleId := unsignedMinusOne
    bitstreamWidth := 0
    operatingSpeed := 0
    taskTypeIds := [] }

/-- The constructor of a library module; `raw` is what the memory held. -/
def ofSpec (raw : RrModule) (regionId moduleId bitstreamWidth : ℕ)
    (tasks : List (TaskSpec Double)) : RrModule :=
  { raw with
    currentState := .vacant
    regionId := regionId
    moduleId := moduleId
    bitstreamWidth := bitstreamWidth
    taskTypeIds := tasks.map TaskSpec.typeId
    internalTimestep := 0
    executing := false
    inSimulation := false }

/-- `setSpeed`: refused once the module has been stepped. -/
def setSpeed (m : RrModule) (speed : Double) : Exec RrModule :=
  if m.inSimulation then
    .error (.runtimeError "Can't set a module's speed after simulation has begun.")
  else
    .ok { m with operatingSpeed := speed }

/-- `beginTransfer`. -/
def beginTransfer (m : RrModule) : RrModule :=
  { m with currentState := .transfer }

/-- `beginExecution`. -/
def beginExecution (m : RrModule) (simSpeed : Double) (executionTime : ℕ) : RrModule :=
  { m with
    currentState := .exec
    executing := true
    executionTime := executionTime
    executionLatency := toUnsigned ⌈(executionTime * simSpeed) / m.operatingSpeed⌉ }

/-- `step`: whether the module has just finished, and the module afterwards. -/
def step (m : RrModule) : Bool × RrModule :=
  let timestep := (m.internalTimestep + 1) % 2 ^ 64
  if timestep > m.executionLatency then
    (true, { m with inSimulation := true, internalTimestep := 0, currentState := .idle })
  else
    (false, { m with inSimulation := true, internalTimestep := timestep })

/-- The module after a cycle in which its controller watches it: stepped while
it executes. -/
def watch (m : RrModule) : RrModule :=
  if m.currentState = .exec then m.step.2 else m

/-- The watched module finishes in this cycle. -/
def finishes (m : RrModule) : Bool :=
  decide (m.currentState = .exec) && m.step.1

/-- The module after it was told to begin a task. -/
def begun (m : RrModule) (simSpeed : Double) (task : TaskSpec Double) : RrModule :=
  { m with operatingSpeed := task.speed }.beginExecution simSpeed task.cycles

/-- `isRunning`. -/
def isRunning (m : RrModule) : Bool := m.executing

/-- `getRemainingExecutionLatency`: a subtraction of `unsigned long`s, returned as an
`unsigned`.  It starts from the execution time, not from the latency. -/
def getRemainingExecutionLatency (m : RrModule) : ℕ :=
  (m.executionTime + 2 ^ 64 - m.internalTimestep) % 2 ^ 64 % 2 ^ 32

@[simp] theorem step_regionId (m : RrModule) : m.step.2.regionId = m.regionId := by
  unfold step; dsimp only; split <;> rfl

@[simp] theorem step_moduleId (m : RrModule) : m.step.2.moduleId = m.moduleId := by
  unfold step; dsimp only; split <;> rfl

@[simp] theorem watch_regionId (m : RrModule) : m.watch.regionId = m.regionId := by
  unfold watch; split <;> simp

@[simp] theorem watch_moduleId (m : RrModule) : m.watch.moduleId = m.moduleId := by
  unfold watch; split <;> simp

/-- The flag outlives the execution. -/
@[simp] theorem watch_executing (m : RrModule) : m.watch.executing = m.executing := by
  unfold watch step
  dsimp only
  split
  · split <;> rfl
  · rfl

/-- A watched module executes on unless it finishes. -/
theorem watch_exec_iff (m : RrModule) :
    m.watch.currentState = .exec ↔ m.currentState = .exec ∧ m.finishes = false := by
  unfold watch finishes step
  by_cases exec : m.currentState = .exec
  · rw [if_pos exec, decide_eq_true exec]
    dsimp only
    split <;> simp [exec]
  · rw [if_neg exec, decide_eq_false exec]
    simp [exec]

/-- Watching a module that is not in simulation afterwards has not stepped it. -/
theorem watch_of_not_inSimulation {m : RrModule} (h : m.watch.inSimulation = false) :
    m.watch = m := by
  unfold watch at h ⊢
  by_cases exec : m.currentState = .exec
  · rw [if_pos exec] at h
    unfold step at h
    dsimp only at h
    split at h <;> cases h
  · rw [if_neg exec]

@[simp] theorem begun_regionId (m : RrModule) (simSpeed : Double) (task : TaskSpec Double) :
    (m.begun simSpeed task).regionId = m.regionId := rfl

@[simp] theorem begun_moduleId (m : RrModule) (simSpeed : Double) (task : TaskSpec Double) :
    (m.begun simSpeed task).moduleId = m.moduleId := rfl

@[simp] theorem beginTransfer_regionId (m : RrModule) :
    m.beginTransfer.regionId = m.regionId := rfl

@[simp] theorem beginTransfer_moduleId (m : RrModule) :
    m.beginTransfer.moduleId = m.moduleId := rfl

/-- Setting a speed changes the speed only. -/
theorem setSpeed_eq_ok {m m' : RrModule} {speed : Double} :
    m.setSpeed speed = .ok m' ↔
      m.inSimulation = false ∧ m' = { m with operatingSpeed := speed } := by
  unfold setSpeed
  cases m.inSimulation <;> simp [eq_comm]

/-- A module that has not run a task. -/
def idleModule (regionId moduleId : ℕ) : RrModule :=
  { currentState := .idle
    regionId := regionId
    moduleId := moduleId
    bitstreamWidth := 4
    executing := false
    operatingSpeed := 0
    executionTime := 0
    executionLatency := 0
    internalTimestep := 0
    inSimulation := false
    taskTypeIds := [] }

end RrModule

/-- A pointer to a module object. -/
abbrev ModulePtr := Option ℕ

/-- `reconfigurableRegions`: the module in each region. -/
structure ReconfigurableRegions where
  table : ℕ → Option ModulePtr

namespace ReconfigurableRegions

/-- The table without entries. -/
def empty : ReconfigurableRegions := ⟨fun _ => none⟩

/-- `getModuleFromRegion`: a missing region is inserted with a null pointer. -/
def getModuleFromRegion (t : ReconfigurableRegions) (regionId : ℕ) :
    ModulePtr × ReconfigurableRegions :=
  match t.table regionId with
  | some ptr => (ptr, t)
  | none => (none, ⟨Function.update t.table regionId (some none)⟩)

/-- `insertModule`, for a module of region `regionId` at address `a`. -/
def insertModule (t : ReconfigurableRegions) (regionId a : ℕ) : ReconfigurableRegions :=
  ⟨Function.update t.table regionId (some (some a))⟩

/-- `isModulePresent`: the entry of the region is dereferenced, if there is one.  `cells`
are the module objects. -/
def isModulePresent (t : ReconfigurableRegions) (cells : ℕ → RrModule)
    (regionId moduleId : ℕ) : Exec Bool :=
  match t.table regionId with
  | none => .ok false
  | some ptr => do
      let a ← deref ptr
      return (cells a).moduleId = moduleId

/-- A lookup that found an address has changed nothing. -/
theorem getModuleFromRegion_eq_some {t t' : ReconfigurableRegions} {regionId a : ℕ} :
    t.getModuleFromRegion regionId = (some a, t') ↔
      t.table regionId = some (some a) ∧ t' = t := by
  unfold getModuleFromRegion
  split
  · rename_i ptr h
    simp [h, eq_comm]
  · rename_i h
    simp [h]

end ReconfigurableRegions

/-- `memoryLevel`: a cache level or the main memory. -/
structure MemoryLevel where
  unitSize : ℕ
  readLatency : ℕ
  searchLatency : ℕ
  lutIndexed : Bool
  table : ℕ → ℕ → Option ModulePtr

namespace MemoryLevel

/-- `getModule`: a missing module is inserted as a null pointer. -/
def getModule (l : MemoryLevel) (regionId moduleId : ℕ) : ModulePtr × MemoryLevel :=
  match l.table regionId moduleId with
  | some ptr => (ptr, l)
  | none =>
      (none, { l with
        table := Function.update l.table regionId
          (Function.update (l.table regionId) moduleId (some none)) })

/-- `insertModule`, for a module with these ids at address `a`. -/
def insertModule (l : MemoryLevel) (regionId moduleId a : ℕ) : MemoryLevel :=
  { l with
    table := Function.update l.table regionId
      (Function.update (l.table regionId) moduleId (some (some a))) }

/-- `isModulePresent`: there is an entry, be it a null pointer. -/
def isModulePresent (l : MemoryLevel) (regionId moduleId : ℕ) : Bool :=
  (l.table regionId moduleId).isSome

/-- A lookup that found an address has changed nothing. -/
theorem getModule_eq_some {l l' : MemoryLevel} {regionId moduleId a : ℕ} :
    l.getModule regionId moduleId = (some a, l') ↔
      l.table regionId moduleId = some (some a) ∧ l' = l := by
  unfold getModule
  split
  · rename_i ptr h
    simp [h, eq_comm]
  · rename_i h
    simp [h]

end MemoryLevel

/-- A unit of the memory hierarchy. -/
inductive StorageUnit
  | regions (table : ReconfigurableRegions)
  | level (level : MemoryLevel)

namespace StorageUnit

/-- `dynamic_cast<memoryLevel*>`: the null pointer on an RR table. -/
def asMemoryLevel : StorageUnit → Option MemoryLevel
  | regions _ => none
  | level l => some l

/-- `getSize`: the configured size, returned as an `unsigned short`.  The RR
table is built with size zero. -/
def getSize : StorageUnit → ℕ
  | regions _ => 0
  | level l => l.unitSize % 2 ^ 16

@[simp] theorem asMemoryLevel_eq_some {u : StorageUnit} {l : MemoryLevel} :
    u.asMemoryLevel = some l ↔ u = level l := by
  cases u <;> simp [asMemoryLevel]

/-- `isModulePresent`. -/
def isModulePresent (u : StorageUnit) (cells : ℕ → RrModule) (regionId moduleId : ℕ) :
    Exec Bool :=
  match u with
  | regions t => t.isModulePresent cells regionId moduleId
  | level l => .ok (l.isModulePresent regionId moduleId)

/-- `insertModule`, for the module object `m` at address `a`. -/
def insertModule (u : StorageUnit) (m : RrModule) (a : ℕ) : StorageUnit :=
  match u with
  | regions t => regions (t.insertModule m.regionId a)
  | level l => level (l.insertModule m.regionId m.moduleId a)

end StorageUnit

/-- The heap of module objects, the device's RR table (`memory_hierarchy_top_`)
and the memory hierarchy.  The device keeps a copy of the hierarchy's first unit
as its RR table, so `prr` and `hierarchy[0]` are different tables. -/
structure Memory where
  cells : ℕ → RrModule
  next : ℕ
  prr : ReconfigurableRegions
  hierarchy : List StorageUnit

namespace Memory

/-- Write a module object back to its address. -/
def setCell (m : Memory) (a : ℕ) (module : RrModule) : Memory :=
  { m with cells := Function.update m.cells a module }

section SetCell

variable (m : Memory) (a : ℕ) (module : RrModule)

@[simp] theorem setCell_prr : (m.setCell a module).prr = m.prr := rfl

@[simp] theorem setCell_hierarchy : (m.setCell a module).hierarchy = m.hierarchy := rfl

@[simp] theorem setCell_next : (m.setCell a module).next = m.next := rfl

@[simp] theorem setCell_cells :
    (m.setCell a module).cells = Function.update m.cells a module := rfl

/-- Writing back what is stored changes nothing. -/
@[simp] theorem setCell_self : m.setCell a (m.cells a) = m := by
  unfold setCell
  rw [Function.update_eq_self]

end SetCell

/-- `new rrModule(…)`: a fresh address holding the object. -/
def alloc (m : Memory) (module : RrModule) : ℕ × Memory :=
  (m.next, { m with cells := Function.update m.cells m.next module, next := m.next + 1 })

/-- `prr_->getModuleFromRegion`. -/
def getModuleFromRegion (m : Memory) (regionId : ℕ) : ModulePtr × Memory :=
  ((m.prr.getModuleFromRegion regionId).1,
    { m with prr := (m.prr.getModuleFromRegion regionId).2 })

/-- The address of the module in a region, where the pointer to it is
dereferenced at once. -/
def findModule (m : Memory) (regionId : ℕ) : Exec (ℕ × Memory) := do
  let (rrModule, m) := m.getModuleFromRegion regionId
  let a ← deref rrModule
  return (a, m)

/-- `prr_->insertModule`, which files the object at `a` under its region. -/
def insertModule (m : Memory) (a : ℕ) : Memory :=
  { m with prr := m.prr.insertModule (m.cells a).regionId a }

/-- `memory_hierarchy_->at(mc)`, the downcast to a memory level, and `getModule`
on it. -/
def getLibraryModule (m : Memory) (mc regionId moduleId : ℕ) : Exec (ModulePtr × Memory) := do
  let unit ← lookupAt m.hierarchy[mc]?
  let level ← deref unit.asMemoryLevel
  return ((level.getModule regionId moduleId).1,
    { m with
      hierarchy := m.hierarchy.set mc (.level (level.getModule regionId moduleId).2) })

/-- A region lookup that found an address has changed nothing. -/
theorem getModuleFromRegion_eq_some {m m' : Memory} {regionId a : ℕ} :
    m.getModuleFromRegion regionId = (some a, m') ↔
      m.prr.table regionId = some (some a) ∧ m' = m := by
  unfold getModuleFromRegion
  constructor
  · intro h
    obtain ⟨hptr, rfl⟩ := Prod.mk.inj h
    have hget : m.prr.getModuleFromRegion regionId =
        (some a, (m.prr.getModuleFromRegion regionId).2) := Prod.ext hptr rfl
    obtain ⟨htable, hsame⟩ := ReconfigurableRegions.getModuleFromRegion_eq_some.mp hget
    exact ⟨htable, by rw [hsame]⟩
  · rintro ⟨htable, rfl⟩
    rw [ReconfigurableRegions.getModuleFromRegion_eq_some.mpr ⟨htable, rfl⟩]

/-- A module that was found is the one the table holds, and nothing has changed. -/
theorem findModule_eq_ok {m m' : Memory} {regionId a : ℕ} :
    m.findModule regionId = .ok (a, m') ↔
      m.prr.table regionId = some (some a) ∧ m' = m := by
  rw [← getModuleFromRegion_eq_some]
  unfold findModule
  rw [Machine.bind_eq_ok]
  constructor
  · rintro ⟨a', hptr, h⟩
    cases h
    exact Prod.ext (deref_eq_ok.mp hptr) rfl
  · intro h
    rw [h]
    exact ⟨a, rfl, rfl⟩

/-- Storing what is already stored changes nothing. -/
private theorem set_of_getElem? {α : Type*} {l : List α} {i : ℕ} {a : α}
    (h : l[i]? = some a) : l.set i a = l := by
  obtain ⟨hlt, rfl⟩ := List.getElem?_eq_some_iff.mp h
  exact List.set_getElem_self hlt

/-- A library lookup that found an address read it off a memory level and has
changed nothing. -/
theorem getLibraryModule_eq_some {m m' : Memory} {mc regionId moduleId a : ℕ} :
    m.getLibraryModule mc regionId moduleId = .ok (some a, m') ↔
      (∃ level, m.hierarchy[mc]? = some (.level level) ∧
        level.table regionId moduleId = some (some a)) ∧ m' = m := by
  unfold getLibraryModule
  simp only [Machine.bind_eq_ok, lookupAt_eq_ok, deref_eq_ok,
    StorageUnit.asMemoryLevel_eq_some]
  constructor
  · rintro ⟨unit, hunit, level, rfl, h⟩
    obtain ⟨hptr, rfl⟩ := Prod.mk.inj (Except.ok.inj h)
    have hget : level.getModule regionId moduleId =
        (some a, (level.getModule regionId moduleId).2) := Prod.ext hptr rfl
    obtain ⟨htable, hsame⟩ := MemoryLevel.getModule_eq_some.mp hget
    refine ⟨⟨level, hunit, htable⟩, ?_⟩
    rw [hsame, set_of_getElem? hunit]
  · rintro ⟨⟨level, hunit, htable⟩, rfl⟩
    refine ⟨_, hunit, level, rfl, ?_⟩
    rw [MemoryLevel.getModule_eq_some.mpr ⟨htable, rfl⟩, set_of_getElem? hunit]
    rfl

/-- Memory `x` has the library of `m`, and the same modules at the same
addresses, in whatever state they are. -/
structure Keeps (m x : Memory) : Prop where
  hierarchy : x.hierarchy = m.hierarchy
  regionId : ∀ a, (x.cells a).regionId = (m.cells a).regionId
  moduleId : ∀ a, (x.cells a).moduleId = (m.cells a).moduleId

namespace Keeps

variable {m x y : Memory} {a : ℕ} {module : RrModule}

theorem refl (m : Memory) : m.Keeps m := ⟨rfl, fun _ => rfl, fun _ => rfl⟩

theorem trans (h : m.Keeps x) (k : x.Keeps y) : m.Keeps y :=
  ⟨k.hierarchy.trans h.hierarchy, fun a => (k.regionId a).trans (h.regionId a),
    fun a => (k.moduleId a).trans (h.moduleId a)⟩

theorem setCell (region : module.regionId = (m.cells a).regionId)
    (id : module.moduleId = (m.cells a).moduleId) : m.Keeps (m.setCell a module) := by
  refine ⟨rfl, fun b => ?_, fun b => ?_⟩
  · rcases eq_or_ne b a with rfl | hne
    · simp [region]
    · simp [hne]
  · rcases eq_or_ne b a with rfl | hne
    · simp [id]
    · simp [hne]

theorem insertModule : m.Keeps (m.insertModule a) := ⟨rfl, fun _ => rfl, fun _ => rfl⟩

end Keeps

/-- A storage in which every region below `n` has a placeholder, at the address that
is its id, and the library has one module, of region `r`, at address `n`. -/
def oneModule (n r id : ℕ) : Memory :=
  { cells := fun a => if a = n then .idleModule r id else .idleModule a unsignedMinusOne
    next := n + 1
    prr := ⟨fun r' => if r' < n then some (some r') else none⟩
    hierarchy :=
      [.regions .empty,
       .level
         { unitSize := 8, readLatency := 0, searchLatency := 0, lutIndexed := true
           table := fun r' m => if r' = r ∧ m = id then some (some n) else none }] }

/-- What the RR table of `oneModule` holds. -/
theorem oneModule_prr {n r id r' a : ℕ} (h : (oneModule n r id).prr.table r' = some (some a)) :
    a = r' ∧ (oneModule n r id).cells a = .idleModule r' unsignedMinusOne := by
  change (if r' < n then some (some r') else none) = some (some a) at h
  split at h
  · rename_i hr
    cases h
    refine ⟨rfl, if_neg ?_⟩
    omega
  · cases h

/-- What the library of `oneModule` holds. -/
theorem oneModule_level {n r id r' m a : ℕ} {level : MemoryLevel}
    (hl : StorageUnit.level level ∈ (oneModule n r id).hierarchy)
    (h : level.table r' m = some (some a)) :
    r' = r ∧ m = id ∧ (oneModule n r id).cells a = .idleModule r id := by
  simp only [oneModule, List.mem_cons, reduceCtorEq, StorageUnit.level.injEq,
    List.not_mem_nil, or_false, false_or] at hl
  subst hl
  dsimp only at h
  split at h
  · rename_i hr
    cases h
    exact ⟨hr.1, hr.2, if_pos rfl⟩
  · cases h

end Memory

end Drachma
