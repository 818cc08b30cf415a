import Drachma.Device

/-!
# Setting up a simulation

What happens before the first cycle: the device copies the memory hierarchy it
is given, fills it for an application, and connects its components.

Memory that is not initialised keeps what was there; the `raw` arguments stand
for it.
-/

namespace Drachma

open Machine (LookupMap)

/-! ## The storage -/

namespace Memory

/-- `associateHierarchy`, for an RR table and the memory levels below it.  The
device's own RR table is a copy of the first unit. -/
def associateHierarchy (m : Memory) (table : ReconfigurableRegions)
    (levels : List MemoryLevel) : Memory :=
  { m with prr := table, hierarchy := .regions table :: levels.map .level }

/-- `main_memory->insertModule`, of the module at address `a`. -/
def insertLibraryModule (m : Memory) (a : ℕ) : Exec Memory :=
  match m.hierarchy.getLast? with
  | none => .error .emptyContainer
  | some mainMemory =>
      .ok { m with hierarchy := m.hierarchy.dropLast ++ [mainMemory.insertModule (m.cells a) a] }

/-- A module of the bitstream library. -/
def prepareModule (regionId bitstreamWidth : ℕ) (m : Memory)
    (entry : ℕ × ModuleSpec Double) : Exec Memory :=
  let spec := entry.2
  let (a, m) := m.alloc
    (RrModule.ofSpec (m.cells m.next) regionId spec.id bitstreamWidth spec.tasks)
  m.insertLibraryModule a

/-- A region: its placeholder module, the space its modules require (accumulated
in the first component), and its modules. -/
def prepareRegion (acc : ℕ × Memory) (rr : ℕ × LookupMap ℕ (ModuleSpec Double)) :
    Exec (ℕ × Memory) :=
  match rr.2.entries with
  | [] => .error .emptyContainer
  | (_, spec) :: _ => do
      let (a, m) := acc.2.alloc (RrModule.placeholder (acc.2.cells acc.2.next) rr.1)
      let m := m.insertModule a
      let required := (acc.1 + rr.2.size * spec.bitstreamWidth) % 2 ^ 32
      let m ← rr.2.entries.foldlM (prepareModule rr.1 spec.bitstreamWidth) m
      return (required, m)

end Memory

/-- What the loop over the regions leaves in `rr_census_`: the number of modules of each,
as an `unsigned`.  `std::map::insert` keeps an entry that is there. -/
def rrCensus (rrSpecMap : RrSpecMap Double) : LookupMap ℕ ℕ :=
  rrSpecMap.entries.foldl (fun census rr => census.alter rr.1 (rr.2.size % 2 ^ 32) id) .empty

/-- What `prepareAppResources` leaves in the device. -/
structure PreparedResources where
  memory : Memory
  rrCensus : LookupMap ℕ ℕ
  prrBitstreamSizes : BitstreamSizeMap
  bsCapabilites : TaskRrLookupMap
  fits : Bool

/-- `prepareAppResources`; `fits` is what it returns. -/
def prepareAppResources (m : Memory) (app : Application) : Exec PreparedResources := do
  let (required, memory) ← app.rrSpecMap.entries.foldlM Memory.prepareRegion (0, m)
  let prrBitstreamSizes ← app.getRrBitstreamSizes
  let bsCapabilites ← Application.getRrTaskCapabilites app.rrSpecMap
  let mainMemory ← lookupAt memory.hierarchy.getLast?
  return {
    memory := memory
    rrCensus := rrCensus app.rrSpecMap
    prrBitstreamSizes := prrBitstreamSizes
    bsCapabilites := bsCapabilites
    fits := decide (mainMemory.getSize ≥ required) }

/-! ## The components -/

/-- The state the loop of `simulateApplication` starts from, and what the
components are connected to.  `n` is the number of regions of the application.
The RR controllers are given a task handle, but do not keep it. -/
def simulateApplication {n : ℕ} {Node : Type} [GraphNode Node]
    (raw : Device n Node (FcfsScheduler Node)) (app : Application)
    (resources : PreparedResources) (graph : TaskGraph Node) :
    Exec (Wiring n Node (FcfsScheduler Node) × Device n Node (FcfsScheduler Node)) := do
  let selector ← LftFeSelector.new resources.bsCapabilites app.rrSpecMap
  let prc := Prc.new raw.prc (FcfsScheduler.initializeQueue graph)
  let icap := Icap.new raw.icap app.icapSpeed app.icapBusWidth resources.prrBitstreamSizes
    app.simulatorSpeed
  let context := SignalContext.new raw.context prc.scheduledTask prc.scheduledBs
    icap.transferBs
  return (
    { policies := lftFePolicies selector
      prcScheduledBs := context.prcScheduledBs
      rrcHandles := fun _ =>
        { prcCurrentTask := none
          prcScheduledBs := context.prcScheduledBs
          icapTransferBs := context.icapTransferBs } },
    { prc := prc
      icap := icap
      rr :=
        { rrc := fun i => RrController.new (raw.rr.rrc i) i app.simulatorSpeed
          memory := resources.memory }
      context := context })

/-! ## A device with one region -/

/-- A storage of an RR table and the main memory, before an application is prepared. -/
def oneLevelMemory : Memory :=
  Memory.associateHierarchy
    { cells := fun _ => .idleModule 0 0, next := 0, prr := .empty, hierarchy := [] } .empty
    [{ unitSize := 8, readLatency := 0, searchLatency := 0, lutIndexed := true
       table := fun _ _ => none }]

/-- A device before its components are constructed. -/
def rawDevice {n : ℕ} : Device n LoneTask (FcfsScheduler LoneTask) :=
  { prc := Prc.rawPrc
    icap := Icap.rawIcap
    rr := { rrc := fun _ => RrController.rawController, memory := oneLevelMemory }
    context := SignalContext.rawContext }

/-- A task graph with one task, which the module of `Application.oneRegion` can run. -/
def oneTask : TaskGraph LoneTask := ⟨[("t", ⟨"a"⟩)]⟩

namespace Device

/-- An application is prepared, and the device loop does `k` cycles: what is prepared, what
the components are connected to, and what the loop starts from and gets to. -/
def simulate (n : ℕ) (m : Memory) (app : Application) (graph : TaskGraph LoneTask) (k : ℕ) :
    Exec (PreparedResources × Wiring n LoneTask (FcfsScheduler LoneTask) ×
      Device n LoneTask (FcfsScheduler LoneTask) ×
        Device n LoneTask (FcfsScheduler LoneTask)) := do
  let resources ← prepareAppResources m app
  let (wiring, d) ← simulateApplication rawDevice app resources graph
  let d' ← run wiring d k
  return (resources, wiring, d, d')

/-- What is observed when the cycles are done is observed of the last state of a trace. -/
theorem exists_trace_of_simulate {n : ℕ} {m : Memory} {app : Application}
    {graph : TaskGraph LoneTask} {k : ℕ} {β : Type*} {seen : β}
    (observe : PreparedResources → Wiring n LoneTask (FcfsScheduler LoneTask) →
      Device n LoneTask (FcfsScheduler LoneTask) → β)
    (result : (simulate n m app graph k).map (fun r => observe r.1 r.2.1 r.2.2.2) = .ok seen) :
    ∃ resources wiring d states, prepareAppResources m app = .ok resources ∧
      simulateApplication rawDevice app resources graph = .ok (wiring, d) ∧
        Machine.Trace (fun _ : Unit => cycle wiring) (fun _ => ()) d k states ∧
          observe resources wiring (states k) = seen := by
  obtain ⟨⟨resources, wiring, d, d'⟩, hrun, seen⟩ := Machine.map_eq_ok.mp result
  obtain ⟨_, prepared, hrun⟩ := Machine.bind_eq_ok.mp hrun
  obtain ⟨⟨_, _⟩, built, hrun⟩ := Machine.bind_eq_ok.mp hrun
  obtain ⟨_, hrun, h⟩ := Machine.bind_eq_ok.mp hrun
  cases h
  obtain ⟨states, trace, rfl⟩ := Machine.Trace.exists_of_run hrun
  exact ⟨resources, wiring, d, states, prepared, built, trace, seen⟩

end Device

end Drachma
