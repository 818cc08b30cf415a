import Drachma.BitstreamLibrary

/-!
# The numbers of the regions

A region has the number that its document gives it, and counts if it has a module.  The
device makes as many controllers as there are such regions, and numbers them from zero:
a controller looks for its module under its own number, and every bus has one bit for
each controller, which is looked up under the number of a region.  No function compares
the two.

## Main results

* `RrController.exists_step_of_quiet`, `RrSide.exists_sweep_of_quiet` — controllers that
  nothing is asked of take their steps if every region has a module.
* `everyRegion_iff` — every region has a controller, and every controller a region,
  exactly if the regions with modules are numbered from zero on.
-/

namespace Drachma

open Machine (LookupMap bind_eq_ok)

/-! ## Controllers that nothing is asked of -/

section Quiet

variable {Node : Type}

/-- No request reaches the controller. -/
structure RrcWires.Low (w : RrcWires Node) : Prop where
  prcStart : w.prcStart = false
  prcEnqueue : w.prcEnqueue = false
  icapReq : w.icapReq = false

namespace RrController

/-- Controller `i` has been made, and has been asked nothing. -/
structure Quiet (s : RrController Node) (i : ℕ) : Prop where
  prrId : s.prrId = i
  prcAck : s.prcAck = false
  actionQueue : s.actionQueue = []
  state : s.nextState = .init ∨ s.nextState = .idle

variable [GraphNode Node] {w : RrcWires Node} {s : RrController Node} {m : Memory} {i a : ℕ}

/-- A quiet controller whose region has a module takes a step, and stays quiet. -/
theorem exists_step_of_quiet (low : w.Low) (quiet : s.Quiet i)
    (resident : m.prr.table i = some (some a)) :
    ∃ s' m', s.step w m = .ok (s', m') ∧ s'.Quiet i ∧ m'.prr = m.prr := by
  have answered : answerEnqueue w s.latch = .ok s.latch := by
    have noAck : s.latch.prcAck = false := quiet.prcAck
    unfold answerEnqueue
    rw [low.prcEnqueue, noAck]
    rfl
  have wakes : Wakes w s m a
      { releaseIcapAck w s.latch with
        prrExecuting := s.latch.prrExecuting && !(m.cells a).finishes }
      (m.setCell a (m.cells a).watch) := by
    refine ⟨?_, ⟨_, answered, rfl⟩, rfl⟩
    rw [quiet.prrId]
    exact resident
  rcases quiet.state with state | state
  · refine ⟨_, _, step_eq_ok.mpr (.init wakes state), ?_, rfl⟩
    exact ⟨quiet.prrId, quiet.prcAck, quiet.actionQueue, .inr rfl⟩
  · have rests : Rests w _ ((m.setCell a (m.cells a).watch).cells a) :=
      .inr ⟨quiet.actionQueue, low.prcStart, low.icapReq⟩
    refine ⟨_, _, step_eq_ok.mpr (.rest wakes state rests), ?_, rfl⟩
    exact ⟨quiet.prrId, quiet.prcAck, quiet.actionQueue, .inr state⟩

end RrController

/-- Quiet controllers take their steps, one after the other. -/
theorem RrSide.exists_sweep_of_quiet {n : ℕ} [GraphNode Node] {w : Fin n → RrcWires Node}
    {s : RrSide n Node} (low : ∀ i, (w i).Low) (quiet : ∀ i, (s.rrc i).Quiet i)
    (resident : ∀ i < n, ∃ a, s.memory.prr.table i = some (some a)) :
    ∃ s', s.sweep w = .ok s' := by
  have steps : ∀ i ∈ List.finRange n, ∀ t : RrSide n Node,
      ((∀ j, (t.rrc j).Quiet j) ∧ t.memory.prr = s.memory.prr) →
      ∃ t', t.step (w i) i = .ok t' ∧ (∀ j, (t'.rrc j).Quiet j) ∧
        t'.memory.prr = s.memory.prr := by
    rintro i - t ⟨quiet, same⟩
    obtain ⟨a, entry⟩ := resident i i.isLt
    rw [← same] at entry
    obtain ⟨c, m, hstep, quiet', same'⟩ :=
      RrController.exists_step_of_quiet (low i) (quiet i) entry
    refine ⟨_, RrSide.step_eq_ok.mpr ⟨c, m, hstep, rfl⟩, fun j => ?_, same'.trans same⟩
    rcases eq_or_ne j i with rfl | hj
    · show (Function.update t.rrc j c j).Quiet j
      rw [Function.update_self]
      exact quiet'
    · show (Function.update t.rrc i c j).Quiet j
      rw [Function.update_of_ne hj]
      exact quiet j
  obtain ⟨s', swept, -⟩ := Machine.exists_foldlM_of_invariant steps ⟨quiet, rfl⟩
  exact ⟨s', swept⟩

/-- The controllers of a simulation that starts. -/
theorem exists_sweep_of_simulateApplication {n : ℕ} [GraphNode Node]
    {raw d : Device n Node (FcfsScheduler Node)} {app : Application}
    {resources : PreparedResources} {graph : TaskGraph Node}
    {wiring : Wiring n Node (FcfsScheduler Node)}
    (start : simulateApplication raw app resources graph = .ok (wiring, d))
    (resident : ∀ i < n, ∃ a, resources.memory.prr.table i = some (some a)) :
    ∃ rr, d.rr.sweep (fun i => d.context.rrcWires i (wiring.rrcHandles i)) = .ok rr := by
  obtain ⟨selector, -, start⟩ := bind_eq_ok.mp start
  cases start
  apply RrSide.exists_sweep_of_quiet
  · exact fun i => ⟨rfl, rfl, rfl⟩
  · exact fun i => ⟨rfl, rfl, rfl, .inl rfl⟩
  · exact resident

end Quiet

/-! ## The regions of an application -/

/-- The regions with modules are numbered from zero, without a gap. -/
def NumberedFromZero (specs : List (ModuleSpec Double)) : Prop :=
  ∃ k, ∀ r, (∃ spec ∈ specs, spec.regionId = r) ↔ r < k

theorem YamlNode.mem_keys_storeModules {specs : List (ModuleSpec Double)} {r : ℕ} :
    r ∈ (storeModules specs).keys ↔ ∃ spec ∈ specs, spec.regionId = r := by
  unfold storeModules LookupMap.alter2
  rw [LookupMap.mem_keys_foldl]
  exact or_iff_right List.not_mem_nil

/-- The device has one controller for each region. -/
theorem size_rrCensus (rrSpecMap : RrSpecMap Double) :
    (rrCensus rrSpecMap).size = rrSpecMap.size := by
  apply LookupMap.size_eq_of_keys
  intro r
  unfold rrCensus
  rw [LookupMap.mem_keys_foldl]
  exact (or_iff_right List.not_mem_nil).trans List.mem_map.symm

/-- A bitstream that is returned was chosen for a region that was found. -/
theorem LftFeSelector.found_of_getBitstreamForTask {Node : Type} [GraphNode Node] {n : ℕ}
    {s : LftFeSelector} {exeBus : Bus n Bool} {task : Node} {b : ModuleSpec Double}
    (answer : s.getBitstreamForTask task exeBus = .ok (true, b)) :
    ∃ t r, getTaskTypeId task = .ok t ∧ s.getRrForTask task exeBus = .ok (true, r) := by
  obtain ⟨⟨found, r⟩, hfound, answer⟩ := bind_eq_ok.mp answer
  obtain ⟨t, ht, -⟩ := bind_eq_ok.mp hfound
  cases found with
  | true => exact ⟨t, r, ht, hfound⟩
  | false => cases answer

/-- **Every region has its controller and its slot.** -/
structure EveryRegionHasController (app : Application) (resources : PreparedResources) :
    Prop where
  specified : app.rrSpecMap.CoveredBy resources.rrCensus.size
  capable : ∀ t rrs, resources.bsCapabilites.find? t = some rrs →
    ∀ r ∈ rrs.keys, r < resources.rrCensus.size
  selected : ∀ {Node : Type} [GraphNode Node] {s : LftFeSelector},
    LftFeSelector.new resources.bsCapabilites app.rrSpecMap = .ok s →
      ∀ (task : Node) (exeBus : Bus resources.rrCensus.size Bool) (b : ModuleSpec Double),
        s.getBitstreamForTask task exeBus = .ok (true, b) →
          b.regionId < resources.rrCensus.size
  slot : ∀ i < resources.rrCensus.size, ∃ a, resources.memory.prr.table i = some (some a)
  /-- The bus that the search reads has a bit for each region it asks for. -/
  busIndex : ∀ {Node : Type} [GraphNode Node] {s : LftFeSelector},
    LftFeSelector.new resources.bsCapabilites app.rrSpecMap = .ok s →
      ∀ (task : Node) (exeBus : Bus resources.rrCensus.size Bool) (t : String),
        getTaskTypeId task = .ok t → s.getRrForTask task exeBus ≠ .error .outOfRange
  /-- No controller faults in its first step. -/
  firstStep : ∀ {Node : Type} [GraphNode Node]
    {raw d : Device resources.rrCensus.size Node (FcfsScheduler Node)} {graph : TaskGraph Node}
    {wiring : Wiring resources.rrCensus.size Node (FcfsScheduler Node)},
    simulateApplication raw app resources graph = .ok (wiring, d) →
      ∃ rr, d.rr.sweep (fun i => d.context.rrcWires i (wiring.rrcHandles i)) = .ok rr

/-- Controllers for all regions, and a module for every controller, are enough. -/
theorem everyRegion_of_covered {app : Application} {resources : PreparedResources}
    (derived : Application.getRrTaskCapabilites app.rrSpecMap = .ok resources.bsCapabilites)
    (stored : app.rrSpecMap.StoredById) (covered : app.rrSpecMap.CoveredBy resources.rrCensus.size)
    (slot : ∀ i < resources.rrCensus.size, ∃ a, resources.memory.prr.table i = some (some a)) :
    EveryRegionHasController app resources where
  specified := covered
  capable _ _ hrrs r hr :=
    covered r ((RrSpecMap.mem_keys_of_capabilities derived hrrs).mp hr).mem_keys
  selected made task exeBus b answer := by
    obtain ⟨t, r, ht, found⟩ := LftFeSelector.found_of_getBitstreamForTask answer
    obtain ⟨b', -, answer', region, -⟩ :=
      LftFeSelector.exists_bitstream_of_found derived made stored ht found
    obtain rfl : b' = b := (Prod.mk.inj (Except.ok.inj (answer'.symm.trans answer))).2
    have free := (LftFeSelector.freeFor_of_getRrForTask derived made ht found).1
    rw [region]
    exact covered r free.1.mem_keys
  slot := slot
  busIndex made task exeBus t ht fault := by
    by_cases known : t ∈ resources.bsCapabilites.keys
    · obtain ⟨choice, hchoice⟩ :=
        LftFeSelector.getRrForTask_isOk exeBus derived made covered ht known
      cases fault.symm.trans hchoice
    · cases fault.symm.trans (LftFeSelector.getRrForTask_of_unknown derived made ht known)
  firstStep start := exists_sweep_of_simulateApplication start slot

/-- **When every region has its controller and its slot**, for an application that was
decoded: the regions with modules are numbered from zero on. -/
theorem everyRegion_iff {Node : Type} [YamlNode Node] {fastest : Double} {node : Node}
    {app : ApplicationFile} (accepted : YamlNode.decode fastest node = .ok app)
    {m : Memory} {levels : List MemoryLevel} {resources : PreparedResources}
    (prepared : prepareAppResources (m.associateHierarchy .empty levels) app.toApplication =
      .ok resources) :
    ∃ specs, YamlNode.declaredModules node = .ok specs ∧
      (EveryRegionHasController app.toApplication resources ↔ NumberedFromZero specs) := by
  obtain ⟨specs, declared, stored, -⟩ := YamlNode.spec_of_decode accepted
  obtain ⟨census, -, derived⟩ := tables_of_prepareAppResources prepared
  have count : resources.rrCensus.size = app.rrSpecMap.size := by
    rw [census]
    exact size_rrCensus _
  have numbered : app.rrSpecMap.CoveredBy app.rrSpecMap.size ↔ NumberedFromZero specs := by
    unfold RrSpecMap.CoveredBy NumberedFromZero
    rw [LookupMap.keys_lt_size_iff, stored]
    simp only [YamlNode.mem_keys_storeModules]
  refine ⟨specs, declared, ?_⟩
  rw [← numbered]
  constructor
  · intro every
    rw [← count]
    exact every.specified
  · intro covered
    refine everyRegion_of_covered derived (storedById_of_decode accepted) ?_ fun i hi => ?_
    · rw [count]
      exact covered
    · rw [count, ← LookupMap.mem_keys_iff_lt_size covered] at hi
      obtain ⟨a, address⟩ := exists_placeholderAddress hi m.next
      exact ⟨a, (Memory.table_of_prepareAppResources prepared).mpr address⟩

/-- Two regions, with the numbers zero and one. -/
theorem everyRegion_iff_twoRegions :
    ∃ app resources, YamlNode.decode 0 YamlTree.twoRegions = .ok app ∧
      prepareAppResources (memoryOfSize 1000) app.toApplication = .ok resources ∧
      EveryRegionHasController app.toApplication resources := by
  obtain ⟨app, accepted, stored, -⟩ := YamlNode.exists_decode_twoRegions 0
  have preparable : Preparable app.rrSpecMap := by
    rw [stored]
    unfold Preparable
    decide
  obtain ⟨resources, prepared⟩ :=
    (exists_prepareAppResources_iff (m := memoryOfSize 1000) (List.cons_ne_nil _ _)
      app.toApplication).mpr preparable
  obtain ⟨specs, declared, every⟩ := everyRegion_iff accepted prepared
  obtain rfl := Except.ok.inj (YamlNode.declaredModules_twoRegions.symm.trans declared)
  refine ⟨app, resources, accepted, prepared, every.mpr ⟨2, fun r => ?_⟩⟩
  rw [← YamlNode.mem_keys_storeModules,
    show (YamlNode.storeModules YamlTree.twoRegionsModules).keys = [0, 1] from rfl]
  simp only [List.mem_cons, List.not_mem_nil, or_false]
  omega

/-- One region, with the number five. -/
def YamlTree.regionFive : YamlTree := application [rr 5 64 [moduleNode 0 [task "a" 100 10]]]

/-- **A region without a controller**: the only controller of the device is numbered
zero, and the only region five. -/
theorem region_without_controller :
    ∃ app resources, YamlNode.decode 0 YamlTree.regionFive = .ok app ∧
      prepareAppResources (memoryOfSize 1000) app.toApplication = .ok resources ∧
      resources.fits = true ∧ 5 ∈ app.rrSpecMap.keys ∧ resources.rrCensus.size = 1 ∧
      resources.memory.prr.table 0 = none ∧
        ¬ EveryRegionHasController app.toApplication resources := by
  have exists_decode : ∃ app, YamlNode.decode 0 YamlTree.regionFive = .ok app := ⟨_, rfl⟩
  obtain ⟨app, accepted⟩ := exists_decode
  have declared : YamlNode.declaredModules YamlTree.regionFive =
      .ok [⟨5, 0, 64, [⟨5, 0, "a", 100, 10⟩]⟩] := rfl
  have stored := (YamlNode.stored_of_declared accepted declared).1
  have preparable : Preparable app.rrSpecMap := by
    rw [stored]
    unfold Preparable
    decide
  obtain ⟨resources, prepared⟩ :=
    (exists_prepareAppResources_iff (m := memoryOfSize 1000) (List.cons_ne_nil _ _)
      app.toApplication).mpr preparable
  have last : (memoryOfSize 1000).hierarchy =
      [.regions .empty] ++ [.level ⟨1000, 8, 32, true, fun _ _ => none⟩] := rfl
  obtain ⟨fits, census, -⟩ := spec_of_prepareAppResources prepared last
  have count : resources.rrCensus.size = 1 := by
    rw [census, size_rrCensus, stored]
    rfl
  have five : 5 ∈ app.rrSpecMap.keys := by
    rw [stored]
    decide
  have zero : 0 ∉ app.rrSpecMap.keys := by
    rw [stored]
    decide
  refine ⟨app, resources, accepted, prepared, ?_, five, count, ?_, fun every => ?_⟩
  · rw [fits, stored]
    decide
  · have placeholder := Memory.hasPlaceholder_of_prepareAppResources prepared 0
    exact placeholder.without (Memory.placeholderAddress_of_not_mem zero)
  · have inside := every.specified 5 five
    rw [count] at inside
    omega

end Drachma
