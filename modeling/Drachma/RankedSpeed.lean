import Drachma.ApplicationFile
import Drachma.BitstreamChoice

/-!
# The speed a bitstream is ranked by

The selector ranks the bitstreams of a region by a speed from its speed map, which has an
entry for every task that a module lists.  The RR controller runs a task at the speed of the
first task of its type that the bitstream lists (`getSpecForTaskFromBs`).  A document may
list a type twice in one module, with speeds of their own.

## Main results

* `RrSpecMap.rankedAsRun_iff` — the two speeds agree exactly when every module lists each
  type at one speed.
* `rankedAsRun_iff_document` — which documents this holds for.
-/

namespace Drachma

open Machine (LookupMap)

/-! ## The first task of a type -/

namespace ModuleSpec

variable {spec : ModuleSpec Double} {t : String}

/-- The module lists each type at one speed. -/
def OneSpeedEach (spec : ModuleSpec Double) : Prop :=
  ∀ t v v', spec.RunsAt t v → spec.RunsAt t v' → v = v'

theorem RunsAt.runs {v : Double} (h : spec.RunsAt t v) : spec.Runs t := by
  obtain ⟨task, htask, htype, -⟩ := h
  exact ⟨task, htask, htype⟩

/-- The task that is run is one that the module lists. -/
theorem runsAt_of_getSpecForTaskFromBs {task : TaskSpec Double}
    (h : getSpecForTaskFromBs spec t = .ok task) : spec.RunsAt t task.speed := by
  unfold getSpecForTaskFromBs at h
  cases found : spec.tasks.find? (fun task => task.typeId == t) with
  | none => rw [found] at h; cases h
  | some first =>
      rw [found] at h
      cases h
      exact ⟨_, List.mem_of_find?_eq_some found, by simpa using List.find?_some found, rfl⟩

/-- A type that the module lists has a task to run. -/
theorem exists_getSpecForTaskFromBs (runs : spec.Runs t) :
    ∃ task, getSpecForTaskFromBs spec t = .ok task := by
  obtain ⟨task, htask, htype⟩ := runs
  unfold getSpecForTaskFromBs
  cases found : spec.tasks.find? (fun task => task.typeId == t) with
  | none =>
      have other := List.find?_eq_none.mp found task htask
      rw [htype, beq_self_eq_true] at other
      exact absurd rfl other
  | some first => exact ⟨first, rfl⟩

/-- The task that is run has every speed at which the module lists its type, where that is one
speed. -/
theorem oneSpeedEach_iff :
    spec.OneSpeedEach ↔ ∀ t v, spec.RunsAt t v →
      ∃ task, getSpecForTaskFromBs spec t = .ok task ∧ task.speed = v := by
  constructor
  · intro single t v runsAt
    obtain ⟨first, hfirst⟩ := exists_getSpecForTaskFromBs runsAt.runs
    exact ⟨first, hfirst, single t _ _ (runsAt_of_getSpecForTaskFromBs hfirst) runsAt⟩
  · intro run t v v' runsAt runsAt'
    obtain ⟨task, htask, rfl⟩ := run t v runsAt
    obtain ⟨task', htask', rfl⟩ := run t v' runsAt'
    cases htask.symm.trans htask'
    rfl

end ModuleSpec

/-! ## The queues of the speed map -/

namespace RrSpecMap

variable {rrSpecMap : RrSpecMap Double}

/-- **The speed a bitstream is ranked by is the speed it runs at**: for every entry of a queue
of the speed map, the module is stored under the region, and the task that is run has the
speed of the entry. -/
def RankedAsRun (rrSpecMap : RrSpecMap Double) : Prop :=
  ∀ t r queue, (getBsSpeedMap rrSpecMap).find2? t r = some queue →
    ∀ m v, (m, v) ∈ queue.items → ∃ spec task, rrSpecMap.find2? r m = some spec ∧
      getSpecForTaskFromBs spec t = .ok task ∧ task.speed = v

/-- The entries of a queue. -/
theorem mem_bsSpeedMap {t : String} {r m : ℕ} {v : Double} :
    (∃ queue, (getBsSpeedMap rrSpecMap).find2? t r = some queue ∧ (m, v) ∈ queue.items) ↔
      ∃ spec, rrSpecMap.find2? r m = some spec ∧ spec.RunsAt t v := by
  constructor
  · rintro ⟨queue, hqueue, hmem⟩
    rw [(bsSpeedMap_find2?.mp hqueue).2, List.mem_map] at hmem
    obtain ⟨x, hx, heq⟩ := hmem
    cases heq
    obtain ⟨rfl, rfl, stored⟩ := mem_select.mp hx
    exact stored
  · rintro ⟨spec, hspec, runsAt⟩
    refine ⟨⟨_⟩, bsSpeedMap_find2?.mpr ⟨⟨spec, ⟨m, hspec⟩, runsAt.runs⟩, rfl⟩, ?_⟩
    exact List.mem_map.mpr ⟨_, listing_mem_select hspec runsAt, rfl⟩

theorem rankedAsRun_iff :
    rrSpecMap.RankedAsRun ↔ ∀ r spec, rrSpecMap.Holds r spec → spec.OneSpeedEach := by
  constructor
  · rintro ranked r spec ⟨m, hspec⟩
    rw [ModuleSpec.oneSpeedEach_iff]
    intro t v runsAt
    obtain ⟨queue, hqueue, hmem⟩ := mem_bsSpeedMap.mpr ⟨spec, hspec, runsAt⟩
    obtain ⟨spec', task, hspec', htask, speed⟩ := ranked t r queue hqueue m v hmem
    cases hspec.symm.trans hspec'
    exact ⟨task, htask, speed⟩
  · intro single t r queue hqueue m v hmem
    obtain ⟨spec, hspec, runsAt⟩ := mem_bsSpeedMap.mp ⟨queue, hqueue, hmem⟩
    obtain ⟨task, htask, speed⟩ :=
      ModuleSpec.oneSpeedEach_iff.mp (single r spec ⟨m, hspec⟩) t v runsAt
    exact ⟨spec, task, hspec, htask, speed⟩

end RrSpecMap

/-! ## Documents -/

open YamlNode

/-- **Which documents rank every bitstream by the speed it runs at**: those in which no module
lists a task type at two speeds, unless a later node replaces it. -/
theorem rankedAsRun_iff_document {Node : Type} [YamlNode Node] {raw : Double} {node : Node}
    {app : ApplicationFile} (accepted : decode raw node = .ok app) :
    ∃ specs, declaredModules node = .ok specs ∧
      (app.rrSpecMap.RankedAsRun ↔ ∀ spec, Kept specs spec → spec.OneSpeedEach) := by
  obtain ⟨specs, declared, stored, -⟩ := spec_of_decode accepted
  refine ⟨specs, declared, ?_⟩
  rw [RrSpecMap.rankedAsRun_iff, stored]
  simp only [holds_storeModules]
  constructor
  · intro single spec kept
    exact single _ spec ⟨rfl, kept⟩
  · rintro single r spec ⟨-, kept⟩
    exact single spec kept

/-- Only the module that is replaced lists a task type at two speeds. -/
theorem rankedAsRun_iff_document_twoRegions :
    ∃ app, decode 0 YamlTree.twoRegions = .ok app ∧ app.rrSpecMap.RankedAsRun := by
  obtain ⟨app, accepted, -⟩ := exists_decode_twoRegions 0
  obtain ⟨specs, declared, ranked⟩ := rankedAsRun_iff_document accepted
  obtain rfl := Except.ok.inj (declaredModules_twoRegions.symm.trans declared)
  have single : ∀ spec ∈ YamlTree.twoRegionsModules,
      (storeModules YamlTree.twoRegionsModules).find2? spec.regionId spec.id = some spec →
        ∀ task ∈ spec.tasks, ∀ task' ∈ spec.tasks, task.typeId = task'.typeId →
          task.speed = task'.speed := by decide +kernel
  refine ⟨app, accepted, ranked.mpr ?_⟩
  rintro spec kept t _ _ ⟨task, htask, rfl, rfl⟩ ⟨task', htask', same, rfl⟩
  exact single spec kept.mem (kept_iff.mp kept) task htask task' htask' same.symm

/-- A module that lists a task type at two speeds. -/
def YamlTree.twoTasks : YamlTree :=
  application [rr 0 64 [moduleNode 0 [task "a" 100 10, task "a" 50 10]]]

/-- **A bitstream that is ranked by a speed it does not run at**: the module is in the queue
with speeds 100 and 50, and runs at 100. -/
theorem twoTasks_not_rankedAsRun :
    ∃ app, decode 0 YamlTree.twoTasks = .ok app ∧ ¬ app.rrSpecMap.RankedAsRun := by
  have accepted : ∃ app, decode 0 YamlTree.twoTasks = .ok app := ⟨_, rfl⟩
  obtain ⟨app, accepted⟩ := accepted
  have declared : declaredModules YamlTree.twoTasks =
      .ok [⟨0, 0, 64, [⟨0, 0, "a", 100, 10⟩, ⟨0, 0, "a", 50, 10⟩]⟩] := rfl
  have stored := (stored_of_declared accepted declared).1
  refine ⟨app, accepted, fun ranked => ?_⟩
  have holds : app.rrSpecMap.Holds 0
      ⟨0, 0, 64, [⟨0, 0, "a", 100, 10⟩, ⟨0, 0, "a", 50, 10⟩]⟩ := by
    rw [stored, holds_storeModules]
    exact ⟨rfl, [], [], rfl, by simp⟩
  have single := RrSpecMap.rankedAsRun_iff.mp ranked 0 _ holds
  have equal : (100 : Double) = 50 :=
    single "a" 100 50 ⟨_, List.mem_cons_self, rfl, rfl⟩
      ⟨_, List.mem_cons_of_mem _ List.mem_cons_self, rfl, rfl⟩
  exact absurd equal (by decide)

end Drachma
