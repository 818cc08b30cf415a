import Drachma.Selector
import Mathlib.Data.Finset.Card
import Mathlib.Data.Multiset.Basic

/-!
# What the regions can run

The application's specifications say which task types the modules of each region
implement, and at what speed.  The program derives three tables from them, each in
a loop of its own: which modules implement a type in a region
(`getRrTaskCapabilites`), their speeds (`getBsSpeedMap`), and how many types a
region can host (`getRrTaskFlexabilies`).

`listings` is the common content: one entry for each task of each module of each
region, in the order in which all three loops visit them.

## Main results

* `RrSpecMap.capabilities_find2?`, `RrSpecMap.bsSpeedMap_find2?`,
  `RrSpecMap.flexabilies_find?` — the three tables, read off the listings.
* `RrSpecMap.flexibility_counts_capabilities` — the flexibilities, counted in the
  capability map, and the queues of regions by flexibility.
* `LftFeSelector.exists_new`, `LftFeSelector.find?_taskLftRrMap` — the selector is
  constructed without a fault, and its queues hold the capable regions.
-/

namespace Drachma

open Machine (LookupMap PriorityQueue)

variable {S : Type}

/-- One task of one module of one region. -/
structure Listing (S : Type) where
  typeId : String
  rrId : ℕ
  moduleId : ℕ
  speed : S

namespace ModuleSpec

/-- The module implements task type `t` at speed `v`. -/
def RunsAt (spec : ModuleSpec S) (t : String) (v : S) : Prop :=
  ∃ task ∈ spec.tasks, task.typeId = t ∧ task.speed = v

/-- The module implements task type `t`. -/
def Runs (spec : ModuleSpec S) (t : String) : Prop := ∃ task ∈ spec.tasks, task.typeId = t

/-- The listings of a module that is stored under two given ids. -/
def listings (rrId moduleId : ℕ) (spec : ModuleSpec S) : List (Listing S) :=
  spec.tasks.map fun task => ⟨task.typeId, rrId, moduleId, task.speed⟩

end ModuleSpec

namespace RrSpecMap

/-- The listings of a region. -/
def regionListings (rr : ℕ × LookupMap ℕ (ModuleSpec S)) : List (Listing S) :=
  rr.2.entries.flatMap fun module => module.2.listings rr.1 module.1

/-- All listings, in the order in which the loops of the program visit them. -/
def listings (rrSpecMap : RrSpecMap S) : List (Listing S) :=
  rrSpecMap.entries.flatMap regionListings

/-- The specification is stored under the region. -/
def Holds (rrSpecMap : RrSpecMap S) (r : ℕ) (spec : ModuleSpec S) : Prop :=
  ∃ id, rrSpecMap.find2? r id = some spec

/-- The region can run tasks of type `t`: one of its modules implements it. -/
def CanRun (rrSpecMap : RrSpecMap S) (r : ℕ) (t : String) : Prop :=
  ∃ spec, rrSpecMap.Holds r spec ∧ spec.Runs t

/-- The task types the region can host. -/
def hostedTypes (rrSpecMap : RrSpecMap S) (r : ℕ) : Finset String :=
  ((rrSpecMap.listings.filter fun x => decide (x.rrId = r)).map Listing.typeId).toFinset

/-- The flexibility of a region: how many distinct task types it can host. -/
def flexibility (rrSpecMap : RrSpecMap S) (r : ℕ) : ℕ := (rrSpecMap.hostedTypes r).card

variable {rrSpecMap : RrSpecMap S} {r : ℕ} {t : String}

theorem mem_listings {x : Listing S} :
    x ∈ rrSpecMap.listings ↔
      ∃ spec, rrSpecMap.find2? x.rrId x.moduleId = some spec ∧ spec.RunsAt x.typeId x.speed := by
  unfold listings regionListings ModuleSpec.listings ModuleSpec.RunsAt
  simp only [List.mem_flatMap, List.mem_map, LookupMap.find2?_eq_some, LookupMap.find?_eq_some]
  constructor
  · rintro ⟨⟨r, modules⟩, hr, ⟨id, spec⟩, hid, task, htask, rfl⟩
    exact ⟨spec, ⟨modules, hr, hid⟩, task, htask, rfl, rfl⟩
  · rintro ⟨spec, ⟨modules, hr, hid⟩, task, htask, htype, hspeed⟩
    refine ⟨_, hr, _, hid, task, htask, ?_⟩
    rw [htype, hspeed]

theorem canRun_iff :
    rrSpecMap.CanRun r t ↔ ∃ x ∈ rrSpecMap.listings, x.rrId = r ∧ x.typeId = t := by
  constructor
  · rintro ⟨spec, ⟨id, hid⟩, task, htask, htype⟩
    exact ⟨⟨t, r, id, task.speed⟩, mem_listings.mpr ⟨spec, hid, task, htask, htype, rfl⟩, rfl, rfl⟩
  · rintro ⟨x, hx, rfl, rfl⟩
    obtain ⟨spec, hid, task, htask, htype, -⟩ := mem_listings.mp hx
    exact ⟨spec, ⟨x.moduleId, hid⟩, task, htask, htype⟩

instance : Decidable (rrSpecMap.CanRun r t) := decidable_of_iff _ canRun_iff.symm

theorem mem_hostedTypes : t ∈ rrSpecMap.hostedTypes r ↔ rrSpecMap.CanRun r t := by
  rw [canRun_iff]
  simp only [hostedTypes, List.mem_toFinset, List.mem_map, List.mem_filter, decide_eq_true_eq]
  constructor
  · rintro ⟨x, ⟨hx, hr⟩, ht⟩
    exact ⟨x, hx, hr, ht⟩
  · rintro ⟨x, hx, hr, ht⟩
    exact ⟨x, ⟨hx, hr⟩, ht⟩

/-- The listings of one type in one region. -/
def select (rrSpecMap : RrSpecMap S) (t : String) (r : ℕ) : List (Listing S) :=
  rrSpecMap.listings.filter fun x => decide (x.typeId = t ∧ x.rrId = r)

theorem canRun_iff_select : rrSpecMap.CanRun r t ↔ rrSpecMap.select t r ≠ [] := by
  rw [canRun_iff, select, ne_eq, List.filter_eq_nil_iff]
  simp only [decide_eq_true_eq, not_forall, not_not, exists_prop]
  constructor
  · rintro ⟨x, hx, hr, ht⟩
    exact ⟨x, hx, ht, hr⟩
  · rintro ⟨x, hx, ht, hr⟩
    exact ⟨x, hx, hr, ht⟩

/-! ## The tables -/

section SpeedMap

variable [LinearOrder S]

/-- The loops of `getBsSpeedMap` visit the listings. -/
theorem getBsSpeedMap_eq_foldl :
    getBsSpeedMap rrSpecMap =
      rrSpecMap.listings.foldl
        (fun speeds x => speeds.alter2 x.typeId x.rrId .empty
          fun queue => queue.push (x.moduleId, x.speed))
        .empty := by
  unfold listings regionListings ModuleSpec.listings
  simp only [List.foldl_flatMap, List.foldl_map]
  rfl

/-- **The speed map**: the speeds of the modules that implement a type in a region. -/
theorem bsSpeedMap_find2? {queue : FastedSpeedMaxPq S} :
    (getBsSpeedMap rrSpecMap).find2? t r = some queue ↔
      rrSpecMap.CanRun r t ∧
        queue.items = (rrSpecMap.select t r).map fun x => (x.moduleId, x.speed) := by
  rw [getBsSpeedMap_eq_foldl, LookupMap.find2?_foldl, canRun_iff_select]
  rw [← select, PriorityQueue.foldl_push]
  split
  · rename_i hnil
    simp [hnil]
  · rename_i hsome
    cases queue
    simp [PriorityQueue.empty, hsome, eq_comm]

end SpeedMap

/-- The loops of `getRrTaskCapabilites` visit the listings. -/
theorem eq_foldl_of_capabilities {capabilities : TaskRrLookupMap}
    (derived : Application.getRrTaskCapabilites rrSpecMap = .ok capabilities) :
    capabilities =
      rrSpecMap.listings.foldl
        (fun caps x => caps.alter2 x.typeId x.rrId [] fun ids => ids ++ [x.moduleId])
        .empty := by
  unfold Application.getRrTaskCapabilites at derived
  rw [Machine.eq_foldl_of_foldlM (f := fun caps rr => (regionListings rr).foldl
    (fun caps x => caps.alter2 x.typeId x.rrId [] fun ids => ids ++ [x.moduleId]) caps) ?_ derived]
  · unfold listings
    rw [List.foldl_flatMap]
  · intro caps rr caps' h
    unfold Application.addRrCapabilities at h
    split at h
    · cases h
    · rw [Machine.eq_foldl_of_foldlM (f := fun caps module =>
        (module.2.listings rr.1 module.1).foldl
          (fun caps x => caps.alter2 x.typeId x.rrId [] fun ids => ids ++ [x.moduleId]) caps)
        ?_ h]
      · unfold regionListings
        rw [List.foldl_flatMap]
      · intro caps module caps' h
        unfold Application.addModuleCapabilities at h
        split at h
        · cases h
        · cases h
          unfold ModuleSpec.listings
          rw [List.foldl_map]
          rfl

/-- **The capability map**: the modules that implement a type in a region. -/
theorem capabilities_find2? {capabilities : TaskRrLookupMap}
    (derived : Application.getRrTaskCapabilites rrSpecMap = .ok capabilities) {ids : List ℕ} :
    capabilities.find2? t r = some ids ↔
      rrSpecMap.CanRun r t ∧ ids = (rrSpecMap.select t r).map Listing.moduleId := by
  rw [eq_foldl_of_capabilities derived, LookupMap.find2?_foldl, canRun_iff_select]
  rw [← select, List.foldl_append_eq_append]
  split
  · rename_i hnil
    simp [hnil]
  · rename_i hsome
    simp [hsome, eq_comm, ← List.flatMap_def, ← List.map_eq_flatMap]

theorem mem_keys_capabilities {capabilities : TaskRrLookupMap}
    (derived : Application.getRrTaskCapabilites rrSpecMap = .ok capabilities) :
    t ∈ capabilities.keys ↔ ∃ r, rrSpecMap.CanRun r t := by
  rw [eq_foldl_of_capabilities derived]
  unfold LookupMap.alter2
  rw [LookupMap.mem_keys_foldl]
  simp only [canRun_iff]
  constructor
  · rintro (hmem | ⟨x, hx, ht⟩)
    · exact absurd hmem List.not_mem_nil
    · exact ⟨x.rrId, x, hx, rfl, ht⟩
  · rintro ⟨r, x, hx, -, ht⟩
    exact .inr ⟨x, hx, ht⟩

/-- The regions that the capability map lists under a type. -/
theorem mem_keys_of_capabilities {capabilities : TaskRrLookupMap}
    (derived : Application.getRrTaskCapabilites rrSpecMap = .ok capabilities)
    {rrs : LookupMap ℕ (List ℕ)} (hrrs : capabilities.find? t = some rrs) :
    r ∈ rrs.keys ↔ rrSpecMap.CanRun r t := by
  constructor
  · intro hr
    obtain ⟨ids, hids⟩ := LookupMap.exists_find?_eq_some hr
    have both : capabilities.find2? t r = some ids :=
      LookupMap.find2?_eq_some.mpr ⟨rrs, hrrs, hids⟩
    exact ((capabilities_find2? derived).mp both).1
  · intro hcan
    have both := (capabilities_find2? derived).mpr ⟨hcan, rfl⟩
    obtain ⟨rrs', hrrs', hids⟩ := LookupMap.find2?_eq_some.mp both
    cases hrrs.symm.trans hrrs'
    exact LookupMap.mem_keys_of_find? hids

theorem CanRun.mem_keys (h : rrSpecMap.CanRun r t) : r ∈ rrSpecMap.keys := by
  obtain ⟨spec, ⟨id, hid⟩, -⟩ := h
  obtain ⟨modules, hmodules, -⟩ := LookupMap.find2?_eq_some.mp hid
  exact LookupMap.mem_keys_of_find? hmodules

/-! ## Flexibility -/

theorem mem_keys_uniqueTaskTypes {modules : LookupMap ℕ (ModuleSpec S)} :
    t ∈ (uniqueTaskTypes modules).keys ↔ ∃ module ∈ modules.entries, module.2.Runs t := by
  unfold uniqueTaskTypes ModuleSpec.Runs
  rw [← List.foldl_flatMap]
  unfold LookupMap.insert
  rw [LookupMap.mem_keys_foldl]
  simp only [List.mem_flatMap]
  constructor
  · rintro (hmem | ⟨task, ⟨module, hmodule, htask⟩, ht⟩)
    · exact absurd hmem List.not_mem_nil
    · exact ⟨module, hmodule, task, htask, ht⟩
  · rintro ⟨module, hmodule, task, htask, ht⟩
    exact .inr ⟨task, ⟨module, hmodule, htask⟩, ht⟩

theorem size_uniqueTaskTypes {modules : LookupMap ℕ (ModuleSpec S)}
    (h : rrSpecMap.find? r = some modules) :
    (uniqueTaskTypes modules).size = rrSpecMap.flexibility r := by
  have types : (uniqueTaskTypes modules).keys.toFinset = rrSpecMap.hostedTypes r := by
    ext t
    rw [List.mem_toFinset, mem_keys_uniqueTaskTypes, mem_hostedTypes]
    constructor
    · rintro ⟨⟨id, spec⟩, hid, hruns⟩
      exact ⟨spec, ⟨id, LookupMap.find2?_eq_some.mpr ⟨modules, h, LookupMap.find?_eq_some.mpr hid⟩⟩,
        hruns⟩
    · rintro ⟨spec, ⟨id, hid⟩, hruns⟩
      obtain ⟨modules', h', hid⟩ := LookupMap.find2?_eq_some.mp hid
      cases h.symm.trans h'
      exact ⟨(id, spec), LookupMap.find?_eq_some.mp hid, hruns⟩
  have distinct : (uniqueTaskTypes modules).keys.Nodup := (uniqueTaskTypes modules).nodup
  rw [flexibility, ← types, List.toFinset_card_of_nodup distinct]
  exact (List.length_map Prod.fst).symm

/-- **The flexibility table.** -/
theorem flexabilies_find? :
    (getRrTaskFlexabilies rrSpecMap).find? r =
      (rrSpecMap.find? r).map fun _ => rrSpecMap.flexibility r := by
  unfold getRrTaskFlexabilies
  rw [LookupMap.find?_foldl_insert (fun rr => (uniqueTaskTypes rr.2).size) _ rrSpecMap.nodup]
  show _ = (rrSpecMap.entries.lookup r).map _
  cases h : rrSpecMap.entries.lookup r with
  | none => rfl
  | some modules => exact congrArg some (size_uniqueTaskTypes h)

end RrSpecMap

/-! ## The selector's tables -/

/-- The queue of some regions, each with its flexibility. -/
def RrSpecMap.flexibilityQueue (rrSpecMap : RrSpecMap S) (rrIds : List ℕ) : LfRrModuleMinPq :=
  ⟨rrIds.map fun r => (r, rrSpecMap.flexibility r)⟩

variable {rrSpecMap : RrSpecMap S}

theorem lftRrQueue_eq_ok {rrs : LookupMap ℕ (List ℕ)}
    (known : ∀ r ∈ rrs.keys, r ∈ rrSpecMap.keys) :
    lftRrQueue (getRrTaskFlexabilies rrSpecMap) rrs =
      .ok (rrSpecMap.flexibilityQueue rrs.keys) := by
  unfold lftRrQueue
  rw [Machine.foldlM_eq_ok_foldl
    (f := fun queue rr => queue.push (rr.1, rrSpecMap.flexibility rr.1)) ?_]
  · rw [PriorityQueue.foldl_push]
    unfold RrSpecMap.flexibilityQueue LookupMap.keys PriorityQueue.empty
    rw [List.map_map]
    rfl
  · intro rr hrr queue
    obtain ⟨modules, hmodules⟩ :=
      LookupMap.exists_find?_eq_some (known rr.1 (List.mem_map_of_mem hrr))
    rw [RrSpecMap.flexabilies_find?, hmodules]
    rfl

/-- The queues are built without a fault, one for each type of the capability map. -/
theorem getLftRrMap_eq_ok {capabilities : TaskRrLookupMap}
    (derived : Application.getRrTaskCapabilites rrSpecMap = .ok capabilities) :
    ∃ lfRr, getLftRrMap rrSpecMap capabilities = .ok lfRr ∧
      ∀ t, lfRr.find? t =
        (capabilities.find? t).map fun rrs => rrSpecMap.flexibilityQueue rrs.keys := by
  unfold getLftRrMap
  rw [Machine.foldlM_eq_ok_foldl (f := fun lfRr capable =>
    lfRr.insert capable.1 (rrSpecMap.flexibilityQueue capable.2.keys)) ?_]
  · refine ⟨_, rfl, fun t => ?_⟩
    rw [LookupMap.find?_foldl_insert
      (fun capable => rrSpecMap.flexibilityQueue capable.2.keys) _ capabilities.nodup]
    show _ = (capabilities.entries.lookup t).map _
    cases capabilities.entries.lookup t <;> rfl
  · rintro ⟨t, rrs⟩ hcapable lfRr
    have hrrs : capabilities.find? t = some rrs := LookupMap.find?_eq_some.mpr hcapable
    rw [lftRrQueue_eq_ok fun r hr =>
      ((RrSpecMap.mem_keys_of_capabilities derived hrrs).mp hr).mem_keys]
    rfl

/-! ## Capabilities and flexibilities agree -/

section Agree

variable {capabilities : TaskRrLookupMap} {r : ℕ} {t : String}

theorem RrSpecMap.canRun_iff_isSome
    (derived : Application.getRrTaskCapabilites rrSpecMap = .ok capabilities) :
    rrSpecMap.CanRun r t ↔ (capabilities.find2? t r).isSome = true := by
  rw [Option.isSome_iff_exists]
  constructor
  · intro hcan
    exact ⟨_, (RrSpecMap.capabilities_find2? derived).mpr ⟨hcan, rfl⟩⟩
  · rintro ⟨ids, hids⟩
    exact ((RrSpecMap.capabilities_find2? derived).mp hids).1

/-- The flexibility of a region, counted in the capability map. -/
theorem RrSpecMap.flexibility_eq_countP
    (derived : Application.getRrTaskCapabilites rrSpecMap = .ok capabilities) (r : ℕ) :
    rrSpecMap.flexibility r =
      capabilities.keys.countP fun t => (capabilities.find2? t r).isSome := by
  have types : rrSpecMap.hostedTypes r =
      (capabilities.keys.filter fun t => (capabilities.find2? t r).isSome).toFinset := by
    ext t
    rw [mem_hostedTypes, List.mem_toFinset, List.mem_filter, ← canRun_iff_isSome derived,
      mem_keys_capabilities derived]
    constructor
    · intro hcan
      exact ⟨⟨r, hcan⟩, hcan⟩
    · exact And.right
  have distinct : capabilities.keys.Nodup := capabilities.nodup
  rw [flexibility, types, List.toFinset_card_of_nodup (distinct.filter _),
    List.countP_eq_length_filter]

theorem RrSpecMap.mem_flexibilityQueue {rrIds : List ℕ} {r f : ℕ} :
    (r, f) ∈ (rrSpecMap.flexibilityQueue rrIds).items ↔
      r ∈ rrIds ∧ f = rrSpecMap.flexibility r := by
  unfold flexibilityQueue
  rw [List.mem_map]
  constructor
  · rintro ⟨r', hr', heq⟩
    cases heq
    exact ⟨hr', rfl⟩
  · rintro ⟨hr, rfl⟩
    exact ⟨r, hr, rfl⟩

/-- A queue of distinct regions has each of them once, with its flexibility. -/
theorem RrSpecMap.count_flexibilityQueue {rrIds : List ℕ} (distinct : rrIds.Nodup) (r f : ℕ) :
    (rrSpecMap.flexibilityQueue rrIds).items.count (r, f) =
      if r ∈ rrIds ∧ f = rrSpecMap.flexibility r then 1 else 0 := by
  have items : (rrSpecMap.flexibilityQueue rrIds).items.Nodup := by
    refine List.Nodup.of_map Prod.fst ?_
    unfold flexibilityQueue
    rw [List.map_map]
    exact (List.map_id rrIds).symm ▸ distinct
  rw [List.Nodup.count items]
  simp only [mem_flexibilityQueue]

/-- **Flexibility counts capabilities.**  The flexibility of a region is the number of task
types under which the capability map has an entry for it.  The queues are built without a
fault, one for each type of that map, and the queue of a type has the regions with an entry
under it, each once and with its flexibility. -/
theorem RrSpecMap.flexibility_counts_capabilities
    (derived : Application.getRrTaskCapabilites rrSpecMap = .ok capabilities) :
    (∀ r ∈ rrSpecMap.keys, (getRrTaskFlexabilies rrSpecMap).find? r =
      some (capabilities.keys.countP fun t => (capabilities.find2? t r).isSome)) ∧
    ∃ lfRr, getLftRrMap rrSpecMap capabilities = .ok lfRr ∧
      (∀ t, t ∈ lfRr.keys ↔ t ∈ capabilities.keys) ∧
      ∀ t queue, lfRr.find? t = some queue → ∀ r f,
        queue.items.count (r, f) =
          if (capabilities.find2? t r).isSome = true ∧
              (getRrTaskFlexabilies rrSpecMap).find? r = some f then 1 else 0 := by
  have flexible : ∀ r ∈ rrSpecMap.keys,
      (getRrTaskFlexabilies rrSpecMap).find? r = some (rrSpecMap.flexibility r) := by
    intro r hr
    obtain ⟨modules, hmodules⟩ := LookupMap.exists_find?_eq_some hr
    rw [flexabilies_find?, hmodules, Option.map_some]
  refine ⟨fun r hr => ?_, ?_⟩
  · rw [flexible r hr, flexibility_eq_countP derived]
  · obtain ⟨lfRr, hlfRr, hfind⟩ := getLftRrMap_eq_ok derived
    refine ⟨lfRr, hlfRr, fun t => ?_, fun t queue hqueue r f => ?_⟩
    · rw [← not_iff_not, ← LookupMap.find?_eq_none, ← LookupMap.find?_eq_none, hfind,
        Option.map_eq_none_iff]
    · rw [hfind, Option.map_eq_some_iff] at hqueue
      obtain ⟨rrs, hrrs, rfl⟩ := hqueue
      have distinct : rrs.keys.Nodup := rrs.nodup
      rw [count_flexibilityQueue distinct]
      refine if_congr ?_ rfl rfl
      rw [mem_keys_of_capabilities derived hrrs, ← canRun_iff_isSome derived]
      refine and_congr_right fun hcan => ?_
      rw [flexible r hcan.mem_keys, Option.some.injEq, eq_comm]

/-- Two regions share the type "a", which the first has in two modules; the second has "b"
as well. -/
theorem RrSpecMap.flexibility_counts_capabilities_twoSpeeds :
    ∃ capabilities lfRr,
      Application.getRrTaskCapabilites LftFeSelector.twoSpeeds = .ok capabilities ∧
      getLftRrMap LftFeSelector.twoSpeeds capabilities = .ok lfRr ∧
      (getRrTaskFlexabilies LftFeSelector.twoSpeeds).find? 0 = some 1 ∧
      (getRrTaskFlexabilies LftFeSelector.twoSpeeds).find? 1 = some 2 ∧
      (∀ t, t ∈ lfRr.keys ↔ t = "a" ∨ t = "b") ∧
      (∀ queue, lfRr.find? "a" = some queue →
        queue.items.count (0, 1) = 1 ∧ queue.items.count (1, 2) = 1) ∧
      ∀ queue, lfRr.find? "b" = some queue →
        queue.items.count (0, 1) = 0 ∧ queue.items.count (1, 2) = 1 := by
  have derived : Application.getRrTaskCapabilites LftFeSelector.twoSpeeds = .ok _ := rfl
  obtain ⟨flexible, lfRr, hlfRr, keys, counts⟩ :=
    RrSpecMap.flexibility_counts_capabilities derived
  refine ⟨_, lfRr, derived, hlfRr, flexible 0 (by decide), flexible 1 (by decide), fun t => ?_,
    fun queue hqueue => ⟨?_, ?_⟩, fun queue hqueue => ⟨?_, ?_⟩⟩
  · rw [keys, show LookupMap.keys _ = ["a", "b"] from rfl]
    simp
  · exact (counts _ queue hqueue 0 1).trans (by decide)
  · exact (counts _ queue hqueue 1 2).trans (by decide)
  · exact (counts _ queue hqueue 0 1).trans (by decide)
  · exact (counts _ queue hqueue 1 2).trans (by decide)

end Agree

namespace LftFeSelector

variable [LinearOrder S] {capabilities : TaskRrLookupMap} {s : LftFeSelector S}

/-- The constructor does not fault. -/
theorem exists_new (derived : Application.getRrTaskCapabilites rrSpecMap = .ok capabilities) :
    ∃ s : LftFeSelector S, LftFeSelector.new capabilities rrSpecMap = .ok s := by
  obtain ⟨lfRr, hlfRr, -⟩ := getLftRrMap_eq_ok derived
  unfold LftFeSelector.new
  rw [hlfRr]
  exact ⟨_, rfl⟩

theorem new_spec (derived : Application.getRrTaskCapabilites rrSpecMap = .ok capabilities)
    (made : LftFeSelector.new capabilities rrSpecMap = .ok s) :
    s.bsSpeedMap = getBsSpeedMap rrSpecMap ∧ s.rrSpecMap = rrSpecMap ∧
      ∀ t, s.taskLftRrMap.find? t =
        (capabilities.find? t).map fun rrs => rrSpecMap.flexibilityQueue rrs.keys := by
  obtain ⟨lfRr, hlfRr, hfind⟩ := getLftRrMap_eq_ok derived
  unfold LftFeSelector.new at made
  rw [hlfRr] at made
  cases made
  exact ⟨rfl, rfl, hfind⟩

/-- **The queue of a type**: the regions that can run it, with their flexibilities. -/
theorem find?_taskLftRrMap
    (derived : Application.getRrTaskCapabilites rrSpecMap = .ok capabilities)
    (made : LftFeSelector.new capabilities rrSpecMap = .ok s) {t : String}
    {queue : LfRrModuleMinPq} (h : s.taskLftRrMap.find? t = some queue) (r f : ℕ) :
    (r, f) ∈ queue.items ↔ rrSpecMap.CanRun r t ∧ f = rrSpecMap.flexibility r := by
  rw [(new_spec derived made).2.2 t, Option.map_eq_some_iff] at h
  obtain ⟨rrs, hrrs, rfl⟩ := h
  rw [← RrSpecMap.mem_keys_of_capabilities derived hrrs, RrSpecMap.mem_flexibilityQueue]

/-- There is a queue for the types that some region can run. -/
theorem find?_taskLftRrMap_eq_none
    (derived : Application.getRrTaskCapabilites rrSpecMap = .ok capabilities)
    (made : LftFeSelector.new capabilities rrSpecMap = .ok s) {t : String} :
    s.taskLftRrMap.find? t = none ↔ t ∉ capabilities.keys := by
  rw [(new_spec derived made).2.2 t, Option.map_eq_none_iff, LookupMap.find?_eq_none]

end LftFeSelector

end Drachma
