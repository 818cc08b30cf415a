import Drachma.BitstreamLibrary

/-!
# One bitstream size for each region

All modules of a region are to have the same bitstream size, and the program reads it off
whichever module of a region a loop meets first.  `decode` gives every module the size of
the region node it is in; but two region nodes can have the same id.

Specifications that are the `SameMap` are stored alike, and may be iterated over in
different orders.

## Main results

* `RrSpecMap.Uniform.orderIndependent` — where sizes are uniform, nothing that is read off
  a first module depends on the order.
* `oneBitstreamSize_iff` — which documents have uniform sizes.
-/

namespace Drachma

open Machine (LookupMap bind_eq_ok)

namespace RrSpecMap

/-- The same specifications, in whatever order they are iterated over. -/
structure SameMap (a b : RrSpecMap Double) : Prop where
  keys : ∀ r, r ∈ a.keys ↔ r ∈ b.keys
  find2? : ∀ r id, a.find2? r id = b.find2? r id

/-- The modules of a region have one bitstream size. -/
def Uniform (rrSpecMap : RrSpecMap Double) : Prop :=
  ∀ r spec spec', rrSpecMap.Holds r spec → rrSpecMap.Holds r spec' →
    spec.bitstreamWidth = spec'.bitstreamWidth

variable {a b : RrSpecMap Double} {r : ℕ}

/-- The modules of a region, in both maps. -/
theorem SameMap.exists_find? (same : SameMap a b) {modules : LookupMap ℕ (ModuleSpec Double)}
    (h : a.find? r = some modules) :
    ∃ modules', b.find? r = some modules' ∧ ∀ id, modules.find? id = modules'.find? id := by
  obtain ⟨modules', h'⟩ := LookupMap.exists_find?_eq_some
    ((same.keys r).mp (LookupMap.mem_keys_of_find? h))
  refine ⟨modules', h', fun id => ?_⟩
  have found := same.find2? r id
  unfold LookupMap.find2? at found
  rwa [h, h'] at found

theorem mem_keys_congr {modules modules' : LookupMap ℕ (ModuleSpec Double)}
    (same : ∀ id, modules.find? id = modules'.find? id) (id : ℕ) :
    id ∈ modules.keys ↔ id ∈ modules'.keys := by
  rw [← not_iff_not, ← LookupMap.find?_eq_none, ← LookupMap.find?_eq_none, same]

/-- The first module of a region has the size of all of them. -/
theorem Uniform.firstWidth_eq (uniform : a.Uniform) (same : SameMap a b)
    {modules modules' : LookupMap ℕ (ModuleSpec Double)} (h : a.find? r = some modules)
    (h' : b.find? r = some modules') : firstWidth modules = firstWidth modules' := by
  obtain ⟨_, hb, hsame⟩ := same.exists_find? h
  obtain rfl := Option.some.inj (h'.symm.trans hb)
  have size := LookupMap.size_eq_of_keys (mem_keys_congr hsame)
  unfold LookupMap.size at size
  unfold firstWidth
  cases hentries : modules.entries with
  | nil =>
      rw [hentries, List.length_nil, eq_comm, List.length_eq_zero_iff] at size
      rw [size]
  | cons e rest =>
      cases hentries' : modules'.entries with
      | nil =>
          rw [hentries, hentries'] at size
          cases size
      | cons e' rest' =>
          have first : modules.find? e.1 = some e.2 :=
            LookupMap.find?_eq_some.mpr (hentries ▸ List.mem_cons_self)
          have first' : modules.find? e'.1 = some e'.2 := by
            rw [hsame]
            exact LookupMap.find?_eq_some.mpr (hentries' ▸ List.mem_cons_self)
          exact uniform r e.2 e'.2 ⟨_, LookupMap.find2?_eq_some.mpr ⟨_, h, first⟩⟩
            ⟨_, LookupMap.find2?_eq_some.mpr ⟨_, h, first'⟩⟩

/-- What a region adds to the space that is required. -/
def regionSpace (rrSpecMap : RrSpecMap Double) (r : ℕ) : ℕ :=
  ((rrSpecMap.find? r).map fun modules => modules.size * firstWidth modules).getD 0

theorem requiredSpace_eq_sum (rrSpecMap : RrSpecMap Double) :
    requiredSpace rrSpecMap.entries = (rrSpecMap.keys.map rrSpecMap.regionSpace).sum := by
  unfold requiredSpace LookupMap.keys
  rw [List.map_map]
  congr 1
  apply List.map_congr_left
  intro rr hrr
  have found : rrSpecMap.find? rr.1 = some rr.2 := LookupMap.find?_eq_some.mpr hrr
  show _ = ((rrSpecMap.find? rr.1).map fun modules => modules.size * firstWidth modules).getD 0
  rw [found]
  rfl

/-- **The space required** does not depend on the order. -/
theorem Uniform.requiredSpace_eq (uniform : a.Uniform) (same : SameMap a b) :
    requiredSpace a.entries = requiredSpace b.entries := by
  rw [requiredSpace_eq_sum, requiredSpace_eq_sum]
  have spaces : ∀ r ∈ a.keys, a.regionSpace r = b.regionSpace r := by
    intro r hr
    obtain ⟨modules, h⟩ := LookupMap.exists_find?_eq_some hr
    obtain ⟨modules', h', hsame⟩ := same.exists_find? h
    unfold regionSpace
    rw [h, h', Option.map_some, Option.map_some, uniform.firstWidth_eq same h h',
      LookupMap.size_eq_of_keys (mem_keys_congr hsame)]
  rw [List.map_congr_left spaces]
  exact ((LookupMap.perm_keys same.keys).map _).sum_eq

end RrSpecMap

/-- **The table of bitstream sizes** has the width of the first module of each region. -/
theorem find?_getRrBitstreamSizes {app : Application} {sizes : BitstreamSizeMap}
    (h : app.getRrBitstreamSizes = .ok sizes) (r : ℕ) :
    sizes.find? r = (app.rrSpecMap.find? r).map firstWidth := by
  unfold Application.getRrBitstreamSizes at h
  rw [Machine.eq_foldl_of_foldlM (f := fun sizes rr => sizes.insert rr.1 (firstWidth rr.2)) ?_ h,
    LookupMap.find?_foldl_insert (fun rr => firstWidth rr.2) _ app.rrSpecMap.nodup]
  · show _ = (app.rrSpecMap.entries.lookup r).map firstWidth
    cases app.rrSpecMap.entries.lookup r <;> rfl
  · intro sizes rr sizes' h
    unfold Application.addBitstreamSize at h
    split at h
    · cases h
    · rename_i spec rest entries
      have width : firstWidth rr.2 = spec.bitstreamWidth := by
        rw [firstWidth, entries]
      cases h
      rw [width]

/-- The bitstream size of the module that the library has under two ids. -/
def Memory.libraryWidth (x : Memory) (r id : ℕ) : Option ℕ :=
  match x.hierarchy.getLast? with
  | some (.level main) =>
      match main.table r id with
      | some (some a) => some (x.cells a).bitstreamWidth
      | _ => none
  | _ => none

section Prepared

variable {m : Memory} {app : Application} {resources : PreparedResources}
  {units : List StorageUnit} {main : MemoryLevel}

/-- **The sizes in the library**: those of the first modules. -/
theorem libraryWidth_eq (stored : app.rrSpecMap.StoredById)
    (prepared : prepareAppResources m app = .ok resources)
    (last : m.hierarchy = units ++ [.level main]) (noModules : ∀ r id, main.table r id = none)
    (r id : ℕ) :
    resources.memory.libraryWidth r id =
      (app.rrSpecMap.find2? r id).bind fun _ => (app.rrSpecMap.find? r).map firstWidth := by
  obtain ⟨-, -, -, -, table, hierarchy, filed, other⟩ := spec_of_prepareAppResources prepared last
  unfold Memory.libraryWidth
  rw [hierarchy, List.getLast?_append, List.getLast?_singleton]
  show (match table r id with
    | some (some a) => some (resources.memory.cells a).bitstreamWidth
    | _ => none) = _
  cases found : app.rrSpecMap.find2? r id with
  | none =>
      have absent : table r id = none := by
        rw [other r id fun rr hrr hr e he hid => ?_]
        · exact noModules r id
        · obtain ⟨spec, h⟩ := stored.exists_iff.mp ⟨rr, hrr, hr, e, he, hid⟩
          rw [found] at h
          cases h
      rw [absent]
      rfl
  | some spec =>
      obtain ⟨rr, hrr, rfl, e, he, rfl⟩ := stored.exists_iff.mpr ⟨spec, found⟩
      obtain ⟨a, -, entry, -, -, width⟩ := filed rr hrr e he
      rw [entry, LookupMap.find?_eq_some.mpr hrr]
      exact congrArg some width

end Prepared

/-- **What is read off a first module is the same for every order** of iteration: the
table of sizes, the space that is required and with it whether an application fits, and the
sizes of the modules in the library. -/
structure OrderIndependent (app : Application) : Prop where
  sizes : ∀ b, RrSpecMap.SameMap app.rrSpecMap b → ∀ sizes, app.getRrBitstreamSizes = .ok sizes →
    ∃ sizes', { app with rrSpecMap := b }.getRrBitstreamSizes = .ok sizes' ∧
      ∀ r, sizes.find? r = sizes'.find? r
  space : ∀ b, RrSpecMap.SameMap app.rrSpecMap b →
    requiredSpace app.rrSpecMap.entries = requiredSpace b.entries
  library : ∀ b, RrSpecMap.SameMap app.rrSpecMap b →
    ∀ (m : Memory) (units : List StorageUnit) (main : MemoryLevel) (resources resources'),
      m.hierarchy = units ++ [.level main] → (∀ r id, main.table r id = none) →
        prepareAppResources m app = .ok resources →
          prepareAppResources m { app with rrSpecMap := b } = .ok resources' →
            resources.fits = resources'.fits ∧
              ∀ r id, resources.memory.libraryWidth r id = resources'.memory.libraryWidth r id

namespace RrSpecMap

variable {a b : RrSpecMap Double}

theorem SameMap.storedById (same : SameMap a b) (stored : a.StoredById) : b.StoredById := by
  intro r id spec found
  rw [← same.find2?] at found
  exact stored r id spec found

/-- The width read for a region does not depend on the order. -/
theorem Uniform.map_firstWidth (uniform : a.Uniform) (same : SameMap a b) (r : ℕ) :
    (a.find? r).map firstWidth = (b.find? r).map firstWidth := by
  cases h : a.find? r with
  | none =>
      have absent : b.find? r = none := by
        rw [LookupMap.find?_eq_none, ← same.keys r, ← LookupMap.find?_eq_none]
        exact h
      rw [absent]
  | some modules =>
      obtain ⟨modules', h', -⟩ := same.exists_find? h
      rw [h', Option.map_some, Option.map_some, uniform.firstWidth_eq same h h']

/-- The regions of both maps have modules, or those of neither. -/
theorem SameMap.modules (same : SameMap a b) (modules : ∀ rr ∈ a.entries, rr.2.entries ≠ []) :
    ∀ rr ∈ b.entries, rr.2.entries ≠ [] := by
  intro rr hrr none
  have h := LookupMap.find?_eq_some.mpr hrr
  obtain ⟨modules', h'⟩ := LookupMap.exists_find?_eq_some
    ((same.keys rr.1).mpr (LookupMap.mem_keys_of_find? h))
  obtain ⟨_, hb, hsame⟩ := same.exists_find? h'
  obtain rfl := Option.some.inj (h.symm.trans hb)
  have size := LookupMap.size_eq_of_keys (mem_keys_congr hsame)
  unfold LookupMap.size at size
  rw [none, List.length_nil, List.length_eq_zero_iff] at size
  exact modules _ (LookupMap.find?_eq_some.mp h') size

end RrSpecMap

/-- **Uniform sizes do not depend on the order of iteration.** -/
theorem RrSpecMap.Uniform.orderIndependent {app : Application}
    (uniform : app.rrSpecMap.Uniform) (stored : app.rrSpecMap.StoredById) :
    OrderIndependent app := by
  refine ⟨fun b same sizes h => ?_, fun b same => uniform.requiredSpace_eq same,
    fun b same m units main resources resources' last noModules prepared prepared' => ⟨?_, ?_⟩⟩
  · have modules := same.modules ((Machine.exists_foldlM_eq_ok
      (fun rr _ s => exists_addBitstreamSize_iff s rr) _).mp ⟨sizes, h⟩)
    obtain ⟨sizes', h'⟩ : ∃ sizes', { app with rrSpecMap := b }.getRrBitstreamSizes = .ok sizes' :=
      (Machine.exists_foldlM_eq_ok (fun rr _ s => exists_addBitstreamSize_iff s rr) .empty).mpr
        modules
    refine ⟨sizes', h', fun r => ?_⟩
    rw [find?_getRrBitstreamSizes h, uniform.map_firstWidth same]
    exact (find?_getRrBitstreamSizes h' r).symm
  · rw [Bool.eq_iff_iff, (spec_of_prepareAppResources prepared last).1,
      (spec_of_prepareAppResources prepared' last).1, uniform.requiredSpace_eq same]
  · intro r id
    rw [libraryWidth_eq stored prepared last noModules,
      libraryWidth_eq (same.storedById stored) prepared' last noModules, same.find2?,
      uniform.map_firstWidth same]

/-! ## Documents -/

open YamlNode

/-- All modules of a region have one bitstream size, and it does not matter which of them
is read. -/
def OneBitstreamSize (app : Application) : Prop :=
  app.rrSpecMap.Uniform ∧ OrderIndependent app

/-- Region nodes with the same id have the same bitstream size, where they have modules that
no later node replaces. -/
def UniformRegions (specs : List (ModuleSpec Double)) : Prop :=
  ∀ spec spec', Kept specs spec → Kept specs spec' → spec.regionId = spec'.regionId →
    spec.bitstreamWidth = spec'.bitstreamWidth

/-- **Which documents have one bitstream size for each region.** -/
theorem oneBitstreamSize_iff {Node : Type} [YamlNode Node] {raw : Double} {node : Node}
    {app : ApplicationFile} (accepted : decode raw node = .ok app) :
    ∃ specs, declaredModules node = .ok specs ∧
      (OneBitstreamSize app.toApplication ↔ UniformRegions specs) := by
  obtain ⟨specs, declared, stored, -⟩ := spec_of_decode accepted
  have uniform : app.rrSpecMap.Uniform ↔ UniformRegions specs := by
    unfold RrSpecMap.Uniform UniformRegions
    rw [stored]
    simp only [holds_storeModules]
    constructor
    · intro h spec spec' kept kept' region
      exact h _ spec spec' ⟨rfl, kept⟩ ⟨region.symm, kept'⟩
    · rintro h r spec spec' ⟨rfl, kept⟩ ⟨region, kept'⟩
      exact h spec spec' kept kept' region.symm
  refine ⟨specs, declared, ?_⟩
  rw [← uniform]
  constructor
  · exact And.left
  · intro h
    exact ⟨h, h.orderIndependent (storedById_of_decode accepted)⟩

/-- Two regions, the modules of each of one size, also where a later node adds to them. -/
theorem oneBitstreamSize_iff_twoRegions :
    ∃ app, decode 0 YamlTree.twoRegions = .ok app ∧ OneBitstreamSize app.toApplication := by
  obtain ⟨app, accepted, -⟩ := exists_decode_twoRegions 0
  obtain ⟨specs, declared, oneSize⟩ := oneBitstreamSize_iff accepted
  obtain rfl := Except.ok.inj (declaredModules_twoRegions.symm.trans declared)
  refine ⟨app, accepted, oneSize.mpr fun spec spec' kept kept' => ?_⟩
  have uniform : ∀ spec ∈ YamlTree.twoRegionsModules, ∀ spec' ∈ YamlTree.twoRegionsModules,
      spec.regionId = spec'.regionId → spec.bitstreamWidth = spec'.bitstreamWidth := by decide
  exact uniform spec kept.mem spec' kept'.mem

/-- Two region nodes with the same id, and sizes of their own. -/
def YamlTree.twoSizes : YamlTree :=
  application [rr 0 64 [moduleNode 0 [task "a" 100 10]], rr 0 32 [moduleNode 1 [task "b" 100 10]]]

/-- **A region with modules of two sizes.** -/
theorem twoSizes_not_oneBitstreamSize :
    ∃ app, decode 0 YamlTree.twoSizes = .ok app ∧ ¬ OneBitstreamSize app.toApplication := by
  have accepted : ∃ app, decode 0 YamlTree.twoSizes = .ok app := ⟨_, rfl⟩
  obtain ⟨app, accepted⟩ := accepted
  have declared : declaredModules YamlTree.twoSizes =
      .ok [⟨0, 0, 64, [⟨0, 0, "a", 100, 10⟩]⟩, ⟨0, 1, 32, [⟨0, 1, "b", 100, 10⟩]⟩] := rfl
  have stored := (stored_of_declared accepted declared).1
  refine ⟨app, accepted, fun h => ?_⟩
  have wide : app.rrSpecMap.Holds 0 ⟨0, 0, 64, [⟨0, 0, "a", 100, 10⟩]⟩ := by
    rw [stored, holds_storeModules]
    exact ⟨rfl, [], _, rfl, by simp⟩
  have narrow : app.rrSpecMap.Holds 0 ⟨0, 1, 32, [⟨0, 1, "b", 100, 10⟩]⟩ := by
    rw [stored, holds_storeModules]
    exact ⟨rfl, [_], [], rfl, by simp⟩
  exact absurd (h.1 0 _ _ wide narrow) (by decide)

end Drachma
