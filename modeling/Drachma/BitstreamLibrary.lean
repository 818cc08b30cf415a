import Drachma.ApplicationFile
import Drachma.BitstreamChoice
import Drachma.MemoryHierarchy
import Drachma.VacantRegion

/-!
# The bitstream library

`prepareAppResources` makes an object for every module of an application and files it in
the main memory, the last unit of the hierarchy; and it adds up the space the modules
require, which is compared with the size of the main memory.

The sum is an `unsigned`, and `getSize` returns an `unsigned short`, while the size that
was configured is an `unsigned`.

## Main results

* `Memory.prepareRegions_library` — what is filed, and where.
* `fits_exact_iff` — when the comparison is that of the exact numbers.
* `library_complete` — the library has the modules of the application and no others.
-/

namespace Drachma

open Machine (LookupMap bind_eq_ok)

/-- The bitstream size that is read for a region: the width of its first module. -/
def firstWidth (modules : LookupMap ℕ (ModuleSpec Double)) : ℕ :=
  match modules.entries with
  | [] => 0
  | (_, spec) :: _ => spec.bitstreamWidth

/-- The space that the modules of some regions require. -/
def requiredSpace (regions : List (ℕ × LookupMap ℕ (ModuleSpec Double))) : ℕ :=
  (regions.map fun rr => rr.2.size * firstWidth rr.2).sum

/-! ## What is filed -/

namespace Memory

/-- The entry of a table leads to a module object with these ids and this width. -/
def HasModule (x : Memory) (table : ℕ → ℕ → Option ModulePtr) (r id width : ℕ) : Prop :=
  ∃ a < x.next, table r id = some (some a) ∧ (x.cells a).regionId = r ∧
    (x.cells a).moduleId = id ∧ (x.cells a).bitstreamWidth = width

/-- What is filed stays filed while other objects are made. -/
theorem HasModule.of_extends {x y : Memory} {table table' : ℕ → ℕ → Option ModulePtr}
    {r id width : ℕ} (filed : x.HasModule table r id width) (ext : x.Extends y)
    (same : table' r id = table r id) : y.HasModule table' r id width := by
  obtain ⟨a, made, entry, ids⟩ := filed
  refine ⟨a, made.trans_le ext.next, same.trans entry, ?_⟩
  rwa [ext.old a made]

variable {m m' : Memory} {units : List StorageUnit} {main : MemoryLevel}

/-- A module is filed in the main memory, under its own ids. -/
theorem prepareModule_library {regionId width : ℕ} {entry : ℕ × ModuleSpec Double}
    (last : m.hierarchy = units ++ [.level main])
    (h : prepareModule regionId width m entry = .ok m') :
    m'.hierarchy = units ++ [.level (main.insertModule regionId entry.2.id m.next)] ∧
      m'.cells m.next =
        .ofSpec (m.cells m.next) regionId entry.2.id width entry.2.tasks := by
  have cell : Function.update m.cells m.next
      (RrModule.ofSpec (m.cells m.next) regionId entry.2.id width entry.2.tasks) m.next = _ :=
    Function.update_self _ _ _
  unfold prepareModule alloc insertLibraryModule at h
  dsimp only at h
  rw [last, List.getLast?_append, List.getLast?_singleton, List.dropLast_concat] at h
  cases h
  refine ⟨?_, cell⟩
  show units ++ [StorageUnit.insertModule _ _ _] = _
  rw [cell]
  rfl

/-- The modules of a region are filed. -/
theorem prepareModules_library {regionId width : ℕ} {entries : List (ℕ × ModuleSpec Double)}
    (last : m.hierarchy = units ++ [.level main])
    (h : entries.foldlM (prepareModule regionId width) m = .ok m') :
    ∃ table, m'.hierarchy = units ++ [.level { main with table := table }] ∧
      (∀ e ∈ entries, m'.HasModule table regionId e.2.id width) ∧
        ∀ r id, (r = regionId → ∀ e ∈ entries, e.2.id ≠ id) → table r id = main.table r id := by
  induction entries generalizing m main with
  | nil =>
      cases h
      exact ⟨main.table, last, fun e he => absurd he List.not_mem_nil, fun _ _ _ => rfl⟩
  | cons entry entries ih =>
      rw [List.foldlM_cons, bind_eq_ok] at h
      obtain ⟨x, hx, h⟩ := h
      obtain ⟨next, cell⟩ := prepareModule_library last hx
      obtain ⟨-, made, -⟩ := prepareModule_eq_ok hx
      obtain ⟨table, hierarchy, filed, other⟩ := ih next h
      have here : (main.insertModule regionId entry.2.id m.next).table regionId entry.2.id =
          some (some m.next) := by
        simp [MemoryLevel.insertModule]
      refine ⟨table, hierarchy, fun e he => ?_, fun r id absent => ?_⟩
      · rcases List.mem_cons.mp he with rfl | he
        · by_cases again : ∃ e' ∈ entries, e'.2.id = e.2.id
          · obtain ⟨e', he', same⟩ := again
            rw [← same]
            exact filed e' he'
          · push Not at again
            have first : x.HasModule (main.insertModule regionId e.2.id m.next).table regionId
                e.2.id width := by
              refine ⟨m.next, by omega, here, ?_⟩
              rw [cell]
              exact ⟨rfl, rfl, rfl⟩
            exact first.of_extends (prepareModules_eq_ok h).1 (other _ _ fun _ => again)
        · exact filed e he
      · rw [other r id fun hr e he => absent hr e (List.mem_cons_of_mem _ he)]
        show Function.update main.table regionId _ r id = _
        by_cases hr : r = regionId
        · subst hr
          rw [Function.update_self]
          exact Function.update_of_ne (absent rfl entry List.mem_cons_self).symm _ _
        · rw [Function.update_of_ne hr]

/-- A region: the space of its modules is added, and they are filed. -/
theorem prepareRegion_library {acc acc' : ℕ × Memory}
    {rr : ℕ × LookupMap ℕ (ModuleSpec Double)}
    (last : acc.2.hierarchy = units ++ [.level main]) (h : prepareRegion acc rr = .ok acc') :
    acc'.1 = (acc.1 + rr.2.size * firstWidth rr.2) % 2 ^ 32 ∧
      ∃ table, acc'.2.hierarchy = units ++ [.level { main with table := table }] ∧
        (∀ e ∈ rr.2.entries, acc'.2.HasModule table rr.1 e.2.id (firstWidth rr.2)) ∧
          ∀ r id, (r = rr.1 → ∀ e ∈ rr.2.entries, e.2.id ≠ id) →
            table r id = main.table r id := by
  unfold prepareRegion at h
  split at h
  · cases h
  · rename_i spec rest entries
    have width : firstWidth rr.2 = spec.bitstreamWidth := by
      unfold firstWidth
      rw [entries]
    obtain ⟨x, hx, h⟩ := bind_eq_ok.mp h
    cases h
    rw [width]
    refine ⟨rfl, prepareModules_library ?_ hx⟩
    exact last

/-- **What is filed**: the modules of the regions, each under the region and its own id. -/
theorem prepareRegions_library {regions : List (ℕ × LookupMap ℕ (ModuleSpec Double))}
    (nodup : (regions.map Prod.fst).Nodup) {acc acc' : ℕ × Memory}
    (last : acc.2.hierarchy = units ++ [.level main])
    (h : regions.foldlM prepareRegion acc = .ok acc') :
    (acc.1 < 2 ^ 32 → acc'.1 = (acc.1 + requiredSpace regions) % 2 ^ 32) ∧
      ∃ table, acc'.2.hierarchy = units ++ [.level { main with table := table }] ∧
        (∀ rr ∈ regions, ∀ e ∈ rr.2.entries,
          acc'.2.HasModule table rr.1 e.2.id (firstWidth rr.2)) ∧
          ∀ r id, (∀ rr ∈ regions, rr.1 = r → ∀ e ∈ rr.2.entries, e.2.id ≠ id) →
            table r id = main.table r id := by
  induction regions generalizing acc main with
  | nil =>
      cases h
      refine ⟨fun small => (Nat.mod_eq_of_lt small).symm, main.table, last,
        fun rr hrr => absurd hrr List.not_mem_nil, fun _ _ _ => rfl⟩
  | cons rr rest ih =>
      rw [List.foldlM_cons, bind_eq_ok] at h
      obtain ⟨acc₁, h₁, h⟩ := h
      rw [List.map_cons, List.nodup_cons] at nodup
      obtain ⟨space₁, table₁, last₁, filed₁, other₁⟩ := prepareRegion_library last h₁
      obtain ⟨space, table, hierarchy, filed, other⟩ := ih nodup.2 last₁ h
      have ext := (prepareRegions_eq_ok nodup.2 0 h).1
      refine ⟨fun _ => ?_, table, hierarchy, fun rr' hrr' e he => ?_, fun r id absent => ?_⟩
      · rw [space (by rw [space₁]; exact Nat.mod_lt _ (by decide)), space₁, Nat.mod_add_mod,
          requiredSpace, requiredSpace, List.map_cons, List.sum_cons, Nat.add_assoc]
      · rcases List.mem_cons.mp hrr' with rfl | hrr'
        · -- the regions that follow have other ids
          refine (filed₁ e he).of_extends ext (other _ _ fun rr'' hrr'' same => ?_)
          exact absurd (List.mem_map.mpr ⟨rr'', hrr'', same⟩) nodup.1
        · exact filed rr' hrr' e he
      · rw [other r id fun rr' hrr' => absent rr' (List.mem_cons_of_mem _ hrr')]
        exact other₁ r id fun same => absent rr List.mem_cons_self same.symm

end Memory

/-! ## When an application can be prepared -/

/-- The specifications can be prepared: every region has a module, and every module a
task. -/
def Preparable (rrSpecMap : RrSpecMap Double) : Prop :=
  ∀ rr ∈ rrSpecMap.entries, rr.2.entries ≠ [] ∧ ∀ e ∈ rr.2.entries, e.2.tasks ≠ []

theorem Memory.exists_insertLibraryModule {m : Memory} {a : ℕ} (memory : m.hierarchy ≠ []) :
    ∃ m', m.insertLibraryModule a = .ok m' ∧ m'.hierarchy ≠ [] := by
  unfold Memory.insertLibraryModule
  rw [List.getLast?_eq_getLast_of_ne_nil memory]
  exact ⟨_, rfl, List.append_ne_nil_of_right_ne_nil _ (List.cons_ne_nil _ _)⟩

theorem exists_prepareRegion {acc : ℕ × Memory} {rr : ℕ × LookupMap ℕ (ModuleSpec Double)}
    (modules : rr.2.entries ≠ []) (memory : acc.2.hierarchy ≠ []) :
    ∃ acc', Memory.prepareRegion acc rr = .ok acc' ∧ acc'.2.hierarchy ≠ [] := by
  have module : ∀ width : ℕ, ∀ e ∈ rr.2.entries, ∀ m : Memory, m.hierarchy ≠ [] →
      ∃ m', Memory.prepareModule rr.1 width m e = .ok m' ∧ m'.hierarchy ≠ [] := by
    intro width e _ m hm
    exact Memory.exists_insertLibraryModule hm
  unfold Memory.prepareRegion
  split
  · rename_i none
    exact absurd none modules
  · rename_i spec rest _
    obtain ⟨m', made, kept⟩ := Machine.exists_foldlM_of_invariant
      (module spec.bitstreamWidth)
      (s := (acc.2.alloc (.placeholder (acc.2.cells acc.2.next) rr.1)).2.insertModule
        acc.2.next) memory
    exact ⟨_, bind_eq_ok.mpr ⟨m', made, rfl⟩, kept⟩

theorem exists_addModuleCapabilities_iff {rrId : ℕ} (capabilities : TaskRrLookupMap)
    (module : ℕ × ModuleSpec Double) :
    (∃ c, Application.addModuleCapabilities rrId capabilities module = .ok c) ↔
      module.2.tasks ≠ [] := by
  unfold Application.addModuleCapabilities
  by_cases none : module.2.tasks = []
  · rw [if_pos none]
    exact iff_of_false (fun ⟨_, h⟩ => nomatch h) fun h => h none
  · rw [if_neg none]
    exact iff_of_true ⟨_, rfl⟩ none

theorem exists_addRrCapabilities_iff (capabilities : TaskRrLookupMap)
    (rr : ℕ × LookupMap ℕ (ModuleSpec Double)) :
    (∃ c, Application.addRrCapabilities capabilities rr = .ok c) ↔
      rr.2.entries ≠ [] ∧ ∀ e ∈ rr.2.entries, e.2.tasks ≠ [] := by
  unfold Application.addRrCapabilities
  by_cases none : rr.2.entries = []
  · rw [if_pos none]
    exact iff_of_false (fun ⟨_, h⟩ => nomatch h) fun h => h.1 none
  · rw [if_neg none,
      Machine.exists_foldlM_eq_ok fun e _ c => exists_addModuleCapabilities_iff c e]
    exact (and_iff_right none).symm

theorem exists_addBitstreamSize_iff (sizes : BitstreamSizeMap)
    (rr : ℕ × LookupMap ℕ (ModuleSpec Double)) :
    (∃ s, Application.addBitstreamSize sizes rr = .ok s) ↔ rr.2.entries ≠ [] := by
  unfold Application.addBitstreamSize
  split
  · rename_i none
    exact iff_of_false (fun ⟨_, h⟩ => nomatch h) fun h => h none
  · rename_i entries
    rw [entries]
    exact iff_of_true ⟨_, rfl⟩ (List.cons_ne_nil _ _)

/-- **When an application can be prepared.** -/
theorem exists_prepareAppResources_iff {m : Memory} (memory : m.hierarchy ≠ [])
    (app : Application) :
    (∃ resources, prepareAppResources m app = .ok resources) ↔ Preparable app.rrSpecMap := by
  constructor
  · rintro ⟨resources, h⟩
    unfold prepareAppResources at h
    obtain ⟨_, -, h⟩ := bind_eq_ok.mp h
    obtain ⟨_, -, h⟩ := bind_eq_ok.mp h
    obtain ⟨capabilities, derived, -⟩ := bind_eq_ok.mp h
    exact (Machine.exists_foldlM_eq_ok (fun rr _ c => exists_addRrCapabilities_iff c rr) _).mp
      ⟨capabilities, derived⟩
  · intro preparable
    obtain ⟨acc, made, kept⟩ := Machine.exists_foldlM_of_invariant
      (P := fun acc : ℕ × Memory => acc.2.hierarchy ≠ [])
      (fun rr hrr _ hacc => exists_prepareRegion (preparable rr hrr).1 hacc) (s := (0, m)) memory
    obtain ⟨sizes, hsizes⟩ := (Machine.exists_foldlM_eq_ok
      (fun rr _ s => exists_addBitstreamSize_iff s rr) .empty).mpr
        fun rr hrr => (preparable rr hrr).1
    obtain ⟨capabilities, derived⟩ := (Machine.exists_foldlM_eq_ok
      (fun rr _ c => exists_addRrCapabilities_iff c rr) .empty).mpr preparable
    unfold prepareAppResources
    refine ⟨_, bind_eq_ok.mpr ⟨acc, made, bind_eq_ok.mpr ⟨sizes, hsizes, bind_eq_ok.mpr
      ⟨capabilities, derived, bind_eq_ok.mpr ⟨acc.2.hierarchy.getLast kept, ?_, rfl⟩⟩⟩⟩⟩
    rw [lookupAt_eq_ok, List.getLast?_eq_getLast_of_ne_nil kept]

/-! ## The comparison of the sizes -/

section Prepared

variable {m : Memory} {app : Application} {resources : PreparedResources}
  {units : List StorageUnit} {main : MemoryLevel}

/-- The tables that `prepareAppResources` reads off the specifications. -/
theorem tables_of_prepareAppResources (prepared : prepareAppResources m app = .ok resources) :
    resources.rrCensus = rrCensus app.rrSpecMap ∧
      app.getRrBitstreamSizes = .ok resources.prrBitstreamSizes ∧
      Application.getRrTaskCapabilites app.rrSpecMap = .ok resources.bsCapabilites := by
  unfold prepareAppResources at prepared
  obtain ⟨_, -, prepared⟩ := bind_eq_ok.mp prepared
  obtain ⟨sizes, hsizes, prepared⟩ := bind_eq_ok.mp prepared
  obtain ⟨capabilites, hcapabilites, prepared⟩ := bind_eq_ok.mp prepared
  obtain ⟨_, -, prepared⟩ := bind_eq_ok.mp prepared
  cases prepared
  exact ⟨rfl, hsizes, hcapabilites⟩

/-- **What `prepareAppResources` leaves behind**, over a hierarchy that ends in a main
memory. -/
theorem spec_of_prepareAppResources (prepared : prepareAppResources m app = .ok resources)
    (last : m.hierarchy = units ++ [.level main]) :
    (resources.fits = true ↔
        requiredSpace app.rrSpecMap.entries % 2 ^ 32 ≤ main.unitSize % 2 ^ 16) ∧
      resources.rrCensus = rrCensus app.rrSpecMap ∧
      app.getRrBitstreamSizes = .ok resources.prrBitstreamSizes ∧
      Application.getRrTaskCapabilites app.rrSpecMap = .ok resources.bsCapabilites ∧
      ∃ table, resources.memory.hierarchy = units ++ [.level { main with table := table }] ∧
        (∀ rr ∈ app.rrSpecMap.entries, ∀ e ∈ rr.2.entries,
          resources.memory.HasModule table rr.1 e.2.id (firstWidth rr.2)) ∧
          ∀ r id, (∀ rr ∈ app.rrSpecMap.entries, rr.1 = r → ∀ e ∈ rr.2.entries, e.2.id ≠ id) →
            table r id = main.table r id := by
  obtain ⟨census, hsizes, hcapabilites⟩ := tables_of_prepareAppResources prepared
  unfold prepareAppResources at prepared
  obtain ⟨⟨required, memory⟩, made, prepared⟩ := bind_eq_ok.mp prepared
  obtain ⟨_, -, prepared⟩ := bind_eq_ok.mp prepared
  obtain ⟨_, -, prepared⟩ := bind_eq_ok.mp prepared
  obtain ⟨mainMemory, hmain, prepared⟩ := bind_eq_ok.mp prepared
  obtain ⟨space, table, hierarchy, filed, other⟩ :=
    Memory.prepareRegions_library app.rrSpecMap.nodup last made
  dsimp only at space hierarchy filed hmain
  rw [lookupAt_eq_ok, hierarchy, List.getLast?_append, List.getLast?_singleton] at hmain
  obtain rfl := Option.some.inj hmain
  have required_eq := space (by decide)
  rw [Nat.zero_add] at required_eq
  cases prepared
  refine ⟨?_, census, hsizes, hcapabilites, table, hierarchy, filed, other⟩
  rw [decide_eq_true_iff, ← required_eq]
  rfl

/-- The comparison of the reduced numbers gives the answer for the numbers themselves. -/
def ComparesExactly (size required : ℕ) : Prop :=
  required ≤ size % 2 ^ 16 ∨ (size < required ∧ size % 2 ^ 16 < required % 2 ^ 32)

theorem comparesExactly_iff {size required : ℕ} (small : size < 2 ^ 32) :
    (required % 2 ^ 32 ≤ size % 2 ^ 16 ↔ required ≤ size) ↔ ComparesExactly size required := by
  unfold ComparesExactly
  have low : size % 2 ^ 16 ≤ size := Nat.mod_le _ _
  by_cases enough : required ≤ size
  · rw [Nat.mod_eq_of_lt (enough.trans_lt small)]
    constructor
    · intro h
      exact .inl (h.mpr enough)
    · rintro (h | ⟨h, -⟩)
      · exact ⟨fun _ => enough, fun _ => h⟩
      · omega
  · constructor
    · intro h
      exact .inr ⟨not_le.mp enough, not_le.mp fun hle => enough (h.mp hle)⟩
    · rintro (h | ⟨-, h⟩)
      · omega
      · exact ⟨fun hle => absurd h (not_lt.mpr hle), fun hle => absurd hle enough⟩

/-- **When the capacity check is exact.**  The size of the main memory is an `unsigned`. -/
theorem fits_exact_iff (prepared : prepareAppResources m app = .ok resources)
    (last : m.hierarchy.getLast? = some (.level main)) (small : main.unitSize < 2 ^ 32) :
    (resources.fits = true ↔ requiredSpace app.rrSpecMap.entries ≤ main.unitSize) ↔
      ComparesExactly main.unitSize (requiredSpace app.rrSpecMap.entries) := by
  obtain ⟨units, last⟩ := List.getLast?_eq_some_iff.mp last
  rw [(spec_of_prepareAppResources prepared last).1]
  exact comparesExactly_iff small

end Prepared

/-- A storage of an RR table and a main memory of the given size. -/
def memoryOfSize (size : ℕ) : Memory :=
  Memory.associateHierarchy
    { cells := fun _ => .idleModule 0 0, next := 0, prr := .empty, hierarchy := [] } .empty
    [{ unitSize := size, readLatency := 8, searchLatency := 32, lutIndexed := true
       table := fun _ _ => none }]

/-- One region with one module of the given size. -/
def applicationOfWidth (width : ℕ) : Application :=
  { Application.oneRegion with
    rrSpecMap :=
      ⟨[(0, ⟨[(7, { Application.oneRegionBs with bitstreamWidth := width })],
          List.nodup_singleton _⟩)], List.nodup_singleton _⟩ }

theorem exists_prepare_ofSize (size width : ℕ) :
    ∃ resources, prepareAppResources (memoryOfSize size) (applicationOfWidth width) =
      .ok resources := ⟨_, rfl⟩

theorem requiredSpace_ofWidth (width : ℕ) :
    requiredSpace (applicationOfWidth width).rrSpecMap.entries = width := by
  show (1 * width) + 0 = width
  omega

/-- The three modules of two regions, which fill the memory. -/
theorem fits_exact_iff_twoRegions :
    ∃ resources, prepareAppResources (memoryOfSize 12) .twoRegions = .ok resources ∧
      requiredSpace Application.twoRegions.rrSpecMap.entries = 12 ∧ resources.fits = true := by
  have prepared : ∃ resources, prepareAppResources (memoryOfSize 12) .twoRegions =
      .ok resources := ⟨_, rfl⟩
  obtain ⟨resources, prepared⟩ := prepared
  have required : requiredSpace Application.twoRegions.rrSpecMap.entries = 12 := rfl
  have exactly : ComparesExactly 12 (requiredSpace Application.twoRegions.rrSpecMap.entries) := by
    rw [required]
    exact .inl (by decide)
  have fits := (fits_exact_iff prepared rfl (by decide)).mpr exactly
  exact ⟨resources, prepared, required, fits.mpr required.le⟩

/-- **A library that fits is rejected**: 60000 bytes, in the main memory of the example, of
256000. -/
theorem fitting_library_rejected :
    ∃ resources, prepareAppResources (memoryOfSize 256000) (applicationOfWidth 60000) =
        .ok resources ∧
      requiredSpace (applicationOfWidth 60000).rrSpecMap.entries ≤ 256000 ∧
        resources.fits = false := by
  obtain ⟨resources, prepared⟩ := exists_prepare_ofSize 256000 60000
  refine ⟨resources, prepared, ?_, ?_⟩
  · rw [requiredSpace_ofWidth]
    decide
  · have last : (memoryOfSize 256000).hierarchy =
        [.regions .empty] ++ [.level ⟨256000, 8, 32, true, fun _ _ => none⟩] := rfl
    have fits := (spec_of_prepareAppResources prepared last).1
    rw [requiredSpace_ofWidth] at fits
    rw [Bool.eq_false_iff, Ne, fits]
    decide

/-! ## The library of an application -/

theorem find?_rrCensus (rrSpecMap : RrSpecMap Double) (r : ℕ) :
    (rrCensus rrSpecMap).find? r =
      (rrSpecMap.find? r).map fun modules => modules.size % 2 ^ 32 := by
  unfold rrCensus
  rw [LookupMap.find?_foldl_keep]
  rfl

/-- The modules that `decode` stores are stored under their own ids. -/
theorem storedById_of_decode {Node : Type} [YamlNode Node] {raw : Double} {node : Node}
    {app : ApplicationFile} (accepted : YamlNode.decode raw node = .ok app) :
    app.rrSpecMap.StoredById := by
  obtain ⟨specs, -, stored, -⟩ := YamlNode.spec_of_decode accepted
  intro r id spec found
  rw [stored] at found
  obtain ⟨region, module, -⟩ := YamlNode.find2?_storeModules.mp found
  exact ⟨region, module⟩

/-- Where modules are stored under their own ids, they can be looked for either way. -/
theorem RrSpecMap.StoredById.exists_iff {rrSpecMap : RrSpecMap Double}
    (stored : rrSpecMap.StoredById) {r id : ℕ} :
    (∃ rr ∈ rrSpecMap.entries, rr.1 = r ∧ ∃ e ∈ rr.2.entries, e.2.id = id) ↔
      ∃ spec, rrSpecMap.find2? r id = some spec := by
  have byEntry := RrSpecMap.storedById_iff.mp stored
  constructor
  · rintro ⟨rr, hrr, rfl, e, he, rfl⟩
    rw [(byEntry rr hrr e he).2]
    exact ⟨e.2, LookupMap.find2?_eq_some.mpr
      ⟨rr.2, LookupMap.find?_eq_some.mpr hrr, LookupMap.find?_eq_some.mpr he⟩⟩
  · rintro ⟨spec, h⟩
    obtain ⟨modules, hr, hid⟩ := LookupMap.find2?_eq_some.mp h
    have hrr := LookupMap.find?_eq_some.mp hr
    have he := LookupMap.find?_eq_some.mp hid
    exact ⟨_, hrr, rfl, _, he, (byEntry _ hrr _ he).2⟩

section Filed

variable {rrSpecMap : RrSpecMap Double} {x : Memory} {table : ℕ → ℕ → Option ModulePtr}
  {width : LookupMap ℕ (ModuleSpec Double) → ℕ}

/-- A module that is specified is found under its ids. -/
theorem RrSpecMap.StoredById.exists_hasModule (stored : rrSpecMap.StoredById)
    (filed : ∀ rr ∈ rrSpecMap.entries, ∀ e ∈ rr.2.entries,
      x.HasModule table rr.1 e.2.id (width rr.2))
    {r id : ℕ} (specified : ∃ spec, rrSpecMap.find2? r id = some spec) :
    ∃ w, x.HasModule table r id w := by
  obtain ⟨rr, hrr, rfl, e, he, rfl⟩ := stored.exists_iff.mpr specified
  exact ⟨_, filed rr hrr e he⟩

/-- The table has the modules that are specified, and no others. -/
theorem RrSpecMap.StoredById.isSome_iff (stored : rrSpecMap.StoredById)
    (filed : ∀ rr ∈ rrSpecMap.entries, ∀ e ∈ rr.2.entries,
      x.HasModule table rr.1 e.2.id (width rr.2))
    (other : ∀ r id, (∀ rr ∈ rrSpecMap.entries, rr.1 = r → ∀ e ∈ rr.2.entries, e.2.id ≠ id) →
      table r id = none) (r id : ℕ) :
    (table r id).isSome = true ↔ ∃ spec, rrSpecMap.find2? r id = some spec := by
  by_cases specified : ∃ spec, rrSpecMap.find2? r id = some spec
  · obtain ⟨_, a, -, entry, -⟩ := stored.exists_hasModule filed specified
    rw [entry]
    exact iff_of_true rfl specified
  · rw [← stored.exists_iff] at specified
    have none : table r id = none :=
      other r id fun rr hrr hr e he hid => specified ⟨rr, hrr, hr, e, he, hid⟩
    rw [none, ← stored.exists_iff]
    exact iff_of_false Bool.false_ne_true specified

end Filed

/-- A hierarchy that was built is an RR table and levels of memory. -/
theorem exists_levels_of_buildMemoryHierarchy {raw : LevelParams} {files : Files}
    {memoryFile : Text} {units : List StorageUnit}
    (built : buildMemoryHierarchy raw files memoryFile = .ok units) :
    ∃ levels : List MemoryLevel, units = .regions .empty :: levels.map .level := by
  obtain ⟨content, p, main, -, -, -, -, rfl⟩ := spec_of_buildMemoryHierarchy built
  refine ⟨((List.range p.highestLevel).map fun i => cacheLevel p (i + 1)) ++ [main], ?_⟩
  rw [List.map_append]
  rfl

/-- The levels of a hierarchy that was just built have no modules, and the last of them is
the main memory. -/
theorem levels_of_buildMemoryHierarchy {raw : LevelParams} {files : Files} {memoryFile : Text}
    {levels : List MemoryLevel}
    (built : buildMemoryHierarchy raw files memoryFile =
      .ok (.regions .empty :: levels.map .level)) :
    ∃ caches main, levels = caches ++ [main] ∧ main.unitSize < 2 ^ 32 ∧
      ∀ level ∈ levels, ∀ r id, level.table r id = none := by
  obtain ⟨content, p, main, -, -, asDeclared, noMain, hunits⟩ := spec_of_buildMemoryHierarchy built
  have hlevels : levels.map StorageUnit.level =
      (((List.range p.highestLevel).map fun i => cacheLevel p (i + 1)) ++ [main]).map .level := by
    rw [List.map_append]
    exact (List.cons.inj hunits).2
  have inj : Function.Injective StorageUnit.level := fun _ _ h => StorageUnit.level.inj h
  obtain rfl := List.map_injective_iff.mpr inj hlevels
  refine ⟨_, main, rfl, ?_, fun level hlevel r id => ?_⟩
  · obtain ⟨z, -, hz⟩ := asDeclared.size
    rw [hz]
    omega
  · rcases List.mem_append.mp hlevel with hcache | hmain
    · obtain ⟨i, -, rfl⟩ := List.mem_map.mp hcache
      rfl
    · rw [List.mem_singleton.mp hmain]
      exact noMain r id

/-- **A complete library**: the main memory `main` reports the modules of the
specifications and no others, and gives them out; the RR table has one placeholder for each
region and no other entry; the census counts the modules; the caches are empty. -/
structure LibraryComplete (rrSpecMap : RrSpecMap Double) (resources : PreparedResources)
    (main : MemoryLevel) : Prop where
  last : resources.memory.hierarchy.getLast? = some (.level main)
  present : ∀ r id, main.isModulePresent r id = true ↔ ∃ spec, rrSpecMap.find2? r id = some spec
  module : ∀ r id, main.isModulePresent r id = true →
    ∃ a, (main.getModule r id).1 = some a ∧ (resources.memory.cells a).regionId = r ∧
      (resources.memory.cells a).moduleId = id
  placeholder : ∀ r ∈ rrSpecMap.keys, ∃ a, resources.memory.prr.table r = some (some a) ∧
    (resources.memory.cells a).regionId = r ∧
      (resources.memory.cells a).moduleId = unsignedMinusOne
  noOther : ∀ r ∉ rrSpecMap.keys, resources.memory.prr.table r = none
  census : ∀ r, resources.rrCensus.find? r =
    (rrSpecMap.find? r).map fun modules => modules.size % 2 ^ 32
  caches : ∀ level, .level level ∈ resources.memory.hierarchy.dropLast →
    ∀ r id, level.isModulePresent r id = false

theorem exists_placeholderAddress {i : ℕ}
    {regions : List (ℕ × LookupMap ℕ (ModuleSpec Double))} (h : i ∈ regions.map Prod.fst)
    (next : ℕ) : ∃ a, placeholderAddress i regions next = some a := by
  induction regions generalizing next with
  | nil => exact absurd h List.not_mem_nil
  | cons rr rest ih =>
      rw [placeholderAddress]
      by_cases here : rr.1 = i
      · exact ⟨next, if_pos here⟩
      · rw [if_neg here]
        rw [List.map_cons, List.mem_cons] at h
        exact ih (h.resolve_left fun same => here same.symm) _

/-- **The library is complete and exact**, for an application that was decoded and a
hierarchy that was just built. -/
theorem library_complete {Node : Type} [YamlNode Node] {fastest : Double} {node : Node}
    {app : ApplicationFile} (accepted : YamlNode.decode fastest node = .ok app)
    {raw : LevelParams} {files : Files} {memoryFile : Text} {levels : List MemoryLevel}
    (built : buildMemoryHierarchy raw files memoryFile =
      .ok (.regions .empty :: levels.map .level))
    {m : Memory} {resources : PreparedResources}
    (prepared : prepareAppResources (m.associateHierarchy .empty levels) app.toApplication =
      .ok resources) :
    ∃ main, LibraryComplete app.rrSpecMap resources main := by
  obtain ⟨caches, main, rfl, -, noModules⟩ := levels_of_buildMemoryHierarchy built
  have last : (m.associateHierarchy .empty (caches ++ [main])).hierarchy =
      (.regions .empty :: caches.map .level) ++ [.level main] := by
    show _ :: (caches ++ [main]).map _ = _
    rw [List.map_append]
    rfl
  obtain ⟨-, census, -, -, table, hierarchy, filed, other⟩ :=
    spec_of_prepareAppResources prepared last
  have stored := storedById_of_decode accepted
  have placeholders := Memory.hasPlaceholder_of_prepareAppResources prepared
  have vacant : ∀ r id, main.table r id = none :=
    noModules main (List.mem_append_right _ List.mem_cons_self)
  have present := stored.isSome_iff filed fun r id absent => (other r id absent).trans (vacant r id)
  refine ⟨{ main with table := table }, ?_, present, fun r id hpresent => ?_, fun r hr => ?_,
    fun r hr => ?_, fun r => ?_, fun level hlevel r id => ?_⟩
  · rw [hierarchy, List.getLast?_append, List.getLast?_singleton]
    rfl
  · obtain ⟨_, a, -, entry, region, module, -⟩ :=
      stored.exists_hasModule filed ((present r id).mp hpresent)
    refine ⟨a, ?_, region, module⟩
    unfold MemoryLevel.getModule
    dsimp only
    rw [entry]
  · obtain ⟨a, address⟩ := exists_placeholderAddress hr m.next
    obtain ⟨entry, -, made⟩ := (placeholders r).made a address
    refine ⟨a, entry, ?_⟩
    rw [made]
    exact ⟨rfl, rfl⟩
  · exact (placeholders r).without (Memory.placeholderAddress_of_not_mem hr)
  · rw [census]
    exact find?_rrCensus _ r
  · rw [hierarchy, List.dropLast_concat, List.mem_cons] at hlevel
    rcases hlevel with h | h
    · cases h
    · obtain ⟨level', hlevel', heq⟩ := List.mem_map.mp h
      obtain rfl := StorageUnit.level.inj heq
      show (level'.table r id).isSome = false
      rw [noModules level' (List.mem_append_left _ hlevel') r id]
      rfl

/-- The library of two regions, over a hierarchy with a cache level. -/
theorem library_complete_twoRegions :
    ∃ app levels resources main, YamlNode.decode 0 YamlTree.twoRegions = .ok app ∧
      buildMemoryHierarchy heldParams memoryFiles "complete.mem".toList =
        .ok (.regions .empty :: levels.map .level) ∧
      prepareAppResources (oneLevelMemory.associateHierarchy .empty levels) app.toApplication =
        .ok resources ∧
      LibraryComplete app.rrSpecMap resources main := by
  obtain ⟨app, accepted, stored, -⟩ := YamlNode.exists_decode_twoRegions 0
  obtain ⟨units, built⟩ := exists_buildMemoryHierarchy_complete
  obtain ⟨levels, rfl⟩ := exists_levels_of_buildMemoryHierarchy built
  obtain ⟨caches, mainMemory, rfl, -⟩ := levels_of_buildMemoryHierarchy built
  have prepared : ∃ resources, prepareAppResources
      (oneLevelMemory.associateHierarchy .empty (caches ++ [mainMemory])) app.toApplication =
        .ok resources := by
    rw [exists_prepareAppResources_iff (List.cons_ne_nil _ _), stored]
    unfold Preparable
    decide
  obtain ⟨resources, prepared⟩ := prepared
  obtain ⟨main, complete⟩ := library_complete accepted built prepared
  exact ⟨app, _, resources, main, accepted, built, prepared, complete⟩

end Drachma
