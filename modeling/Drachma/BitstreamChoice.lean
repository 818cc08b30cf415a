import Drachma.RegionChoice
import Mathlib.Data.List.MinMax

/-!
# The choice of a bitstream

In the region that `getRrForTask` has chosen, `getBitstreamForTask` takes the top of
the speed queue and looks the module up.  The lookups use `at`, and rest on two
tables that separate loops have built: the capability map behind the region, and the
speed map behind the module.

The comparator of the speed queue is `>`, under which the top of a priority queue is
its *least* element: the bitstream chosen is the one that `FirstSlowest` describes.

## Main results

* `LftFeSelector.tables_agree` — the two tables have the same keys and the same
  modules under each, and the lookups for a chosen region succeed.
* `LftFeSelector.fastest_iff` — the bitstream chosen is a fastest one exactly when the
  slowest module is.
* `RrSpecMap.slowestIsFastest_iff` — where no module lists the type twice, this says
  that all modules run it at one speed.
-/

namespace Drachma

open Machine (LookupMap PriorityQueue bind_eq_ok)

variable {S : Type} {n : ℕ} {Node : Type} [GraphNode Node]

namespace RrSpecMap

variable {rrSpecMap : RrSpecMap S} {t : String} {r : ℕ}

theorem mem_select {x : Listing S} :
    x ∈ rrSpecMap.select t r ↔
      x.typeId = t ∧ x.rrId = r ∧
        ∃ spec, rrSpecMap.find2? r x.moduleId = some spec ∧ spec.RunsAt t x.speed := by
  rw [select, List.mem_filter, decide_eq_true_eq, mem_listings]
  constructor
  · rintro ⟨⟨spec, hspec, hruns⟩, rfl, rfl⟩
    exact ⟨rfl, rfl, spec, hspec, hruns⟩
  · rintro ⟨rfl, rfl, spec, hspec, hruns⟩
    exact ⟨⟨spec, hspec, hruns⟩, rfl, rfl⟩

/-- The listing of a module of the region, at a speed at which it runs the type. -/
theorem listing_mem_select {id : ℕ} {spec : ModuleSpec S} {v : S}
    (hspec : rrSpecMap.find2? r id = some spec) (hruns : spec.RunsAt t v) :
    (⟨t, r, id, v⟩ : Listing S) ∈ rrSpecMap.select t r :=
  mem_select.mpr ⟨rfl, rfl, spec, hspec, hruns⟩

variable [LinearOrder S]

/-- `b` runs tasks of type `t` at a speed that no other module of the region exceeds. -/
def Fastest (rrSpecMap : RrSpecMap S) (t : String) (r : ℕ) (b : ModuleSpec S) : Prop :=
  ∃ v, b.RunsAt t v ∧
    ∀ spec, rrSpecMap.Holds r spec → spec ≠ b → ∀ v', spec.RunsAt t v' → v' ≤ v

/-- `x` is the first of the slowest listings. -/
def FirstSlowest (listings : List (Listing S)) (x : Listing S) : Prop :=
  ∃ before after, listings = before ++ x :: after ∧
    (∀ y ∈ before, x.speed < y.speed) ∧ ∀ y ∈ listings, x.speed ≤ y.speed

/-- The first module that lists the type at the region's least speed lists it at the
region's greatest speed, too. -/
def SlowestIsFastest (rrSpecMap : RrSpecMap S) (t : String) (r : ℕ) : Prop :=
  ∃ x, FirstSlowest (rrSpecMap.select t r) x ∧
    ∃ y ∈ rrSpecMap.select t r, y.moduleId = x.moduleId ∧
      ∀ z ∈ rrSpecMap.select t r, z.speed ≤ y.speed

theorem FirstSlowest.mem {listings : List (Listing S)} {x : Listing S}
    (h : FirstSlowest listings x) : x ∈ listings := by
  obtain ⟨before, after, rfl, -⟩ := h
  simp

theorem FirstSlowest.unique {listings : List (Listing S)} {x y : Listing S}
    (hx : FirstSlowest listings x) (hy : FirstSlowest listings y) : x = y := by
  obtain ⟨before, after, rfl, hbefore, hleast⟩ := hx
  obtain ⟨before', after', hsplit, hbefore', hleast'⟩ := hy
  -- neither comes before the other
  have hxy : ¬ x ∈ before' := fun h =>
    absurd (hbefore' x h) (not_lt.mpr (hleast y (by rw [hsplit]; simp)))
  have hyx : ¬ y ∈ before := fun h =>
    absurd (hbefore y h) (not_lt.mpr (hleast' x (by simp)))
  rcases List.append_eq_append_iff.mp hsplit with ⟨mid, rfl, hmid⟩ | ⟨mid, rfl, hmid⟩
  · cases mid with
    | nil => exact (List.cons.inj hmid).1
    | cons a mid =>
        rw [List.cons_append] at hmid
        exact absurd (by simp [(List.cons.inj hmid).1]) hxy
  · cases mid with
    | nil => exact ((List.cons.inj hmid).1).symm
    | cons a mid =>
        rw [List.cons_append] at hmid
        exact absurd (by simp [(List.cons.inj hmid).1]) hyx

/-- A module's being fastest, read off the listings. -/
theorem fastest_iff_listing {id : ℕ} {b : ModuleSpec S}
    (hb : rrSpecMap.find2? r id = some b) :
    rrSpecMap.Fastest t r b ↔
      ∃ y ∈ rrSpecMap.select t r, y.moduleId = id ∧
        ∀ z ∈ rrSpecMap.select t r, z.speed ≤ y.speed := by
  constructor
  · rintro ⟨v, hv, others⟩
    have own := listing_mem_select hb hv
    obtain ⟨top, htop⟩ : ∃ top, List.argmax Listing.speed (rrSpecMap.select t r) = some top := by
      rw [← Option.ne_none_iff_exists', ne_eq, List.argmax_eq_none]
      exact List.ne_nil_of_mem own
    obtain ⟨-, -, spec, hspec, hruns⟩ := mem_select.mp (List.argmax_mem htop)
    have greatest : ∀ z ∈ rrSpecMap.select t r, z.speed ≤ top.speed := fun z hz =>
      List.le_of_mem_argmax hz htop
    by_cases h : spec = b
    · -- the region's greatest speed is one of `b`'s own
      subst h
      exact ⟨_, listing_mem_select hb hruns, rfl, greatest⟩
    · have := others spec ⟨_, hspec⟩ h _ hruns
      exact ⟨_, own, rfl, fun z hz => (greatest z hz).trans this⟩
  · rintro ⟨y, hy, rfl, greatest⟩
    obtain ⟨-, -, spec, hspec, hruns⟩ := mem_select.mp hy
    cases hspec.symm.trans hb
    refine ⟨y.speed, hruns, ?_⟩
    rintro spec' ⟨id', hid'⟩ - v' hv'
    exact greatest _ (listing_mem_select hid' hv')

theorem exists_firstSlowest {listings : List (Listing S)} (h : listings ≠ []) :
    ∃ x, FirstSlowest listings x := by
  have weak : PriorityQueue.IsStrictWeak fun x y : Listing S => decide (y.speed < x.speed) :=
    PriorityQueue.isStrictWeak_of_key fun x : Listing S => OrderDual.toDual x.speed
  obtain ⟨before, x, after, hsplit, -, hbefore, hleast⟩ :=
    PriorityQueue.exists_top?_of_map (q := ⟨listings⟩) weak (List.map_id listings).symm h
  refine ⟨x, before, after, hsplit, ?_, ?_⟩
  · intro y hy
    simpa using hbefore y hy
  · intro y hy
    simpa using hleast y hy

/-- Where no module lists the type at two speeds, the slowest module is the fastest
exactly when all modules run the type at one speed. -/
theorem slowestIsFastest_iff (runs : rrSpecMap.CanRun r t)
    (single : ∀ spec, rrSpecMap.Holds r spec → ∀ v v', spec.RunsAt t v → spec.RunsAt t v' →
      v = v') :
    rrSpecMap.SlowestIsFastest t r ↔
      ∀ spec spec' v v', rrSpecMap.Holds r spec → rrSpecMap.Holds r spec' →
        spec.RunsAt t v → spec'.RunsAt t v' → v = v' := by
  constructor
  · rintro ⟨x, hx, y, hy, hid, greatest⟩
    obtain ⟨before, after, -, -, hleast⟩ := id hx
    have hxy : x.speed = y.speed := by
      obtain ⟨-, -, b, hb, hruns⟩ := mem_select.mp hx.mem
      obtain ⟨-, -, b', hb', hruns'⟩ := mem_select.mp hy
      rw [hid] at hb'
      cases hb.symm.trans hb'
      exact single b ⟨_, hb⟩ _ _ hruns hruns'
    have pinned : ∀ spec v, rrSpecMap.Holds r spec → spec.RunsAt t v → v = y.speed := by
      rintro spec v ⟨id', hspec⟩ hruns
      have mem := listing_mem_select hspec hruns
      exact le_antisymm (greatest _ mem) (hxy ▸ hleast _ mem)
    intro spec spec' v v' hspec hspec' hruns hruns'
    rw [pinned spec v hspec hruns, pinned spec' v' hspec' hruns']
  · intro equal
    obtain ⟨x, hx⟩ := exists_firstSlowest (canRun_iff_select.mp runs)
    refine ⟨x, hx, x, hx.mem, rfl, fun z hz => ?_⟩
    obtain ⟨-, -, b, hb, hruns⟩ := mem_select.mp hx.mem
    obtain ⟨-, -, b', hb', hruns'⟩ := mem_select.mp hz
    exact (equal b' b _ _ ⟨_, hb'⟩ ⟨_, hb⟩ hruns' hruns).le

/-- Every specification is stored under its own region and id. -/
def StoredById {S : Type} (rrSpecMap : RrSpecMap S) : Prop :=
  ∀ r id spec, rrSpecMap.find2? r id = some spec → spec.regionId = r ∧ spec.id = id

theorem storedById_iff {S : Type} {rrSpecMap : RrSpecMap S} :
    rrSpecMap.StoredById ↔
      ∀ rr ∈ rrSpecMap.entries, ∀ module ∈ rr.2.entries,
        module.2.regionId = rr.1 ∧ module.2.id = module.1 := by
  unfold StoredById
  simp only [LookupMap.find2?_eq_some, LookupMap.find?_eq_some]
  constructor
  · rintro stored ⟨r, modules⟩ hr ⟨id, spec⟩ hid
    exact stored r id spec ⟨modules, hr, hid⟩
  · rintro stored r id spec ⟨modules, hr, hid⟩
    exact stored (r, modules) hr (id, spec) hid

instance {S : Type} {rrSpecMap : RrSpecMap S} : Decidable rrSpecMap.StoredById :=
  decidable_of_iff _ storedById_iff.symm

end RrSpecMap

namespace LftFeSelector

variable [LinearOrder S] {rrSpecMap : RrSpecMap S} {capabilities : TaskRrLookupMap}
  {s : LftFeSelector S} {exeBus : Bus n Bool} {task : Node} {t : String} {r : ℕ}

/-- The comparator of the queue compares speeds, the greater being exceeded. -/
theorem isStrictWeak_maxPairCompare :
    PriorityQueue.IsStrictWeak (maxPairCompare (S := S)) :=
  PriorityQueue.isStrictWeak_of_key fun x : ℕ × S => OrderDual.toDual x.2

/-- **The bitstream of a chosen region** is the first of the slowest. -/
theorem getBitstreamForTask_of_found
    (derived : Application.getRrTaskCapabilites rrSpecMap = .ok capabilities)
    (made : LftFeSelector.new capabilities rrSpecMap = .ok s)
    (ht : getTaskTypeId task = .ok t) (found : s.getRrForTask task exeBus = .ok (true, r)) :
    ∃ x b, RrSpecMap.FirstSlowest (rrSpecMap.select t r) x ∧
      rrSpecMap.find2? r x.moduleId = some b ∧ b.RunsAt t x.speed ∧
        s.getBitstreamForTask task exeBus = .ok (true, b) := by
  obtain ⟨hspeeds, hspecs, -⟩ := new_spec derived made
  have hcan := (freeFor_of_getRrForTask derived made ht found).1.1
  have stored : (getBsSpeedMap rrSpecMap).find2? t r =
      some ⟨(rrSpecMap.select t r).map fun x => (x.moduleId, x.speed)⟩ :=
    RrSpecMap.bsSpeedMap_find2?.mpr ⟨hcan, rfl⟩
  obtain ⟨rrs, hrrs, hqueue⟩ := LookupMap.find2?_eq_some.mp stored
  obtain ⟨before, x, after, hsplit, htop, hbefore, hleast⟩ :=
    PriorityQueue.exists_top?_of_map (isStrictWeak_maxPairCompare (S := S))
      (f := fun x : Listing S => (x.moduleId, x.speed)) rfl (RrSpecMap.canRun_iff_select.mp hcan)
  have first : RrSpecMap.FirstSlowest (rrSpecMap.select t r) x := by
    refine ⟨before, after, hsplit, ?_, ?_⟩
    · intro y hy
      simpa [maxPairCompare] using hbefore y hy
    · intro y hy
      simpa [maxPairCompare] using hleast y hy
  obtain ⟨-, -, b, hb, hruns⟩ := RrSpecMap.mem_select.mp first.mem
  obtain ⟨modules, hmodules, hmodule⟩ := LookupMap.find2?_eq_some.mp hb
  refine ⟨x, b, first, hb, hruns, ?_⟩
  unfold getBitstreamForTask
  rw [found, Machine.ok_bind, if_pos rfl, ht, Machine.ok_bind, hspeeds, hspecs]
  rw [lookupAt_eq_ok.mpr hrrs, Machine.ok_bind, lookupAt_eq_ok.mpr hqueue, Machine.ok_bind]
  rw [htop, Machine.ok_bind, lookupAt_eq_ok.mpr hmodules, Machine.ok_bind]
  rw [lookupAt_eq_ok.mpr hmodule, Machine.ok_bind]
  rfl

/-- For a region that was found, every lookup succeeds. -/
theorem exists_bitstream_of_found
    (derived : Application.getRrTaskCapabilites rrSpecMap = .ok capabilities)
    (made : LftFeSelector.new capabilities rrSpecMap = .ok s) (stored : rrSpecMap.StoredById)
    (ht : getTaskTypeId task = .ok t) (found : s.getRrForTask task exeBus = .ok (true, r)) :
    ∃ b modules, s.getBitstreamForTask task exeBus = .ok (true, b) ∧ b.regionId = r ∧
      rrSpecMap.find? r = some modules ∧ modules.find? b.id = some b ∧ b.Runs t := by
  obtain ⟨x, b, -, hb, ⟨listed, hlisted, htype, -⟩, answer⟩ :=
    getBitstreamForTask_of_found derived made ht found
  obtain ⟨hregion, hid⟩ := stored r x.moduleId b hb
  obtain ⟨modules, hmodules, hmodule⟩ := LookupMap.find2?_eq_some.mp hb
  rw [← hid] at hmodule
  exact ⟨b, modules, answer, hregion, hmodules, hmodule, listed, hlisted, htype⟩

/-- **The tables agree.**  The capability map and the speed map have the same keys and
list the same modules under each.  For a chosen region, the lookups succeed: the
bitstream is one that is stored under the region, and lists a task of the type. -/
theorem tables_agree
    (derived : Application.getRrTaskCapabilites rrSpecMap = .ok capabilities)
    (made : LftFeSelector.new capabilities rrSpecMap = .ok s)
    (stored : rrSpecMap.StoredById) (t : String) (r : ℕ) :
    ((∃ ids, capabilities.find2? t r = some ids) ↔
      ∃ queue, (getBsSpeedMap rrSpecMap).find2? t r = some queue) ∧
    (∀ ids queue, capabilities.find2? t r = some ids →
      (getBsSpeedMap rrSpecMap).find2? t r = some queue →
        ids.Perm (queue.items.map Prod.fst)) ∧
    ∀ {n : ℕ} {Node : Type} [GraphNode Node] (exeBus : Bus n Bool) (task : Node),
      getTaskTypeId task = .ok t → s.getRrForTask task exeBus = .ok (true, r) →
        ∃ b modules, s.getBitstreamForTask task exeBus = .ok (true, b) ∧ b.regionId = r ∧
          rrSpecMap.find? r = some modules ∧ modules.find? b.id = some b ∧ b.Runs t := by
  refine ⟨?_, ?_, ?_⟩
  · constructor
    · rintro ⟨ids, hids⟩
      obtain ⟨hcan, -⟩ := (RrSpecMap.capabilities_find2? derived).mp hids
      exact ⟨⟨_⟩, RrSpecMap.bsSpeedMap_find2?.mpr ⟨hcan, rfl⟩⟩
    · rintro ⟨queue, hqueue⟩
      obtain ⟨hcan, -⟩ := RrSpecMap.bsSpeedMap_find2?.mp hqueue
      exact ⟨_, (RrSpecMap.capabilities_find2? derived).mpr ⟨hcan, rfl⟩⟩
  · intro ids queue hids hqueue
    obtain ⟨-, rfl⟩ := (RrSpecMap.capabilities_find2? derived).mp hids
    obtain ⟨-, hitems⟩ := RrSpecMap.bsSpeedMap_find2?.mp hqueue
    rw [hitems, List.map_map]
    exact List.Perm.refl _
  · intro n Node _ exeBus task ht found
    exact exists_bitstream_of_found derived made stored ht found

/-- With region 1 executing, region 0 is chosen, and one of its modules is found. -/
theorem tables_agree_twoSpeeds :
    ∃ capabilities s,
      Application.getRrTaskCapabilites twoSpeeds = .ok capabilities ∧
      LftFeSelector.new capabilities twoSpeeds = .ok s ∧
      ∃ b modules,
        s.getBitstreamForTask (LoneTask.mk "a") ![false, true] = .ok (true, b) ∧
        b.regionId = 0 ∧ twoSpeeds.find? 0 = some modules ∧ modules.find? b.id = some b ∧
          b.Runs "a" := by
  refine ⟨_, _, rfl, rfl, ?_⟩
  exact (tables_agree rfl rfl (by decide) "a" 0).2.2 ![false, true] (LoneTask.mk "a") rfl rfl

/-- **The comparator is the wrong way round**, here too.  The bitstream found is one of
the fastest exactly when the slowest module of the region is. -/
theorem fastest_iff
    (derived : Application.getRrTaskCapabilites rrSpecMap = .ok capabilities)
    (made : LftFeSelector.new capabilities rrSpecMap = .ok s) (exeBus : Bus n Bool) (task : Node)
    (ht : getTaskTypeId task = .ok t) (found : s.getRrForTask task exeBus = .ok (true, r))
    {b : ModuleSpec S} (answer : s.getBitstreamForTask task exeBus = .ok (true, b)) :
    rrSpecMap.Fastest t r b ↔ rrSpecMap.SlowestIsFastest t r := by
  obtain ⟨x, b', first, hb', -, answer'⟩ := getBitstreamForTask_of_found derived made ht found
  cases answer.symm.trans answer'
  rw [RrSpecMap.fastest_iff_listing hb']
  constructor
  · rintro ⟨y, hy, hid, greatest⟩
    exact ⟨x, first, y, hy, hid, greatest⟩
  · rintro ⟨x', first', y, hy, hid, greatest⟩
    cases first.unique first'
    exact ⟨y, hy, hid, greatest⟩

/-- Region 0 is chosen, and its module 7. -/
theorem fastest_iff_twoSpeeds :
    ∃ capabilities s b,
      Application.getRrTaskCapabilites twoSpeeds = .ok capabilities ∧
      LftFeSelector.new capabilities twoSpeeds = .ok s ∧
      s.getBitstreamForTask (LoneTask.mk "a") ![false, true] = .ok (true, b) ∧
      (twoSpeeds.Fastest "a" 0 b ↔ twoSpeeds.SlowestIsFastest "a" 0) :=
  ⟨_, _, _, rfl, rfl, rfl, fastest_iff rfl rfl ![false, true] (LoneTask.mk "a") rfl rfl rfl⟩

/-- **The slower bitstream is taken**: module 7 runs "a" at speed 1 only, and module 8,
of the same region, at speed 2. -/
theorem slowest_found :
    ∃ capabilities s b,
      Application.getRrTaskCapabilites twoSpeeds = .ok capabilities ∧
      LftFeSelector.new capabilities twoSpeeds = .ok s ∧
      s.getRrForTask (LoneTask.mk "a") ![false, true] = .ok (true, 0) ∧
      s.getBitstreamForTask (LoneTask.mk "a") ![false, true] = .ok (true, b) ∧
      ¬ twoSpeeds.Fastest "a" 0 b := by
  refine ⟨_, _, _, rfl, rfl, rfl, rfl, ?_⟩
  rintro ⟨v, ⟨listed, hlisted, -, rfl⟩, others⟩
  have faster := others _ ⟨8, rfl⟩ (by decide) 2 ⟨_, List.mem_cons_self, rfl, rfl⟩
  obtain rfl := List.mem_singleton.mp hlisted
  exact absurd faster (by decide)

end LftFeSelector

end Drachma
