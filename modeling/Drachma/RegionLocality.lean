import Drachma.Device
import Drachma.Lib.Footprint

/-!
# Each controller works on its own region

The RR controllers share the module objects, the RR table and the memory levels.
What keeps them apart is that modules are filed by region: a module object
belongs to one region, and the tables hold it under that region
(`Memory.Filed`).

`Memory.viewOf r` is the part of the storage that belongs to region `r`.  A step
of a controller whose handles name its own region reads and writes that part
only, so it acts on its region in the sense of `Machine.ActsOn`.

## Main results

* `RrController.Moves.local` — a step on one storage can be taken on every storage
  that agrees on the controller's region, with results that agree there, and the
  other regions are left alone.
* `RrSide.actsOn` — the same, for a controller among others.
-/

namespace Drachma

/-! ## The storage, region by region -/

/-- What belongs to one region: its entry in the RR table, its module objects, and
the memory levels, which no step that does not fault changes. -/
structure RegionStorage where
  entry : Option ModulePtr
  cells : ℕ → Option RrModule
  hierarchy : List StorageUnit
  next : ℕ

namespace Memory

/-- The part of the storage that belongs to region `r`. -/
def viewOf (r : ℕ) (m : Memory) : RegionStorage :=
  { entry := m.prr.table r
    cells := fun a => if (m.cells a).regionId = r then some (m.cells a) else none
    hierarchy := m.hierarchy
    next := m.next }

/-- Every module is filed under its own region, in the RR table and in the memory
levels. -/
structure Filed (m : Memory) : Prop where
  prr : ∀ r a, m.prr.table r = some (some a) → (m.cells a).regionId = r
  level : ∀ level, StorageUnit.level level ∈ m.hierarchy → ∀ r id a,
    level.table r id = some (some a) → (m.cells a).regionId = r

variable {m m' x x' y y' : Memory} {r : ℕ}

section View

variable (same : m.viewOf r = m'.viewOf r)

include same

theorem entry_eq_of_view : m.prr.table r = m'.prr.table r :=
  congrArg RegionStorage.entry same

theorem hierarchy_eq_of_view : m.hierarchy = m'.hierarchy :=
  congrArg RegionStorage.hierarchy same

/-- Storages that agree on a region hold the same modules of that region. -/
theorem cell_eq_of_view {a : ℕ} (h : (m.cells a).regionId = r) : m'.cells a = m.cells a := by
  have hcell := congrFun (congrArg RegionStorage.cells same) a
  simp only [viewOf, h, if_true] at hcell
  split at hcell
  · exact (Option.some.inj hcell).symm
  · cases hcell

end View

/-- From `m` to `x`, and in the same way from `m'` to `x'`, only region `r` has
changed. -/
structure Updates (r : ℕ) (m x m' x' : Memory) : Prop where
  filed : x.Filed
  filed' : x'.Filed
  frame : ∀ r', r' ≠ r → x.viewOf r' = m.viewOf r'
  same : x.viewOf r = x'.viewOf r

theorem Updates.trans (h : Updates r m x m' x') (k : Updates r x y x' y') :
    Updates r m y m' y' :=
  ⟨k.filed, k.filed', fun r' hr' => (k.frame r' hr').trans (h.frame r' hr'), k.same⟩

/-- Both storages have the same module in region `r`. -/
theorem Updates.lookup (h : Updates r m x m' x') {b : ℕ}
    (target : x.prr.table r = some (some b)) :
    x'.prr.table r = some (some b) ∧ (x.cells b).regionId = r ∧ x'.cells b = x.cells b := by
  have region : (x.cells b).regionId = r := h.filed.prr r b target
  refine ⟨?_, region, cell_eq_of_view h.same region⟩
  rw [← entry_eq_of_view h.same]
  exact target

section Update

variable {a : ℕ} {module : RrModule}

/-- Writing a module of the same region keeps the filing. -/
theorem Filed.setCell (filed : m.Filed) (h : module.regionId = (m.cells a).regionId) :
    (m.setCell a module).Filed := by
  have region : ∀ b, ((m.setCell a module).cells b).regionId = (m.cells b).regionId := by
    intro b
    rcases eq_or_ne b a with rfl | hne
    · simp [h]
    · simp [hne]
  exact ⟨fun r b hb => (region b).trans (filed.prr r b hb),
    fun level hl r id b hb => (region b).trans (filed.level level hl r id b hb)⟩

/-- Filing a module in the RR table keeps the filing. -/
theorem Filed.insertModule (filed : m.Filed) : (m.insertModule a).Filed := by
  refine ⟨fun r b hb => ?_, filed.level⟩
  rcases eq_or_ne r (m.cells a).regionId with rfl | hne
  · simp only [Memory.insertModule, ReconfigurableRegions.insertModule,
      Function.update_self, Option.some.injEq] at hb
    rw [← hb]
    rfl
  · simp only [Memory.insertModule, ReconfigurableRegions.insertModule,
      Function.update_of_ne hne] at hb
    exact filed.prr r b hb

/-- Writing a module of region `r` changes region `r` only. -/
theorem setCell_frame (h : (m.cells a).regionId = r) (hmod : module.regionId = r) {r' : ℕ}
    (hne : r' ≠ r) : (m.setCell a module).viewOf r' = m.viewOf r' := by
  unfold viewOf
  simp only [setCell_prr, setCell_hierarchy, setCell_next, setCell_cells,
    RegionStorage.mk.injEq, true_and, and_true]
  funext b
  rcases eq_or_ne b a with rfl | hb
  · simp [h, hmod, hne.symm]
  · simp [hb]

/-- Filing a module of region `r` changes region `r` only. -/
theorem insertModule_frame (h : (m.cells a).regionId = r) {r' : ℕ} (hne : r' ≠ r) :
    (m.insertModule a).viewOf r' = m.viewOf r' := by
  simp [viewOf, Memory.insertModule, ReconfigurableRegions.insertModule, h, hne]

theorem updates_setCell (filed : m.Filed) (filed' : m'.Filed)
    (same : m.viewOf r = m'.viewOf r) (h : (m.cells a).regionId = r)
    (hmod : module.regionId = r) :
    Updates r m (m.setCell a module) m' (m'.setCell a module) := by
  have hcell := cell_eq_of_view same h
  refine ⟨filed.setCell (hmod.trans h.symm), filed'.setCell ?_,
    fun r' hne => setCell_frame h hmod hne, ?_⟩
  · rw [hcell, h, hmod]
  · simp only [viewOf, RegionStorage.mk.injEq] at same ⊢
    refine ⟨same.1, ?_, same.2.2⟩
    funext b
    have hb := congrFun same.2.1 b
    rcases eq_or_ne b a with rfl | hba
    · simp
    · simpa [hba] using hb

theorem updates_insertModule (filed : m.Filed) (filed' : m'.Filed)
    (same : m.viewOf r = m'.viewOf r) (h : (m.cells a).regionId = r) :
    Updates r m (m.insertModule a) m' (m'.insertModule a) := by
  have hcell := cell_eq_of_view same h
  refine ⟨filed.insertModule, filed'.insertModule,
    fun r' hne => insertModule_frame h hne, ?_⟩
  simp only [viewOf, Memory.insertModule, RegionStorage.mk.injEq] at same ⊢
  exact ⟨by simp [ReconfigurableRegions.insertModule, hcell, h], same.2⟩

end Update

theorem oneModule_filed (n r id : ℕ) : (oneModule n r id).Filed where
  prr r' a h := by
    rw [(oneModule_prr h).2]
    rfl
  level level hl r' m a h := by
    obtain ⟨rfl, -, hcell⟩ := oneModule_level hl h
    rw [hcell]
    rfl

end Memory

namespace RrController

variable {Node : Type}

/-- The bitstreams whose region a step looks up name the region `r`: the handle of
a start request, the handle of a transfer request, and the bitstream latched for
the transfer that has ended. -/
structure HandlesOwn (w : RrcWires Node) (s : RrController Node) (m : Memory) (r : ℕ) :
    Prop where
  start : ∀ a c x bitstream, Wakes w s m a c x → s.nextState = .idle → c.actionQueue = [] →
    w.prcStart = true → (x.cells a).currentState = .idle →
      w.handles.prcScheduledBs = some bitstream → bitstream.regionId = r
  request : ∀ a c x bitstream, Wakes w s m a c x → s.nextState = .idle →
    c.actionQueue = [] → w.prcStart = false → w.icapReq = true →
      w.handles.icapTransferBs = some bitstream → bitstream.regionId = r
  latched : s.nextState = .transfer → w.icapTrans = false → s.icapTransferBs.regionId = r

variable {w : RrcWires Node} {s s' c : RrController Node} {m m' x : Memory} {a : ℕ}

/-- Waking up touches the module in the controller's region only. -/
theorem Wakes.local (wakes : Wakes w s m a c x) (filed : m.Filed) (filed' : m'.Filed)
    (same : m.viewOf s.prrId = m'.viewOf s.prrId) :
    ∃ x', Wakes w s m' a c x' ∧ Memory.Updates s.prrId m x m' x' := by
  obtain ⟨resident, ⟨c₀, hc₀, hc⟩, rfl⟩ := wakes
  have region : (m.cells a).regionId = s.prrId := filed.prr _ _ resident
  have cell : m'.cells a = m.cells a := Memory.cell_eq_of_view same region
  refine ⟨m'.setCell a (m.cells a).watch, ⟨?_, ⟨c₀, hc₀, ?_⟩, ?_⟩,
    Memory.updates_setCell filed filed' same region (by simpa using region)⟩
  · rw [← Memory.entry_eq_of_view same]
    exact resident
  · rw [cell]
    exact hc
  · rw [cell]

/-- Beginning a task touches the module it begins on only. -/
theorem Begins.local {r : ℕ} (begins : Begins s m a x) (region : (m.cells a).regionId = r)
    (filed : m.Filed) (filed' : m'.Filed) (same : m.viewOf r = m'.viewOf r) :
    ∃ x', Begins s m' a x' ∧ Memory.Updates r m x m' x' := by
  obtain ⟨task, htask, hsim, rfl⟩ := begins
  have cell : m'.cells a = m.cells a := Memory.cell_eq_of_view same region
  refine ⟨m'.setCell a ((m.cells a).begun s.simSpeed task), ⟨task, htask, ?_, ?_⟩,
    Memory.updates_setCell filed filed' same region (by simpa using region)⟩
  · rw [cell]
    exact hsim
  · rw [cell]

/-- What a controller may look up depends on its own region only. -/
theorem HandlesOwn.congr {r : ℕ} (own : HandlesOwn w s m r) (filed : m.Filed)
    (filed' : m'.Filed) (same : m.viewOf s.prrId = m'.viewOf s.prrId) :
    HandlesOwn w s m' r := by
  refine ⟨?_, ?_, own.latched⟩
  · intro a c x' bitstream wakes' state queue start idle handle
    obtain ⟨x, wakes, updates⟩ := wakes'.local filed' filed same.symm
    obtain ⟨-, -, cell⟩ := updates.lookup wakes'.still_resident
    exact own.start a c x bitstream wakes state queue start (by rw [cell]; exact idle) handle
  · intro a c x' bitstream wakes' state queue noStart req handle
    obtain ⟨x, wakes, -⟩ := wakes'.local filed' filed same.symm
    exact own.request a c x bitstream wakes state queue noStart req handle

variable [GraphNode Node]

/-- **A step stays in its region.**  A step of a controller whose handles name its
own region can be taken on every storage that agrees on that region; the results
agree there, and nothing else has moved. -/
theorem Moves.local (moves : Moves w s m s' x) (own : HandlesOwn w s m s.prrId)
    (filed : m.Filed) (filed' : m'.Filed) (same : m.viewOf s.prrId = m'.viewOf s.prrId) :
    ∃ x', Moves w s m' s' x' ∧ Memory.Updates s.prrId m x m' x' := by
  cases moves with
  | init wakes state =>
      obtain ⟨x', wakes', updates⟩ := wakes.local filed filed' same
      exact ⟨x', .init wakes' state, updates⟩
  | rest wakes state rests =>
      obtain ⟨x', wakes', updates⟩ := wakes.local filed filed' same
      obtain ⟨-, -, cell⟩ := updates.lookup wakes.still_resident
      exact ⟨x', .rest wakes' state (by rw [cell]; exact rests), updates⟩
  | startQueued wakes state queue idle type begins =>
      obtain ⟨x', wakes', updates⟩ := wakes.local filed filed' same
      obtain ⟨-, region, cell⟩ := updates.lookup wakes.still_resident
      obtain ⟨x₁', begins', updates₁⟩ :=
        begins.local region updates.filed updates.filed' updates.same
      exact ⟨x₁', .startQueued wakes' state queue (by rw [cell]; exact idle) type begins',
        updates.trans updates₁⟩
  | @startRequested a b c x x₁ task bitstream wakes state queue start idle current handle
      target begins =>
      obtain ⟨x', wakes', updates⟩ := wakes.local filed filed' same
      obtain ⟨-, -, cell⟩ := updates.lookup wakes.still_resident
      have named : bitstream.regionId = s.prrId :=
        own.start a c x bitstream wakes state queue start idle handle
      rw [named] at target
      obtain ⟨target', region, -⟩ := updates.lookup target
      obtain ⟨x₁', begins', updates₁⟩ :=
        begins.local region updates.filed updates.filed' updates.same
      exact ⟨x₁', .startRequested wakes' state queue start (by rw [cell]; exact idle) current
        handle (by rw [named]; exact target') begins', updates.trans updates₁⟩
  | @decline a b c x bitstream wakes state queue noStart req handle target other running =>
      obtain ⟨x', wakes', updates⟩ := wakes.local filed filed' same
      have named : bitstream.regionId = s.prrId :=
        own.request a c x bitstream wakes state queue noStart req handle
      rw [named] at target
      obtain ⟨target', -, cell⟩ := updates.lookup target
      exact ⟨x', .decline (b := b) wakes' state queue noStart req handle
        (by rw [named]; exact target') (by rw [cell]; exact other)
        (by rw [cell]; exact running), updates⟩
  | @accept a b c x bitstream wakes state queue noStart req handle target other stopped =>
      obtain ⟨x', wakes', updates⟩ := wakes.local filed filed' same
      have named : bitstream.regionId = s.prrId :=
        own.request a c x bitstream wakes state queue noStart req handle
      rw [named] at target
      obtain ⟨target', region, cell⟩ := updates.lookup target
      refine ⟨x'.setCell b (x'.cells b).beginTransfer,
        .accept wakes' state queue noStart req handle (by rw [named]; exact target')
          (by rw [cell]; exact other) (by rw [cell]; exact stopped), updates.trans ?_⟩
      rw [cell]
      exact Memory.updates_setCell updates.filed updates.filed' updates.same region region
  | wait wakes state =>
      obtain ⟨x', wakes', updates⟩ := wakes.local filed filed' same
      exact ⟨x', .wait wakes' state, updates⟩
  | hold wakes state transferring =>
      obtain ⟨x', wakes', updates⟩ := wakes.local filed filed' same
      exact ⟨x', .hold wakes' state transferring, updates⟩
  | @install a b c x x₁ level bitstream wakes state ended unit stored handle begins =>
      obtain ⟨x', wakes', updates⟩ := wakes.local filed filed' same
      have named : c.icapTransferBs.regionId = s.prrId := by
        rw [wakes.icapTransferBs_eq]
        exact own.latched state ended
      have region : (x.cells b).regionId = s.prrId := by
        rw [← named]
        exact updates.filed.level level (List.mem_of_getElem? unit) _ _ _ stored
      have installs := Memory.updates_insertModule updates.filed updates.filed' updates.same
        region
      obtain ⟨x₁', begins', updates₁⟩ :=
        begins.local region installs.filed installs.filed' installs.same
      refine ⟨x₁', .install wakes' state ended ?_ stored handle begins',
        (updates.trans installs).trans updates₁⟩
      rw [← Memory.hierarchy_eq_of_view updates.same]
      exact unit

end RrController

/-! ## A controller among the others -/

namespace RrSide

variable {n : ℕ} {Node : Type}

/-- Controller `i` has the region `ids i`, and every module is filed under its own
region. -/
structure Apart (ids : Fin n → ℕ) (s : RrSide n Node) : Prop where
  filed : s.memory.Filed
  region : ∀ i, (s.rrc i).prrId = ids i

/-- The controllers of region `r`, and the storage of that region. -/
def viewOf (ids : Fin n → ℕ) (r : ℕ) (s : RrSide n Node) :
    (Fin n → Option (RrController Node)) × RegionStorage :=
  (fun i => if ids i = r then some (s.rrc i) else none, s.memory.viewOf r)

variable {ids : Fin n → ℕ} {s s' : RrSide n Node}

theorem rrc_eq_of_view {i : Fin n} (same : s.viewOf ids (ids i) = s'.viewOf ids (ids i)) :
    s.rrc i = s'.rrc i := by
  have h := congrFun (congrArg Prod.fst same) i
  simpa [viewOf] using h

theorem memory_eq_of_view {r : ℕ} (same : s.viewOf ids r = s'.viewOf ids r) :
    s.memory.viewOf r = s'.memory.viewOf r := congrArg Prod.snd same

/-- A view is of the controllers of the region, and of its storage. -/
theorem viewOf_congr {r : ℕ} (controllers : ∀ i, ids i = r → s.rrc i = s'.rrc i)
    (same : s.memory.viewOf r = s'.memory.viewOf r) : s.viewOf ids r = s'.viewOf ids r := by
  unfold viewOf
  rw [Prod.mk.injEq]
  refine ⟨?_, same⟩
  funext i
  by_cases h : ids i = r
  · rw [if_pos h, if_pos h, controllers i h]
  · rw [if_neg h, if_neg h]

/-- The view of a region after its controller has moved. -/
theorem viewOf_update {i : Fin n} (hids : Function.Injective ids)
    {controller : RrController Node} {memory memory' : Memory}
    (same : memory.viewOf (ids i) = memory'.viewOf (ids i)) :
    viewOf ids (ids i) { rrc := Function.update s.rrc i controller, memory := memory } =
      viewOf ids (ids i)
        { rrc := Function.update s'.rrc i controller, memory := memory' } := by
  apply viewOf_congr _ same
  intro j hj
  obtain rfl := hids hj
  show Function.update _ _ _ _ = Function.update _ _ _ _
  rw [Function.update_self, Function.update_self]

/-- The view of another region after a controller has moved. -/
theorem viewOf_update_of_ne {i : Fin n} {r : ℕ} (hr : r ≠ ids i)
    {controller : RrController Node} {memory : Memory}
    (same : memory.viewOf r = s.memory.viewOf r) :
    viewOf ids r { rrc := Function.update s.rrc i controller, memory := memory } =
      s.viewOf ids r := by
  apply viewOf_congr _ same
  intro j hj
  have hji : j ≠ i := by
    rintro rfl
    exact hr hj.symm
  exact Function.update_of_ne hji ..

variable [GraphNode Node]

/-- **A controller acts on its own region.** -/
theorem actsOn (hids : Function.Injective ids) (w : RrcWires Node) (i : Fin n) :
    Machine.ActsOn (Apart ids) (viewOf ids) (ids i)
      (fun s : RrSide n Node => (s.rrc i).HandlesOwn w s.memory (ids i))
      (fun s => s.step w i) where
  guard_congr := by
    intro s t aparts apartt same own
    rw [← rrc_eq_of_view same]
    refine own.congr aparts.filed apartt.filed ?_
    rw [aparts.region]
    exact memory_eq_of_view same
  preserves := by
    intro s x apart own hstep
    obtain ⟨controller, memory, hctrl, rfl⟩ := step_eq_ok.mp hstep
    have moves := RrController.moves_of_step hctrl
    obtain ⟨_, -, updates⟩ := moves.local (by rw [apart.region]; exact own) apart.filed
      apart.filed rfl
    refine ⟨updates.filed, fun j => ?_⟩
    rcases eq_or_ne j i with rfl | hji
    · simp only [Function.update_self]
      rw [moves.constants.1, apart.region]
    · simp only [Function.update_of_ne hji]
      exact apart.region j
  congr := by
    intro s t x aparts apartt own same hstep
    obtain ⟨controller, memory, hctrl, rfl⟩ := step_eq_ok.mp hstep
    have moves := RrController.moves_of_step hctrl
    obtain ⟨memory', moves', updates⟩ := moves.local
      (by rw [aparts.region]; exact own) aparts.filed apartt.filed
      (by rw [aparts.region]; exact memory_eq_of_view same)
    refine ⟨{ rrc := Function.update t.rrc i controller, memory := memory' }, ?_, ?_⟩
    · rw [rrc_eq_of_view same] at moves'
      exact step_eq_ok.mpr ⟨controller, memory', RrController.step_of_moves moves', rfl⟩
    · rw [aparts.region] at updates
      exact viewOf_update hids updates.same
  frame := by
    intro s x apart own hstep r hr
    obtain ⟨controller, memory, hctrl, rfl⟩ := step_eq_ok.mp hstep
    have moves := RrController.moves_of_step hctrl
    obtain ⟨_, -, updates⟩ := moves.local (by rw [apart.region]; exact own) apart.filed
      apart.filed rfl
    exact viewOf_update_of_ne hr (updates.frame r (by rw [apart.region]; exact hr))

end RrSide

end Drachma
