import Drachma.RegionLocality
import Drachma.Simulation

/-!
# The order of the steps of a cycle

Within a cycle every component reads the signal context as it was refreshed in the
cycle before, so the order in which the components are stepped does not matter for
their signals.  The RR controllers share the storage as well, outside the context;
there it is the filing of the modules by region that keeps them apart.

* `Device.Part` — the PRC, the ICAP and the regions: each component acts on one part;
* `Device.Separate` — the device states in which the parts are separate;
* `Device.cycleIn_eq_ok_iff` — a cycle of such a device has one outcome, whatever
  the order.
-/

namespace Drachma

/-- Storages that agree on every region are the same. -/
theorem Memory.ext_of_views {m m' : Memory} (h : ∀ r, m.viewOf r = m'.viewOf r) : m = m' := by
  have hcells : m.cells = m'.cells := by
    funext a
    exact (Memory.cell_eq_of_view (h (m.cells a).regionId) rfl).symm
  have htable : m.prr.table = m'.prr.table := by
    funext r
    exact Memory.entry_eq_of_view (h r)
  have hnext : m.next = m'.next := congrArg RegionStorage.next (h 0)
  have hhierarchy : m.hierarchy = m'.hierarchy := Memory.hierarchy_eq_of_view (h 0)
  obtain ⟨cells, next, ⟨table⟩, hierarchy⟩ := m
  obtain ⟨cells', next', ⟨table'⟩, hierarchy'⟩ := m'
  dsimp only at hcells htable hnext hhierarchy
  rw [hcells, hnext, htable, hhierarchy]

namespace Device

variable {n : ℕ} {Node σ : Type}

/-- The parts of a device. -/
inductive Part
  | prc
  | icap
  | region (r : ℕ)

/-- The state of a part, and the signal context it reads. -/
def PartState (n : ℕ) (Node σ : Type) : Part → Type
  | .prc => SignalContext n Node × Prc n Node σ
  | .icap => SignalContext n Node × Icap n
  | .region _ => SignalContext n Node × (Fin n → Option (RrController Node)) × RegionStorage

/-- A device, part by part; `ids` are the regions of the RR controllers. -/
def viewOf (ids : Fin n → ℕ) : ∀ part : Part, Device n Node σ → PartState n Node σ part
  | .prc, d => (d.context, d.prc)
  | .icap, d => (d.context, d.icap)
  | .region r, d => (d.context, d.rr.viewOf ids r)

/-- The part a component acts on. -/
def partOf (ids : Fin n → ℕ) : Component n → Part
  | .prc => .prc
  | .icap => .icap
  | .rrc i => .region (ids i)

/-- The RR controllers look up their own regions only. -/
def Guard (wiring : Wiring n Node σ) (ids : Fin n → ℕ) :
    Component n → Device n Node σ → Prop
  | .prc, _ => True
  | .icap, _ => True
  | .rrc i, d =>
      (d.rr.rrc i).HandlesOwn (d.context.rrcWires i (wiring.rrcHandles i)) d.rr.memory (ids i)

/-- A device whose parts are separate: modules are filed under their own regions,
no two RR controllers have the same region, and every bitstream whose region an RR
controller looks up in this cycle names the controller's region. -/
structure Separate (wiring : Wiring n Node σ) (d : Device n Node σ) : Prop where
  filed : d.rr.memory.Filed
  regions : Function.Injective fun i => (d.rr.rrc i).prrId
  handles : ∀ i, (d.rr.rrc i).HandlesOwn (d.context.rrcWires i (wiring.rrcHandles i))
    d.rr.memory (d.rr.rrc i).prrId

variable {ids : Fin n → ℕ} {d d' : Device n Node σ}

/-- A device is the sum of its parts. -/
theorem ext_of_views (h : ∀ part, d.viewOf ids part = d'.viewOf ids part) : d = d' := by
  have hprc := Prod.mk.inj (h .prc)
  have hicap := Prod.mk.inj (h .icap)
  have hregion : ∀ r, d.rr.viewOf ids r = d'.rr.viewOf ids r :=
    fun r => (Prod.mk.inj (h (.region r))).2
  have hmemory : d.rr.memory = d'.rr.memory :=
    Memory.ext_of_views fun r => RrSide.memory_eq_of_view (hregion r)
  have hrrc : d.rr.rrc = d'.rr.rrc := by
    funext i
    exact RrSide.rrc_eq_of_view (hregion (ids i))
  obtain ⟨prc, icap, ⟨rrc, memory⟩, context⟩ := d
  obtain ⟨prc', icap', ⟨rrc', memory'⟩, context'⟩ := d'
  dsimp only at hprc hicap hmemory hrrc
  rw [hprc.1, hprc.2, hicap.2, hmemory, hrrc]

theorem partOf_injective (hids : Function.Injective ids) :
    Function.Injective (partOf ids) := by
  intro c c' h
  cases c with
  | prc => cases c' with
    | prc => rfl
    | icap => cases h
    | rrc j => cases h
  | icap => cases c' with
    | prc => cases h
    | icap => rfl
    | rrc j => cases h
  | rrc i => cases c' with
    | prc => cases h
    | icap => cases h
    | rrc j => exact congrArg Component.rrc (hids (Part.region.inj h))

theorem simulationOrder_nodup : (simulationOrder n).Nodup := by
  unfold simulationOrder
  have hmap : ((List.finRange n).map Component.rrc).Nodup :=
    (List.nodup_finRange n).map fun _ _ h => Component.rrc.inj h
  simp [hmap]

variable [GraphNode Node] {wiring : Wiring n Node σ}

/-- **Each component acts on its own part.** -/
theorem actsOn (hids : Function.Injective ids) (c : Component n) :
    Machine.ActsOn (fun d : Device n Node σ => d.rr.Apart ids) (viewOf ids) (partOf ids c)
      (Guard wiring ids c) (fun d => stepComponent wiring d c) := by
  cases c with
  | prc =>
      refine Machine.ActsOn.of_field (viewOf ids .prc) (fun d prc => { d with prc := prc })
        (fun x => x.2.step wiring.policies x.1.prcWires) (fun _ _ apart => apart)
        (fun _ _ same => same) ?_ ?_
      · intro d t prc same
        exact Prod.ext (Prod.mk.inj same).1 rfl
      · intro d prc part hne
        cases part with
        | prc => exact absurd rfl hne
        | icap => rfl
        | region r => rfl
  | icap =>
      refine Machine.ActsOn.of_field (viewOf ids .icap) (fun d icap => { d with icap := icap })
        (fun x => x.2.step (x.1.icapWires wiring.prcScheduledBs)) (fun _ _ apart => apart)
        (fun _ _ same => same) ?_ ?_
      · intro d t icap same
        exact Prod.ext (Prod.mk.inj same).1 rfl
      · intro d icap part hne
        cases part with
        | prc => rfl
        | icap => exact absurd rfl hne
        | region r => rfl
  | rrc i =>
      refine ⟨?_, ?_, ?_, ?_⟩
      · intro d t apartd apartt same guard
        obtain ⟨hcontext, hstate⟩ := Prod.mk.inj same
        show (t.rr.rrc i).HandlesOwn (t.context.rrcWires i (wiring.rrcHandles i)) _ _
        rw [← hcontext]
        exact (RrSide.actsOn hids _ i).guard_congr apartd apartt hstate guard
      · intro d x apart guard h
        obtain ⟨rr, hrr, h⟩ := Machine.bind_eq_ok.mp h
        cases h
        exact (RrSide.actsOn hids _ i).preserves apart guard hrr
      · intro d t x apartd apartt guard same h
        obtain ⟨rr, hrr, h⟩ := Machine.bind_eq_ok.mp h
        cases h
        obtain ⟨hcontext, hstate⟩ := Prod.mk.inj same
        obtain ⟨rr', hrr', hview⟩ :=
          (RrSide.actsOn hids _ i).congr apartd apartt guard hstate hrr
        rw [hcontext] at hrr'
        exact ⟨{ t with rr := rr' }, Machine.bind_eq_ok.mpr ⟨rr', hrr', rfl⟩,
          Prod.ext hcontext hview⟩
      · intro d x apart guard h part hne
        obtain ⟨rr, hrr, h⟩ := Machine.bind_eq_ok.mp h
        cases h
        cases part with
        | prc => rfl
        | icap => rfl
        | region r =>
            have hr : r ≠ ids i := fun heq => hne (congrArg Part.region heq)
            exact Prod.ext rfl ((RrSide.actsOn hids _ i).frame apart guard hrr r hr)

/-- Steps that have an outcome have the same one in another order. -/
theorem cycleIn_of_perm (separate : d.Separate wiring) {order order' : List (Component n)}
    (perm : order.Perm order') (nodup : order.Nodup) (h : d.cycleIn wiring order = .ok d') :
    d.cycleIn wiring order' = .ok d' := by
  have apart : d.rr.Apart fun i => (d.rr.rrc i).prrId := ⟨separate.filed, fun _ => rfl⟩
  have guard : ∀ c, Guard wiring (fun i => (d.rr.rrc i).prrId) c d := by
    intro c
    cases c with
    | prc => trivial
    | icap => trivial
    | rrc i => exact separate.handles i
  unfold cycleIn at h ⊢
  rw [Machine.bind_eq_ok] at h ⊢
  obtain ⟨x, hx, hrefresh⟩ := h
  exact ⟨x, Machine.foldlM_perm (fun _ _ => ext_of_views) (actsOn separate.regions)
    (partOf_injective separate.regions) perm nodup apart (fun c _ => guard c) hx, hrefresh⟩

/-- **The order of the steps does not matter.**  On a device whose parts are
separate, stepping the components in any order has the outcome of a cycle of
`simulateApplication`. -/
theorem cycleIn_eq_ok_iff (separate : d.Separate wiring) {order : List (Component n)}
    (perm : order.Perm (simulationOrder n)) :
    d.cycleIn wiring order = .ok d' ↔ d.cycle wiring = .ok d' := by
  have nodup : (simulationOrder n).Nodup := simulationOrder_nodup
  exact ⟨cycleIn_of_perm separate perm (perm.nodup_iff.mpr nodup),
    cycleIn_of_perm separate perm.symm nodup⟩

/-- A device with two regions.  Its controllers are about to start a task in region
0 and to install `regionOneBs` in region 1. -/
def twoRegions : Device 2 LoneTask (FcfsScheduler LoneTask) :=
  { prc := Prc.new Prc.rawPrc (FcfsScheduler.initializeQueue ⟨[("t", ⟨"a"⟩)]⟩)
    icap := Icap.new Icap.rawIcap 1 32 .empty 1
    rr :=
      { RrSide.twoRegions with
        rrc := fun i =>
          { RrSide.initController i with
            nextState := if i = 0 then .idle else .transfer
            icapTransferBs := RrSide.regionOneBs } }
    context :=
      { SignalContext.rawContext with
        storedIcapMc := 1
        storedPrcStartPrr := fun i => decide (i = 0) } }

/-- Each controller of `twoRegions` is handed a bitstream of its own region. -/
def twoRegionsWiring : Wiring 2 LoneTask (FcfsScheduler LoneTask) :=
  { policies := lftFePolicies ⟨.empty, .empty, .empty⟩
    prcScheduledBs := none
    rrcHandles := fun i =>
      { prcCurrentTask := some ⟨"a"⟩
        prcScheduledBs := some { RrSide.regionOneBs with regionId := i }
        icapTransferBs := some { RrSide.regionOneBs with regionId := i } } }

theorem twoRegions_separate : Separate twoRegionsWiring twoRegions where
  filed := Memory.oneModule_filed 2 1 5
  regions := by
    intro i j h
    exact Fin.ext h
  handles i := by
    refine ⟨?_, ?_, ?_⟩
    · intro _ _ _ bitstream _ _ _ _ _ handle
      cases handle
      rfl
    · intro _ _ _ bitstream _ _ _ _ _ handle
      cases handle
      rfl
    · intro state _
      match i with
      | 0 => cases state
      | 1 => rfl

/-- Stepping everything in reverse starts region 0 and installs in region 1 as well. -/
theorem cycleIn_eq_ok_iff_twoRegions :
    ∃ d', cycleIn twoRegionsWiring (simulationOrder 2).reverse twoRegions = .ok d' ∧
      cycle twoRegionsWiring twoRegions = .ok d' ∧
        d'.rr.memory.prr.table 1 = some (some 2) := by
  have installs : (cycle twoRegionsWiring twoRegions).map
      (fun d => d.rr.memory.prr.table 1) = .ok (some (some 2)) := by
    decide +kernel
  cases h : cycle twoRegionsWiring twoRegions with
  | error e =>
      rw [h] at installs
      cases installs
  | ok d =>
      rw [h] at installs
      exact ⟨d, (cycleIn_eq_ok_iff twoRegions_separate (List.reverse_perm _)).mpr h, rfl,
        Except.ok.inj installs⟩

end Device

end Drachma
