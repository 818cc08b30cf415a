import Drachma.OrderIndependence
import Drachma.RegionLife

/-!
# The order of the steps, over a run

The order in which a cycle steps the components does not matter where the parts of the
device are separate.  A cycle keeps them separate: no step files a module elsewhere than
under its region, or gives a controller another region, and what a controller latches is
of its own region if its handles are.  So a whole run has one outcome, also if every
cycle has an order of its own.

## Main results

* `Device.Parted.cycle` — a cycle keeps the parts separate.
* `Device.runIn_eq_ok_iff` — a run with an order for every cycle.
-/

namespace Drachma

namespace Device

variable {n : ℕ} {Node σ : Type}

/-- The bitstreams behind the handles of controller `i` are of region `ids i`. -/
def HandsOwn (wiring : Wiring n Node σ) (ids : Fin n → ℕ) : Prop :=
  ∀ i bitstream, (wiring.rrcHandles i).prcScheduledBs = some bitstream ∨
    (wiring.rrcHandles i).icapTransferBs = some bitstream → bitstream.regionId = ids i

/-- The parts of a device are separate, whatever its controllers are asked next. -/
structure Parted (ids : Fin n → ℕ) (d : Device n Node σ) : Prop where
  apart : d.rr.Apart ids
  latched : ∀ i, (d.rr.rrc i).nextState = .transfer →
    (d.rr.rrc i).icapTransferBs.regionId = ids i

variable {wiring : Wiring n Node σ} {ids : Fin n → ℕ} {d d' : Device n Node σ}

theorem Parted.handlesOwn (parted : d.Parted ids) (own : HandsOwn wiring ids) (i : Fin n) :
    (d.rr.rrc i).HandlesOwn (d.context.rrcWires i (wiring.rrcHandles i)) d.rr.memory
      (ids i) where
  start _ _ _ bitstream _ _ _ _ _ handle := own i bitstream (.inl handle)
  request _ _ _ bitstream _ _ _ _ _ handle := own i bitstream (.inr handle)
  latched state _ := parted.latched i state

theorem Parted.separate (parted : d.Parted ids) (hids : Function.Injective ids)
    (own : HandsOwn wiring ids) : d.Separate wiring where
  filed := parted.apart.filed
  regions := by
    intro i j h
    dsimp only at h
    rw [parted.apart.region, parted.apart.region] at h
    exact hids h
  handles i := by
    rw [parted.apart.region]
    exact parted.handlesOwn own i

variable [GraphNode Node]

/-- **A cycle keeps the parts separate.** -/
theorem Parted.cycle (parted : d.Parted ids) (hids : Function.Injective ids)
    (own : HandsOwn wiring ids) (h : d.cycle wiring = .ok d') : d'.Parted ids := by
  obtain ⟨prc, icap, rr, -, -, hrr, rfl⟩ := cycle_eq_ok.mp h
  obtain ⟨apart, moved⟩ := RrSide.moves_of_sweep hids parted.apart (parted.handlesOwn own) hrr
  refine ⟨apart, fun i state => ?_⟩
  obtain ⟨x, -, -, moves⟩ := moved i
  rcases moves.transfer_cases state with ⟨before, same⟩ | ⟨-, handle⟩
  · show (rr.rrc i).icapTransferBs.regionId = ids i
    rw [same]
    exact parted.latched i before
  · exact own i _ (.inr handle)

/-- The device after some cycles, the components of cycle `k` being stepped in the order
`orders k`. -/
def runIn (wiring : Wiring n Node σ) (orders : ℕ → List (Component n)) (d : Device n Node σ) :
    ℕ → Exec (Device n Node σ) :=
  Machine.run (cycleIn wiring) orders d

/-- **The orders do not matter.**  On a device whose parts are separate, and whose handles
are of the controllers' own regions, a run that steps the components of every cycle in some
order has the outcome of a run of `simulateApplication`. -/
theorem runIn_eq_ok_iff (parted : d.Parted ids) (hids : Function.Injective ids)
    (own : HandsOwn wiring ids) {orders : ℕ → List (Component n)}
    (perm : ∀ k, (orders k).Perm (simulationOrder n)) (k : ℕ) :
    runIn wiring orders d k = .ok d' ↔ run wiring d k = .ok d' := by
  -- every state of a run of `simulateApplication` is one with separate parts
  have separate : ∀ k x, run wiring d k = .ok x → x.Separate wiring := by
    intro k x h
    have parted' : x.Parted ids :=
      Machine.run_invariant (P := fun _ x => x.Parted ids) parted
        (fun _ _ _ _ parted hcycle => parted.cycle hids own hcycle) k x h
    exact parted'.separate hids own
  unfold runIn at *
  induction k generalizing d' with
  | zero => exact Iff.rfl
  | succ k ih =>
      rw [Machine.run_succ_eq_ok, run, Machine.run_succ_eq_ok]
      constructor
      · rintro ⟨x, hx, hcycle⟩
        have there := ih.mp hx
        have nodup := (perm k).nodup_iff.mpr simulationOrder_nodup
        exact ⟨x, there, cycleIn_of_perm (separate k x there) (perm k) nodup hcycle⟩
      · rintro ⟨x, hx, hcycle⟩
        exact ⟨x, ih.mpr hx,
          cycleIn_of_perm (separate k x hx) (perm k).symm simulationOrder_nodup hcycle⟩

/-- Forward in one cycle, and in reverse in the next. -/
def alternating (k : ℕ) : List (Component 2) :=
  if k % 2 = 0 then (simulationOrder 2).reverse else simulationOrder 2

/-- Two cycles of `twoRegions`, of which the first installs a module in region 1. -/
theorem runIn_eq_ok_iff_twoRegions :
    ∃ d', runIn twoRegionsWiring alternating twoRegions 2 = .ok d' ∧
      run twoRegionsWiring twoRegions 2 = .ok d' ∧
        d'.rr.memory.prr.table 1 = some (some 2) := by
  have installs : (run twoRegionsWiring twoRegions 2).map
      (fun d => d.rr.memory.prr.table 1) = .ok (some (some 2)) := by
    decide +kernel
  obtain ⟨d', hrun, entry⟩ := Machine.map_eq_ok.mp installs
  have parted : twoRegions.Parted Fin.val := by
    refine ⟨⟨Memory.oneModule_filed 2 1 5, fun _ => rfl⟩, fun i state => ?_⟩
    match i with
    | 0 => cases state
    | 1 => rfl
  have own : HandsOwn twoRegionsWiring Fin.val := by
    rintro i bitstream (handle | handle)
    · cases handle
      rfl
    · cases handle
      rfl
  refine ⟨d', (runIn_eq_ok_iff parted Fin.val_injective own ?_ 2).mpr hrun, hrun, entry⟩
  intro k
  unfold alternating
  split
  · exact List.reverse_perm _
  · exact .refl _

end Device

end Drachma
