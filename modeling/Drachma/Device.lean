import Drachma.Icap
import Drachma.Prc
import Drachma.RrController

/-!
# The device

A device is one PRC, one ICAP, one RR controller for each reconfigurable region,
the storage they share, and the signal context.  A simulated cycle steps every
component once and then refreshes the context; the components read the context
as it was refreshed in the cycle before.

* `RrSide` — the RR controllers and the storage; `RrSide.sweep` steps them all;
* `Device.cycleIn` — one cycle, with the components stepped in a given order;
* `Device.cycle` — one iteration of the loop of `simulateApplication`;
* `prepareAppResources`, `simulateApplication` — the state the loop starts from.
-/

namespace Drachma

/-! ## The RR controllers and the storage -/

/-- The RR controllers and the storage they share. -/
structure RrSide (n : ℕ) (Node : Type) where
  rrc : Fin n → RrController Node
  memory : Memory

namespace RrSide

variable {n : ℕ} {Node : Type} [GraphNode Node]

/-- Step one RR controller. -/
def step (w : RrcWires Node) (i : Fin n) (s : RrSide n Node) : Exec (RrSide n Node) := do
  let (controller, memory) ← (s.rrc i).step w s.memory
  return { rrc := Function.update s.rrc i controller, memory := memory }

/-- Step every RR controller, in the order of their ids. -/
def sweep (w : Fin n → RrcWires Node) (s : RrSide n Node) : Exec (RrSide n Node) :=
  (List.finRange n).foldlM (fun s i => s.step (w i) i) s

omit [GraphNode Node] in
/-- The signals the context copies. -/
def outputs (s : RrSide n Node) (i : Fin n) : RrcOutputs := (s.rrc i).outputs

variable {w : Fin n → RrcWires Node} {s s' : RrSide n Node}

theorem step_eq_ok {w : RrcWires Node} {i : Fin n} :
    s.step w i = .ok s' ↔
      ∃ controller memory, (s.rrc i).step w s.memory = .ok (controller, memory) ∧
        s' = { rrc := Function.update s.rrc i controller, memory := memory } := by
  unfold step
  rw [Machine.bind_eq_ok]
  constructor
  · rintro ⟨⟨controller, memory⟩, hstep, h⟩
    exact ⟨controller, memory, hstep, (Except.ok.inj h).symm⟩
  · rintro ⟨controller, memory, hstep, rfl⟩
    exact ⟨(controller, memory), hstep, rfl⟩

/-- Stepping some of the controllers: each of them takes one step of its own, and
the others stay as they are. -/
theorem rrc_of_foldlM {l : List (Fin n)} (nodup : l.Nodup)
    (h : l.foldlM (fun s i => s.step (w i) i) s = .ok s') :
    (∀ i ∈ l, ∃ m m', (s.rrc i).step (w i) m = .ok (s'.rrc i, m')) ∧
      ∀ i ∉ l, s'.rrc i = s.rrc i := by
  induction l generalizing s with
  | nil => cases h; simp
  | cons j l ih =>
      rw [List.foldlM_cons, Machine.bind_eq_ok] at h
      obtain ⟨t, hstep, h⟩ := h
      obtain ⟨controller, memory, hctrl, rfl⟩ := step_eq_ok.mp hstep
      rw [List.nodup_cons] at nodup
      obtain ⟨stepped, others⟩ := ih nodup.2 h
      dsimp only at stepped others
      refine ⟨fun i hi => ?_, fun i hi => ?_⟩
      · rcases eq_or_ne i j with rfl | hij
        · have hrrc := others i nodup.1
          rw [Function.update_self] at hrrc
          exact ⟨s.memory, memory, by rw [hrrc]; exact hctrl⟩
        · have hmem : i ∈ l := (List.mem_cons.mp hi).resolve_left hij
          obtain ⟨m, m', hm⟩ := stepped i hmem
          rw [Function.update_of_ne hij] at hm
          exact ⟨m, m', hm⟩
      · rw [others i fun hmem => hi (List.mem_cons_of_mem _ hmem)]
        exact Function.update_of_ne (List.ne_of_not_mem_cons hi) _ _

/-- A sweep is one step of every controller, on some memory. -/
theorem rrc_of_sweep (h : s.sweep w = .ok s') (i : Fin n) :
    ∃ m m', RrController.Moves (w i) (s.rrc i) m (s'.rrc i) m' := by
  obtain ⟨m, m', hstep⟩ :=
    (rrc_of_foldlM (List.nodup_finRange n) h).1 i (List.mem_finRange i)
  exact ⟨m, m', RrController.moves_of_step hstep⟩

/-- No sweep touches the library, and modules stay the modules they are. -/
theorem keeps_of_sweep (h : s.sweep w = .ok s') : s.memory.Keeps s'.memory := by
  refine Machine.foldlM_invariant (P := fun t : RrSide n Node => s.memory.Keeps t.memory) ?_
    (.refl s.memory) h
  intro i t t' keeps hstep
  obtain ⟨controller, memory, hctrl, rfl⟩ := step_eq_ok.mp hstep
  exact keeps.trans (RrController.moves_of_step hctrl).keeps

/-- A bitstream of region 1 for task type "a". -/
def regionOneBs : ModuleSpec Double :=
  { regionId := 1, id := 5, bitstreamWidth := 4
    tasks := [{ regionId := 1, moduleId := 5, typeId := "a", speed := 1, cycles := 100 }] }

/-- A controller in its INIT state that is about to run task type "a". -/
def initController (i : Fin 2) : RrController LoneTask :=
  { RrController.new RrController.rawController i 1 with
    installedBs := regionOneBs
    prevTaskTypeId := "a" }

/-- Two regions, with the module of `regionOneBs` in the library. -/
def twoRegions : RrSide 2 LoneTask :=
  { rrc := initController, memory := .oneModule 2 1 5 }

end RrSide

/-! ## One cycle of a device -/

/-- What the components were connected to and never let go of: the policies of
the PRC, and the handles of the ICAP and the RR controllers. -/
structure Wiring (n : ℕ) (Node σ : Type) where
  policies : SchedulingPolicies n Node σ
  prcScheduledBs : Option (ModuleSpec Double)
  rrcHandles : Fin n → RrcHandles Node

/-- The state of a device. -/
structure Device (n : ℕ) (Node σ : Type) where
  prc : Prc n Node σ
  icap : Icap n
  rr : RrSide n Node
  context : SignalContext n Node

/-- The components a cycle steps. -/
inductive Component (n : ℕ)
  | prc
  | icap
  | rrc (i : Fin n)
deriving DecidableEq

/-- The order in which `simulateApplication` steps them. -/
def simulationOrder (n : ℕ) : List (Component n) :=
  .prc :: .icap :: (List.finRange n).map .rrc

namespace Device

variable {n : ℕ} {Node σ : Type}

/-- `refreshContext`, on the components of the device. -/
def refresh (d : Device n Node σ) : Device n Node σ :=
  { d with
    context := d.context.refreshContext d.prc.outputs d.icap.outputs d.rr.outputs }

variable [GraphNode Node] (wiring : Wiring n Node σ)

/-- Step one component. -/
def stepComponent (d : Device n Node σ) : Component n → Exec (Device n Node σ)
  | .prc => do
      let prc ← d.prc.step wiring.policies d.context.prcWires
      return { d with prc := prc }
  | .icap => do
      let icap ← d.icap.step (d.context.icapWires wiring.prcScheduledBs)
      return { d with icap := icap }
  | .rrc i => do
      let rr ← d.rr.step (d.context.rrcWires i (wiring.rrcHandles i)) i
      return { d with rr := rr }

/-- One cycle with the components stepped in the given order. -/
def cycleIn (order : List (Component n)) (d : Device n Node σ) : Exec (Device n Node σ) := do
  let d ← order.foldlM (stepComponent wiring) d
  return d.refresh

/-- One cycle of `simulateApplication`. -/
def cycle (d : Device n Node σ) : Exec (Device n Node σ) :=
  cycleIn wiring (simulationOrder n) d

/-- The device after the given number of cycles. -/
def run (d : Device n Node σ) : ℕ → Exec (Device n Node σ) :=
  Machine.run (fun _ : Unit => cycle wiring) (fun _ => ()) d

variable {wiring}

/-- Stepping RR controllers one after the other leaves the rest of the device
alone. -/
theorem foldlM_rrc (l : List (Fin n)) (d : Device n Node σ) :
    (l.map Component.rrc).foldlM (stepComponent wiring) d =
      l.foldlM (fun s i => s.step (d.context.rrcWires i (wiring.rrcHandles i)) i) d.rr >>=
        fun rr => .ok { d with rr := rr } := by
  induction l generalizing d with
  | nil => rfl
  | cons i l ih =>
      simp only [List.map_cons, List.foldlM_cons, stepComponent]
      cases h : d.rr.step (d.context.rrcWires i (wiring.rrcHandles i)) i with
      | error e => rfl
      | ok rr => exact ih { d with rr := rr }

/-- **What a cycle does**: every component takes a step on the old context, and
the context is refreshed. -/
theorem cycle_eq_ok {d d' : Device n Node σ} :
    d.cycle wiring = .ok d' ↔
      ∃ prc icap rr, d.prc.step wiring.policies d.context.prcWires = .ok prc ∧
        d.icap.step (d.context.icapWires wiring.prcScheduledBs) = .ok icap ∧
        d.rr.sweep (fun i => d.context.rrcWires i (wiring.rrcHandles i)) = .ok rr ∧
        d' = refresh { d with prc := prc, icap := icap, rr := rr } := by
  unfold cycle cycleIn simulationOrder
  simp only [List.foldlM_cons, Machine.bind_eq_ok, stepComponent, foldlM_rrc]
  constructor
  · rintro ⟨d₃, ⟨d₁, ⟨prc, hprc, h₁⟩, d₂, ⟨icap, hicap, h₂⟩, rr, hrr, h₃⟩, h⟩
    cases h₁
    cases h₂
    cases h₃
    exact ⟨prc, icap, rr, hprc, hicap, hrr, (Except.ok.inj h).symm⟩
  · rintro ⟨prc, icap, rr, hprc, hicap, hrr, rfl⟩
    exact ⟨_, ⟨_, ⟨prc, hprc, rfl⟩, _, ⟨icap, hicap, rfl⟩, rr, hrr, rfl⟩, rfl⟩

end Device

end Drachma
