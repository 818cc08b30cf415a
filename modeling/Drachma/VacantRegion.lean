import Drachma.BitstreamIdentity
import Drachma.TaskExecution

/-!
# The module of a region before its first transfer

Until a region has been configured, the module in it is the placeholder that
`prepareAppResources` has made.  It is to be `VACANT`, and not to run.

The constructor of a placeholder sets its ids, its width and its speed.  Its state and its
flag are what the memory held, and the controller of the region branches on the state in
every cycle.

## Main results

* `Memory.table_of_prepareAppResources` — where the placeholders are made.
* `Device.Unconfigured.step` — no controller begins anything, and no module that is
  `VACANT` changes.
* `Device.vacantRegion_iff` — a region is vacant until its first transfer exactly if the
  memory of its placeholder held `VACANT` and a flag that was not set.
-/

namespace Drachma

open Machine (LookupMap)

/-! ## Where the placeholders are made -/

/-- The address at which the placeholder of region `i` is made, for regions that are
prepared from address `next` on. -/
def placeholderAddress (i : ℕ) : List (ℕ × LookupMap ℕ (ModuleSpec Double)) → ℕ → Option ℕ
  | [], _ => none
  | rr :: rest, next =>
      if rr.1 = i then some next else placeholderAddress i rest (next + 1 + rr.2.size)

namespace Memory

/-- Memory `x` has objects that `m` does not have, and nothing else in its cells is new. -/
structure Extends (m x : Memory) : Prop where
  next : m.next ≤ x.next
  old : ∀ a < m.next, x.cells a = m.cells a
  raw : ∀ a ≥ x.next, x.cells a = m.cells a

namespace Extends

variable {m x y : Memory}

theorem refl (m : Memory) : m.Extends m := ⟨le_refl _, fun _ _ => rfl, fun _ _ => rfl⟩

theorem trans (h : m.Extends x) (k : x.Extends y) : m.Extends y where
  next := h.next.trans k.next
  old a ha := (k.old a (ha.trans_le h.next)).trans (h.old a ha)
  raw a ha := (k.raw a ha).trans (h.raw a (k.next.trans ha))

theorem alloc (m : Memory) (module : RrModule) : m.Extends (m.alloc module).2 where
  next := Nat.le_succ _
  old _ ha := Function.update_of_ne ha.ne _ _
  raw _ ha := Function.update_of_ne (Nat.lt_of_succ_le ha).ne' _ _

end Extends

variable {m m' : Memory}

/-- Filing a module in the main memory touches no object, and not the device's RR table. -/
theorem insertLibraryModule_eq_ok {a : ℕ} (h : m.insertLibraryModule a = .ok m') :
    m'.cells = m.cells ∧ m'.next = m.next ∧ m'.prr = m.prr := by
  unfold insertLibraryModule at h
  split at h
  · cases h
  · cases h
    exact ⟨rfl, rfl, rfl⟩

/-- A library module is made at the next address. -/
theorem prepareModule_eq_ok {regionId width : ℕ} {entry : ℕ × ModuleSpec Double}
    (h : prepareModule regionId width m entry = .ok m') :
    m.Extends m' ∧ m'.next = m.next + 1 ∧ m'.prr = m.prr := by
  obtain ⟨cells, next, prr⟩ := insertLibraryModule_eq_ok h
  have made := Extends.alloc m
    (RrModule.ofSpec (m.cells m.next) regionId entry.2.id width entry.2.tasks)
  refine ⟨⟨?_, ?_, ?_⟩, next, prr⟩
  · rw [next]
    exact made.next
  · rw [cells]
    exact made.old
  · rw [cells, next]
    exact made.raw

/-- The modules of a region are made one after the other. -/
theorem prepareModules_eq_ok {regionId width : ℕ} {entries : List (ℕ × ModuleSpec Double)}
    (h : entries.foldlM (prepareModule regionId width) m = .ok m') :
    m.Extends m' ∧ m'.next = m.next + entries.length ∧ m'.prr = m.prr := by
  induction entries generalizing m with
  | nil => cases h; exact ⟨.refl _, rfl, rfl⟩
  | cons entry entries ih =>
      rw [List.foldlM_cons, Machine.bind_eq_ok] at h
      obtain ⟨x, hx, h⟩ := h
      obtain ⟨ext₁, next₁, prr₁⟩ := prepareModule_eq_ok hx
      obtain ⟨ext₂, next₂, prr₂⟩ := ih h
      refine ⟨ext₁.trans ext₂, ?_, prr₂.trans prr₁⟩
      rw [next₂, next₁, List.length_cons]
      omega

/-- A region's placeholder is made at the next address, and its modules after it. -/
theorem prepareRegion_eq_ok {acc acc' : ℕ × Memory}
    {rr : ℕ × LookupMap ℕ (ModuleSpec Double)} (h : prepareRegion acc rr = .ok acc') :
    acc.2.Extends acc'.2 ∧ acc'.2.next = acc.2.next + 1 + rr.2.size ∧
      acc'.2.prr = acc.2.prr.insertModule rr.1 acc.2.next ∧
        acc'.2.cells acc.2.next = .placeholder (acc.2.cells acc.2.next) rr.1 := by
  unfold prepareRegion at h
  split at h
  · cases h
  · rename_i entry spec rest entries
    obtain ⟨x, hx, h⟩ := Machine.bind_eq_ok.mp h
    cases h
    have made := Extends.alloc acc.2 (.placeholder (acc.2.cells acc.2.next) rr.1)
    obtain ⟨ext, next, prr⟩ := prepareModules_eq_ok hx
    refine ⟨made.trans ⟨ext.next, ext.old, ext.raw⟩, next, ?_, ?_⟩
    · rw [prr]
      show acc.2.prr.insertModule (Function.update acc.2.cells acc.2.next _ _).regionId _ = _
      rw [Function.update_self]
      rfl
    · have kept := ext.old acc.2.next (Nat.lt_succ_self _)
      exact kept.trans (Function.update_self _ _ _)

/-- The entry of region `i` in `x` is the placeholder made at `address`, or where there is
none the one of `m`. -/
structure HasPlaceholder (m x : Memory) (i : ℕ) (address : Option ℕ) : Prop where
  without : address = none → x.prr.table i = m.prr.table i
  made : ∀ a, address = some a → x.prr.table i = some (some a) ∧ m.next ≤ a ∧
    x.cells a = .placeholder (m.cells a) i

theorem placeholderAddress_of_not_mem {i : ℕ}
    {regions : List (ℕ × LookupMap ℕ (ModuleSpec Double))} {next : ℕ}
    (h : i ∉ regions.map Prod.fst) : placeholderAddress i regions next = none := by
  induction regions generalizing next with
  | nil => rfl
  | cons rr rest ih =>
      rw [List.map_cons, List.mem_cons, not_or] at h
      rw [placeholderAddress, if_neg (Ne.symm h.1)]
      exact ih h.2

/-- The regions are prepared one after the other. -/
theorem prepareRegions_eq_ok {regions : List (ℕ × LookupMap ℕ (ModuleSpec Double))}
    (nodup : (regions.map Prod.fst).Nodup) {acc acc' : ℕ × Memory} (i : ℕ)
    (h : regions.foldlM prepareRegion acc = .ok acc') :
    acc.2.Extends acc'.2 ∧
      HasPlaceholder acc.2 acc'.2 i (placeholderAddress i regions acc.2.next) := by
  induction regions generalizing acc with
  | nil =>
      cases h
      refine ⟨.refl _, fun _ => rfl, ?_⟩
      rintro a ⟨⟩
  | cons rr rest ih =>
      rw [List.foldlM_cons, Machine.bind_eq_ok] at h
      obtain ⟨acc₁, h₁, h⟩ := h
      obtain ⟨ext₁, next₁, prr₁, cell⟩ := prepareRegion_eq_ok h₁
      rw [List.map_cons, List.nodup_cons] at nodup
      obtain ⟨ext, later⟩ := ih nodup.2 h
      refine ⟨ext₁.trans ext, ?_⟩
      rw [placeholderAddress]
      by_cases own : rr.1 = i
      · -- the regions that follow have other ids
        subst own
        have entry := later.without (placeholderAddress_of_not_mem nodup.1)
        have made : acc.2.next < acc₁.2.next := by omega
        rw [if_pos rfl]
        refine ⟨fun none => (nomatch none), ?_⟩
        rintro a ⟨⟩
        refine ⟨?_, le_refl _, ?_⟩
        · rw [entry, prr₁]
          exact Function.update_self _ _ _
        · rw [ext.old _ made, cell]
      · rw [if_neg own, ← next₁]
        have other : acc₁.2.prr.table i = acc.2.prr.table i := by
          rw [prr₁]
          exact Function.update_of_ne (Ne.symm own) _ _
        refine ⟨fun h => (later.without h).trans other, fun a ha => ?_⟩
        obtain ⟨entry, low, made⟩ := later.made a ha
        refine ⟨entry, ext₁.next.trans low, ?_⟩
        rw [made, ext₁.raw a low]

section Prepared

variable {levels : List MemoryLevel} {app : Application} {resources : PreparedResources}

theorem hasPlaceholder_of_prepareAppResources
    (prepared : prepareAppResources (m.associateHierarchy .empty levels) app = .ok resources)
    (i : ℕ) :
    HasPlaceholder (m.associateHierarchy .empty levels) resources.memory i
      (placeholderAddress i app.rrSpecMap.entries m.next) := by
  unfold prepareAppResources at prepared
  obtain ⟨⟨required, memory⟩, made, prepared⟩ := Machine.bind_eq_ok.mp prepared
  obtain ⟨_, -, prepared⟩ := Machine.bind_eq_ok.mp prepared
  obtain ⟨_, -, prepared⟩ := Machine.bind_eq_ok.mp prepared
  obtain ⟨_, -, prepared⟩ := Machine.bind_eq_ok.mp prepared
  cases prepared
  exact (prepareRegions_eq_ok app.rrSpecMap.nodup i made).2

/-- **Where the placeholders are**: a device whose RR table had no entries is prepared with
one for each region of the application. -/
theorem table_of_prepareAppResources
    (prepared : prepareAppResources (m.associateHierarchy .empty levels) app = .ok resources)
    {i a : ℕ} :
    resources.memory.prr.table i = some (some a) ↔
      placeholderAddress i app.rrSpecMap.entries m.next = some a := by
  have entry := hasPlaceholder_of_prepareAppResources prepared i
  cases address : placeholderAddress i app.rrSpecMap.entries m.next with
  | none =>
      rw [entry.without address]
      simp [associateHierarchy, ReconfigurableRegions.empty]
  | some b =>
      rw [(entry.made b address).1]
      simp

/-- What a placeholder is made over. -/
theorem cells_of_placeholderAddress
    (prepared : prepareAppResources (m.associateHierarchy .empty levels) app = .ok resources)
    {i a : ℕ} (address : placeholderAddress i app.rrSpecMap.entries m.next = some a) :
    resources.memory.cells a = .placeholder (m.cells a) i :=
  ((hasPlaceholder_of_prepareAppResources prepared i).made a address).2.2

end Prepared

end Memory

/-! ## A controller that is asked for nothing -/

namespace RrController

variable {Node : Type} [GraphNode Node] {w : RrcWires Node} {s s' c : RrController Node}
  {m x : Memory} {a : ℕ}

omit [GraphNode Node] in
/-- The signal is low once it has been low. -/
theorem Wakes.prrExecuting_low (wakes : Wakes w s m a c x) (low : s.prrExecuting = false) :
    c.prrExecuting = false := by
  rw [wakes.prrExecuting_eq, low, Bool.false_and]

omit [GraphNode Node] in
/-- With a null task handle no task is queued. -/
theorem Wakes.actionQueue_eq_nil (wakes : Wakes w s m a c x)
    (noTask : w.handles.prcCurrentTask = none) (queue : s.actionQueue = []) :
    c.actionQueue = [] := by
  rw [wakes.enqueue.2.1, queue, noTask, ite_self]
  rfl

/-- Before its first request a controller only ever wakes. -/
theorem Moves.wakes_of_unasked (moves : Moves w s m s' x)
    (noTask : w.handles.prcCurrentTask = none) (noReq : w.icapReq = false)
    (state : s.nextState = .init ∨ s.nextState = .idle) (queue : s.actionQueue = []) :
    ∃ a c, Wakes w s m a c x ∧ s' = { c with nextState := .idle } := by
  have noWait : ∀ {other}, s.nextState = other → other = .init ∨ other = .idle := by
    rintro other rfl
    exact state
  cases moves with
  | init wakes => exact ⟨_, _, wakes, rfl⟩
  | rest wakes idle =>
      refine ⟨_, _, wakes, ?_⟩
      rw [← idle, ← wakes.nextState_eq]
  | startQueued wakes _ nonempty =>
      rw [wakes.actionQueue_eq_nil noTask queue] at nonempty
      cases nonempty
  | startRequested _ _ _ _ _ current => rw [noTask] at current; cases current
  | decline _ _ _ _ req => rw [noReq] at req; cases req
  | accept _ _ _ _ req => rw [noReq] at req; cases req
  | wait _ other => rcases noWait other with h | h <;> cases h
  | hold _ other => rcases noWait other with h | h <;> cases h
  | install _ other => rcases noWait other with h | h <;> cases h

end RrController

/-! ## Vacant regions -/

namespace Device

variable {n : ℕ} {Node σ : Type} [GraphNode Node]

omit [GraphNode Node] in
/-- RR controller `i` accepts a transfer in cycle `k`. -/
def Accepts (states : ℕ → Device n Node σ) (i : Fin n) (k : ℕ) : Prop :=
  ((states k).rr.rrc i).AcceptsTransfer ((states (k + 1)).rr.rrc i)

omit [GraphNode Node] in
/-- Region `i` has the module it was `prepared` with, which is in state `VACANT`, does not
run and has not been stepped, and `PRR_EXE` is low. -/
structure VacantRegion (prepared : Memory) (i : Fin n) (d : Device n Node σ) : Prop where
  entry : d.rr.memory.prr.table i = prepared.prr.table i
  vacant : ∀ a, prepared.prr.table i = some (some a) →
    (d.rr.memory.cells a).currentState = .vacant
  stopped : ∀ a, prepared.prr.table i = some (some a) →
    (d.rr.memory.cells a).isRunning = false
  unstepped : ∀ a, prepared.prr.table i = some (some a) →
    d.rr.memory.cells a = prepared.cells a
  signal : (d.rr.rrc i).prrExecuting = false

/-- The state of the RR controllers and the storage before the first transfer: the
modules that were `VACANT` are as they were. -/
structure Unconfigured (prepared : Memory) (s : RrSide n Node) : Prop where
  state : ∀ j, (s.rrc j).nextState = .init ∨ (s.rrc j).nextState = .idle
  queue : ∀ j, (s.rrc j).actionQueue = []
  signal : ∀ j, (s.rrc j).prrExecuting = false
  prr : s.memory.prr = prepared.prr
  vacant : ∀ a, (prepared.cells a).currentState = .vacant →
    s.memory.cells a = prepared.cells a

namespace Unconfigured

variable {prepared : Memory} {s s' : RrSide n Node}

/-- **The step lemma**, for one controller: watching a `VACANT` module changes nothing. -/
theorem step {w : RrcWires Node} {i : Fin n} (unconfigured : Unconfigured prepared s)
    (noTask : w.handles.prcCurrentTask = none) (noReq : w.icapReq = false)
    (h : s.step w i = .ok s') : Unconfigured prepared s' := by
  obtain ⟨controller, memory, hstep, rfl⟩ := RrSide.step_eq_ok.mp h
  obtain ⟨a, c, wakes, rfl⟩ := (RrController.moves_of_step hstep).wakes_of_unasked noTask noReq
    (unconfigured.state i) (unconfigured.queue i)
  refine ⟨fun j => ?_, fun j => ?_, fun j => ?_, wakes.prr_eq.trans unconfigured.prr,
    fun b hb => ?_⟩
  · rcases eq_or_ne j i with rfl | other
    · exact .inr (by simp)
    · simpa [other] using unconfigured.state j
  · rcases eq_or_ne j i with rfl | other
    · simpa using wakes.actionQueue_eq_nil noTask (unconfigured.queue j)
    · simpa [other] using unconfigured.queue j
  · rcases eq_or_ne j i with rfl | other
    · simpa using wakes.prrExecuting_low (unconfigured.signal j)
    · simpa [other] using unconfigured.signal j
  · have same := unconfigured.vacant b hb
    show memory.cells b = prepared.cells b
    rcases eq_or_ne b a with rfl | other
    · have resting : (s.memory.cells b).currentState ≠ .exec := by
        rw [same, hb]
        decide
      rw [wakes.cell_eq, RrModule.watch, if_neg resting, same]
    · rw [wakes.cell_of_ne other, same]

/-- A sweep leaves the regions unconfigured. -/
theorem sweep {w : Fin n → RrcWires Node} (unconfigured : Unconfigured prepared s)
    (noTask : ∀ i, (w i).handles.prcCurrentTask = none) (noReq : ∀ i, (w i).icapReq = false)
    (h : s.sweep w = .ok s') : Unconfigured prepared s' := by
  refine Machine.foldlM_invariant (P := Unconfigured prepared) ?_ unconfigured h
  intro i t t' here hstep
  exact here.step (noTask i) (noReq i) hstep

omit [GraphNode Node] in
/-- A region whose placeholder was made `VACANT` and not running is vacant. -/
theorem vacantRegion {d : Device n Node σ} {i : Fin n}
    (unconfigured : Unconfigured prepared d.rr)
    (made : ∀ a, prepared.prr.table i = some (some a) →
      (prepared.cells a).currentState = .vacant ∧ (prepared.cells a).executing = false) :
    d.VacantRegion prepared i := by
  have same : ∀ a, prepared.prr.table i = some (some a) →
      d.rr.memory.cells a = prepared.cells a :=
    fun a ha => unconfigured.vacant a (made a ha).1
  refine ⟨by rw [unconfigured.prr], fun a ha => ?_, fun a ha => ?_, same,
    unconfigured.signal i⟩
  · rw [same a ha]
    exact (made a ha).1
  · rw [same a ha]
    exact (made a ha).2

end Unconfigured

section Run

variable {m : Memory} {levels : List MemoryLevel} {app : Application}
  {resources : PreparedResources} {raw : Device n Node (FcfsScheduler Node)}
  {graph : TaskGraph Node} {N : ℕ} {wiring : Wiring n Node (FcfsScheduler Node)}
  {d : Device n Node (FcfsScheduler Node)} {states : ℕ → Device n Node (FcfsScheduler Node)}

/-- In the device loop no region gets configured. -/
theorem unconfigured_of_simulateApplication
    (built : simulateApplication raw app resources graph = .ok (wiring, d))
    (trace : Machine.Trace (fun _ : Unit => cycle wiring) (fun _ => ()) d N states) :
    ∀ k ≤ N, Unconfigured resources.memory (states k).rr := by
  have waiting := waiting_of_simulateApplication built trace
  obtain ⟨start, noTask⟩ : Unconfigured resources.memory d.rr ∧
      ∀ i, (wiring.rrcHandles i).prcCurrentTask = none := by
    obtain ⟨selector, -, h⟩ := Machine.bind_eq_ok.mp built
    cases h
    exact ⟨⟨fun _ => .inl rfl, fun _ => rfl, fun _ => rfl, rfl, fun _ _ => rfl⟩, fun _ => rfl⟩
  refine trace.invariant (P := fun _ s => Unconfigured resources.memory s.rr) start ?_
  intro k hk here hstep
  obtain ⟨prc, icap, rr, -, -, hrr, next⟩ := cycle_eq_ok.mp hstep
  rw [next]
  exact here.sweep noTask (waiting k (by omega)).reqStored hrr

/-- **A region is vacant if its memory was.**  An application is prepared on a device whose
RR table has no entries, and simulated.  Region `i` is vacant for as long as its controller
has accepted no transfer, if and only if the memory in which its placeholder is made held
`VACANT` for the state and `false` for the flag. -/
theorem vacantRegion_iff {i : Fin n}
    (prepared : prepareAppResources (m.associateHierarchy .empty levels) app = .ok resources)
    (built : simulateApplication raw app resources graph = .ok (wiring, d))
    (trace : Machine.Trace (fun _ : Unit => cycle wiring) (fun _ => ()) d N states) :
    (∀ k ≤ N, (∀ j < k, ¬ Accepts states i j) →
        (states k).VacantRegion resources.memory i) ↔
      ∀ a, placeholderAddress i app.rrSpecMap.entries m.next = some a →
        (m.cells a).currentState = .vacant ∧ (m.cells a).executing = false := by
  have made : ∀ a, placeholderAddress i app.rrSpecMap.entries m.next = some a →
      (resources.memory.cells a).currentState = (m.cells a).currentState ∧
        (resources.memory.cells a).executing = (m.cells a).executing := by
    intro a address
    rw [Memory.cells_of_placeholderAddress prepared address]
    exact ⟨rfl, rfl⟩
  constructor
  · intro vacant a address
    have first := vacant 0 (Nat.zero_le N) fun j hj => absurd hj (Nat.not_lt_zero j)
    have resident := (Memory.table_of_prepareAppResources prepared).mpr address
    obtain ⟨state, flag⟩ := made a address
    rw [← state, ← flag, ← first.unstepped a resident]
    exact ⟨first.vacant a resident, first.stopped a resident⟩
  · intro held k hk _
    have unconfigured := unconfigured_of_simulateApplication built trace k hk
    refine unconfigured.vacantRegion fun a resident => ?_
    have address := (Memory.table_of_prepareAppResources prepared).mp resident
    obtain ⟨state, flag⟩ := made a address
    rw [state, flag]
    exact held a address

end Run

/-! ## A placeholder that executes -/

/-- What the memory of a placeholder may have held: a module in the given state. -/
def heldModule (state : ModuleState) (executing : Bool) : RrModule :=
  { RrModule.idleModule 0 0 with
    currentState := state
    executing := executing
    executionLatency := 5 }

/-- A storage of an RR table and the main memory, over memory that holds `held`. -/
def memoryOver (held : RrModule) : Memory :=
  Memory.associateHierarchy
    { cells := fun _ => held, next := 0, prr := .empty, hierarchy := [] } .empty
    [{ unitSize := 8, readLatency := 0, searchLatency := 0, lutIndexed := true
       table := fun _ _ => none }]

/-- The module at address 0, with the entry of region 0, and the state of its controller. -/
def atRegionZero (d : Device 1 LoneTask (FcfsScheduler LoneTask)) :
    Option ModulePtr × ModuleState × Bool × ℕ × PrrControllerState :=
  (d.rr.memory.prr.table 0, (d.rr.memory.cells 0).currentState,
    (d.rr.memory.cells 0).isRunning, (d.rr.memory.cells 0).internalTimestep,
    (d.rr.rrc 0).nextState)

/-- The first cycle of `Application.oneRegion` over such memory. -/
theorem exists_trace_over {held : RrModule}
    {after : Option ModulePtr × ModuleState × Bool × ℕ × PrrControllerState}
    (result : (simulate 1 (memoryOver held) .oneRegion oneTask 1).map
      (fun r => (r.1.fits, atRegionZero r.2.2.2)) = .ok (true, after)) :
    ∃ resources, ∃ (wiring : Wiring 1 LoneTask (FcfsScheduler LoneTask)), ∃ d states,
      prepareAppResources (memoryOver held) .oneRegion = .ok resources ∧
        resources.fits = true ∧
          simulateApplication rawDevice .oneRegion resources oneTask = .ok (wiring, d) ∧
            Machine.Trace (fun _ : Unit => cycle wiring) (fun _ => ()) d 1 states ∧
              atRegionZero (states 1) = after := by
  obtain ⟨resources, wiring, d, states, prepared, built, trace, seen⟩ :=
    exists_trace_of_simulate (fun resources _ d => (resources.fits, atRegionZero d)) result
  obtain ⟨fits, seen⟩ := Prod.mk.inj seen
  exact ⟨resources, wiring, d, states, prepared, fits, built, trace, seen⟩

/-- Over memory that held `VACANT` the region is vacant. -/
theorem vacantRegion_iff_over_vacant :
    ∃ resources, ∃ (wiring : Wiring 1 LoneTask (FcfsScheduler LoneTask)), ∃ d states,
      prepareAppResources (memoryOver (heldModule .vacant false)) .oneRegion = .ok resources ∧
        simulateApplication rawDevice .oneRegion resources oneTask = .ok (wiring, d) ∧
          Machine.Trace (fun _ : Unit => cycle wiring) (fun _ => ()) d 1 states ∧
            ∀ k ≤ 1, (∀ j < k, ¬ Accepts states 0 j) →
              (states k).VacantRegion resources.memory 0 := by
  obtain ⟨resources, wiring, d, states, prepared, -, built, trace, -⟩ := exists_trace_over
    (show (simulate 1 (memoryOver (heldModule .vacant false)) .oneRegion oneTask 1).map
      (fun r => (r.1.fits, atRegionZero r.2.2.2)) =
        .ok (true, some (some 0), .vacant, false, 0, .idle) by decide +kernel)
  exact ⟨resources, wiring, d, states, prepared, built, trace,
    (vacantRegion_iff prepared built trace).mpr fun a _ => ⟨rfl, rfl⟩⟩

/-- **A placeholder executes**: over memory that held `EXEC`, the module of the region is
stepped in the first cycle, before any transfer. -/
theorem placeholder_executes :
    ∃ resources, ∃ (wiring : Wiring 1 LoneTask (FcfsScheduler LoneTask)), ∃ d states,
      prepareAppResources (memoryOver (heldModule .exec true)) .oneRegion = .ok resources ∧
        resources.fits = true ∧
          simulateApplication rawDevice .oneRegion resources oneTask = .ok (wiring, d) ∧
            Machine.Trace (fun _ : Unit => cycle wiring) (fun _ => ()) d 1 states ∧
              atRegionZero (states 1) = (some (some 0), .exec, true, 1, .idle) ∧
                ¬ ∀ k ≤ 1, (∀ j < k, ¬ Accepts states 0 j) →
                  (states k).VacantRegion resources.memory 0 := by
  obtain ⟨resources, wiring, d, states, prepared, fits, built, trace, seen⟩ := exists_trace_over
    (show (simulate 1 (memoryOver (heldModule .exec true)) .oneRegion oneTask 1).map
      (fun r => (r.1.fits, atRegionZero r.2.2.2)) =
        .ok (true, some (some 0), .exec, true, 1, .idle) by decide +kernel)
  refine ⟨resources, wiring, d, states, prepared, fits, built, trace, seen, fun vacant => ?_⟩
  simp only [atRegionZero, Prod.mk.injEq] at seen
  obtain ⟨resident, exec, -, -, state⟩ := seen
  have noAccept : ∀ j < 1, ¬ Accepts states 0 j := by
    rintro j hj ⟨-, accepted⟩
    obtain rfl : j = 0 := by omega
    rw [state] at accepted
    cases accepted
  have region := vacant 1 (le_refl 1) noAccept
  have entry : resources.memory.prr.table 0 = some (some 0) := region.entry.symm.trans resident
  have state := region.vacant 0 entry
  rw [exec] at state
  cases state

end Device

end Drachma
