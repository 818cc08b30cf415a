import Drachma.Simulation

/-!
# The memory counter

The memory counter of the PRC is to point at the memory level that holds the
bitstream of a transfer.  The ICAP latches it in `ICAP_ACK`, and the RR controller
of the transfer looks the module up in the unit it points at.

The PRC never searches the hierarchy: its counter stays at 0, the RR table.  In the
device loop this does no harm.  The ICAP is given a null handle for its bitstream,
and faults on it when it takes up the first request, before it gets to `ICAP_ACK`.

## Main results

* `Device.Quiet.step` — unless the ICAP latches the counter, a cycle leaves the
  request bits low and no controller in `PRR_TRANSFER`.
* `Device.counterSound_iff` — in a run from any state between transfers, the counter
  is right wherever it is used exactly if the ICAP never latches it.
* `Device.Waiting.step` — the ICAP has no bitstream and asks no RR controller in any
  state the device loop gets to.
* `Device.counterSound_of_simulateApplication` — in the device loop the counter is
  right wherever it is used.
-/

namespace Drachma

open Machine (LookupMap)

/-! ## What the components do not do -/

/-- No step of the PRC writes its memory counter. -/
theorem Prc.Moves.memoryCounter_eq {n : ℕ} {Node σ : Type}
    {policies : SchedulingPolicies n Node σ} {w : PrcWires n} {s s' : Prc n Node σ}
    (moves : Moves policies w s s') : s'.memoryCounter = s.memoryCounter := by
  cases moves <;> rfl

/-- Unless it latches a bitstream, the ICAP asserts no request bit. -/
theorem Icap.Moves.prrCtrlReq_low {n : ℕ} {w : IcapWires n} {s s' : Icap n}
    (moves : Moves w s s') (low : ∀ i, s.prrCtrlReq i = false)
    (noTake : s.stallCount = 0 → s.nextState = .ack → w.prcReq = true) :
    ∀ i, s'.prrCtrlReq i = false := by
  cases moves with
  | take ready state noReq =>
      rw [noTake ready state] at noReq
      cases noReq
  | @grant bitstream _ _ _ _ inRange =>
      intro i
      dsimp only
      rcases eq_or_ne i ⟨bitstream.regionId, inRange⟩ with rfl | hne
      · rw [Function.update_self]
      · rw [Function.update_of_ne hne]
        exact low i
  | _ => exact low

/-- A controller that is not requested to receive a transfer does not. -/
theorem RrController.Moves.notTransfer {Node : Type} [GraphNode Node] {w : RrcWires Node}
    {s s' : RrController Node} {m m' : Memory} (moves : Moves w s m s' m')
    (noReq : w.icapReq = false) (state : s.nextState ≠ .transfer) :
    s'.nextState ≠ .transfer := by
  intro state'
  rcases moves.transfer_cases state' with ⟨h, -⟩ | ⟨req, -⟩
  · exact state h
  · rw [noReq] at req
    cases req

/-! ## The unit at index 0 -/

namespace Memory

/-- The first unit of the hierarchy is an RR table. -/
def TopIsTable (m : Memory) : Prop := ∃ table, m.hierarchy[0]? = some (.regions table)

variable {m m' : Memory}

theorem topIsTable_of_associateHierarchy (m : Memory) (table : ReconfigurableRegions)
    (levels : List MemoryLevel) : (m.associateHierarchy table levels).TopIsTable :=
  ⟨table, rfl⟩

/-- Filing a module in the main memory leaves an RR table on top, also where the RR
table is all the memory there is. -/
theorem TopIsTable.insertLibraryModule {a : ℕ} (top : m.TopIsTable)
    (h : m.insertLibraryModule a = .ok m') : m'.TopIsTable := by
  obtain ⟨table, htop⟩ := top
  unfold Memory.insertLibraryModule at h
  cases hierarchy : m.hierarchy with
  | nil => rw [hierarchy] at htop; cases htop
  | cons unit units =>
      rw [hierarchy] at htop h
      cases htop
      cases units with
      | nil =>
          cases h
          exact ⟨table.insertModule (m.cells a).regionId a, rfl⟩
      | cons unit' units' =>
          simp only [List.getLast?_cons_cons] at h
          cases last : (unit' :: units').getLast? with
          | none => rw [last] at h; cases h
          | some mainMemory =>
              rw [last] at h
              cases h
              exact ⟨table, rfl⟩

theorem TopIsTable.prepareModule {regionId width : ℕ} {entry : ℕ × ModuleSpec Double}
    (top : m.TopIsTable) (h : Memory.prepareModule regionId width m entry = .ok m') :
    m'.TopIsTable :=
  TopIsTable.insertLibraryModule (m := (m.alloc _).2) top h

theorem TopIsTable.prepareRegion {acc acc' : ℕ × Memory}
    {rr : ℕ × LookupMap ℕ (ModuleSpec Double)} (top : acc.2.TopIsTable)
    (h : Memory.prepareRegion acc rr = .ok acc') : acc'.2.TopIsTable := by
  unfold Memory.prepareRegion at h
  split at h
  · cases h
  · rename_i spec _ _
    obtain ⟨x, hx, h⟩ := Machine.bind_eq_ok.mp h
    cases h
    show x.TopIsTable
    refine Machine.foldlM_invariant (P := TopIsTable) ?_ ?_ hx
    · intro entry y y' top hstep
      exact top.prepareModule hstep
    · exact top

end Memory

/-- Preparing an application leaves the RR table on top of the hierarchy. -/
theorem topIsTable_of_prepareAppResources {m : Memory} {app : Application}
    {resources : PreparedResources} (top : m.TopIsTable)
    (h : prepareAppResources m app = .ok resources) : resources.memory.TopIsTable := by
  unfold prepareAppResources at h
  obtain ⟨⟨required, memory⟩, hmemory, h⟩ := Machine.bind_eq_ok.mp h
  obtain ⟨_, -, h⟩ := Machine.bind_eq_ok.mp h
  obtain ⟨_, -, h⟩ := Machine.bind_eq_ok.mp h
  obtain ⟨_, -, h⟩ := Machine.bind_eq_ok.mp h
  cases h
  refine Machine.foldlM_invariant (P := fun acc : ℕ × Memory => acc.2.TopIsTable) ?_ top
    hmemory
  intro rr acc acc' top hstep
  exact top.prepareRegion hstep

namespace Device

variable {n : ℕ} {Node σ : Type} [GraphNode Node]

/-- The ICAP latches the memory counter in this cycle: the cycle gets to its step,
and the step finds the request of the PRC dropped. -/
def IcapLatches (wiring : Wiring n Node σ) (d : Device n Node σ) : Prop :=
  (∃ prc, d.prc.step wiring.policies d.context.prcWires = .ok prc) ∧
    d.icap.stallCount = 0 ∧ d.icap.nextState = .ack ∧ d.context.storedPrcIcapReq = false

omit [GraphNode Node] in
/-- RR controller `i` fetches the module of an ended transfer in this cycle. -/
def FetchesModule (d : Device n Node σ) (i : Fin n) : Prop :=
  (d.rr.rrc i).nextState = .transfer ∧ d.context.storedIcapTransfer = false

/-- The counter `mc` selects a memory level, and that level holds the module of the
bitstream, where there is one. -/
def Selects (memory : Memory) (mc : ℕ) (bitstream : Option (ModuleSpec Double)) : Prop :=
  ∃ level, memory.hierarchy[mc]? = some (.level level) ∧
    ∀ spec, bitstream = some spec → ∃ a, level.table spec.regionId spec.id = some (some a) ∧
      (memory.cells a).regionId = spec.regionId ∧ (memory.cells a).moduleId = spec.id

/-- The memory counter is right wherever this cycle uses it. -/
structure CounterSound (wiring : Wiring n Node σ) (d : Device n Node σ) : Prop where
  latched : d.IcapLatches wiring →
    Selects d.rr.memory d.context.storedPrcMc wiring.prcScheduledBs
  fetched : ∀ i, d.FetchesModule i →
    Selects d.rr.memory d.context.storedIcapMc (some (d.rr.rrc i).icapTransferBs)

/-- A state between transfers: the ICAP has not taken up a request, no request bit is
asserted, and no RR controller is receiving.  The counter of the PRC is where the
constructor has put it. -/
structure BetweenTransfers (d : Device n Node σ) : Prop where
  counter : d.prc.memoryCounter = 0
  icap : d.icap.nextState = .init ∨ d.icap.nextState = .idle
  req : ∀ i, d.icap.prrCtrlReq i = false
  reqStored : ∀ i, d.context.storedIcapPrrCtrlReq i = false
  rrc : ∀ i, (d.rr.rrc i).nextState ≠ .transfer

/-- What holds until the ICAP latches the counter. -/
structure Quiet (d : Device n Node σ) : Prop where
  counter : d.prc.memoryCounter = 0
  counterStored : d.icap.nextState = .ack → d.context.storedPrcMc = 0
  req : ∀ i, d.icap.prrCtrlReq i = false
  reqStored : ∀ i, d.context.storedIcapPrrCtrlReq i = false
  rrc : ∀ i, (d.rr.rrc i).nextState ≠ .transfer
  top : d.rr.memory.TopIsTable

variable {wiring : Wiring n Node σ} {d d' : Device n Node σ}

omit [GraphNode Node] in
theorem Quiet.of_betweenTransfers (start : d.BetweenTransfers)
    (top : d.rr.memory.TopIsTable) : d.Quiet where
  counter := start.counter
  counterStored ack := by
    rcases start.icap with h | h
    · rw [h] at ack; cases ack
    · rw [h] at ack; cases ack
  req := start.req
  reqStored := start.reqStored
  rrc := start.rrc
  top := top

/-- **The step lemma**: a cycle in which the ICAP does not latch stays quiet. -/
theorem Quiet.step (quiet : d.Quiet) (noLatch : ¬ d.IcapLatches wiring)
    (h : d.cycle wiring = .ok d') : d'.Quiet := by
  obtain ⟨prc, icap, rr, hprc, hicap, hrr, rfl⟩ := cycle_eq_ok.mp h
  have counter : prc.memoryCounter = 0 :=
    (Prc.moves_of_step hprc).memoryCounter_eq.trans quiet.counter
  have req : ∀ i, icap.prrCtrlReq i = false := by
    refine (Icap.moves_of_step hicap).prrCtrlReq_low quiet.req fun ready state => ?_
    cases hreq : d.context.storedPrcIcapReq with
    | true => exact hreq
    | false => exact absurd ⟨⟨prc, hprc⟩, ready, state, hreq⟩ noLatch
  refine ⟨counter, fun _ => counter, req, req, fun i => ?_, ?_⟩
  · obtain ⟨m, m', moves⟩ := RrSide.rrc_of_sweep hrr i
    exact moves.notTransfer (quiet.reqStored i) (quiet.rrc i)
  · obtain ⟨table, top⟩ := quiet.top
    refine ⟨table, ?_⟩
    show rr.memory.hierarchy[0]? = _
    rw [(RrSide.keeps_of_sweep hrr).hierarchy]
    exact top

omit [GraphNode Node] in
/-- A quiet device that uses its counter soundly does not use it. -/
theorem Quiet.not_icapLatches (quiet : d.Quiet) (sound : d.CounterSound wiring) :
    ¬ d.IcapLatches wiring := by
  intro latches
  obtain ⟨level, unit, -⟩ := sound.latched latches
  obtain ⟨table, top⟩ := quiet.top
  rw [quiet.counterStored latches.2.2.1, top] at unit
  cases unit

/-- The state `simulateApplication` starts from is between transfers. -/
theorem betweenTransfers_of_simulateApplication {raw : Device n Node (FcfsScheduler Node)}
    {app : Application} {resources : PreparedResources} {graph : TaskGraph Node}
    {wiring : Wiring n Node (FcfsScheduler Node)} {d : Device n Node (FcfsScheduler Node)}
    (h : simulateApplication raw app resources graph = .ok (wiring, d)) :
    d.BetweenTransfers ∧ d.rr.memory = resources.memory := by
  obtain ⟨selector, -, h⟩ := Machine.bind_eq_ok.mp h
  cases h
  exact ⟨⟨rfl, .inl rfl, fun _ => rfl, fun _ => rfl, fun _ h => by cases h⟩, rfl⟩

section Run

variable {m : Memory} {table : ReconfigurableRegions} {levels : List MemoryLevel}
  {app : Application} {resources : PreparedResources} {N : ℕ} {states : ℕ → Device n Node σ}

/-- **The counter is sound as long as it is not used.**  For an application that has
been prepared on any memory hierarchy, and a run of its device from any state between
transfers: the counter is right wherever a cycle of the run uses it, if and only if
the ICAP latches it in no cycle. -/
theorem counterSound_iff
    (prepared : prepareAppResources (m.associateHierarchy table levels) app = .ok resources)
    (library : d.rr.memory.hierarchy = resources.memory.hierarchy)
    (start : d.BetweenTransfers)
    (trace : Machine.Trace (fun _ : Unit => cycle wiring) (fun _ => ()) d N states) :
    (∀ k ≤ N, (states k).CounterSound wiring) ↔
      ∀ k ≤ N, ¬ (states k).IcapLatches wiring := by
  have top : d.rr.memory.TopIsTable := by
    obtain ⟨table, top⟩ := topIsTable_of_prepareAppResources
      (Memory.topIsTable_of_associateHierarchy m table levels) prepared
    exact ⟨table, by rw [library]; exact top⟩
  have quiet : (∀ k ≤ N, (states k).Quiet → ¬ (states k).IcapLatches wiring) →
      ∀ k ≤ N, (states k).Quiet ∧ ¬ (states k).IcapLatches wiring :=
    trace.invariant_avoiding (.of_betweenTransfers start top)
      fun _ _ quiet noLatch hstep => quiet.step noLatch hstep
  constructor
  · intro sound k hk
    exact (quiet (fun j hj here => here.not_icapLatches (sound j hj)) k hk).2
  · intro noLatch k hk
    obtain ⟨here, -⟩ := quiet (fun j hj _ => noLatch j hj) k hk
    exact ⟨fun latches => absurd latches (noLatch k hk),
      fun i fetches => absurd fetches.1 (here.rrc i)⟩

end Run

/-! ## The ICAP without a bitstream -/

/-- The ICAP has not taken up a request, and has no bitstream. -/
structure Waiting (d : Device n Node σ) : Prop where
  state : d.icap.nextState = .init ∨ d.icap.nextState = .idle
  noBitstream : d.icap.transferBs = none
  req : ∀ i, d.icap.prrCtrlReq i = false
  reqStored : ∀ i, d.context.storedIcapPrrCtrlReq i = false

omit [GraphNode Node] in
theorem Waiting.nextState_ne_ack (waiting : d.Waiting) : d.icap.nextState ≠ .ack := by
  intro ack
  rcases waiting.state with h | h
  · rw [h] at ack; cases ack
  · rw [h] at ack; cases ack

/-- **The step lemma**: a cycle that does not fault leaves the ICAP waiting, since it
would read the null handle if it took up a request. -/
theorem Waiting.step (waiting : d.Waiting) (h : d.cycle wiring = .ok d') : d'.Waiting := by
  obtain ⟨prc, icap, rr, -, hicap, -, rfl⟩ := cycle_eq_ok.mp h
  have moves := Icap.moves_of_step hicap
  have req : ∀ i, icap.prrCtrlReq i = false :=
    moves.prrCtrlReq_low waiting.req fun _ ack => absurd ack waiting.nextState_ne_ack
  have null : ∀ {bitstream}, d.icap.transferBs ≠ some bitstream := by
    intro bitstream handle
    rw [waiting.noBitstream] at handle
    cases handle
  have idle : (icap.nextState = .init ∨ icap.nextState = .idle) ∧ icap.transferBs = none := by
    cases moves with
    | stall => exact ⟨waiting.state, waiting.noBitstream⟩
    | init => exact ⟨.inr rfl, waiting.noBitstream⟩
    | rest => exact ⟨waiting.state, waiting.noBitstream⟩
    | accept _ _ _ handle => exact absurd handle null
    | skip _ _ _ handle => exact absurd handle null
    | hold _ ack => exact absurd ack waiting.nextState_ne_ack
    | take _ ack => exact absurd ack waiting.nextState_ne_ack
    | wait _ _ handle => exact absurd handle null
    | grant _ _ handle => exact absurd handle null
    | count _ state => rcases waiting.state with h | h <;> rw [state] at h <;> cases h
    | finish _ state => rcases waiting.state with h | h <;> rw [state] at h <;> cases h
  exact ⟨idle.1, idle.2, req, req⟩

section DeviceLoop

variable {raw : Device n Node (FcfsScheduler Node)} {m : Memory}
  {table : ReconfigurableRegions} {levels : List MemoryLevel} {app : Application}
  {resources : PreparedResources} {graph : TaskGraph Node} {N : ℕ}
  {wiring : Wiring n Node (FcfsScheduler Node)} {d : Device n Node (FcfsScheduler Node)}
  {states : ℕ → Device n Node (FcfsScheduler Node)}

/-- In the device loop the ICAP waits, in the state `simulateApplication` starts from
and in every state after it. -/
theorem waiting_of_simulateApplication
    (built : simulateApplication raw app resources graph = .ok (wiring, d))
    (trace : Machine.Trace (fun _ : Unit => cycle wiring) (fun _ => ()) d N states) :
    ∀ k ≤ N, (states k).Waiting := by
  have start : d.Waiting := by
    obtain ⟨selector, -, h⟩ := Machine.bind_eq_ok.mp built
    cases h
    exact ⟨.inl rfl, rfl, fun _ => rfl, fun _ => rfl⟩
  exact trace.invariant (P := fun _ s => s.Waiting) start
    fun _ _ waiting hstep => waiting.step hstep

/-- In the device loop the ICAP never latches the counter. -/
theorem not_icapLatches_of_simulateApplication
    (built : simulateApplication raw app resources graph = .ok (wiring, d))
    (trace : Machine.Trace (fun _ : Unit => cycle wiring) (fun _ => ()) d N states) :
    ∀ k ≤ N, ¬ (states k).IcapLatches wiring := by
  intro k hk latches
  obtain ⟨-, -, ack, -⟩ := latches
  exact (waiting_of_simulateApplication built trace k hk).nextState_ne_ack ack

/-- **The counter is right wherever it is used.**  For an application that has been
prepared on any memory hierarchy, and the device loop on any task graph: whenever the
ICAP latches the counter, and whenever an RR controller fetches a module with it, it
selects the memory level that holds the module of the bitstream. -/
theorem counterSound_of_simulateApplication
    (prepared : prepareAppResources (m.associateHierarchy table levels) app = .ok resources)
    (built : simulateApplication raw app resources graph = .ok (wiring, d))
    (trace : Machine.Trace (fun _ : Unit => cycle wiring) (fun _ => ()) d N states) :
    ∀ k ≤ N, (states k).CounterSound wiring := by
  obtain ⟨start, memory⟩ := betweenTransfers_of_simulateApplication built
  have library : d.rr.memory.hierarchy = resources.memory.hierarchy := by rw [memory]
  exact (counterSound_iff prepared library start trace).mpr
    (not_icapLatches_of_simulateApplication built trace)

end DeviceLoop

/-! ## The device loop on two regions -/

/-- The storage of an RR table, a cache level and the main memory. -/
def cachedMemory : Memory :=
  oneLevelMemory.associateHierarchy .empty
    [{ unitSize := 4, readLatency := 0, searchLatency := 0, lutIndexed := true
       table := fun _ _ => none },
     { unitSize := 12, readLatency := 2, searchLatency := 1, lutIndexed := true
       table := fun _ _ => none }]

/-- The first three cycles, after which the PRC requests a transfer. -/
theorem counterSound_of_simulateApplication_twoRegions :
    ∃ resources, ∃ (wiring : Wiring 2 LoneTask (FcfsScheduler LoneTask)), ∃ d states,
      prepareAppResources cachedMemory .twoRegions = .ok resources ∧ resources.fits = true ∧
        simulateApplication rawDevice .twoRegions resources oneTask = .ok (wiring, d) ∧
          Machine.Trace (fun _ : Unit => cycle wiring) (fun _ => ()) d 3 states ∧
            (states 3).context.storedPrcIcapReq = true ∧
              ∀ k ≤ 3, (states k).CounterSound wiring := by
  obtain ⟨resources, wiring, d, states, prepared, built, trace, seen⟩ :=
    exists_trace_of_simulate
      (fun resources _ d => (resources.fits, d.context.storedPrcIcapReq))
      (show (simulate 2 cachedMemory .twoRegions oneTask 3).map
        (fun r => (r.1.fits, r.2.2.2.context.storedPrcIcapReq)) = .ok (true, true) by
          decide +kernel)
  obtain ⟨fits, requests⟩ := Prod.mk.inj seen
  exact ⟨resources, wiring, d, states, prepared, fits, built, trace, requests,
    counterSound_of_simulateApplication prepared built trace⟩

/-! ## A run in which the counter is latched

Not one of the device loop: the ICAP holds a bitstream.
-/

/-- A device with one region, which executes.  The PRC has requested a bitstream for
it, and the ICAP holds the bitstream of an earlier transfer to it. -/
def requesting (memory : Memory) : Device 1 LoneTask (FcfsScheduler LoneTask) :=
  { prc :=
      { Prc.new Prc.rawPrc (FcfsScheduler.initializeQueue oneTask) with
        nextState := .reqIcap
        icapReq := true
        scheduledBs := some Application.oneRegionBs }
    icap :=
      { Icap.new Icap.rawIcap 1 32 .empty 1 with
        nextState := .idle
        transferBs := some Application.oneRegionBs }
    rr :=
      { rrc := fun i =>
          { RrController.new RrController.rawController i 1 with
            nextState := .idle
            prrExecuting := true }
        memory := memory }
    context :=
      { SignalContext.new SignalContext.rawContext none none none with
        storedPrcIcapReq := true
        storedPrrExecuting := fun _ => true } }

/-- All handles hold the requested bitstream. -/
def requestingWiring : Wiring 1 LoneTask (FcfsScheduler LoneTask) :=
  { policies := lftFePolicies ⟨.empty, .empty, .empty⟩
    prcScheduledBs := some Application.oneRegionBs
    rrcHandles := fun _ =>
      { prcCurrentTask := some ⟨"a"⟩
        prcScheduledBs := some Application.oneRegionBs
        icapTransferBs := some Application.oneRegionBs } }

/-- Two cycles from `requesting`, on the storage prepared for the application. -/
def runRequesting : Exec (PreparedResources × Device 1 LoneTask (FcfsScheduler LoneTask)) := do
  let resources ← prepareAppResources oneLevelMemory .oneRegion
  let d ← run requestingWiring (requesting resources.memory) 2
  return (resources, d)

/-- What the ICAP is about to do, and whether its counter selects a memory level. -/
def latching (d : Device 1 LoneTask (FcfsScheduler LoneTask)) :
    Bool × ℕ × IcapState × Bool × Bool :=
  ((d.prc.step requestingWiring.policies d.context.prcWires).isOk, d.icap.stallCount,
    d.icap.nextState, d.context.storedPrcIcapReq,
    match d.rr.memory.hierarchy[d.context.storedPrcMc]? with
    | some (.level _) => true
    | _ => false)

theorem requesting_betweenTransfers (memory : Memory) :
    (requesting memory).BetweenTransfers :=
  ⟨rfl, .inr rfl, fun _ => rfl, fun _ => rfl, fun _ h => by cases h⟩

/-- The application is accepted, and after two cycles the ICAP is about to latch a
counter that selects no memory level. -/
theorem exists_requesting_trace :
    ∃ resources states, prepareAppResources oneLevelMemory .oneRegion = .ok resources ∧
      resources.fits = true ∧
        Machine.Trace (fun _ : Unit => cycle requestingWiring) (fun _ => ())
          (requesting resources.memory) 2 states ∧
          latching (states 2) = (true, 0, .ack, false, false) := by
  have result : (runRequesting.map fun r => (r.1.fits, latching r.2)) =
      .ok (true, true, 0, .ack, false, false) := by decide +kernel
  obtain ⟨⟨resources, d⟩, hrun, seen⟩ := Machine.map_eq_ok.mp result
  obtain ⟨resources', prepared, hrun⟩ := Machine.bind_eq_ok.mp hrun
  obtain ⟨d', hrun, h⟩ := Machine.bind_eq_ok.mp hrun
  cases h
  obtain ⟨states, trace, last⟩ := Machine.Trace.exists_of_run hrun
  obtain ⟨fits, seen⟩ := Prod.mk.inj seen
  exact ⟨resources, states, prepared, fits, trace, by rw [last]; exact seen⟩

/-- **The RR table is latched for a memory level**: in the third cycle the ICAP takes
over the counter, which selects the RR table. -/
theorem counter_selects_table :
    ∃ resources states, prepareAppResources oneLevelMemory .oneRegion = .ok resources ∧
      resources.fits = true ∧ (requesting resources.memory).BetweenTransfers ∧
        Machine.Trace (fun _ : Unit => cycle requestingWiring) (fun _ => ())
          (requesting resources.memory) 2 states ∧
          (states 2).IcapLatches requestingWiring ∧
            ¬ (states 2).CounterSound requestingWiring := by
  obtain ⟨resources, states, prepared, fits, trace, seen⟩ := exists_requesting_trace
  simp only [latching, Prod.mk.injEq] at seen
  obtain ⟨prcOk, ready, state, noReq, unit⟩ := seen
  have latches : (states 2).IcapLatches requestingWiring := by
    refine ⟨?_, ready, state, noReq⟩
    cases hprc : (states 2).prc.step requestingWiring.policies
        (states 2).context.prcWires with
    | error e => rw [hprc] at prcOk; cases prcOk
    | ok prc => exact ⟨prc, rfl⟩
  refine ⟨resources, states, prepared, fits, requesting_betweenTransfers _, trace, latches,
    fun sound => ?_⟩
  obtain ⟨level, selected, -⟩ := sound.latched latches
  rw [selected] at unit
  cases unit

end Device

end Drachma
