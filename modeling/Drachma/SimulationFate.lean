import Drachma.RegionNumbers

/-!
# How a simulation ends

The loop of `simulateApplication` cycles the device until it has done `stop_ccc` cycles, or
a thousand.  A cycle that faults ends it earlier, and this is what happens in every
simulation: the PRC schedules a first task and requests its bitstream, and the ICAP, which
has no bitstream yet, reads the null handle when it takes the request up.  Before that, the
RR controllers may miss a module, the task graph a task, the selector a bitstream; and the
PRC has no state to deliver a task in when the number of the bitstream happens to be what
an uninitialised field reports.

Which of these it is, and in which cycle, can be read off what the simulation is given.

## Main results

* `Device.simulationLoop_eq` — the loop is a run of `min stop_ccc 1000` cycles.
* `Device.Underway.cycle_of_prc` — what a cycle does as long as no request is taken up.
* `Device.run_fate` — the cycle a simulation ends in, and the fault it ends with.
-/

namespace Drachma

open Machine (bind_eq_ok bind_eq_error)

namespace Device

/-! ## The loop -/

section Loop

variable {n : ℕ} {Node σ : Type} [GraphNode Node]

/-- `max_ccc`. -/
def maxCcc : ℕ := 2 ^ 64 - 1

/-- The loop of `simulateApplication`, after `ccc` cycles.  The counter is below `stop_ccc`
when it is incremented, so it does not wrap. -/
def simulationLoop (wiring : Wiring n Node σ) (stopCcc ccc : ℕ) (d : Device n Node σ) :
    Exec (Device n Node σ) :=
  if ccc < stopCcc then do
    let d ← d.cycle wiring
    if ccc + 1 = maxCcc then return d
    else if ccc + 1 = 1000 then return d
    else simulationLoop wiring stopCcc (ccc + 1) d
  else
    return d
termination_by stopCcc - ccc

variable {wiring : Wiring n Node σ} {d : Device n Node σ}

theorem run_succ_left (k : ℕ) :
    d.run wiring (k + 1) = d.cycle wiring >>= fun d' => d'.run wiring k :=
  Machine.run_succ_left k

/-- **The loop is a run.** -/
theorem simulationLoop_eq (stopCcc : ℕ) {ccc : ℕ} (early : ccc < 1000) :
    simulationLoop wiring stopCcc ccc d = d.run wiring (min stopCcc 1000 - ccc) := by
  obtain ⟨left, hleft⟩ : ∃ left, min stopCcc 1000 - ccc = left := ⟨_, rfl⟩
  rw [hleft]
  induction left generalizing ccc d with
  | zero =>
      have stopped : ¬ ccc < stopCcc := by omega
      rw [simulationLoop, if_neg stopped]
      rfl
  | succ left ih =>
      have more : ccc < stopCcc := by omega
      rw [simulationLoop, if_pos more, run_succ_left]
      congr 1
      funext d'
      have notMax : ccc + 1 ≠ maxCcc := by unfold maxCcc; omega
      rw [if_neg notMax]
      by_cases stop : ccc + 1 = 1000
      · have last : left = 0 := by omega
        rw [if_pos stop, last]
        rfl
      · rw [if_neg stop]
        exact ih (by omega) (by omega)

end Loop

/-! ## What a simulation comes to -/

section Fate

variable {n : ℕ} {Node : Type} [GraphNode Node]

/-- The cycle in which a simulation ends, counted from zero, and the fault. -/
structure Fate where
  cycle : ℕ
  fault : Fault

/-- Whether the bitstream that is chosen for the first task is the one reported as
installed, while no region executes. -/
def firstHit (selector : LftFeSelector) (task : Node) (rrBitstreamId : Bus n ℕ) : Exec Bool := do
  let targetBs ← selector.getBitstreamForTask task (fun _ : Fin n => false)
  let installed ← rrBitstreamId.read targetBs.2.regionId
  return decide (installed = targetBs.2.id)

/-- **What a simulation comes to.**  `stall_count_` of the ICAP and `bitstream_id_` of the
RR controllers are not initialised: they are what the memory held. -/
def fate (raw : Device n Node (FcfsScheduler Node)) (resources : PreparedResources)
    (selector : LftFeSelector) (graph : TaskGraph Node) : Fate :=
  if ∀ i : Fin n, (resources.memory.prr.table i).join.isSome then
    match graph.getStartNodeMap with
    | [] => ⟨1, .emptyContainer⟩
    | (_, task) :: _ =>
        match firstHit selector task fun i => (raw.rr.rrc i).bitstreamId with
        | .error fault => ⟨2, fault⟩
        | .ok true => ⟨3, .runtimeError "PRC has reached an unknown state."⟩
        -- the ICAP takes up the request when it has stalled and passed its INIT state
        | .ok false => ⟨max 3 (raw.icap.stallCount + 1), .nullDereference⟩
  else
    ⟨0, .nullDereference⟩

end Fate

end Device

/-! ## Controllers that nothing is asked of -/

section Dormant

variable {Node : Type}

theorem Memory.findModule_of_missing {m : Memory} {i : ℕ}
    (missing : (m.prr.table i).join = none) : m.findModule i = .error .nullDereference := by
  unfold findModule getModuleFromRegion ReconfigurableRegions.getModuleFromRegion
  cases entry : m.prr.table i with
  | none => rfl
  | some ptr =>
      rw [entry] at missing
      cases missing
      rfl

namespace RrController

/-- Controller `i` is quiet, does not execute, and reports `id`. -/
structure Dormant (s : RrController Node) (i id : ℕ) : Prop extends s.Quiet i where
  prrExecuting : s.prrExecuting = false
  bitstreamId : s.bitstreamId = id

variable [GraphNode Node] {w : RrcWires Node} {s s' : RrController Node} {m m' : Memory}
  {i id a : ℕ}

/-- The signal of a controller that begins nothing does not rise. -/
theorem Moves.prrExecuting_low (moves : Moves w s m s' m') (low : w.Low) (quiet : s.Quiet i)
    (off : s.prrExecuting = false) : s'.prrExecuting = false := by
  have off' : ∀ {a c x}, Wakes w s m a c x → c.prrExecuting = false := by
    intro a c x wakes
    rw [wakes.prrExecuting_eq, off]
    rfl
  have noQueue : ∀ {a c x}, Wakes w s m a c x → c.actionQueue = [] := by
    intro a c x wakes
    obtain ⟨c₀, h₀, rfl⟩ := wakes.controller
    unfold answerEnqueue at h₀
    rw [low.prcEnqueue, show s.latch.prcAck = false from quiet.prcAck] at h₀
    cases h₀
    exact quiet.actionQueue
  cases moves with
  | init wakes => exact (off' wakes :)
  | rest wakes => exact (off' wakes :)
  | startQueued wakes _ queue => rw [noQueue wakes] at queue; cases queue
  | startRequested _ _ _ start => rw [low.prcStart] at start; cases start
  | decline wakes => exact (off' wakes :)
  | accept wakes => exact (off' wakes :)
  | wait wakes => exact (off' wakes :)
  | hold wakes => exact (off' wakes :)
  | install _ state => rcases quiet.state with h | h <;> rw [h] at state <;> cases state

/-- A dormant controller whose region has a module stays dormant. -/
theorem exists_step_of_dormant (low : w.Low) (dormant : s.Dormant i id)
    (resident : m.prr.table i = some (some a)) :
    ∃ s' m', s.step w m = .ok (s', m') ∧ s'.Dormant i id ∧ m'.prr = m.prr := by
  obtain ⟨s', m', hstep, quiet, same⟩ := exists_step_of_quiet low dormant.toQuiet resident
  have moves := moves_of_step hstep
  exact ⟨s', m', hstep, ⟨quiet, moves.prrExecuting_low low dormant.toQuiet dormant.prrExecuting,
    moves.constants.2.trans dormant.bitstreamId⟩, same⟩

/-- A controller whose region has no module dereferences a null pointer. -/
theorem step_of_missing (low : w.Low) (quiet : s.Quiet i)
    (missing : (m.prr.table i).join = none) : s.step w m = .error .nullDereference := by
  have answered : answerEnqueue w s.latch = .ok s.latch := by
    unfold answerEnqueue
    rw [low.prcEnqueue, show s.latch.prcAck = false from quiet.prcAck]
    rfl
  have null : m.findModule (releaseIcapAck w s.latch).prrId = .error .nullDereference :=
    Memory.findModule_of_missing (by rw [← missing]; exact congrArg _ (congrArg _ quiet.prrId))
  unfold step wake
  rw [answered, Machine.ok_bind]
  dsimp only
  rw [null]
  rfl

end RrController

/-- What a sweep of dormant controllers does. -/
theorem RrSide.sweep_of_dormant {n : ℕ} [GraphNode Node] {w : Fin n → RrcWires Node}
    {s : RrSide n Node} {ids : Bus n ℕ} (low : ∀ i, (w i).Low)
    (dormant : ∀ i, (s.rrc i).Dormant i (ids i)) :
    if ∀ i : Fin n, (s.memory.prr.table i).join.isSome then
      ∃ s', s.sweep w = .ok s' ∧ (∀ i, (s'.rrc i).Dormant i (ids i)) ∧
        s'.memory.prr = s.memory.prr
    else s.sweep w = .error .nullDereference := by
  let P (t : RrSide n Node) : Prop :=
    (∀ j, (t.rrc j).Dormant j (ids j)) ∧ t.memory.prr = s.memory.prr
  have resident : ∀ i : Fin n, (s.memory.prr.table i).join.isSome → ∀ t, P t →
      ∃ t', t.step (w i) i = .ok t' ∧ P t' := by
    rintro i some t ⟨dormant, same⟩
    obtain ⟨a, entry⟩ := Option.isSome_iff_exists.mp some
    rw [Option.join_eq_some_iff, ← same] at entry
    obtain ⟨c, m, hstep, dormant', same'⟩ :=
      RrController.exists_step_of_dormant (low i) (dormant i) entry
    refine ⟨_, RrSide.step_eq_ok.mpr ⟨c, m, hstep, rfl⟩, fun j => ?_, same'.trans same⟩
    rcases eq_or_ne j i with rfl | hj
    · show (Function.update t.rrc j c j).Dormant j (ids j)
      rw [Function.update_self]
      exact dormant'
    · show (Function.update t.rrc i c j).Dormant j (ids j)
      rw [Function.update_of_ne hj]
      exact dormant j
  have missing : ∀ i : Fin n, ¬ (s.memory.prr.table i).join.isSome → ∀ t, P t →
      t.step (w i) i = .error .nullDereference := by
    rintro i none t ⟨dormant, same⟩
    rw [Option.not_isSome_iff_eq_none, ← same] at none
    unfold RrSide.step
    rw [RrController.step_of_missing (low i) (dormant i).toQuiet none]
    rfl
  have start : P s := ⟨dormant, rfl⟩
  split
  · rename_i all
    exact Machine.exists_foldlM_of_invariant (fun i _ => resident i (all i)) start
  · rename_i some
    push Not at some
    obtain ⟨i, none⟩ := some
    refine Machine.foldlM_eq_error (P := P) (fun j _ t ht => ?_)
      ⟨i, List.mem_finRange i, missing i none⟩ start
    by_cases entry : (s.memory.prr.table j).join.isSome
    · exact .inl (resident j entry t ht)
    · exact .inr (missing j entry t ht)

end Dormant

/-! ## Cycles in which nothing happens but in the PRC -/

namespace Device

section Underway

variable {n : ℕ} {Node : Type} [GraphNode Node]

/-- What holds after `k` cycles, before the ICAP takes a request up: it has yet to stall
for what is left of `stalls` cycles, and nothing is asked of the RR controllers. -/
structure Underway (ids : Bus n ℕ) (prr : ReconfigurableRegions) (stalls k : ℕ)
    (d : Device n Node (FcfsScheduler Node)) : Prop where
  prcReady : d.prc.stallCount = 0
  prcEnqueue : ∀ i, d.prc.prrEnqueue i = false
  prcStart : ∀ i, d.prc.prrStart i = false
  icapStall : d.icap.stallCount = stalls - k
  icapState : d.icap.nextState = if k ≤ stalls then .init else .idle
  noBitstream : d.icap.transferBs = none
  icapAck : d.icap.prcAck = false
  transferring : d.icap.transferring = false
  ctrlReq : ∀ i, d.icap.prrCtrlReq i = false
  dormant : ∀ i, (d.rr.rrc i).Dormant i (ids i)
  prr : d.rr.memory.prr = prr
  low : ∀ i handles, (d.context.rrcWires i handles).Low
  idle : ∀ i, d.context.storedPrrExecuting i = false
  reported : 0 < k → ∀ i, d.context.storedRrcBitstream i = ids i
  noTransfer : d.context.storedIcapTransfer = false
  noAck : d.context.storedIcapPrcAck = false

variable {wiring : Wiring n Node (FcfsScheduler Node)}
  {d : Device n Node (FcfsScheduler Node)} {prc : Prc n Node (FcfsScheduler Node)}
  {ids : Bus n ℕ} {prr : ReconfigurableRegions} {stalls k : ℕ}

/-- A cycle faults as the first of its components does. -/
theorem cycle_of_prc_error {fault : Fault}
    (h : d.prc.step wiring.policies d.context.prcWires = .error fault) :
    d.cycle wiring = .error fault := by
  unfold cycle cycleIn simulationOrder
  simp only [List.foldlM_cons, stepComponent, h]
  rfl

theorem cycle_of_icap_error {fault : Fault}
    (hprc : d.prc.step wiring.policies d.context.prcWires = .ok prc)
    (h : d.icap.step (d.context.icapWires wiring.prcScheduledBs) = .error fault) :
    d.cycle wiring = .error fault := by
  unfold cycle cycleIn simulationOrder
  simp only [List.foldlM_cons, stepComponent, hprc]
  refine bind_eq_error.mpr (.inl (bind_eq_error.mpr (.inr ⟨_, rfl, ?_⟩)))
  refine bind_eq_error.mpr (.inl (bind_eq_error.mpr (.inl ?_)))
  exact h

theorem cycle_of_rr_error {fault : Fault} {icap : Icap n}
    (hprc : d.prc.step wiring.policies d.context.prcWires = .ok prc)
    (hicap : d.icap.step (d.context.icapWires wiring.prcScheduledBs) = .ok icap)
    (h : d.rr.sweep (fun i => d.context.rrcWires i (wiring.rrcHandles i)) = .error fault) :
    d.cycle wiring = .error fault := by
  unfold cycle cycleIn simulationOrder
  simp only [List.foldlM_cons, stepComponent, hprc, foldlM_rrc]
  refine bind_eq_error.mpr (.inl (bind_eq_error.mpr (.inr ⟨_, rfl, ?_⟩)))
  refine bind_eq_error.mpr (.inr ⟨_, bind_eq_ok.mpr ⟨icap, hicap, rfl⟩, ?_⟩)
  exact bind_eq_error.mpr (.inl h)

namespace Underway

variable (under : d.Underway ids prr stalls k)

include under

variable (wiring) in
omit [GraphNode Node] in
/-- The ICAP stalls, passes its INIT state, or finds no request. -/
theorem icap_step (noTake : k ≤ stalls ∨ d.context.storedPrcIcapReq = false) :
    ∃ icap, d.icap.step (d.context.icapWires wiring.prcScheduledBs) = .ok icap ∧
      icap.stallCount = stalls - (k + 1) ∧
        icap.nextState = (if k + 1 ≤ stalls then .init else .idle) ∧
          icap.transferBs = none ∧ icap.prcAck = false ∧ icap.transferring = false ∧
            ∀ i, icap.prrCtrlReq i = false := by
  have state := under.icapState
  have stall := under.icapStall
  rcases Nat.lt_trichotomy k stalls with before | now | after
  · rw [if_pos (by omega)] at state
    refine ⟨_, Icap.step_of_moves (.stall (by omega)), ?_, ?_, under.noBitstream, under.icapAck,
      under.transferring, under.ctrlReq⟩
    · show d.icap.stallCount - 1 = _
      omega
    · rw [if_pos (by omega)]
      exact state
  · rw [if_pos (by omega)] at state
    refine ⟨_, Icap.step_of_moves (.init (by omega) state), ?_, ?_, under.noBitstream, ?_,
      under.transferring, under.ctrlReq⟩
    · show d.icap.stallCount = _
      omega
    · rw [if_neg (by omega)]
    · show (d.icap.latch _).prcAck = _
      rw [Icap.latch_prcAck, under.icapAck]
      rfl
  · rw [if_neg (by omega)] at state
    have noReq := noTake.resolve_left (by omega)
    refine ⟨_, Icap.step_of_moves (.rest (by omega) state noReq), ?_, ?_, under.noBitstream, ?_,
      under.transferring, under.ctrlReq⟩
    · show d.icap.stallCount = _
      omega
    · rw [if_neg (by omega)]
      exact state
    · rw [Icap.latch_prcAck, under.icapAck]
      rfl

/-- **A cycle in which the ICAP takes up no request** is a step of the PRC. -/
theorem cycle_of_prc (resident : ∀ i : Fin n, (prr.table i).join.isSome)
    (noTake : k ≤ stalls ∨ d.context.storedPrcIcapReq = false)
    (hprc : d.prc.step wiring.policies d.context.prcWires = .ok prc) :
    ∃ d', d.cycle wiring = .ok d' ∧ d'.Underway ids prr stalls (k + 1) ∧ d'.prc = prc ∧
      d'.context.storedPrcIcapReq = prc.icapReq := by
  obtain ⟨icap, hicap, stall, state, noBitstream, noAck, transferring, noReq⟩ :=
    under.icap_step wiring noTake
  have swept := RrSide.sweep_of_dormant (fun i => under.low i (wiring.rrcHandles i)) under.dormant
  rw [under.prr, if_pos resident] at swept
  obtain ⟨rr, hrr, dormant, same⟩ := swept
  have moves := Prc.moves_of_step hprc
  have buses := moves.buses
  refine ⟨_, cycle_eq_ok.mpr ⟨prc, icap, rr, hprc, hicap, hrr, rfl⟩, ?_, rfl, rfl⟩
  have enqueueLow : ∀ i, prc.prrEnqueue i = false := fun i => by
    rw [buses.1]
    exact under.prcEnqueue i
  have startLow : ∀ i, prc.prrStart i = false := fun i => by
    rw [buses.2]
    exact under.prcStart i
  exact
    { prcReady := moves.ready under.prcReady
      prcEnqueue := enqueueLow
      prcStart := startLow
      icapStall := stall
      icapState := state
      noBitstream := noBitstream
      icapAck := noAck
      transferring := transferring
      ctrlReq := noReq
      dormant := dormant
      prr := same
      low := fun i _ => ⟨startLow i, enqueueLow i, noReq i⟩
      idle := fun i => (dormant i).prrExecuting
      reported := fun _ i => (dormant i).bitstreamId
      noTransfer := transferring
      noAck := noAck }

/-- A request is taken up with the null handle. -/
theorem cycle_of_take (late : stalls < k) (req : d.context.storedPrcIcapReq = true)
    (hprc : d.prc.step wiring.policies d.context.prcWires = .ok prc) :
    d.cycle wiring = .error .nullDereference := by
  refine cycle_of_icap_error hprc ?_
  have state := under.icapState
  rw [if_neg (by omega)] at state
  have ready : d.icap.stallCount = 0 := by rw [under.icapStall]; omega
  have seen : (d.context.icapWires wiring.prcScheduledBs).prcReq = true := req
  rw [Icap.step_of_ready ready, state]
  show Icap.stepIdle _ _ = _
  unfold Icap.stepIdle
  rw [if_pos seen, Icap.latch_transferBs, under.noBitstream]
  rfl

end Underway

end Underway

/-! ## The first task -/

section FirstTask

variable {n : ℕ} {Node : Type} [GraphNode Node] {selector : LftFeSelector} {task : Node}
  {w : PrcWires n} {s : Prc n Node (FcfsScheduler Node)}

/-- While no region executes, a selector that answers has found a bitstream. -/
theorem found_of_idle {app : Application} {capabilities : TaskRrLookupMap}
    (derived : Application.getRrTaskCapabilites app.rrSpecMap = .ok capabilities)
    (made : LftFeSelector.new capabilities app.rrSpecMap = .ok selector)
    {targetBs : Bool × ModuleSpec Double}
    (answer : selector.getBitstreamForTask task (fun _ : Fin n => false) = .ok targetBs) :
    targetBs.1 = true := by
  obtain ⟨⟨found, r⟩, hfound, answer⟩ := bind_eq_ok.mp answer
  cases found with
  | true =>
      obtain ⟨_, -, answer⟩ := bind_eq_ok.mp answer
      obtain ⟨_, -, answer⟩ := bind_eq_ok.mp answer
      obtain ⟨_, -, answer⟩ := bind_eq_ok.mp answer
      obtain ⟨_, -, answer⟩ := bind_eq_ok.mp answer
      obtain ⟨_, -, answer⟩ := bind_eq_ok.mp answer
      obtain ⟨_, -, answer⟩ := bind_eq_ok.mp answer
      cases answer
      rfl
  | false =>
      -- every capable region would execute, and there is one
      obtain ⟨t, ht, -⟩ := bind_eq_ok.mp hfound
      obtain ⟨-, busy⟩ := LftFeSelector.busy_of_getRrForTask derived made ht hfound
      by_cases known : t ∈ capabilities.keys
      · obtain ⟨r, hcan⟩ := (RrSpecMap.mem_keys_capabilities derived).mp known
        obtain ⟨_, executes⟩ := Bus.read_eq_ok.mp (busy r hcan)
        cases executes
      · rw [LftFeSelector.getRrForTask_of_unknown derived made ht known] at hfound
        cases hfound

/-- There is no task in an empty queue. -/
theorem step_of_noTask (ready : s.stallCount = 0) (state : s.nextState = .taskSchedule)
    (queue : s.schedulingAlg.taskQueue = []) :
    s.step (lftFePolicies selector) w = .error .emptyContainer := by
  have noTask : s.schedulingAlg.getCurrentTask = .error .emptyContainer := by
    unfold FcfsScheduler.getCurrentTask FcfsScheduler.front
    rw [queue]
    rfl
  rw [Prc.step_of_ready ready, Prc.stepState_latch, state]
  refine bind_eq_error.mpr (.inl (bind_eq_error.mpr (.inl ?_)))
  exact noTask

variable (ready : s.stallCount = 0) (state : s.nextState = .rrSchedule)
  (scheduled : s.scheduledTask = some task) (idle : w.prrExecuting = fun _ => false)

include ready state scheduled idle

/-- A fault in the choice for the first task is one of the step. -/
theorem step_of_firstHit_error {fault : Fault}
    (h : firstHit selector task w.rrBitstreamId = .error fault) :
    s.step (lftFePolicies selector) w = .error fault := by
  rw [Prc.step_of_ready ready, Prc.stepState_latch, state]
  refine bind_eq_error.mpr (.inl ?_)
  show Prc.stepRrSchedule (lftFePolicies selector) w s.latch = _
  unfold Prc.stepRrSchedule
  rw [Prc.latch_scheduledTask, scheduled, deref_some, Machine.ok_bind, idle]
  rcases bind_eq_error.mp h with h | ⟨targetBs, answer, h⟩
  · exact bind_eq_error.mpr (.inl h)
  · refine bind_eq_error.mpr (.inr ⟨targetBs, answer, ?_⟩)
    rcases bind_eq_error.mp h with h | ⟨installed, read, h⟩
    · exact bind_eq_error.mpr (.inl h)
    · cases h

/-- Otherwise the bitstream is found to be installed, or it is requested. -/
theorem step_of_firstHit {hit : Bool} (noTransfer : w.icapTrans = false)
    (found : ∀ targetBs, selector.getBitstreamForTask task (fun _ : Fin n => false) =
      .ok targetBs → targetBs.1 = true)
    (h : firstHit selector task w.rrBitstreamId = .ok hit) :
    ∃ prc, s.step (lftFePolicies selector) w = .ok prc ∧
      prc.nextState = (if hit then .rrEnqueue else .reqIcap) ∧ (hit = false → prc.icapReq = true) ∧
        (hit = true → prc.icapReq = s.icapReq) := by
  obtain ⟨⟨found', bitstream⟩, answer, h⟩ := bind_eq_ok.mp h
  obtain ⟨installed, read, h⟩ := bind_eq_ok.mp h
  cases h
  obtain rfl : found' = true := found _ answer
  have chosen : Prc.Chooses (lftFePolicies selector) w s (true, bitstream) installed false := by
    refine ⟨⟨task, scheduled, ?_⟩, read, ?_⟩
    · rw [idle]
      exact answer
    · unfold Prc.icapTransferringToRr
      rw [noTransfer]
      rfl
  by_cases same : installed = bitstream.id
  · subst same
    refine ⟨_, Prc.step_of_moves (.hit ready state chosen), ?_, ?_, ?_⟩ <;> simp
  · refine ⟨_, Prc.step_of_moves (.request ready state chosen same), ?_, ?_, ?_⟩ <;> simp [same]

end FirstTask

/-! ## The end of a simulation -/

section End

variable {n : ℕ} {Node : Type} [GraphNode Node] {app : Application}
  {raw : Device n Node (FcfsScheduler Node)} {resources : PreparedResources}
  {graph : TaskGraph Node} {selector : LftFeSelector}
  {wiring : Wiring n Node (FcfsScheduler Node)} {d : Device n Node (FcfsScheduler Node)}

/-- A run ends as it is fated to: it does not fault before the cycle, and faults in it. -/
structure EndsAt (wiring : Wiring n Node (FcfsScheduler Node))
    (d : Device n Node (FcfsScheduler Node)) (f : Fate) : Prop where
  before : ∀ k ≤ f.cycle, ∃ s, d.run wiring k = .ok s
  after : ∀ k, f.cycle < k → d.run wiring k = .error f.fault

/-- One state decides it. -/
theorem EndsAt.of_cycle {f : Fate} {s : Device n Node (FcfsScheduler Node)}
    (reached : d.run wiring f.cycle = .ok s) (faults : s.cycle wiring = .error f.fault) :
    EndsAt wiring d f where
  before _ hk := Machine.run_ok_of_le hk reached
  after k hk := by
    refine Machine.run_error_of_le (j := f.cycle + 1) hk ?_
    exact (Machine.run_succ_of_ok reached).trans faults

/-- A device in cycle `k`, in which the PRC is in the given state and requests nothing, or
is waiting for the ICAP. -/
structure Reaches (raw : Device n Node (FcfsScheduler Node)) (resources : PreparedResources)
    (wiring : Wiring n Node (FcfsScheduler Node)) (d : Device n Node (FcfsScheduler Node))
    (k : ℕ) (state : PrcState) (req : Bool) (s : Device n Node (FcfsScheduler Node)) : Prop where
  run : d.run wiring k = .ok s
  under : s.Underway (fun i => (raw.rr.rrc i).bitstreamId) resources.memory.prr
    raw.icap.stallCount k
  prcState : s.prc.nextState = state
  icapReq : s.prc.icapReq = req
  stored : s.context.storedPrcIcapReq = req

/-- The state the loop starts from. -/
theorem reaches_start
    (made : LftFeSelector.new resources.bsCapabilites app.rrSpecMap = .ok selector)
    (built : simulateApplication raw app resources graph = .ok (wiring, d)) :
    wiring.policies = lftFePolicies selector ∧
      d.prc.schedulingAlg = .initializeQueue graph ∧
        Reaches raw resources wiring d 0 .init false d := by
  unfold simulateApplication at built
  rw [made] at built
  cases built
  refine ⟨rfl, rfl, rfl, ?_, rfl, rfl, rfl⟩
  exact
    { prcReady := rfl
      prcEnqueue := fun _ => rfl
      prcStart := fun _ => rfl
      icapStall := rfl
      icapState := by rw [if_pos (Nat.zero_le _)]; rfl
      noBitstream := rfl
      icapAck := rfl
      transferring := rfl
      ctrlReq := fun _ => rfl
      dormant := fun _ => ⟨⟨rfl, rfl, rfl, .inl rfl⟩, rfl, rfl⟩
      prr := rfl
      low := fun _ _ => ⟨rfl, rfl, rfl⟩
      idle := fun _ => rfl
      reported := fun h => absurd h (Nat.lt_irrefl 0)
      noTransfer := rfl
      noAck := rfl }

namespace Reaches

variable {k : ℕ} {state : PrcState} {s : Device n Node (FcfsScheduler Node)}

/-- A cycle that takes up no request reaches the next one. -/
theorem next {req : Bool} (reaches : Reaches raw resources wiring d k state req s)
    (resident : ∀ i : Fin n, (resources.memory.prr.table i).join.isSome)
    (noTake : k ≤ raw.icap.stallCount ∨ req = false)
    {prc : Prc n Node (FcfsScheduler Node)}
    (hprc : s.prc.step wiring.policies s.context.prcWires = .ok prc) :
    ∃ s', Reaches raw resources wiring d (k + 1) prc.nextState prc.icapReq s' ∧ s'.prc = prc := by
  obtain ⟨s', hcycle, under, hprc', stored⟩ :=
    reaches.under.cycle_of_prc resident (noTake.imp_right reaches.stored.trans) hprc
  refine ⟨s', ⟨?_, under, by rw [hprc'], by rw [hprc'], stored⟩, hprc'⟩
  exact (Machine.run_succ_of_ok reaches.run).trans hcycle

/-- A PRC that waits for the ICAP goes on waiting. -/
theorem prc_hold (reaches : Reaches raw resources wiring d k .reqIcap true s) :
    s.prc.step wiring.policies s.context.prcWires = .ok s.prc.latch.tick :=
  Prc.step_of_moves (.hold reaches.under.prcReady reaches.prcState reaches.under.noAck)

/-- It does so until the ICAP has stalled and passed its INIT state. -/
theorem wait (resident : ∀ i : Fin n, (resources.memory.prr.table i).join.isSome)
    (reaches : Reaches raw resources wiring d 3 .reqIcap true s) {j : ℕ} (after : 3 ≤ j)
    (before : j ≤ max 3 (raw.icap.stallCount + 1)) :
    ∃ s', Reaches raw resources wiring d j .reqIcap true s' := by
  induction j, after using Nat.le_induction with
  | base => exact ⟨s, reaches⟩
  | succ j after ih =>
      obtain ⟨t, waits⟩ := ih (by omega)
      obtain ⟨s', waits', -⟩ := waits.next resident (.inl (by omega)) waits.prc_hold
      have state : t.prc.latch.tick.nextState = .reqIcap := waits.prcState
      have req : t.prc.latch.tick.icapReq = true := waits.icapReq
      rw [state, req] at waits'
      exact ⟨s', waits'⟩

/-- What the PRC reads of the controllers is what the memory held. -/
theorem reported_eq {req : Bool} (reaches : Reaches raw resources wiring d k state req s)
    (positive : 0 < k) :
    (fun i => (raw.rr.rrc i).bitstreamId) = s.context.prcWires.rrBitstreamId :=
  funext fun i => (reaches.under.reported positive i).symm

end Reaches

section Built

variable {m : Memory}
  (made : LftFeSelector.new resources.bsCapabilites app.rrSpecMap = .ok selector)
  (built : simulateApplication raw app resources graph = .ok (wiring, d))

include made built

/-- With a module in every region, the PRC comes to schedule a task. -/
theorem exists_reaches_taskSchedule
    (resident : ∀ i : Fin n, (resources.memory.prr.table i).join.isSome) :
    ∃ s, Reaches raw resources wiring d 1 .taskSchedule false s ∧
      s.prc.schedulingAlg = .initializeQueue graph := by
  obtain ⟨-, alg, reaches⟩ := reaches_start made built
  obtain ⟨s, reaches', hprc⟩ := reaches.next resident (.inr rfl)
    (Prc.step_of_moves (.init reaches.under.prcReady reaches.prcState))
  refine ⟨s, ?_, by rw [hprc]; exact alg⟩
  have req : d.prc.icapReq = false := reaches.icapReq
  simp only [Prc.tick_nextState, Prc.tick_icapReq, Prc.latch_icapReq, req] at reaches'
  exact reaches'

/-- With a task in the graph, it comes to choose a bitstream. -/
theorem exists_reaches_rrSchedule
    (resident : ∀ i : Fin n, (resources.memory.prr.table i).join.isSome)
    {key : String} {task : Node} {rest : List (String × Node)}
    (nodes : graph.getStartNodeMap = (key, task) :: rest) :
    ∃ s, Reaches raw resources wiring d 2 .rrSchedule false s ∧
      s.prc.scheduledTask = some task := by
  obtain ⟨s, reaches, alg⟩ := exists_reaches_taskSchedule made built resident
  have queue : s.prc.schedulingAlg.taskQueue = (key, task) :: rest := by rw [alg]; exact nodes
  have policies := (reaches_start made built).1
  have current : wiring.policies.getCurrentTask s.prc.schedulingAlg = .ok task := by
    rw [policies]
    exact FcfsScheduler.getCurrentTask_eq_ok.mpr ⟨key, rest, queue⟩
  obtain ⟨_, prepares⟩ :
      ∃ next, wiring.policies.prepareNextTask s.prc.schedulingAlg = .ok next := by
    rw [policies]
    exact ⟨_, FcfsScheduler.prepareNextTask_eq_ok.mpr ⟨key, task, rest, queue, rfl⟩⟩
  obtain ⟨s', reaches', hprc⟩ := reaches.next resident (.inr rfl)
    (Prc.step_of_moves (.schedule reaches.under.prcReady reaches.prcState current prepares))
  refine ⟨s', ?_, by rw [hprc]; rfl⟩
  have req : s.prc.icapReq = false := reaches.icapReq
  simp only [Prc.tick_nextState, Prc.tick_icapReq, Prc.latch_icapReq, req] at reaches'
  exact reaches'

/-- Without a task in the graph, the scheduler has none to return. -/
theorem endsAt_of_noTask (resident : ∀ i : Fin n, (resources.memory.prr.table i).join.isSome)
    (nodes : graph.getStartNodeMap = []) : EndsAt wiring d ⟨1, .emptyContainer⟩ := by
  obtain ⟨s, reaches, alg⟩ := exists_reaches_taskSchedule made built resident
  refine .of_cycle reaches.run (cycle_of_prc_error ?_)
  have queue : s.prc.schedulingAlg.taskQueue = [] := by rw [alg]; exact nodes
  rw [(reaches_start made built).1]
  exact step_of_noTask reaches.under.prcReady reaches.prcState queue

/-- Where a region has no module, its controller misses it in the first cycle. -/
theorem endsAt_of_missing
    (missing : ¬ ∀ i : Fin n, (resources.memory.prr.table i).join.isSome) :
    EndsAt wiring d ⟨0, .nullDereference⟩ := by
  obtain ⟨-, -, start⟩ := reaches_start made built
  refine .of_cycle start.run ?_
  obtain ⟨icap, hicap, -⟩ := start.under.icap_step wiring (.inr start.stored)
  have swept := RrSide.sweep_of_dormant
    (fun i => start.under.low i (wiring.rrcHandles i)) start.under.dormant
  rw [start.under.prr, if_neg missing] at swept
  exact cycle_of_rr_error
    (Prc.step_of_moves (.init start.under.prcReady start.prcState)) hicap swept

section Choice

variable (prepared : prepareAppResources m app = .ok resources)
  (resident : ∀ i : Fin n, (resources.memory.prr.table i).join.isSome)
  {key : String} {task : Node} {rest : List (String × Node)}
  (nodes : graph.getStartNodeMap = (key, task) :: rest)

include resident nodes

/-- The choice of the first bitstream fails. -/
theorem endsAt_of_choice_error {fault : Fault}
    (choice : (firstHit selector task fun i => (raw.rr.rrc i).bitstreamId) = .error fault) :
    EndsAt wiring d ⟨2, fault⟩ := by
  obtain ⟨s, reaches, scheduled⟩ := exists_reaches_rrSchedule made built resident nodes
  rw [reaches.reported_eq (by omega)] at choice
  refine .of_cycle reaches.run (cycle_of_prc_error ?_)
  rw [(reaches_start made built).1]
  exact step_of_firstHit_error reaches.under.prcReady reaches.prcState scheduled
    (funext reaches.under.idle) choice

include prepared

/-- A first bitstream is chosen. -/
theorem exists_reaches_of_choice {hit : Bool}
    (choice : (firstHit selector task fun i => (raw.rr.rrc i).bitstreamId) = .ok hit) :
    ∃ s, Reaches raw resources wiring d 3 (if hit then .rrEnqueue else .reqIcap) (!hit) s := by
  obtain ⟨s, reaches, scheduled⟩ := exists_reaches_rrSchedule made built resident nodes
  rw [reaches.reported_eq (by omega)] at choice
  obtain ⟨prc, hprc, state, req, noReq⟩ := step_of_firstHit reaches.under.prcReady
    reaches.prcState scheduled (funext reaches.under.idle) reaches.under.noTransfer
    (fun _ => found_of_idle (tables_of_prepareAppResources prepared).2.2 made) choice
  rw [← (reaches_start made built).1] at hprc
  obtain ⟨s', reaches', -⟩ := reaches.next resident (.inr rfl) hprc
  have req' : prc.icapReq = !hit := by
    cases hit with
    | true => rw [noReq rfl, reaches.icapReq]; rfl
    | false => exact req rfl
  rw [state, req'] at reaches'
  exact ⟨s', reaches'⟩

/-- The first bitstream is reported as installed, and the PRC comes to deliver the task. -/
theorem endsAt_of_hit
    (choice : (firstHit selector task fun i => (raw.rr.rrc i).bitstreamId) = .ok true) :
    EndsAt wiring d ⟨3, .runtimeError "PRC has reached an unknown state."⟩ := by
  obtain ⟨s, reaches⟩ := exists_reaches_of_choice made built prepared resident nodes choice
  refine .of_cycle reaches.run (cycle_of_prc_error ?_)
  rw [Prc.step_of_ready reaches.under.prcReady, Prc.stepState_latch, reaches.prcState]
  rfl

/-- The first bitstream is requested, until the ICAP takes the request up. -/
theorem endsAt_of_miss
    (choice : (firstHit selector task fun i => (raw.rr.rrc i).bitstreamId) = .ok false) :
    EndsAt wiring d ⟨max 3 (raw.icap.stallCount + 1), .nullDereference⟩ := by
  obtain ⟨s, reaches⟩ := exists_reaches_of_choice made built prepared resident nodes choice
  obtain ⟨u, waits⟩ := reaches.wait resident (Nat.le_max_left _ _) (Nat.le_refl _)
  exact .of_cycle waits.run
    (waits.under.cycle_of_take (by omega) waits.stored waits.prc_hold)

end Choice

/-- **The end of a run** is read off what the simulation is given. -/
theorem run_fate (prepared : prepareAppResources m app = .ok resources) :
    EndsAt wiring d (fate raw resources selector graph) := by
  unfold fate
  by_cases resident : ∀ i : Fin n, (resources.memory.prr.table i).join.isSome
  · rw [if_pos resident]
    cases nodes : graph.getStartNodeMap with
    | nil => exact endsAt_of_noTask made built resident nodes
    | cons entry rest =>
        dsimp only
        cases choice : firstHit selector entry.2 fun i => (raw.rr.rrc i).bitstreamId with
        | error fault => exact endsAt_of_choice_error made built resident nodes choice
        | ok hit =>
            cases hit with
            | true => exact endsAt_of_hit made built prepared resident nodes choice
            | false => exact endsAt_of_miss made built prepared resident nodes choice
  · rw [if_neg resident]
    exact endsAt_of_missing made built resident

/-- With cycles left when it is fated to end, a simulation ends with the fault. -/
theorem simulationLoop_eq_error (prepared : prepareAppResources m app = .ok resources)
    {stopCcc : ℕ} (long : (fate raw resources selector graph).cycle < min stopCcc 1000) :
    simulationLoop wiring stopCcc 0 d = .error (fate raw resources selector graph).fault := by
  rw [simulationLoop_eq stopCcc (by omega), Nat.sub_zero]
  exact (run_fate made built prepared).after _ long

/-- **How a simulation ends**: it does its `min stop_ccc 1000` cycles if it is not fated to end
before, and otherwise ends with the fault. -/
theorem simulation_fate (prepared : prepareAppResources m app = .ok resources) (stopCcc : ℕ) :
    (min stopCcc 1000 ≤ (fate raw resources selector graph).cycle →
        ∃ s, simulationLoop wiring stopCcc 0 d = .ok s) ∧
      ((fate raw resources selector graph).cycle < min stopCcc 1000 →
        simulationLoop wiring stopCcc 0 d = .error (fate raw resources selector graph).fault) := by
  refine ⟨fun short => ?_, simulationLoop_eq_error made built prepared⟩
  rw [simulationLoop_eq stopCcc (by omega), Nat.sub_zero]
  exact (run_fate made built prepared).before _ short

end Built

/-- The smallest application, with no limit on the cycles: it ends in the fourth. -/
theorem simulation_fate_oneRegion :
    ∃ resources selector, ∃ (wiring : Wiring 1 LoneTask (FcfsScheduler LoneTask)), ∃ d,
      prepareAppResources oneLevelMemory .oneRegion = .ok resources ∧
        LftFeSelector.new resources.bsCapabilites Application.oneRegion.rrSpecMap = .ok selector ∧
          simulateApplication rawDevice .oneRegion resources oneTask = .ok (wiring, d) ∧
            simulationLoop wiring (2 ^ 64 - 1) 0 d = .error .nullDereference := by
  obtain ⟨resources, prepared⟩ :
      ∃ resources, prepareAppResources oneLevelMemory .oneRegion = .ok resources := ⟨_, rfl⟩
  have derived := (tables_of_prepareAppResources prepared).2.2
  obtain ⟨selector, made⟩ := LftFeSelector.exists_new derived
  obtain ⟨⟨wiring, d⟩, built⟩ : ∃ wd : Wiring 1 LoneTask (FcfsScheduler LoneTask) × _,
      simulateApplication rawDevice .oneRegion resources oneTask = .ok wd := by
    unfold simulateApplication
    rw [made]
    exact ⟨_, rfl⟩
  have comesTo : fate (rawDevice : Device 1 LoneTask _) resources selector oneTask =
      ⟨3, .nullDereference⟩ := by
    cases prepared
    cases made
    rfl
  refine ⟨resources, selector, wiring, d, prepared, made, built, ?_⟩
  have ends := (simulation_fate made built prepared (2 ^ 64 - 1)).2
  rw [comesTo] at ends
  exact ends (by decide)

end End

end Device

end Drachma
