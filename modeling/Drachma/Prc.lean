import Drachma.Selector
import Drachma.Signals

/-!
# The partial reconfiguration controller

The PRC takes tasks off the task scheduler, has the selector choose a bitstream
for each, and then either requests a transfer of the ICAP or, when the bitstream
is installed already, is to enqueue the task at its RR controller.

`Prc.step` is one call of `prc::step`, given what the PRC's pointers point at
(`PrcWires`) and the task scheduler and RR selection policy it was connected to
(`SchedulingPolicies`; both are abstract classes in the program, and
`lftFePolicies` is the one pair of subclasses it has).

## Main results

* `Prc.Moves` — what a step can do, case by case; `Prc.step_eq_ok` proves it
  exact.
-/

namespace Drachma

/-- The states of the PRC. -/
inductive PrcState
  | init
  | taskSchedule
  | rrSchedule
  | reqIcap
  | rrEnqueue
deriving DecidableEq, Repr

/-- `prcStateStalls`, indexed by the values of the states. -/
def prcStateStalls : PrcState → ℕ
  | .init => 0
  | .taskSchedule => 0
  | .rrSchedule => 0
  | .reqIcap => 0
  | .rrEnqueue => 0

@[simp] theorem prcStateStalls_eq_zero (state : PrcState) : prcStateStalls state = 0 := by
  cases state <;> rfl

/-- The virtual functions of `taskScheduler` and `bitstreamSelector` the PRC
calls; `σ` is the state of the task scheduler. -/
structure SchedulingPolicies (n : ℕ) (Node σ : Type) where
  getCurrentTask : σ → Exec Node
  prepareNextTask : σ → Exec σ
  getBitstreamForTask : Node → Bus n Bool → Exec (Bool × ModuleSpec Double)

/-- `fcfsScheduler` and `lftFeSelector`. -/
def lftFePolicies {n : ℕ} {Node : Type} [GraphNode Node] (selector : LftFeSelector) :
    SchedulingPolicies n Node (FcfsScheduler Node) :=
  { getCurrentTask := FcfsScheduler.getCurrentTask
    prepareNextTask := FcfsScheduler.prepareNextTask
    getBitstreamForTask := selector.getBitstreamForTask }

/-- `prc`. -/
structure Prc (n : ℕ) (Node σ : Type) where
  prcCounter : ℕ
  memoryCounter : ℕ
  currentState : PrcState
  nextState : PrcState
  stallCount : ℕ
  scheduledTaskValid : Bool
  icapReq : Bool
  prrEnqueue : Bus n Bool
  prrStart : Bus n Bool
  scheduledTask : Option Node
  scheduledBs : Option (ModuleSpec Double)
  schedulingAlg : σ

/-- What the PRC reads through its pointers.  `icapTargetRr` is `none` where that
pointer is null.  No state of the PRC reads `prrAck`. -/
structure PrcWires (n : ℕ) where
  prrExecuting : Bus n Bool
  rrBitstreamId : Bus n ℕ
  prrAck : Bool
  icapAck : Bool
  icapTargetRr : Option Bool
  icapTrans : Bool

/-- What `connect` makes the PRC read of the signal context.  The target of the
ICAP is asked for as a `bool`, which the context does not have. -/
def SignalContext.prcWires {n : ℕ} {Node : Type} (ctx : SignalContext n Node) : PrcWires n :=
  { prrExecuting := ctx.storedPrrExecuting
    rrBitstreamId := ctx.storedRrcBitstream
    prrAck := ctx.storedPrrPrcAck
    icapAck := ctx.storedIcapPrcAck
    icapTargetRr := ctx.accessContextSignal .targetRr
    icapTrans := ctx.storedIcapTransfer }

namespace Prc

variable {n : ℕ} {Node σ : Type}

/-- The constructor followed by `connect`, with the initial state of the task
scheduler `connect` makes; `raw` is what the memory held. -/
def new (raw : Prc n Node σ) (schedulingAlg : σ) : Prc n Node σ :=
  { raw with
    nextState := .init
    prcCounter := 0
    memoryCounter := 0
    stallCount := 0
    icapReq := false
    scheduledTaskValid := false
    prrEnqueue := fun _ => false
    prrStart := fun _ => false
    scheduledTask := none
    scheduledBs := none
    schedulingAlg := schedulingAlg }

/-- The signals the context copies. -/
def outputs (s : Prc n Node σ) : PrcOutputs n :=
  { memoryCounter := s.memoryCounter
    icapReq := s.icapReq
    prrStart := s.prrStart
    prrEnqueue := s.prrEnqueue }

/-- `*icap_trans_ && *icap_target_rr_ == rr_id`.  The target is read only while
the ICAP is transferring, and it is read as a `bool`. -/
def icapTransferringToRr (w : PrcWires n) (rrId : ℕ) : Exec Bool :=
  if w.icapTrans then do
    let target ← deref w.icapTargetRr
    return decide (target.toNat = rrId)
  else
    return false

variable (policies : SchedulingPolicies n Node σ)

/-- `PRC_TASK_SCHEDULE`. -/
def stepTaskSchedule (s : Prc n Node σ) : Exec (Prc n Node σ) := do
  let task ← policies.getCurrentTask s.schedulingAlg
  let schedulingAlg ← policies.prepareNextTask s.schedulingAlg
  return { s with
    scheduledTask := some task
    scheduledTaskValid := true
    schedulingAlg := schedulingAlg
    nextState := .rrSchedule }

/-- The outcome of `PRC_RR_SCHEDULE`, from the bitstream the selector returned,
the id of the bitstream in its region, and whether the ICAP is transferring to
that region. -/
def decideRr (s : Prc n Node σ) (targetBs : Bool × ModuleSpec Double) (installed : ℕ)
    (transferringToRr : Bool) : Prc n Node σ :=
  let s := { s with scheduledBs := some targetBs.2 }
  let bsNotFound := !targetBs.1
  -- compared even where the selector has found nothing, with id 0 of region 0 then
  let targetBsAvailable := decide (installed = targetBs.2.id)
  let bsNotImmediatelyAvailable := transferringToRr && !targetBsAvailable
  if bsNotFound || bsNotImmediatelyAvailable then
    -- the task is not given back to the scheduler
    { s with nextState := .taskSchedule }
  else if targetBsAvailable then
    { s with nextState := .rrEnqueue }
  else
    { s with nextState := .reqIcap, icapReq := true }

/-- `PRC_RR_SCHEDULE`. -/
def stepRrSchedule (w : PrcWires n) (s : Prc n Node σ) : Exec (Prc n Node σ) := do
  let task ← deref s.scheduledTask
  let targetBs ← policies.getBitstreamForTask task w.prrExecuting
  let installed ← w.rrBitstreamId.read targetBs.2.regionId
  let transferringToRr ← icapTransferringToRr w targetBs.2.regionId
  return decideRr s targetBs installed transferringToRr

/-- `PRC_REQ_ICAP`. -/
def stepReqIcap (w : PrcWires n) (s : Prc n Node σ) : Prc n Node σ :=
  if w.icapAck then { s with icapReq := false, nextState := .taskSchedule } else s

/-- The `switch` of `prc::step`.  There is no case for `PRC_RR_ENQUEUE`. -/
def stepState (w : PrcWires n) (s : Prc n Node σ) : Exec (Prc n Node σ) :=
  match s.currentState with
  | .init => .ok { s with nextState := .taskSchedule }
  | .taskSchedule => stepTaskSchedule policies s
  | .rrSchedule => stepRrSchedule policies w s
  | .reqIcap => .ok (stepReqIcap w s)
  | .rrEnqueue => .error (.runtimeError "PRC has reached an unknown state.")

/-- `prc_counter_++`. -/
@[simps]
def tick (s : Prc n Node σ) : Prc n Node σ :=
  { s with prcCounter := (s.prcCounter + 1) % 2 ^ 32 }

/-- Latch the current state and its stall count. -/
@[simps]
def latch (s : Prc n Node σ) : Prc n Node σ :=
  { s with currentState := s.nextState, stallCount := prcStateStalls s.nextState }

/-- `prc::step`. -/
def step (w : PrcWires n) (s : Prc n Node σ) : Exec (Prc n Node σ) := do
  let s ←
    if s.stallCount ≠ 0 then
      .ok { s with stallCount := s.stallCount - 1 }
    else
      stepState policies w s.latch
  return s.tick

/-- The run of a PRC on a stream of inputs. -/
abbrev run (inputs : ℕ → PrcWires n) (s₀ : Prc n Node σ) : ℕ → Exec (Prc n Node σ) :=
  Machine.run (step policies) inputs s₀

/-! ## What a step can do -/

/-- The selector's answer to `PRC_RR_SCHEDULE`, together with the two readings
the decision is made on: the id `installed` in the chosen region, and whether
the ICAP is `transferring` to it. -/
structure Chooses (w : PrcWires n) (s : Prc n Node σ) (targetBs : Bool × ModuleSpec Double)
    (installed : ℕ) (transferring : Bool) : Prop where
  bitstream : ∃ task, s.scheduledTask = some task ∧
    policies.getBitstreamForTask task w.prrExecuting = .ok targetBs
  installed : w.rrBitstreamId.read targetBs.2.regionId = .ok installed
  transferring : icapTransferringToRr w targetBs.2.regionId = .ok transferring

/-- The choice is rejected: there is no bitstream, or the ICAP is busy with the
chosen region and the bitstream is not the one installed there. -/
def Rejects (targetBs : Bool × ModuleSpec Double) (installed : ℕ) (transferring : Bool) :
    Prop :=
  targetBs.1 = false ∨ (transferring = true ∧ installed ≠ targetBs.2.id)

/-- The transitions of the PRC, the clock tick included. -/
inductive Moves (w : PrcWires n) (s : Prc n Node σ) : Prc n Node σ → Prop
  | stall (stalled : s.stallCount ≠ 0) :
      Moves w s (tick { s with stallCount := s.stallCount - 1 })
  | init (ready : s.stallCount = 0) (state : s.nextState = .init) :
      Moves w s (tick { s.latch with nextState := .taskSchedule })
  | schedule {task : Node} {schedulingAlg : σ} (ready : s.stallCount = 0)
      (state : s.nextState = .taskSchedule)
      (current : policies.getCurrentTask s.schedulingAlg = .ok task)
      (prepared : policies.prepareNextTask s.schedulingAlg = .ok schedulingAlg) :
      Moves w s (tick { s.latch with
        scheduledTask := some task
        scheduledTaskValid := true
        schedulingAlg := schedulingAlg
        nextState := .rrSchedule })
  | reject {targetBs : Bool × ModuleSpec Double} {installed : ℕ} {transferring : Bool}
      (ready : s.stallCount = 0) (state : s.nextState = .rrSchedule)
      (chosen : Chooses policies w s targetBs installed transferring)
      (rejected : Rejects targetBs installed transferring) :
      Moves w s (tick { s.latch with
        scheduledBs := some targetBs.2
        nextState := .taskSchedule })
  | hit {bitstream : ModuleSpec Double} {transferring : Bool}
      (ready : s.stallCount = 0) (state : s.nextState = .rrSchedule)
      (chosen : Chooses policies w s (true, bitstream) bitstream.id transferring) :
      Moves w s (tick { s.latch with
        scheduledBs := some bitstream
        nextState := .rrEnqueue })
  | request {bitstream : ModuleSpec Double} {installed : ℕ}
      (ready : s.stallCount = 0) (state : s.nextState = .rrSchedule)
      (chosen : Chooses policies w s (true, bitstream) installed false)
      (missing : installed ≠ bitstream.id) :
      Moves w s (tick { s.latch with
        scheduledBs := some bitstream
        nextState := .reqIcap
        icapReq := true })
  | hold (ready : s.stallCount = 0) (state : s.nextState = .reqIcap)
      (noAck : w.icapAck = false) :
      Moves w s s.latch.tick
  | acknowledged (ready : s.stallCount = 0) (state : s.nextState = .reqIcap)
      (ack : w.icapAck = true) :
      Moves w s (tick { s.latch with icapReq := false, nextState := .taskSchedule })

variable {policies} {w : PrcWires n} {s s' : Prc n Node σ}

/-- A `PRC_RR_SCHEDULE` step is a choice followed by the decision on it. -/
theorem stepRrSchedule_eq_ok :
    stepRrSchedule policies w s = .ok s' ↔
      ∃ targetBs installed transferring,
        Chooses policies w s targetBs installed transferring ∧
          s' = decideRr s targetBs installed transferring := by
  unfold stepRrSchedule
  simp only [Machine.bind_eq_ok, deref_eq_ok]
  constructor
  · rintro ⟨task, htask, targetBs, hbs, installed, hin, transferring, htr, h⟩
    exact ⟨targetBs, installed, transferring, ⟨⟨task, htask, hbs⟩, hin, htr⟩,
      (Except.ok.inj h).symm⟩
  · rintro ⟨targetBs, installed, transferring, ⟨⟨task, htask, hbs⟩, hin, htr⟩, rfl⟩
    exact ⟨task, htask, targetBs, hbs, installed, hin, transferring, htr, rfl⟩

/-- A choice determines the step. -/
theorem stepRrSchedule_of_chooses {targetBs : Bool × ModuleSpec Double} {installed : ℕ}
    {transferring : Bool} (chosen : Chooses policies w s targetBs installed transferring) :
    stepRrSchedule policies w s = .ok (decideRr s targetBs installed transferring) :=
  stepRrSchedule_eq_ok.mpr ⟨_, _, _, chosen, rfl⟩

/-- Latching the state does not change the choice. -/
theorem chooses_latch {targetBs : Bool × ModuleSpec Double} {installed : ℕ}
    {transferring : Bool} :
    Chooses policies w s.latch targetBs installed transferring ↔
      Chooses policies w s targetBs installed transferring :=
  ⟨fun h => ⟨h.bitstream, h.installed, h.transferring⟩,
    fun h => ⟨h.bitstream, h.installed, h.transferring⟩⟩

/-- The three outcomes of the decision. -/
theorem decideRr_eq_of_rejects {targetBs : Bool × ModuleSpec Double} {installed : ℕ}
    {transferring : Bool} (rejected : Rejects targetBs installed transferring) :
    decideRr s targetBs installed transferring =
      { s with scheduledBs := some targetBs.2, nextState := .taskSchedule } := by
  unfold decideRr
  rcases rejected with notFound | ⟨busy, missing⟩
  · simp [notFound]
  · simp [busy, missing]

theorem decideRr_hit {bitstream : ModuleSpec Double} {transferring : Bool} :
    decideRr s (true, bitstream) bitstream.id transferring =
      { s with scheduledBs := some bitstream, nextState := .rrEnqueue } := by
  simp [decideRr]

theorem decideRr_request {bitstream : ModuleSpec Double} {installed : ℕ}
    (missing : installed ≠ bitstream.id) :
    decideRr s (true, bitstream) installed false =
      { s with scheduledBs := some bitstream, nextState := .reqIcap, icapReq := true } := by
  simp [decideRr, missing]

/-- A choice is rejected, hits, or leads to a request. -/
theorem choice_cases (targetBs : Bool × ModuleSpec Double) (installed : ℕ)
    (transferring : Bool) :
    Rejects targetBs installed transferring ∨
      (targetBs.1 = true ∧ installed = targetBs.2.id) ∨
        (targetBs.1 = true ∧ installed ≠ targetBs.2.id ∧ transferring = false) := by
  unfold Rejects
  cases targetBs.1 <;> cases transferring <;> by_cases h : installed = targetBs.2.id <;>
    simp [h]

/-- A ready PRC latches its state and performs it. -/
theorem step_of_ready (ready : s.stallCount = 0) :
    step policies w s =
      (stepState policies w s.latch >>= fun t => .ok t.tick) := by
  simp only [step, ready, ne_eq, not_true_eq_false, if_false]
  rfl

/-- The state performed is the one that was next. -/
theorem stepState_latch :
    stepState policies w s.latch =
      match s.nextState with
      | .init => .ok { s.latch with nextState := .taskSchedule }
      | .taskSchedule => stepTaskSchedule policies s.latch
      | .rrSchedule => stepRrSchedule policies w s.latch
      | .reqIcap => .ok (stepReqIcap w s.latch)
      | .rrEnqueue => .error (.runtimeError "PRC has reached an unknown state.") := rfl

/-- A step that does not fault is a transition. -/
theorem moves_of_step (h : step policies w s = .ok s') : Moves policies w s s' := by
  by_cases ready : s.stallCount = 0
  swap
  · simp only [step, ready, ne_eq, not_false_eq_true, if_true] at h
    cases h
    exact .stall ready
  rw [step_of_ready ready, Machine.bind_eq_ok] at h
  obtain ⟨t, ht, h⟩ := h
  cases h
  rw [stepState_latch] at ht
  cases state : s.nextState with
  | init =>
      simp only [state] at ht
      cases ht
      exact .init ready state
  | taskSchedule =>
      simp only [state, stepTaskSchedule, Machine.bind_eq_ok] at ht
      obtain ⟨task, current, alg, prepared, ht⟩ := ht
      cases ht
      exact .schedule ready state current prepared
  | rrSchedule =>
      simp only [state, stepRrSchedule_eq_ok] at ht
      obtain ⟨⟨found, bitstream⟩, installed, transferring, chosen, rfl⟩ := ht
      rcases choice_cases (found, bitstream) installed transferring with
        rejected | ⟨hfound, hin⟩ | ⟨hfound, missing, hidle⟩
      · rw [decideRr_eq_of_rejects rejected]
        exact .reject ready state (chooses_latch.mp chosen) rejected
      · dsimp only at hfound hin
        subst hfound hin
        rw [decideRr_hit]
        exact .hit ready state (chooses_latch.mp chosen)
      · dsimp only at hfound
        subst hfound hidle
        rw [decideRr_request missing]
        exact .request ready state (chooses_latch.mp chosen) missing
  | reqIcap =>
      simp only [state, stepReqIcap] at ht
      cases ack : w.icapAck with
      | false =>
          simp only [ack, Bool.false_eq_true, if_false] at ht
          cases ht
          exact .hold ready state ack
      | true =>
          simp only [ack, if_true] at ht
          cases ht
          exact .acknowledged ready state ack
  | rrEnqueue =>
      simp only [state] at ht
      cases ht

/-- A transition can be taken. -/
theorem step_of_moves (h : Moves policies w s s') : step policies w s = .ok s' := by
  cases h with
  | stall stalled => simp only [step, stalled, ne_eq, not_false_eq_true, if_true]; rfl
  | init ready state =>
      simp only [step_of_ready ready, stepState_latch, state]
      rfl
  | schedule ready state current prepared =>
      simp only [step_of_ready ready, stepState_latch, state,
        stepTaskSchedule, latch_schedulingAlg, current, prepared]
      rfl
  | reject ready state chosen rejected =>
      simp only [step_of_ready ready, stepState_latch, state,
        stepRrSchedule_of_chooses (chooses_latch.mpr chosen),
        decideRr_eq_of_rejects rejected]
      rfl
  | hit ready state chosen =>
      simp only [step_of_ready ready, stepState_latch, state,
        stepRrSchedule_of_chooses (chooses_latch.mpr chosen), decideRr_hit]
      rfl
  | request ready state chosen missing =>
      simp only [step_of_ready ready, stepState_latch, state,
        stepRrSchedule_of_chooses (chooses_latch.mpr chosen), decideRr_request missing]
      rfl
  | hold ready state noAck =>
      simp only [step_of_ready ready, stepState_latch, state, stepReqIcap,
        noAck]
      rfl
  | acknowledged ready state ack =>
      simp only [step_of_ready ready, stepState_latch, state, stepReqIcap,
        ack]
      rfl

/-- **The transitions are exactly the steps that do not fault.** -/
theorem step_eq_ok : step policies w s = .ok s' ↔ Moves policies w s s' :=
  ⟨moves_of_step, step_of_moves⟩

section States

variable (moves : Moves policies w s s') (ready : s.stallCount = 0)

include moves ready

/-- Out of `PRC_TASK_SCHEDULE`, the scheduler's current task is taken. -/
theorem Moves.of_taskSchedule (state : s.nextState = .taskSchedule) :
    ∃ task schedulingAlg, policies.getCurrentTask s.schedulingAlg = .ok task ∧
      policies.prepareNextTask s.schedulingAlg = .ok schedulingAlg ∧
        s' = tick { s.latch with
          scheduledTask := some task
          scheduledTaskValid := true
          schedulingAlg := schedulingAlg
          nextState := .rrSchedule } := by
  cases moves with
  | stall stalled => exact absurd ready stalled
  | schedule _ _ current prepared => exact ⟨_, _, current, prepared, rfl⟩
  | _ => simp_all

/-- Out of `PRC_RR_SCHEDULE`, a choice is rejected, hits, or is requested. -/
theorem Moves.of_rrSchedule (state : s.nextState = .rrSchedule) :
    (∃ targetBs installed transferring, Chooses policies w s targetBs installed transferring ∧
      Rejects targetBs installed transferring ∧
        s' = tick { s.latch with scheduledBs := some targetBs.2, nextState := .taskSchedule }) ∨
    (∃ bitstream transferring,
      Chooses policies w s (true, bitstream) bitstream.id transferring ∧
        s' = tick { s.latch with scheduledBs := some bitstream, nextState := .rrEnqueue }) ∨
    (∃ bitstream installed, Chooses policies w s (true, bitstream) installed false ∧
      installed ≠ bitstream.id ∧
        s' = tick { s.latch with
          scheduledBs := some bitstream
          nextState := .reqIcap
          icapReq := true }) := by
  cases moves with
  | stall stalled => exact absurd ready stalled
  | reject _ _ chosen rejected => exact .inl ⟨_, _, _, chosen, rejected, rfl⟩
  | hit _ _ chosen => exact .inr (.inl ⟨_, _, chosen, rfl⟩)
  | request _ _ chosen missing => exact .inr (.inr ⟨_, _, chosen, missing, rfl⟩)
  | _ => simp_all

/-- Out of `PRC_REQ_ICAP`, the request goes on or is acknowledged. -/
theorem Moves.of_reqIcap (state : s.nextState = .reqIcap) :
    w.icapAck = false ∧ s' = s.latch.tick ∨
      w.icapAck = true ∧
        s' = tick { s.latch with icapReq := false, nextState := .taskSchedule } := by
  cases moves with
  | stall stalled => exact absurd ready stalled
  | hold _ _ noAck => exact .inl ⟨noAck, rfl⟩
  | acknowledged _ _ ack => exact .inr ⟨ack, rfl⟩
  | _ => simp_all

/-- There is no way out of `PRC_RR_ENQUEUE`. -/
theorem Moves.state_ne_rrEnqueue : s.nextState ≠ .rrEnqueue := by
  intro state
  cases moves with
  | stall stalled => exact absurd ready stalled
  | _ => simp_all

end States

section Run

variable {inputs : ℕ → PrcWires n} {s₀ : Prc n Node σ} {k : ℕ}

/-- Consecutive states of a run are related by a transition. -/
theorem moves_of_run (h : run policies inputs s₀ k = .ok s)
    (h' : run policies inputs s₀ (k + 1) = .ok s') : Moves policies (inputs k) s s' :=
  moves_of_step ((Machine.run_succ_of_ok h).symm.trans h')

/-- A transition continues a run. -/
theorem run_of_moves (h : run policies inputs s₀ k = .ok s)
    (move : Moves policies (inputs k) s s') : run policies inputs s₀ (k + 1) = .ok s' :=
  (Machine.run_succ_of_ok h).trans (step_of_moves move)

/-- A run is in one state at a time. -/
theorem run_inj (h : run policies inputs s₀ k = .ok s)
    (h' : run policies inputs s₀ k = .ok s') : s = s' :=
  Except.ok.inj (h.symm.trans h')

end Run

/-- No state of the PRC takes more than a cycle. -/
theorem Moves.ready (h : Moves policies w s s') (ready : s.stallCount = 0) :
    s'.stallCount = 0 := by
  cases h with
  | stall stalled => exact absurd ready stalled
  | _ => simp

/-- No state of the PRC writes a bit of a bus. -/
theorem Moves.buses (h : Moves policies w s s') :
    s'.prrEnqueue = s.prrEnqueue ∧ s'.prrStart = s.prrStart := by
  cases h with
  | _ => exact ⟨rfl, rfl⟩

/-- A PRC never stalls. -/
theorem ready_of_run {inputs : ℕ → PrcWires n} {raw : Prc n Node σ} {schedulingAlg : σ} :
    ∀ k s, run policies inputs (new raw schedulingAlg) k = .ok s → s.stallCount = 0 :=
  Machine.run_invariant rfl fun _ _ _ _ ready hstep => (moves_of_step hstep).ready ready

/-- A PRC before it is constructed. -/
def rawPrc {n : ℕ} : Prc n LoneTask (FcfsScheduler LoneTask) :=
  { prcCounter := 0
    memoryCounter := 0
    currentState := .init
    nextState := .init
    stallCount := 0
    scheduledTaskValid := false
    icapReq := false
    prrEnqueue := fun _ => false
    prrStart := fun _ => false
    scheduledTask := none
    scheduledBs := none
    schedulingAlg := .initializeQueue ⟨[]⟩ }

end Prc

end Drachma
