import Drachma.Signals

/-!
# The ICAP

The internal configuration access port takes one transfer request of the PRC at
a time, asks the RR controller of the bitstream's region for permission, and
then holds its transfer signal for as long as the bitstream takes.

`Icap.step` is one call of `icap::step`, given what the ICAP's pointers point at
when it is made (`IcapWires`).
-/

namespace Drachma

/-- The states of the ICAP. -/
inductive IcapState
  | init
  | idle
  | ack
  | wait
  | transfer
deriving DecidableEq, Repr

/-- `icap`. -/
structure Icap (n : ℕ) where
  icapSpeed : Double
  icapBusWidth : ℕ
  regionWidth : ℕ → Option ℕ
  simSpeed : Double
  memoryCounter : ℕ
  targetRr : ℕ
  transferring : Bool
  transferLatency : ℕ
  stallCount : ℕ
  currentState : IcapState
  nextState : IcapState
  prrCtrlReq : Bus n Bool
  prcAck : Bool
  transferBs : Option (ModuleSpec Double)

/-- What the ICAP reads through its pointers, and the bitstream handle it was
given when it was connected. -/
structure IcapWires (n : ℕ) where
  prrExecuting : Bus n Bool
  prcMc : ℕ
  prcReq : Bool
  prrCtrlAck : Bool
  prcScheduledBs : Option (ModuleSpec Double)

/-- What `connect` makes the ICAP read of the signal context, and the handle it
keeps. -/
def SignalContext.icapWires {n : ℕ} {Node : Type} (ctx : SignalContext n Node)
    (prcScheduledBs : Option (ModuleSpec Double)) : IcapWires n :=
  { prrExecuting := ctx.storedPrrExecuting
    prcMc := ctx.storedPrcMc
    prcReq := ctx.storedPrcIcapReq
    prrCtrlAck := ctx.storedPrrIcapAck
    prcScheduledBs := prcScheduledBs }

namespace Icap

variable {n : ℕ}

/-- The constructor followed by `connect`, `setRegionWidths` and
`setSimulationSpeed`; `raw` is what the memory held. -/
def new (raw : Icap n) (speed : Double) (busWidth : ℕ) (regionWidth : BitstreamSizeMap)
    (simSpeed : Double) : Icap n :=
  { raw with
    icapSpeed := speed
    icapBusWidth := busWidth
    regionWidth := regionWidth.find?
    simSpeed := simSpeed
    transferring := false
    nextState := .init
    prrCtrlReq := fun _ => false
    prcAck := false
    transferBs := none }

/-- The signals the context copies. -/
def outputs (s : Icap n) : IcapOutputs n :=
  { memoryCounter := s.memoryCounter
    prcAck := s.prcAck
    prrCtrlReq := s.prrCtrlReq
    transferring := s.transferring
    targetRr := s.targetRr }

/-- `calculateTransferLatency`, for a region whose width is `regionSize`. -/
def calculateTransferLatency (s : Icap n) (regionSize : ℕ) : ℕ :=
  toUnsigned (((regionSize * 8 % 2 ^ 32 : ℕ) * s.icapSpeed) / (s.icapBusWidth * s.simSpeed))

/-- `ICAP_IDLE`: take up a request of the PRC, if there is one. -/
def stepIdle (w : IcapWires n) (s : Icap n) : Exec (Icap n) :=
  if w.prcReq then do
    let bitstream ← deref s.transferBs
    -- the region of the last transfer, not that of the request
    let rrcReadyForTransfer ← w.prrExecuting.read bitstream.regionId
    if rrcReadyForTransfer then
      return { s with prcAck := true, nextState := .ack }
    else
      -- the request is neither acknowledged nor passed on
      return { s with nextState := .wait }
  else
    return s

/-- `ICAP_ACK`: once the PRC has dropped its request, latch the bitstream and
ask the RR controller. -/
def stepAck (w : IcapWires n) (s : Icap n) : Exec (Icap n) :=
  if !(s.prcAck || !w.prcReq) then
    .error .assertionFailed
  else if w.prcReq then
    return s
  else do
    let bitstream ← deref w.prcScheduledBs
    let prrCtrlReq ← s.prrCtrlReq.write bitstream.regionId true
    return { s with
      prcAck := false
      memoryCounter := w.prcMc
      transferBs := some bitstream
      prrCtrlReq := prrCtrlReq
      transferring := true
      nextState := .wait }

/-- `ICAP_WAIT`: once an RR controller acknowledges, begin the transfer. -/
def stepWait (w : IcapWires n) (s : Icap n) : Exec (Icap n) := do
  let bitstream ← deref s.transferBs
  if w.prrCtrlAck then
    let prrCtrlReq ← s.prrCtrlReq.write bitstream.regionId false
    -- `operator[]` inserts a width of zero for a region it does not know
    let regionSize := (s.regionWidth bitstream.regionId).getD 0
    return { s with
      prrCtrlReq := prrCtrlReq
      regionWidth := Function.update s.regionWidth bitstream.regionId (some regionSize)
      transferLatency := s.calculateTransferLatency regionSize
      nextState := .transfer }
  else
    return s

/-- `ICAP_TRANSFER`: count the latency down; the counter wraps on the last step. -/
def stepTransfer (s : Icap n) : Icap n :=
  let s' := { s with transferLatency := (s.transferLatency + (2 ^ 64 - 1)) % 2 ^ 64 }
  if s.transferLatency = 0 then
    { s' with transferring := false, nextState := .idle }
  else
    s'

/-- The acknowledgement is released when the request has ceased. -/
def releaseAck (w : IcapWires n) (s : Icap n) : Icap n :=
  { s with prcAck := if s.prcAck && !w.prcReq then false else s.prcAck }

/-- Latch the current state, and release an acknowledgement that is due. -/
def latch (w : IcapWires n) (s : Icap n) : Icap n :=
  releaseAck w { s with currentState := s.nextState }

/-- The `switch` of `icap::step`. -/
def stepState (w : IcapWires n) (s : Icap n) : Exec (Icap n) :=
  match s.currentState with
  | .init => .ok { s with nextState := .idle }
  | .idle => stepIdle w s
  | .ack => stepAck w s
  | .wait => stepWait w s
  | .transfer => .ok (stepTransfer s)

/-- `icap::step`. -/
def step (w : IcapWires n) (s : Icap n) : Exec (Icap n) :=
  if s.stallCount ≠ 0 then
    .ok { s with stallCount := s.stallCount - 1 }
  else
    stepState w (s.latch w)

/-- The run of an ICAP on a stream of inputs. -/
abbrev run (inputs : ℕ → IcapWires n) (s₀ : Icap n) : ℕ → Exec (Icap n) :=
  Machine.run step inputs s₀

/-! ## What a step can do -/

section Latch

variable (w : IcapWires n) (s : Icap n)

@[simp] theorem latch_nextState : (s.latch w).nextState = s.nextState := rfl

@[simp] theorem latch_currentState : (s.latch w).currentState = s.nextState := rfl

@[simp] theorem latch_stallCount : (s.latch w).stallCount = s.stallCount := rfl

@[simp] theorem latch_transferBs : (s.latch w).transferBs = s.transferBs := rfl

@[simp] theorem latch_prrCtrlReq : (s.latch w).prrCtrlReq = s.prrCtrlReq := rfl

@[simp] theorem latch_transferring : (s.latch w).transferring = s.transferring := rfl

@[simp] theorem latch_memoryCounter : (s.latch w).memoryCounter = s.memoryCounter := rfl

@[simp] theorem latch_transferLatency :
    (s.latch w).transferLatency = s.transferLatency := rfl

/-- The acknowledgement stands for as long as the request does. -/
@[simp] theorem latch_prcAck : (s.latch w).prcAck = (s.prcAck && w.prcReq) := by
  unfold latch releaseAck
  cases s.prcAck <;> cases w.prcReq <;> rfl

end Latch

/-- The transitions of the ICAP. -/
inductive Moves (w : IcapWires n) (s : Icap n) : Icap n → Prop
  | stall (stalled : s.stallCount ≠ 0) :
      Moves w s { s with stallCount := s.stallCount - 1 }
  | init (ready : s.stallCount = 0) (state : s.nextState = .init) :
      Moves w s { s.latch w with nextState := .idle }
  | rest (ready : s.stallCount = 0) (state : s.nextState = .idle)
      (noReq : w.prcReq = false) :
      Moves w s (s.latch w)
  | accept {bitstream : ModuleSpec Double} (ready : s.stallCount = 0)
      (state : s.nextState = .idle) (req : w.prcReq = true)
      (handle : s.transferBs = some bitstream)
      (busy : w.prrExecuting.read bitstream.regionId = .ok true) :
      Moves w s { s.latch w with prcAck := true, nextState := .ack }
  | skip {bitstream : ModuleSpec Double} (ready : s.stallCount = 0)
      (state : s.nextState = .idle) (req : w.prcReq = true)
      (handle : s.transferBs = some bitstream)
      (idle : w.prrExecuting.read bitstream.regionId = .ok false) :
      Moves w s { s.latch w with nextState := .wait }
  | hold (ready : s.stallCount = 0) (state : s.nextState = .ack)
      (acking : s.prcAck = true) (req : w.prcReq = true) :
      Moves w s (s.latch w)
  | take {bitstream : ModuleSpec Double} (ready : s.stallCount = 0)
      (state : s.nextState = .ack) (noReq : w.prcReq = false)
      (handle : w.prcScheduledBs = some bitstream) (inRange : bitstream.regionId < n) :
      Moves w s { s.latch w with
        prcAck := false
        memoryCounter := w.prcMc
        transferBs := some bitstream
        prrCtrlReq := Function.update s.prrCtrlReq ⟨bitstream.regionId, inRange⟩ true
        transferring := true
        nextState := .wait }
  | wait {bitstream : ModuleSpec Double} (ready : s.stallCount = 0)
      (state : s.nextState = .wait) (handle : s.transferBs = some bitstream)
      (noAck : w.prrCtrlAck = false) :
      Moves w s (s.latch w)
  | grant {bitstream : ModuleSpec Double} (ready : s.stallCount = 0)
      (state : s.nextState = .wait) (handle : s.transferBs = some bitstream)
      (ack : w.prrCtrlAck = true) (inRange : bitstream.regionId < n) :
      Moves w s { s.latch w with
        prrCtrlReq := Function.update s.prrCtrlReq ⟨bitstream.regionId, inRange⟩ false
        regionWidth := Function.update s.regionWidth bitstream.regionId
          (some ((s.regionWidth bitstream.regionId).getD 0))
        transferLatency := (s.latch w).calculateTransferLatency
          ((s.regionWidth bitstream.regionId).getD 0)
        nextState := .transfer }
  | count (ready : s.stallCount = 0) (state : s.nextState = .transfer)
      (left : s.transferLatency ≠ 0) :
      Moves w s { s.latch w with
        transferLatency := (s.transferLatency + (2 ^ 64 - 1)) % 2 ^ 64 }
  | finish (ready : s.stallCount = 0) (state : s.nextState = .transfer)
      (done : s.transferLatency = 0) :
      Moves w s { s.latch w with
        transferLatency := (s.transferLatency + (2 ^ 64 - 1)) % 2 ^ 64
        transferring := false
        nextState := .idle }

variable {w : IcapWires n} {s s' : Icap n}

/-- A ready ICAP latches its state and performs it. -/
theorem step_of_ready (ready : s.stallCount = 0) :
    step w s =
      match s.nextState with
      | .init => .ok { s.latch w with nextState := .idle }
      | .idle => stepIdle w (s.latch w)
      | .ack => stepAck w (s.latch w)
      | .wait => stepWait w (s.latch w)
      | .transfer => .ok (stepTransfer (s.latch w)) := by
  simp only [step, ready, ne_eq, not_true_eq_false, if_false, stepState,
    latch_currentState]

/-- The transitions out of `ICAP_IDLE`. -/
theorem moves_of_stepIdle (ready : s.stallCount = 0) (state : s.nextState = .idle)
    (h : stepIdle w (s.latch w) = .ok s') : Moves w s s' := by
  unfold stepIdle at h
  cases req : w.prcReq with
  | false =>
      simp only [req, Bool.false_eq_true, if_false] at h
      cases h
      exact .rest ready state req
  | true =>
      simp only [req, if_true, Machine.bind_eq_ok, deref_eq_ok, latch_transferBs] at h
      obtain ⟨bitstream, handle, busy, hread, h⟩ := h
      cases busy with
      | false => cases h; exact .skip ready state req handle hread
      | true => cases h; exact .accept ready state req handle hread

/-- The transitions out of `ICAP_ACK`. -/
theorem moves_of_stepAck (ready : s.stallCount = 0) (state : s.nextState = .ack)
    (h : stepAck w (s.latch w) = .ok s') : Moves w s s' := by
  unfold stepAck at h
  cases req : w.prcReq with
  | false =>
      simp only [req, Bool.not_false, Bool.or_true, Bool.not_true, Bool.false_eq_true,
        if_false, Machine.bind_eq_ok, deref_eq_ok, Bus.write_eq_ok] at h
      obtain ⟨bitstream, handle, prrCtrlReq, ⟨inRange, rfl⟩, h⟩ := h
      cases h
      exact .take ready state req handle inRange
  | true =>
      cases acking : s.prcAck with
      | false => simp [req, acking] at h
      | true =>
          simp [req, acking] at h
          cases h
          exact .hold ready state acking req

/-- The transitions out of `ICAP_WAIT`. -/
theorem moves_of_stepWait (ready : s.stallCount = 0) (state : s.nextState = .wait)
    (h : stepWait w (s.latch w) = .ok s') : Moves w s s' := by
  unfold stepWait at h
  rw [Machine.bind_eq_ok] at h
  obtain ⟨bitstream, handle, h⟩ := h
  rw [deref_eq_ok, latch_transferBs] at handle
  cases ack : w.prrCtrlAck with
  | false =>
      simp only [ack, Bool.false_eq_true, if_false] at h
      cases h
      exact .wait ready state handle ack
  | true =>
      simp only [ack, if_true, Machine.bind_eq_ok, Bus.write_eq_ok] at h
      obtain ⟨prrCtrlReq, ⟨inRange, rfl⟩, h⟩ := h
      cases h
      exact .grant ready state handle ack inRange

/-- A step that does not fault is a transition. -/
theorem moves_of_step (h : step w s = .ok s') : Moves w s s' := by
  by_cases ready : s.stallCount = 0
  swap
  · simp only [step, ready, ne_eq, not_false_eq_true, if_true] at h
    cases h
    exact .stall ready
  rw [step_of_ready ready] at h
  cases state : s.nextState with
  | init =>
      simp only [state] at h
      cases h
      exact .init ready state
  | idle =>
      simp only [state] at h
      exact moves_of_stepIdle ready state h
  | ack =>
      simp only [state] at h
      exact moves_of_stepAck ready state h
  | wait =>
      simp only [state] at h
      exact moves_of_stepWait ready state h
  | transfer =>
      simp only [state, stepTransfer, latch_transferLatency] at h
      by_cases done : s.transferLatency = 0
      · simp only [done, if_true] at h
        cases h
        simpa only [done] using Moves.finish ready state done
      · simp only [done, if_false] at h
        cases h
        exact .count ready state done

/-- A transition can be taken. -/
theorem step_of_moves (h : Moves w s s') : step w s = .ok s' := by
  cases h with
  | stall stalled => simp only [step, stalled, ne_eq, not_false_eq_true, if_true]
  | init ready state => simp only [step_of_ready ready, state]
  | rest ready state noReq =>
      simp only [step_of_ready ready, state, stepIdle, noReq]
      rfl
  | accept ready state req handle busy =>
      simp only [step_of_ready ready, state, stepIdle, req, if_true, latch_transferBs,
        handle, deref_some, Machine.ok_bind, busy]
      rfl
  | skip ready state req handle idle =>
      simp only [step_of_ready ready, state, stepIdle, req, if_true, latch_transferBs,
        handle, deref_some, Machine.ok_bind, idle]
      rfl
  | hold ready state acking req =>
      simp only [step_of_ready ready, state, stepAck, latch_prcAck, acking, req]
      rfl
  | take ready state noReq handle inRange =>
      simp only [step_of_ready ready, state, stepAck, noReq, handle, deref_some,
        Machine.ok_bind, Bus.write_of_lt inRange, latch_prrCtrlReq]
      simp
      rfl
  | wait ready state handle noAck =>
      simp only [step_of_ready ready, state, stepWait, latch_transferBs, handle,
        deref_some, Machine.ok_bind, noAck]
      rfl
  | grant ready state handle ack inRange =>
      simp only [step_of_ready ready, state, stepWait, latch_transferBs, handle,
        deref_some, Machine.ok_bind, ack, if_true, Bus.write_of_lt inRange,
        latch_prrCtrlReq]
      rfl
  | count ready state left =>
      simp only [step_of_ready ready, state, stepTransfer, latch_transferLatency, left,
        if_false]
  | finish ready state done =>
      simp only [step_of_ready ready, state, stepTransfer, latch_transferLatency, done,
        if_true]

/-- **The transitions are exactly the steps that do not fault.** -/
theorem step_eq_ok : step w s = .ok s' ↔ Moves w s s' :=
  ⟨moves_of_step, step_of_moves⟩

section States

variable (moves : Moves w s s') (ready : s.stallCount = 0)

include moves ready

/-- Out of `ICAP_WAIT`, the ICAP goes on waiting, or is acknowledged and begins a transfer. -/
theorem Moves.of_wait (state : s.nextState = .wait) :
    w.prrCtrlAck = false ∧ s' = s.latch w ∨
    ∃ (bitstream : ModuleSpec Double) (inRange : bitstream.regionId < n),
      s.transferBs = some bitstream ∧ w.prrCtrlAck = true ∧
        s' = { s.latch w with
          prrCtrlReq := Function.update s.prrCtrlReq ⟨bitstream.regionId, inRange⟩ false
          regionWidth := Function.update s.regionWidth bitstream.regionId
            (some ((s.regionWidth bitstream.regionId).getD 0))
          transferLatency := (s.latch w).calculateTransferLatency
            ((s.regionWidth bitstream.regionId).getD 0)
          nextState := .transfer } := by
  cases moves with
  | stall stalled => exact absurd ready stalled
  | wait _ _ _ noAck => exact .inl ⟨noAck, rfl⟩
  | grant _ _ handle ack inRange => exact .inr ⟨_, inRange, handle, ack, rfl⟩
  | _ => simp_all

/-- Out of `ICAP_TRANSFER`, the latency is counted down, or the transfer ends. -/
theorem Moves.of_transfer (state : s.nextState = .transfer) :
    s.transferLatency ≠ 0 ∧
      s' = { s.latch w with
        transferLatency := (s.transferLatency + (2 ^ 64 - 1)) % 2 ^ 64 } ∨
    s.transferLatency = 0 ∧
      s' = { s.latch w with
        transferLatency := (s.transferLatency + (2 ^ 64 - 1)) % 2 ^ 64
        transferring := false
        nextState := .idle } := by
  cases moves with
  | stall stalled => exact absurd ready stalled
  | count _ _ left => exact .inl ⟨left, rfl⟩
  | finish _ _ done => exact .inr ⟨done, rfl⟩
  | _ => simp_all

end States

section Run

variable {inputs : ℕ → IcapWires n} {s₀ : Icap n} {k : ℕ}

/-- A transition continues a run. -/
theorem run_of_moves (h : run inputs s₀ k = .ok s) (move : Moves (inputs k) s s') :
    run inputs s₀ (k + 1) = .ok s' :=
  (Machine.run_succ_of_ok h).trans (step_of_moves move)

end Run

/-- An ICAP before it is constructed. -/
def rawIcap {n : ℕ} : Icap n :=
  { icapSpeed := 0
    icapBusWidth := 0
    regionWidth := fun _ => none
    simSpeed := 0
    memoryCounter := 0
    targetRr := 0
    transferring := false
    transferLatency := 0
    stallCount := 0
    currentState := .init
    nextState := .init
    prrCtrlReq := fun _ => false
    prcAck := false
    transferBs := none }

end Icap

end Drachma
