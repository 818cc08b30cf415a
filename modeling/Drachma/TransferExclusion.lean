import Drachma.Device

/-!
# Exclusion of transfers

A transfer involves the ICAP and one RR controller.  The ICAP asserts the
request bit of a region together with the transfer signal; the controller of the
region acknowledges and goes to `PRR_TRANSFER`; the ICAP releases the request
and transfers; when it ends, it deasserts the transfer signal, and the controller
installs the module.  The acknowledgements of all controllers share one bus, and
the transfer signal is read by all of them, each a cycle late.

`IcapRr` is the ICAP and the RR controllers, composed through the context, with
the signals of the PRC and all bitstream handles supplied by an environment.

## Main results

* `TransferPhase` — the phases of a transfer; every reachable state is in one of
  them (`IcapRr.InPhase`, `IcapRr.InPhase.step`).
* `IcapRr.transfer_exclusion` — what this means for the controllers of a run.
-/

namespace Drachma

/-! ## The phases of a transfer -/

/-- The phases a transfer to region `r` goes through. -/
inductive TransferPhase (n : ℕ)
  | quiet
  | requested (r : Fin n)
  | accepted (r : Fin n)
  | granted (r : Fin n)
  | transferring (r : Fin n)
  | ended (r : Fin n)

namespace TransferPhase

variable {n : ℕ}

/-- The region of the transfer. -/
def region : TransferPhase n → Option (Fin n)
  | quiet => none
  | requested r => some r
  | accepted r => some r
  | granted r => some r
  | transferring r => some r
  | ended r => some r

/-- The phases in which the request bit is asserted. -/
def asserts : TransferPhase n → Bool
  | requested _ => true
  | accepted _ => true
  | _ => false

/-- The phases in which the transfer signal is asserted. -/
def transfers : TransferPhase n → Bool
  | quiet => false
  | ended _ => false
  | _ => true

/-- The phases in which the controller is in `PRR_TRANSFER`. -/
def receives : TransferPhase n → Bool
  | quiet => false
  | requested _ => false
  | _ => true

/-- The phases in which the controller acknowledges. -/
def acknowledges : TransferPhase n → Bool
  | accepted _ => true
  | granted _ => true
  | _ => false

/-- The state of the ICAP in a phase.  Without a transfer it may be in any state
but `ICAP_TRANSFER`. -/
def Allows : TransferPhase n → IcapState → Prop
  | quiet, state => state ≠ .transfer
  | requested _, state => state = .wait
  | accepted _, state => state = .wait
  | granted _, state => state = .transfer
  | transferring _, state => state = .transfer
  | ended _, state => state = .idle

/-- The phases one cycle leads to. -/
inductive Next : TransferPhase n → TransferPhase n → Prop
  | rest : Next quiet quiet
  | request (r : Fin n) : Next quiet (requested r)
  | await (r : Fin n) : Next (requested r) (requested r)
  | accept (r : Fin n) : Next (requested r) (accepted r)
  | grant (r : Fin n) : Next (accepted r) (granted r)
  | transfer (r : Fin n) : Next (granted r) (transferring r)
  | finish (r : Fin n) : Next (granted r) (ended r)
  | continue (r : Fin n) : Next (transferring r) (transferring r)
  | complete (r : Fin n) : Next (transferring r) (ended r)
  | install (r : Fin n) : Next (ended r) quiet

end TransferPhase

/-! ## The ICAP's side -/

namespace Icap

variable {n : ℕ}

/-- The ICAP's part of a phase. -/
structure InPhase (p : TransferPhase n) (s : Icap n) : Prop where
  state : p.Allows s.nextState
  stall : s.stallCount ≠ 0 → s.nextState = .init
  req : ∀ i, s.prrCtrlReq i = (p.asserts && decide (p.region = some i))
  signal : s.transferring = p.transfers
  target : ∀ r : Fin n, p.region = some r →
    ∃ bitstream, s.transferBs = some bitstream ∧ bitstream.regionId = r.val

variable {w : IcapWires n} {s s' : Icap n} {r : Fin n}

/-- Past its `ICAP_INIT` the ICAP does not stall. -/
theorem InPhase.ready {p : TransferPhase n} (phase : s.InPhase p) (state : s.nextState ≠ .init) :
    s.stallCount = 0 := by
  by_contra stalled
  exact state (phase.stall stalled)

/-- Without a transfer, and with no acknowledgement on the bus, the ICAP at most
requests one. -/
theorem InPhase.step_quiet (phase : s.InPhase .quiet) (move : Moves w s s')
    (noAck : w.prrCtrlAck = false) : s'.InPhase .quiet ∨ ∃ r, s'.InPhase (.requested r) := by
  obtain ⟨state, stall, req, signal, target⟩ := phase
  have keep : s'.nextState ≠ .transfer → (s'.stallCount ≠ 0 → s'.nextState = .init) →
      s'.prrCtrlReq = s.prrCtrlReq → s'.transferring = s.transferring →
        s'.InPhase .quiet := fun state' stall' hreq hsignal =>
    ⟨state', stall', fun i => by rw [hreq, req], by rw [hsignal, signal],
      fun _ h => by cases h⟩
  cases move with
  | stall stalled =>
      exact .inl (keep (by simp [stall stalled]) (fun _ => stall stalled) rfl rfl)
  | init ready _ => exact .inl (keep (by simp) (fun h => absurd ready h) rfl rfl)
  | rest ready state' => exact .inl (keep (by simp [state']) (fun h => absurd ready h) rfl rfl)
  | accept ready _ => exact .inl (keep (by simp) (fun h => absurd ready h) rfl rfl)
  | skip ready _ => exact .inl (keep (by simp) (fun h => absurd ready h) rfl rfl)
  | hold ready state' => exact .inl (keep (by simp [state']) (fun h => absurd ready h) rfl rfl)
  | @take bitstream ready _ _ _ inRange =>
      refine .inr ⟨⟨bitstream.regionId, inRange⟩, rfl, fun h => absurd ready h, fun i => ?_,
        rfl, fun r hr => ⟨bitstream, rfl, ?_⟩⟩
      · rcases eq_or_ne i ⟨bitstream.regionId, inRange⟩ with rfl | hne
        · simp [TransferPhase.asserts, TransferPhase.region]
        · simp [TransferPhase.asserts, TransferPhase.region, req, hne, hne.symm]
      · cases hr
        rfl
  | wait ready state' => exact .inl (keep (by simp [state']) (fun h => absurd ready h) rfl rfl)
  | grant _ _ _ ack => rw [noAck] at ack; cases ack
  | count _ state' => exact absurd state' state
  | finish _ state' => exact absurd state' state

/-- An ICAP in `ICAP_WAIT` stays there until the bus acknowledges. -/
theorem InPhase.step_requested (phase : s.InPhase (.requested r)) (move : Moves w s s')
    (noAck : w.prrCtrlAck = false) : s'.InPhase (.requested r) := by
  have state : s.nextState = .wait := phase.state
  have ready := phase.ready (by rw [state]; simp)
  obtain ⟨-, rfl⟩ | ⟨bitstream, inRange, -, ack, -⟩ := move.of_wait ready state
  · exact ⟨state, fun h => absurd ready h, phase.req, phase.signal, phase.target⟩
  · rw [noAck] at ack
    cases ack

/-- The acknowledgement on the bus ends the request and begins the transfer. -/
theorem InPhase.step_accepted (phase : s.InPhase (.accepted r)) (move : Moves w s s')
    (ack : w.prrCtrlAck = true) : s'.InPhase (.granted r) := by
  have state : s.nextState = .wait := phase.state
  have ready := phase.ready (by rw [state]; simp)
  obtain ⟨noAck, -⟩ | ⟨bitstream, inRange, handle, -, rfl⟩ := move.of_wait ready state
  · rw [ack] at noAck
    cases noAck
  · refine ⟨rfl, fun h => absurd ready h, fun i => ?_, phase.signal, phase.target⟩
    obtain ⟨b, hb, hregion⟩ := phase.target r rfl
    rw [handle] at hb
    cases hb
    have hr : (⟨bitstream.regionId, inRange⟩ : Fin n) = r := Fin.ext hregion
    rcases eq_or_ne i r with rfl | hne
    · simp [hr, TransferPhase.asserts]
    · simp [hr, hne, TransferPhase.asserts, phase.req, TransferPhase.region, hne.symm]

/-- A transfer goes on until the ICAP ends it. -/
theorem InPhase.step_transfer {p : TransferPhase n}
    (hp : p = .granted r ∨ p = .transferring r) (phase : s.InPhase p) (move : Moves w s s') :
    s'.InPhase (.transferring r) ∨ s'.InPhase (.ended r) := by
  have htransfer : s.nextState = .transfer := by
    rcases hp with rfl | rfl <;> exact phase.state
  have ready := phase.ready (by rw [htransfer]; simp)
  obtain ⟨-, -, req, signal, target⟩ := phase
  have hreq : ∀ i, s.prrCtrlReq i = false := by
    rcases hp with rfl | rfl <;> simpa [TransferPhase.asserts] using req
  have hsignal : s.transferring = true := by rcases hp with rfl | rfl <;> exact signal
  have htarget : ∀ r' : Fin n, some r = some r' →
      ∃ bitstream, s.transferBs = some bitstream ∧ bitstream.regionId = r'.val := by
    rcases hp with rfl | rfl <;> exact target
  obtain ⟨-, rfl⟩ | ⟨-, rfl⟩ := move.of_transfer ready htransfer
  · exact .inl ⟨htransfer, fun h => absurd ready h, hreq, hsignal, htarget⟩
  · exact .inr ⟨rfl, fun h => absurd ready h, hreq, rfl, htarget⟩

/-- An ICAP that has ended a transfer does not begin another one at once. -/
theorem InPhase.step_ended (phase : s.InPhase (.ended r)) (move : Moves w s s') :
    s'.InPhase .quiet := by
  have hidle : s.nextState = .idle := phase.state
  have settled := phase.ready (by rw [hidle]; simp)
  obtain ⟨-, -, req, signal, target⟩ := phase
  have keep : s'.nextState ≠ .transfer → s'.stallCount = 0 →
      s'.prrCtrlReq = s.prrCtrlReq → s'.transferring = s.transferring →
        s'.InPhase .quiet := fun state' ready hreq hsignal =>
    ⟨state', fun h => absurd ready h, fun i => by rw [hreq, req]; rfl,
      by rw [hsignal, signal]; rfl, fun _ h => by cases h⟩
  cases move with
  | stall stalled => exact absurd settled stalled
  | rest ready _ => exact keep (by simp [hidle]) ready rfl rfl
  | accept ready _ => exact keep (by simp) ready rfl rfl
  | skip ready _ => exact keep (by simp) ready rfl rfl
  | _ => simp_all

end Icap

/-! ## The RR controllers' side -/

namespace RrController

variable {Node : Type} [GraphNode Node] {w : RrcWires Node} {s s' : RrController Node}
variable {m m' : Memory}

/-- A controller in `PRR_TRANSFER` stays there for as long as the transfer signal
is asserted. -/
theorem Moves.receiving (move : Moves w s m s' m') (state : s.nextState = .transfer) :
    (s'.nextState = .transfer ↔ w.icapTrans = true) ∧
      s'.icapAck = (s.icapAck && w.icapReq) := by
  obtain ⟨transferring, a, wakes⟩ |
    ⟨ended, a, b, c, x, level, bitstream, wakes, -, -, -, -, rfl⟩ := move.of_transfer state
  · exact ⟨by simp [wakes.nextState_eq, state, transferring], wakes.icapAck_eq⟩
  · exact ⟨by simp [ended], wakes.icapAck_eq⟩

/-- Another controller goes to `PRR_TRANSFER` only when it is requested to, and
acknowledges when it does. -/
theorem Moves.notReceiving (move : Moves w s m s' m') (state : s.nextState ≠ .transfer)
    (noAck : s.icapAck = false) :
    s'.nextState ≠ .transfer ∧ s'.icapAck = false ∨
      w.icapReq = true ∧ s'.nextState = .transfer ∧ s'.icapAck = true := by
  have silent : (s.icapAck && w.icapReq) = false := by rw [noAck, Bool.false_and]
  cases move with
  | init wakes _ => exact .inl ⟨by simp, wakes.icapAck_eq.trans silent⟩
  | rest wakes _ =>
      exact .inl ⟨by rw [wakes.nextState_eq]; exact state, wakes.icapAck_eq.trans silent⟩
  | startQueued wakes _ =>
      exact .inl ⟨by simpa [wakes.nextState_eq] using state, wakes.icapAck_eq.trans silent⟩
  | startRequested wakes _ =>
      exact .inl ⟨by simpa [wakes.nextState_eq] using state, wakes.icapAck_eq.trans silent⟩
  | decline wakes _ =>
      exact .inl ⟨by simpa [wakes.nextState_eq] using state, wakes.icapAck_eq.trans silent⟩
  | accept _ _ _ _ req => exact .inr ⟨req, rfl, rfl⟩
  | wait wakes _ =>
      exact .inl ⟨by rw [wakes.nextState_eq]; exact state, wakes.icapAck_eq.trans silent⟩
  | hold _ state' => exact absurd state' state
  | install _ state' => exact absurd state' state

end RrController

namespace RrSide

variable {n : ℕ} {Node : Type} [GraphNode Node]

/-- The controllers' part of a phase. -/
structure InPhase (p : TransferPhase n) (s : RrSide n Node) : Prop where
  receive : ∀ i, (s.rrc i).nextState = .transfer ↔ p.receives = true ∧ p.region = some i
  ack : ∀ i, (s.rrc i).icapAck = (p.acknowledges && decide (p.region = some i))

variable {w : Fin n → RrcWires Node} {s s' : RrSide n Node} {p : TransferPhase n} {r : Fin n}

/-- What the controllers read in a phase. -/
structure Reads (p : TransferPhase n) (w : Fin n → RrcWires Node) : Prop where
  req : ∀ i, (w i).icapReq = (p.asserts && decide (p.region = some i))
  signal : ∀ i, (w i).icapTrans = p.transfers

/-- What a sweep does to a controller: the one of the transfer stays for as long
as the transfer signal is asserted, and no other one joins unless requested. -/
theorem InPhase.rrc_cases (phase : s.InPhase p) (reads : Reads p w)
    (h : s.sweep w = .ok s') (i : Fin n) :
    (p.receives = true ∧ p.region = some i ∧
        ((s'.rrc i).nextState = .transfer ↔ p.transfers = true) ∧
          (s'.rrc i).icapAck = (p.acknowledges && p.asserts)) ∨
      (¬ (p.receives = true ∧ p.region = some i) ∧
        ((s'.rrc i).nextState ≠ .transfer ∧ (s'.rrc i).icapAck = false ∨
          (p.asserts = true ∧ p.region = some i) ∧ (s'.rrc i).nextState = .transfer ∧
            (s'.rrc i).icapAck = true)) := by
  obtain ⟨m, m', move⟩ := RrSide.rrc_of_sweep h i
  by_cases receiving : p.receives = true ∧ p.region = some i
  · obtain ⟨stays, ack⟩ := move.receiving ((phase.receive i).mpr receiving)
    rw [reads.signal] at stays
    rw [phase.ack, reads.req, decide_eq_true receiving.2, Bool.and_true,
      Bool.and_true] at ack
    exact .inl ⟨receiving.1, receiving.2, stays, ack⟩
  · have silent : (s.rrc i).icapAck = false := by
      rw [phase.ack]
      cases p <;> simp_all [TransferPhase.acknowledges, TransferPhase.receives]
    refine .inr ⟨receiving, ?_⟩
    rcases move.notReceiving (fun h => receiving ((phase.receive i).mp h)) silent with
      stays | ⟨hreq, joins⟩
    · exact .inl stays
    · rw [reads.req, Bool.and_eq_true, decide_eq_true_eq] at hreq
      exact .inr ⟨hreq, joins⟩

omit [GraphNode Node] in
/-- The controllers are in a phase without a receiver as soon as none receives or
acknowledges. -/
theorem InPhase.of_rest (receives : p.receives = false) (acknowledges : p.acknowledges = false)
    (rest : ∀ i, (s.rrc i).nextState ≠ .transfer ∧ (s.rrc i).icapAck = false) :
    s.InPhase p :=
  ⟨fun i => by simp [rest i, receives], fun i => by simp [rest i, acknowledges]⟩

omit [GraphNode Node] in
/-- The controllers are in a phase with receiver `r` when `r` receives and
acknowledges as it should, and the others do neither. -/
theorem InPhase.of_receiver (receives : p.receives = true) (region : p.region = some r)
    (receiver : (s.rrc r).nextState = .transfer ∧ (s.rrc r).icapAck = p.acknowledges)
    (rest : ∀ i ≠ r, (s.rrc i).nextState ≠ .transfer ∧ (s.rrc i).icapAck = false) :
    s.InPhase p := by
  refine ⟨fun i => ?_, fun i => ?_⟩ <;> rcases eq_or_ne i r with rfl | hne
  · simp [receiver, receives, region]
  · simp [rest i hne, region, hne.symm]
  · simp [receiver, region]
  · simp [rest i hne, region, hne.symm]

/-- Without a request no controller receives or acknowledges. -/
theorem InPhase.step_quiet (phase : s.InPhase .quiet) (reads : Reads .quiet w)
    (h : s.sweep w = .ok s') (i : Fin n) :
    (s'.rrc i).nextState ≠ .transfer ∧ (s'.rrc i).icapAck = false := by
  rcases phase.rrc_cases reads h i with ⟨h, -⟩ | ⟨-, stays | ⟨⟨h, -⟩, -⟩⟩
  · cases h
  · exact stays
  · cases h

/-- The controller of a transfer that has ended installs the module. -/
theorem InPhase.step_ended (phase : s.InPhase (.ended r)) (reads : Reads (.ended r) w)
    (h : s.sweep w = .ok s') (i : Fin n) :
    (s'.rrc i).nextState ≠ .transfer ∧ (s'.rrc i).icapAck = false := by
  rcases phase.rrc_cases reads h i with ⟨-, -, leaves, ack⟩ | ⟨-, stays | ⟨⟨h, -⟩, -⟩⟩
  · exact ⟨fun state => (by cases leaves.mp state), ack⟩
  · exact stays
  · cases h

/-- The requested controller accepts, or there is no change. -/
theorem InPhase.step_requested (phase : s.InPhase (.requested r))
    (reads : Reads (.requested r) w) (h : s.sweep w = .ok s') :
    s'.InPhase (.requested r) ∨ s'.InPhase (.accepted r) := by
  have others : ∀ i ≠ r, (s'.rrc i).nextState ≠ .transfer ∧ (s'.rrc i).icapAck = false := by
    intro i hne
    rcases phase.rrc_cases reads h i with ⟨h, -⟩ | ⟨-, stays | ⟨⟨-, h⟩, -⟩⟩
    · cases h
    · exact stays
    · cases h; exact absurd rfl hne
  rcases phase.rrc_cases reads h r with ⟨h, -⟩ | ⟨-, stays | ⟨-, accepts⟩⟩
  · cases h
  · refine .inl (.of_rest rfl rfl fun i => ?_)
    rcases eq_or_ne i r with rfl | hne
    · exact stays
    · exact others i hne
  · exact .inr (.of_receiver rfl rfl accepts others)

/-- While the transfer signal is asserted, the receiver stays, and acknowledges
for as long as the request stands. -/
theorem InPhase.step_receiving {q : TransferPhase n} (phase : s.InPhase p)
    (reads : Reads p w) (h : s.sweep w = .ok s')
    (hp : p.receives = true ∧ p.region = some r ∧ p.transfers = true)
    (hq : q.receives = true ∧ q.region = some r ∧
      q.acknowledges = (p.acknowledges && p.asserts)) : s'.InPhase q := by
  refine .of_receiver hq.1 hq.2.1 ?_ fun i hne => ?_
  · rcases phase.rrc_cases reads h r with ⟨-, -, stays, ack⟩ | ⟨other, -⟩
    · exact ⟨stays.mpr hp.2.2, ack.trans hq.2.2.symm⟩
    · exact absurd ⟨hp.1, hp.2.1⟩ other
  · rcases phase.rrc_cases reads h i with ⟨-, region, -⟩ | ⟨-, stays | ⟨⟨-, region⟩, -⟩⟩
    · rw [hp.2.1] at region
      cases region
      exact absurd rfl hne
    · exact stays
    · rw [hp.2.1] at region
      cases region
      exact absurd rfl hne

end RrSide

/-! ## The two sides together -/

/-- The ICAP and the RR controllers with their storage, and the context between
them. -/
structure IcapRr (n : ℕ) (Node : Type) where
  icap : Icap n
  rr : RrSide n Node
  context : SignalContext n Node

/-- What the environment supplies in a cycle: the signals of the PRC and the
handles of the components. -/
structure IcapRrEnv (n : ℕ) (Node : Type) where
  prc : PrcOutputs n
  prcScheduledBs : Option (ModuleSpec Double)
  rrcHandles : Fin n → RrcHandles Node

namespace IcapRr

variable {n : ℕ} {Node : Type} [GraphNode Node]

/-- One cycle of the components. -/
def step (env : IcapRrEnv n Node) (s : IcapRr n Node) : Exec (IcapRr n Node) := do
  let icap ← s.icap.step (s.context.icapWires env.prcScheduledBs)
  let rr ← s.rr.sweep fun i => s.context.rrcWires i (env.rrcHandles i)
  return {
    icap := icap
    rr := rr
    context := s.context.refreshContext env.prc icap.outputs rr.outputs }

/-- The components are in their INIT states, and their output signals are low.
The context has them low too; the signals of the PRC it has are arbitrary. -/
structure Starts (s : IcapRr n Node) : Prop where
  icap : s.icap.nextState = .init ∧ s.icap.prcAck = false ∧
    (∀ i, s.icap.prrCtrlReq i = false) ∧ s.icap.transferring = false
  rrc : ∀ i, (s.rr.rrc i).nextState = .init ∧ (s.rr.rrc i).prrExecuting = false ∧
    (s.rr.rrc i).prcAck = false ∧ (s.rr.rrc i).icapAck = false
  context : (∀ i, s.context.storedIcapPrrCtrlReq i = false) ∧
    s.context.storedIcapTransfer = false ∧ s.context.storedPrrIcapAck = false ∧
      s.context.storedIcapPrcAck = false ∧ s.context.storedPrrPrcAck = false ∧
        ∀ i, s.context.storedPrrExecuting i = false

/-- The phase of a state. -/
structure InPhase (p : TransferPhase n) (s : IcapRr n Node) : Prop where
  icap : s.icap.InPhase p
  rr : s.rr.InPhase p
  /-- What the components read is what the other side has. -/
  reqStored : s.context.storedIcapPrrCtrlReq = s.icap.prrCtrlReq
  signalStored : s.context.storedIcapTransfer = s.icap.transferring
  ackStored : s.context.storedPrrIcapAck = decide (∃ i, (s.rr.rrc i).icapAck = true)

omit [GraphNode Node] in
theorem InPhase.of_starts {s : IcapRr n Node} (start : s.Starts) : s.InPhase .quiet where
  icap :=
    { state := by simp [TransferPhase.Allows, start.icap.1]
      stall := fun _ => start.icap.1
      req := by simp [TransferPhase.asserts, start.icap.2.2.1]
      signal := start.icap.2.2.2
      target := fun _ h => by cases h }
  rr := .of_rest rfl rfl fun i => by simp [(start.rrc i).1, (start.rrc i).2.2.2]
  reqStored := funext fun i => (start.context.1 i).trans (start.icap.2.2.1 i).symm
  signalStored := start.context.2.1.trans start.icap.2.2.2.symm
  ackStored := by
    rw [start.context.2.2.1]
    simp [(start.rrc _).2.2.2]

variable {env : IcapRrEnv n Node} {s s' : IcapRr n Node} {p : TransferPhase n}

theorem step_eq_ok :
    s.step env = .ok s' ↔
      ∃ icap rr, Icap.Moves (s.context.icapWires env.prcScheduledBs) s.icap icap ∧
        (s.rr.sweep fun i => s.context.rrcWires i (env.rrcHandles i)) = .ok rr ∧
          s' = { icap := icap, rr := rr,
                 context := s.context.refreshContext env.prc icap.outputs rr.outputs } := by
  unfold step
  simp only [Machine.bind_eq_ok, Icap.step_eq_ok]
  constructor
  · rintro ⟨icap, hicap, rr, hrr, h⟩
    exact ⟨icap, rr, hicap, hrr, (Except.ok.inj h).symm⟩
  · rintro ⟨icap, rr, hicap, hrr, rfl⟩
    exact ⟨icap, hicap, rr, hrr, rfl⟩

omit [GraphNode Node] in
/-- In a phase, the bus carries the acknowledgement of the controller of the
transfer, if it acknowledges. -/
theorem InPhase.ack_eq (phase : s.InPhase p) :
    s.context.storedPrrIcapAck = p.acknowledges := by
  rw [phase.ackStored]
  cases p <;> simp [phase.rr.ack, TransferPhase.acknowledges, TransferPhase.region]

omit [GraphNode Node] in
/-- What the controllers read in a phase. -/
theorem InPhase.reads (env : IcapRrEnv n Node) (phase : s.InPhase p) :
    RrSide.Reads p fun i => s.context.rrcWires i (env.rrcHandles i) where
  req i := by
    change s.context.storedIcapPrrCtrlReq i = _
    rw [phase.reqStored, phase.icap.req]
  signal _ := by
    change s.context.storedIcapTransfer = _
    rw [phase.signalStored, phase.icap.signal]

/-- **The step lemma**: a cycle leads from a phase to one of the next ones. -/
theorem InPhase.step (phase : s.InPhase p) (h : s.step env = .ok s') :
    ∃ q, p.Next q ∧ s'.InPhase q := by
  obtain ⟨icap, rr, move, hrr, rfl⟩ := step_eq_ok.mp h
  have reads := phase.reads env
  have ack : (s.context.icapWires env.prcScheduledBs).prrCtrlAck = p.acknowledges :=
    phase.ack_eq
  have next : ∀ q, p.Next q → icap.InPhase q → rr.InPhase q → ∃ q, p.Next q ∧
      InPhase q { icap := icap, rr := rr,
                  context := s.context.refreshContext env.prc icap.outputs rr.outputs } :=
    fun q hq hicap hside => ⟨q, hq, hicap, hside, rfl, rfl, rfl⟩
  cases p with
  | quiet =>
      have rest := phase.rr.step_quiet reads hrr
      rcases phase.icap.step_quiet move ack with hicap | ⟨r, hicap⟩
      · exact next _ .rest hicap (.of_rest rfl rfl rest)
      · exact next _ (.request r) hicap (.of_rest rfl rfl rest)
  | requested r =>
      have hicap := phase.icap.step_requested move ack
      rcases phase.rr.step_requested reads hrr with hside | hside
      · exact next _ (.await r) hicap hside
      · exact next _ (.accept r)
          ⟨hicap.state, hicap.stall, hicap.req, hicap.signal, hicap.target⟩ hside
  | accepted r =>
      exact next _ (.grant r) (phase.icap.step_accepted move ack)
        (phase.rr.step_receiving reads hrr ⟨rfl, rfl, rfl⟩ ⟨rfl, rfl, rfl⟩)
  | granted r =>
      rcases phase.icap.step_transfer (.inl rfl) move with hicap | hicap
      · exact next _ (.transfer r) hicap
          (phase.rr.step_receiving reads hrr ⟨rfl, rfl, rfl⟩ ⟨rfl, rfl, rfl⟩)
      · exact next _ (.finish r) hicap
          (phase.rr.step_receiving reads hrr ⟨rfl, rfl, rfl⟩ ⟨rfl, rfl, rfl⟩)
  | transferring r =>
      rcases phase.icap.step_transfer (.inr rfl) move with hicap | hicap
      · exact next _ (.continue r) hicap
          (phase.rr.step_receiving reads hrr ⟨rfl, rfl, rfl⟩ ⟨rfl, rfl, rfl⟩)
      · exact next _ (.complete r) hicap
          (phase.rr.step_receiving reads hrr ⟨rfl, rfl, rfl⟩ ⟨rfl, rfl, rfl⟩)
  | ended r =>
      exact next _ (.install r) (phase.icap.step_ended move)
        (.of_rest rfl rfl (phase.rr.step_ended reads hrr))

/-! ## Runs -/

/-- Controller `i` is in `PRR_TRANSFER`. -/
def Receives (s : IcapRr n Node) (i : Fin n) : Prop := (s.rr.rrc i).nextState = .transfer

/-- The bitstream the ICAP holds is one for region `i`. -/
def Names (s : IcapRr n Node) (i : Fin n) : Prop :=
  ∃ bitstream, s.icap.transferBs = some bitstream ∧ bitstream.regionId = i.val

/-- Controller `i` leaves `PRR_TRANSFER` in cycle `k`. -/
def Leaves (states : ℕ → IcapRr n Node) (i : Fin n) (k : ℕ) : Prop :=
  (states k).Receives i ∧ ¬ (states (k + 1)).Receives i

/-- The ICAP ends `ICAP_TRANSFER` in cycle `k`, and deasserts the transfer signal. -/
def Ends (states : ℕ → IcapRr n Node) (k : ℕ) : Prop :=
  (states k).icap.nextState = .transfer ∧ (states k).icap.transferring = true ∧
    (states (k + 1)).icap.nextState = .idle ∧ (states (k + 1)).icap.transferring = false

/-- The exclusion of transfers, over the first `N` cycles of a run. -/
structure ExclusionHolds (N : ℕ) (states : ℕ → IcapRr n Node) : Prop where
  /-- At most one controller is in `PRR_TRANSFER`. -/
  atMostOne : ∀ k ≤ N, ∀ i j, (states k).Receives i → (states k).Receives j → i = j
  /-- It is the one of the region the ICAP's bitstream names. -/
  named : ∀ k ≤ N, ∀ i, (states k).Receives i → (states k).Names i
  /-- The ICAP goes to `ICAP_TRANSFER` only while that controller acknowledges and
  is in `PRR_TRANSFER`. -/
  granted : ∀ k < N, (states k).icap.nextState = .wait →
    (states (k + 1)).icap.nextState = .transfer →
      ∃ i, (states k).Names i ∧ (states k).Receives i ∧
        ((states k).rr.rrc i).icapAck = true ∧ (states (k + 1)).Receives i
  /-- No controller leaves `PRR_TRANSFER` in the first cycle. -/
  staysFirst : 0 < N → ∀ i, ¬ Leaves states i 0
  /-- A controller leaves `PRR_TRANSFER` exactly in the cycle after the one in which
  the ICAP ended the transfer to its region. -/
  leaves : ∀ k, k + 1 < N → ∀ i,
    Leaves states i (k + 1) ↔ Ends states k ∧ (states k).Names i

omit [GraphNode Node] in
/-- A state in a phase has the receivers of the phase. -/
theorem InPhase.receives_iff (phase : s.InPhase p) (i : Fin n) :
    s.Receives i ↔ p.receives = true ∧ p.region = some i :=
  phase.rr.receive i

omit [GraphNode Node] in
/-- The ICAP's bitstream names the region of the transfer, and no other. -/
theorem InPhase.names_iff (phase : s.InPhase p) {r : Fin n} (region : p.region = some r)
    (i : Fin n) : s.Names i ↔ i = r := by
  obtain ⟨bitstream, handle, hr⟩ := phase.icap.target r region
  constructor
  · rintro ⟨b, hb, hi⟩
    rw [handle] at hb
    cases hb
    exact Fin.ext (hi.symm.trans hr)
  · rintro rfl
    exact ⟨bitstream, handle, hr⟩

section Run

variable {envs : ℕ → IcapRrEnv n Node} {s₀ : IcapRr n Node} {N : ℕ}
variable {states : ℕ → IcapRr n Node}

/-- Every state of a run is in a phase. -/
theorem phase_of_trace (start : s₀.Starts)
    (trace : Machine.Trace IcapRr.step envs s₀ N states) :
    ∀ k ≤ N, ∃ p, (states k).InPhase p :=
  trace.invariant (P := fun _ s => ∃ p, InPhase p s) ⟨_, .of_starts start⟩
    fun _ _ ⟨_, phase⟩ hstep => (phase.step hstep).imp fun _ h => h.2

/-- A receiver leaves out of the `ended` phase only. -/
theorem ended_of_leaves {i : Fin n} (phase : s.InPhase p) (h : s.step env = .ok s')
    (here : s.Receives i) (gone : ¬ s'.Receives i) : p = .ended i := by
  obtain ⟨q, next, phase'⟩ := phase.step h
  rw [phase.receives_iff] at here
  rw [phase'.receives_iff] at gone
  cases next <;> simp_all [TransferPhase.receives, TransferPhase.region]

/-- The ICAP ends a transfer into the `ended` phase only. -/
theorem ended_of_ends (phase : s.InPhase p) (h : s.step env = .ok s')
    (transfer : s.icap.nextState = .transfer) (idle : s'.icap.nextState = .idle) :
    ∃ r, s'.InPhase (.ended r) ∧ p.region = some r := by
  obtain ⟨q, next, phase'⟩ := phase.step h
  have before := phase.icap.state
  have after := phase'.icap.state
  rw [transfer] at before
  rw [idle] at after
  cases next with
  | finish r => exact ⟨r, phase', rfl⟩
  | complete r => exact ⟨r, phase', rfl⟩
  | _ => simp_all [TransferPhase.Allows]

/-- **Transfers exclude each other.** -/
theorem transfer_exclusion (start : s₀.Starts)
    (trace : Machine.Trace IcapRr.step envs s₀ N states) : ExclusionHolds N states where
  atMostOne k hk i j hi hj := by
    obtain ⟨p, phase⟩ := phase_of_trace start trace k hk
    have hri := ((phase.receives_iff i).mp hi).2
    have hrj := ((phase.receives_iff j).mp hj).2
    exact Option.some.inj (hri.symm.trans hrj)
  named k hk i hi := by
    obtain ⟨p, phase⟩ := phase_of_trace start trace k hk
    exact phase.icap.target i ((phase.receives_iff i).mp hi).2
  granted k hk waiting transferring := by
    obtain ⟨p, phase⟩ := phase_of_trace start trace k (by omega)
    obtain ⟨q, next, phase'⟩ := phase.step (trace.step_eq hk)
    have before := phase.icap.state
    have after := phase'.icap.state
    rw [waiting] at before
    rw [transferring] at after
    cases next with
    | grant r =>
        refine ⟨r, phase.icap.target r rfl, (phase.receives_iff r).mpr ⟨rfl, rfl⟩, ?_,
          (phase'.receives_iff r).mpr ⟨rfl, rfl⟩⟩
        simp [phase.rr.ack, TransferPhase.acknowledges, TransferPhase.region]
    | _ => simp_all [TransferPhase.Allows]
  staysFirst _ i := by
    rintro ⟨here, -⟩
    rw [trace.start, (InPhase.of_starts start).receives_iff] at here
    cases here.1
  leaves k hk i := by
    obtain ⟨p, phase⟩ := phase_of_trace start trace k (by omega)
    obtain ⟨q, next, phase'⟩ := phase.step (trace.step_eq (by omega))
    constructor
    · rintro ⟨here, gone⟩
      obtain rfl := ended_of_leaves phase' (trace.step_eq hk) here gone
      have state' := phase'.icap.state
      have signal' := phase'.icap.signal
      cases next with
      | finish =>
          exact ⟨⟨phase.icap.state, phase.icap.signal, state', signal'⟩,
            phase.icap.target i rfl⟩
      | complete =>
          exact ⟨⟨phase.icap.state, phase.icap.signal, state', signal'⟩,
            phase.icap.target i rfl⟩
    · rintro ⟨⟨transfer, -, idle, -⟩, names⟩
      obtain ⟨r, ended, region⟩ := ended_of_ends phase (trace.step_eq (by omega)) transfer idle
      obtain rfl := (phase.names_iff region i).mp names
      obtain ⟨q', next', phase''⟩ := ended.step (trace.step_eq hk)
      cases next'
      refine ⟨(ended.receives_iff i).mpr ⟨rfl, rfl⟩, fun h => ?_⟩
      cases ((phase''.receives_iff i).mp h).1

end Run

/-! ## A run with a transfer -/

/-- An ICAP in its INIT state, and the controllers of two regions. -/
def initial : IcapRr 2 LoneTask :=
  { icap :=
      { Icap.new Icap.rawIcap 1 32 .empty 1 with transferBs := some (ModuleSpec.default Double) }
    rr := RrSide.twoRegions
    context := SignalContext.new SignalContext.rawContext none none none }

/-- The PRC starts region 0, and requests a transfer to region 1 in cycle 1. -/
def transferringEnv (k : ℕ) : IcapRrEnv 2 LoneTask :=
  { prc :=
      { memoryCounter := 1
        icapReq := decide (k = 1)
        prrStart := fun i => decide (i.val = 0)
        prrEnqueue := fun _ => false }
    prcScheduledBs := some RrSide.regionOneBs
    rrcHandles := fun _ =>
      { prcCurrentTask := some ⟨"a"⟩
        prcScheduledBs := some (ModuleSpec.default Double)
        icapTransferBs := some RrSide.regionOneBs } }

/-- The exclusion of transfers, on a run with a transfer to region 1, whose
controller leaves `PRR_TRANSFER` in cycle 7. -/
theorem transfer_exclusion_initial :
    ∃ states, Machine.Trace IcapRr.step transferringEnv initial 8 states ∧
      ExclusionHolds 8 states ∧ Leaves states 1 7 := by
  have completes : (Machine.run IcapRr.step transferringEnv initial 8).isOk = true := by
    decide +kernel
  obtain ⟨states, trace⟩ := Machine.Trace.exists_of_isOk completes
  refine ⟨states, trace, transfer_exclusion ?_ trace, ?_, fun h => ?_⟩
  · exact ⟨⟨rfl, rfl, fun _ => rfl, rfl⟩, fun _ => ⟨rfl, rfl, rfl, rfl⟩,
      fun _ => rfl, rfl, rfl, rfl, rfl, fun _ => rfl⟩
  · have here := trace.observe (k := 7) (f := fun s => (s.rr.rrc 1).nextState)
      (b := .transfer) (by omega) (by decide +kernel)
    exact here
  · have gone := trace.observe (k := 8) (f := fun s => (s.rr.rrc 1).nextState)
      (b := .idle) (by omega) (by decide +kernel)
    exact absurd (h.symm.trans gone) (by decide)

end IcapRr

/-! ## The two sides of a device -/

namespace Device

variable {n : ℕ} {Node σ : Type}

/-- The ICAP and the RR controllers of a device. -/
def icapRr (d : Device n Node σ) : IcapRr n Node :=
  { icap := d.icap, rr := d.rr, context := d.context }

/-- What a device with this wiring supplies to them, in a cycle that its PRC ends
with the given outputs. -/
def icapRrEnv (wiring : Wiring n Node σ) (prc : PrcOutputs n) : IcapRrEnv n Node :=
  { prc := prc
    prcScheduledBs := wiring.prcScheduledBs
    rrcHandles := wiring.rrcHandles }

/-- **A cycle of a device is a cycle of its ICAP and RR controllers.** -/
theorem icapRr_step_of_cycle [GraphNode Node] {wiring : Wiring n Node σ}
    {d d' : Device n Node σ} (h : d.cycle wiring = .ok d') :
    d.icapRr.step (icapRrEnv wiring d'.prc.outputs) = .ok d'.icapRr := by
  obtain ⟨prc, icap, rr, -, hicap, hrr, rfl⟩ := cycle_eq_ok.mp h
  exact IcapRr.step_eq_ok.mpr ⟨icap, rr, Icap.moves_of_step hicap, hrr, rfl⟩

end Device

end Drachma
