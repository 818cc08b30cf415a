import Drachma.Device
import Drachma.IcapWait
import Drachma.Lib.Handshake

/-!
# The request handshake of the PRC and the ICAP

The PRC asserts `PRC_ICAP_REQ` when it wants a bitstream transferred, and the
ICAP answers with `ICAP_PRC_ACK`.  Each side acts on the value the other's signal
had when the context was last refreshed.

`PrcIcap` is the two of them, composed through the context, with everything else
(the RR side, the policies, and the values their other pointers have) supplied
by an environment, cycle by cycle.  A device is such a system
(`Device.prcIcap_step_of_cycle`).

## Main results

* `PrcIcap.Inv.step` — request and acknowledgement run the four-phase handshake,
  and the scheduled bitstream does not change while a request is in progress.
* `PrcIcap.request_handshake` — what this means for the requests of a run.
-/

namespace Drachma

open Machine (Phase FourPhase Rises Falls)

/-- The PRC and the ICAP, with the context between them. -/
structure PrcIcap (n : ℕ) (Node σ : Type) where
  prc : Prc n Node σ
  icap : Icap n
  context : SignalContext n Node

/-- What the environment supplies in a cycle: the policies, what the pointers of
the two components are worth, and the output signals of the RR side. -/
structure PrcIcapEnv (n : ℕ) (Node σ : Type) where
  policies : SchedulingPolicies n Node σ
  icapTargetRr : Option Bool
  prcScheduledBs : Option (ModuleSpec Double)
  rrc : Fin n → RrcOutputs

/-! ## What each side does to its level -/

section Sides

variable {n : ℕ} {Node σ : Type}

/-- A PRC asserts its request in `PRC_REQ_ICAP` and nowhere else. -/
def Prc.ReqState (s : Prc n Node σ) : Prop :=
  s.icapReq = true ↔ s.nextState = .reqIcap

/-- An ICAP acknowledges in `ICAP_ACK` and nowhere else, and stalls in its INIT
state only. -/
def Icap.AckState (s : Icap n) : Prop :=
  (s.prcAck = true ↔ s.nextState = .ack) ∧ (s.stallCount ≠ 0 → s.nextState = .init)

/-- A step that finds and leaves the request low. -/
theorem Prc.reqLevel_of_low {w : PrcWires n} {s s' : Prc n Node σ} (low : s.icapReq = false)
    (low' : s'.icapReq = false) (state : s'.nextState ≠ .reqIcap)
    (same : s.nextState = .taskSchedule → s'.scheduledBs = s.scheduledBs) :
    s'.ReqState ∧
      (s.icapReq = true →
        s'.icapReq = !w.icapAck ∧ s'.scheduledBs = s.scheduledBs ∧
          (w.icapAck = true → s'.nextState = .taskSchedule)) ∧
      (s.nextState = .taskSchedule → s'.icapReq = false ∧ s'.scheduledBs = s.scheduledBs) ∧
      (s'.icapReq = true → s.icapReq = false → ∃ bitstream, s'.scheduledBs = some bitstream) := by
  refine ⟨⟨fun req => ?_, fun other => absurd other state⟩, fun req => ?_,
    fun here => ⟨low', same here⟩, fun req => ?_⟩
  · exact absurd (low'.symm.trans req) Bool.false_ne_true
  · exact absurd (low.symm.trans req) Bool.false_ne_true
  · exact absurd (low'.symm.trans req) Bool.false_ne_true

/-- **The requester.**  A request stands until it is acknowledged, and the PRC
then schedules a task before it chooses another bitstream. -/
theorem Prc.Moves.reqLevel {policies : SchedulingPolicies n Node σ} {w : PrcWires n}
    {s s' : Prc n Node σ} (move : Moves policies w s s') (ready : s.stallCount = 0)
    (reqState : s.ReqState) :
    s'.ReqState ∧
      (s.icapReq = true →
        s'.icapReq = !w.icapAck ∧ s'.scheduledBs = s.scheduledBs ∧
          (w.icapAck = true → s'.nextState = .taskSchedule)) ∧
      (s.nextState = .taskSchedule → s'.icapReq = false ∧ s'.scheduledBs = s.scheduledBs) ∧
      (s'.icapReq = true → s.icapReq = false → ∃ bitstream, s'.scheduledBs = some bitstream) := by
  -- outside `PRC_REQ_ICAP` the request is low
  have low : s.nextState ≠ .reqIcap → s.icapReq = false := fun other =>
    Bool.eq_false_iff.mpr fun req => other (reqState.mp req)
  cases move with
  | stall stalled => exact absurd ready stalled
  | init _ state =>
      have quiet := low (by simp [state])
      exact reqLevel_of_low quiet quiet (by simp) fun _ => rfl
  | schedule _ state =>
      have quiet := low (by simp [state])
      exact reqLevel_of_low quiet quiet (by simp) fun _ => rfl
  | reject _ state =>
      have quiet := low (by simp [state])
      exact reqLevel_of_low quiet quiet (by simp) fun other => by rw [state] at other; cases other
  | hit _ state =>
      have quiet := low (by simp [state])
      exact reqLevel_of_low quiet quiet (by simp) fun other => by rw [state] at other; cases other
  | request _ state =>
      have quiet := low (by simp [state])
      refine ⟨⟨fun _ => rfl, fun _ => rfl⟩, fun req => ?_, fun other => ?_,
        fun _ _ => ⟨_, rfl⟩⟩
      · exact absurd (quiet.symm.trans req) Bool.false_ne_true
      · rw [state] at other
        cases other
  | hold _ state noAck =>
      refine ⟨reqState, fun req => ⟨?_, rfl, fun ack => ?_⟩, fun other => ?_,
        fun req noReq => ?_⟩
      · rw [noAck]
        exact req
      · exact absurd (noAck.symm.trans ack) Bool.false_ne_true
      · rw [state] at other
        cases other
      · exact absurd (noReq.symm.trans req) Bool.false_ne_true
  | acknowledged _ state ack =>
      refine ⟨⟨fun req => (nomatch req), fun other => (nomatch other)⟩,
        fun _ => ⟨by rw [ack]; rfl, rfl, fun _ => rfl⟩, fun other => ?_,
        fun req => (nomatch req)⟩
      rw [state] at other
      cases other

/-- A step that finds and leaves the acknowledgement low. -/
theorem Icap.ackLevel_of_low {w : IcapWires n} {s s' : Icap n} (low : s.prcAck = false)
    (low' : s'.prcAck = false) (state : s'.nextState ≠ .ack)
    (stall : s'.stallCount ≠ 0 → s'.nextState = .init) :
    s'.AckState ∧ (s.prcAck = true → s'.prcAck = w.prcReq) ∧
      (w.prcReq = false → s.prcAck = false → s'.prcAck = false) := by
  refine ⟨⟨⟨fun ack => ?_, fun ack => absurd ack state⟩, stall⟩, fun ack => ?_, fun _ _ => low'⟩
  · exact absurd (low'.symm.trans ack) Bool.false_ne_true
  · exact absurd (low.symm.trans ack) Bool.false_ne_true

/-- **The acknowledger.**  An acknowledgement stands for as long as the request
does, and is not raised without one. -/
theorem Icap.Moves.ackLevel {w : IcapWires n} {s s' : Icap n} (move : Moves w s s')
    (ackState : s.AckState) :
    s'.AckState ∧ (s.prcAck = true → s'.prcAck = w.prcReq) ∧
      (w.prcReq = false → s.prcAck = false → s'.prcAck = false) := by
  obtain ⟨level, stall⟩ := ackState
  -- outside `ICAP_ACK` the acknowledgement is low, and latching the state keeps it low
  have low : s.nextState ≠ .ack → s.prcAck = false := fun other =>
    Bool.eq_false_iff.mpr fun ack => other (level.mp ack)
  have low' : s.nextState ≠ .ack → (s.latch w).prcAck = false := by
    intro other
    rw [latch_prcAck, low other, Bool.false_and]
  cases move with
  | stall stalled =>
      have init := stall stalled
      have quiet := low (by simp [init])
      exact ackLevel_of_low quiet quiet (by simp [init]) fun _ => init
  | init ready state =>
      exact ackLevel_of_low (low (by simp [state])) (low' (by simp [state])) (by simp)
        fun stalled => absurd ready stalled
  | rest ready state =>
      exact ackLevel_of_low (low (by simp [state])) (low' (by simp [state])) (by simp [state])
        fun stalled => absurd ready stalled
  | accept ready state req =>
      have quiet := low (by simp [state])
      refine ⟨⟨⟨fun _ => rfl, fun _ => rfl⟩, fun stalled => absurd ready stalled⟩,
        fun ack => ?_, fun noReq => ?_⟩
      · exact absurd (quiet.symm.trans ack) Bool.false_ne_true
      · exact absurd (noReq.symm.trans req) Bool.false_ne_true
  | skip ready state =>
      exact ackLevel_of_low (low (by simp [state])) (low' (by simp [state])) (by simp)
        fun stalled => absurd ready stalled
  | hold ready state acking req =>
      have stands : (s.latch w).prcAck = true := by rw [latch_prcAck, acking, req]; rfl
      refine ⟨⟨⟨fun _ => state, fun _ => stands⟩, fun stalled => absurd ready stalled⟩,
        fun _ => stands.trans req.symm, fun _ quiet => ?_⟩
      exact absurd (quiet.symm.trans acking) Bool.false_ne_true
  | take ready state noReq =>
      exact ⟨⟨⟨fun ack => (nomatch ack), fun ack => (nomatch ack)⟩,
        fun stalled => absurd ready stalled⟩, fun _ => noReq.symm, fun _ _ => rfl⟩
  | wait ready state =>
      exact ackLevel_of_low (low (by simp [state])) (low' (by simp [state])) (by simp [state])
        fun stalled => absurd ready stalled
  | grant ready state =>
      exact ackLevel_of_low (low (by simp [state])) (low' (by simp [state])) (by simp)
        fun stalled => absurd ready stalled
  | count ready state =>
      exact ackLevel_of_low (low (by simp [state])) (low' (by simp [state])) (by simp [state])
        fun stalled => absurd ready stalled
  | finish ready state =>
      exact ackLevel_of_low (low (by simp [state])) (low' (by simp [state])) (by simp)
        fun stalled => absurd ready stalled

end Sides

namespace PrcIcap

variable {n : ℕ} {Node σ : Type}

/-- What the PRC reads in a cycle. -/
def prcWires (env : PrcIcapEnv n Node σ) (s : PrcIcap n Node σ) : PrcWires n :=
  { s.context.prcWires with icapTargetRr := env.icapTargetRr }

/-- What the ICAP reads in a cycle. -/
def icapWires (env : PrcIcapEnv n Node σ) (s : PrcIcap n Node σ) : IcapWires n :=
  s.context.icapWires env.prcScheduledBs

/-- One cycle of the two components. -/
def step (env : PrcIcapEnv n Node σ) (s : PrcIcap n Node σ) : Exec (PrcIcap n Node σ) := do
  let prc ← s.prc.step env.policies (s.prcWires env)
  let icap ← s.icap.step (s.icapWires env)
  return {
    prc := prc
    icap := icap
    context := s.context.refreshContext prc.outputs icap.outputs env.rrc }

/-- Both components are in their INIT states, and the request and the
acknowledgement are low. -/
structure Starts (s : PrcIcap n Node σ) : Prop where
  prc : s.prc.nextState = .init ∧ s.prc.stallCount = 0 ∧ s.prc.icapReq = false
  icap : s.icap.nextState = .init ∧ s.icap.prcAck = false
  context : s.context.storedPrcIcapReq = false ∧ s.context.storedIcapPrcAck = false

/-- What every state satisfies. -/
structure Inv (s : PrcIcap n Node σ) : Prop where
  ready : s.prc.stallCount = 0
  reqState : s.prc.ReqState
  ackState : s.icap.AckState
  /-- The signals each side reads are the ones the other side now has. -/
  reqStored : s.context.storedPrcIcapReq = s.prc.icapReq
  ackStored : s.context.storedIcapPrcAck = s.icap.prcAck
  /-- A PRC that has just dropped its request is about to schedule a task. -/
  dropped : s.prc.icapReq = false → s.icap.prcAck = true → s.prc.nextState = .taskSchedule

/-- The phase of the handshake. -/
def phase (s : PrcIcap n Node σ) : Phase := .of s.prc.icapReq s.icap.prcAck

theorem Inv.of_starts {s : PrcIcap n Node σ} (start : s.Starts) : s.Inv where
  ready := start.prc.2.1
  reqState := by simp [Prc.ReqState, start.prc]
  ackState := by simp [Icap.AckState, start.icap]
  reqStored := start.context.1.trans start.prc.2.2.symm
  ackStored := start.context.2.trans start.icap.2.symm
  dropped _ h := by rw [start.icap.2] at h; cases h

variable {env : PrcIcapEnv n Node σ} {s s' : PrcIcap n Node σ}

theorem step_eq_ok :
    s.step env = .ok s' ↔
      ∃ prc icap, Prc.Moves env.policies (s.prcWires env) s.prc prc ∧
        Icap.Moves (s.icapWires env) s.icap icap ∧
          s' = { prc := prc, icap := icap,
                 context := s.context.refreshContext prc.outputs icap.outputs env.rrc } := by
  unfold step
  simp only [Machine.bind_eq_ok, Prc.step_eq_ok, Icap.step_eq_ok]
  constructor
  · rintro ⟨prc, hprc, icap, hicap, h⟩
    exact ⟨prc, icap, hprc, hicap, (Except.ok.inj h).symm⟩
  · rintro ⟨prc, icap, hprc, hicap, rfl⟩
    exact ⟨prc, hprc, icap, hicap, rfl⟩

/-- **The step lemma.**  The invariant is kept, the phase rests or advances, and
the scheduled bitstream changes out of `quiet` only. -/
theorem Inv.step (inv : s.Inv) (h : s.step env = .ok s') :
    s'.Inv ∧ (s'.phase = s.phase ∨ s'.phase = s.phase.next) ∧
      (s.phase ≠ .quiet → s'.prc.scheduledBs = s.prc.scheduledBs) ∧
        (s.phase = .quiet → s'.phase = .raised →
          ∃ bitstream, s'.prc.scheduledBs = some bitstream) := by
  obtain ⟨prc, icap, hprc, hicap, rfl⟩ := step_eq_ok.mp h
  obtain ⟨reqState, stands, schedules, raised⟩ := hprc.reqLevel inv.ready inv.reqState
  obtain ⟨ackState, follows, rests⟩ := hicap.ackLevel inv.ackState
  have seenAck : (s.prcWires env).icapAck = s.icap.prcAck := inv.ackStored
  have seenReq : (s.icapWires env).prcReq = s.prc.icapReq := inv.reqStored
  rw [seenAck] at stands
  rw [seenReq] at follows rests
  have inv' : (prc.icapReq = false → icap.prcAck = true → prc.nextState = .taskSchedule) →
      Inv { prc := prc, icap := icap,
            context := s.context.refreshContext prc.outputs icap.outputs env.rrc } :=
    fun dropped => ⟨hprc.ready inv.ready, reqState, ackState, rfl, rfl, dropped⟩
  unfold phase
  cases hreq : s.prc.icapReq <;> cases hack : s.icap.prcAck
  · -- quiet: the ICAP has nothing to acknowledge
    have hack' : icap.prcAck = false := rests hreq hack
    refine ⟨inv' fun _ h => ?_, ?_, fun h => absurd rfl h, fun _ h => ?_⟩
    · rw [hack'] at h; cases h
    · dsimp only
      rw [hack']
      cases prc.icapReq <;> simp [Phase.of, Phase.next]
    · exact raised (Phase.of_eq_raised.mp h).1 hreq
  · -- dropped: the PRC schedules a task, and the ICAP sees the drop
    obtain ⟨hreq', hbs⟩ := schedules (inv.dropped hreq hack)
    have hack' : icap.prcAck = false := (follows hack).trans hreq
    refine ⟨inv' fun _ h => ?_, ?_, fun _ => hbs, fun h _ => by cases h⟩
    · rw [hack'] at h; cases h
    · dsimp only
      rw [hreq', hack']
      exact .inr rfl
  · -- raised: the PRC has not seen an acknowledgement
    obtain ⟨hreq', hbs, -⟩ := stands hreq
    rw [hack] at hreq'
    refine ⟨inv' fun h _ => ?_, ?_, fun _ => hbs, fun h _ => by cases h⟩
    · rw [hreq'] at h; cases h
    · dsimp only
      rw [hreq']
      cases icap.prcAck <;> simp [Phase.of, Phase.next]
  · -- acked: the PRC drops its request, which the ICAP has yet to see
    obtain ⟨hreq', hbs, hstate⟩ := stands hreq
    have hack' : icap.prcAck = true := (follows hack).trans hreq
    rw [hack] at hreq'
    refine ⟨inv' fun _ _ => hstate hack, ?_, fun _ => hbs, fun h _ => by cases h⟩
    dsimp only
    rw [hreq', hack']
    exact .inr rfl

/-! ## Runs -/

/-- The request level along a sequence of states. -/
def reqLevel (states : ℕ → PrcIcap n Node σ) (k : ℕ) : Bool := (states k).prc.icapReq

/-- The acknowledgement level along a sequence of states. -/
def ackLevel (states : ℕ → PrcIcap n Node σ) (k : ℕ) : Bool := (states k).icap.prcAck

/-- What the handshake is for, over the first `N` steps of a run. -/
structure HandshakeHolds (N : ℕ) (states : ℕ → PrcIcap n Node σ) : Prop where
  /-- Each request is acknowledged at most once. -/
  acknowledgedOnce : ∀ i j, i < j → j < N → Rises (ackLevel states) i →
    Rises (ackLevel states) j → ∃ m, i < m ∧ m < j ∧ Rises (reqLevel states) m
  /-- A request is dropped on an acknowledgement that was raised while it was
  standing. -/
  droppedOnOwnAck : ∀ j < N, Falls (reqLevel states) j → ackLevel states j = true ∧
    ∃ i m, i < m ∧ m < j ∧ Rises (reqLevel states) i ∧ Rises (ackLevel states) m ∧
      ∀ l, i < l → l ≤ j → reqLevel states l = true
  /-- A new request is raised only after the previous one was dropped and the ICAP
  has answered the drop by releasing its acknowledgement. -/
  dropSeen : ∀ i j, i < j → j < N → Rises (reqLevel states) i →
    Rises (reqLevel states) j →
      ∃ d m, i < d ∧ d < m ∧ m < j ∧ Falls (reqLevel states) d ∧ Falls (ackLevel states) m
  /-- When the ICAP goes from `ICAP_ACK` to `ICAP_WAIT`, the PRC's bitstream is the
  one it had when it last raised its request. -/
  bitstreamKept : ∀ k < N, (states k).icap.nextState = .ack →
    (states (k + 1)).icap.nextState = .wait →
      ∃ i < k, Rises (reqLevel states) i ∧ (∀ l, i < l → l < k → ¬ Rises (reqLevel states) l) ∧
        ∃ bitstream, (states (i + 1)).prc.scheduledBs = some bitstream ∧
          (states k).prc.scheduledBs = some bitstream ∧
            (states (k + 1)).prc.scheduledBs = some bitstream

section Run

variable {envs : ℕ → PrcIcapEnv n Node σ} {s₀ : PrcIcap n Node σ} {N : ℕ}
variable {states : ℕ → PrcIcap n Node σ}

theorem Inv.of_trace (start : s₀.Starts)
    (trace : Machine.Trace PrcIcap.step envs s₀ N states) : ∀ k ≤ N, (states k).Inv :=
  trace.invariant (P := fun _ s => Inv s) (Inv.of_starts start)
    fun _ _ inv hstep => (inv.step hstep).1

/-- **Request and acknowledgement follow the four-phase handshake.** -/
theorem fourPhase (start : s₀.Starts)
    (trace : Machine.Trace PrcIcap.step envs s₀ N states) :
    FourPhase N (reqLevel states) (ackLevel states) where
  start := by
    simp [reqLevel, ackLevel, trace.start, start.prc, start.icap]
  advances k hk := ((Inv.of_trace start trace k (by omega)).step (trace.step_eq hk)).2.1

/-- The scheduled bitstream stays as it is while a request is in progress. -/
theorem scheduledBs_stable (start : s₀.Starts)
    (trace : Machine.Trace PrcIcap.step envs s₀ N states) {i j : ℕ} (hij : i ≤ j)
    (hj : j ≤ N) (busy : ∀ l, i ≤ l → l < j → (states l).phase ≠ .quiet) :
    (states j).prc.scheduledBs = (states i).prc.scheduledBs := by
  induction j, hij using Nat.le_induction with
  | base => rfl
  | succ j hij ih =>
      have stable := ((Inv.of_trace start trace j (by omega)).step
        (trace.step_eq (by omega))).2.2.1 (busy j hij (by omega))
      rw [stable]
      exact ih (by omega) fun l hil hlj => busy l hil (by omega)

/-- The bitstream the ICAP latches is the one the request was raised for. -/
theorem bitstream_kept (start : s₀.Starts)
    (trace : Machine.Trace PrcIcap.step envs s₀ N states) {k : ℕ} (hk : k < N)
    (acking : (states k).icap.nextState = .ack) :
    ∃ i < k, Rises (reqLevel states) i ∧ (∀ l, i < l → l < k → ¬ Rises (reqLevel states) l) ∧
      ∃ bitstream, (states (i + 1)).prc.scheduledBs = some bitstream ∧
        (states k).prc.scheduledBs = some bitstream ∧
          (states (k + 1)).prc.scheduledBs = some bitstream := by
  have hs := fourPhase start trace
  have ack : ackLevel states k = true :=
    ((Inv.of_trace start trace k (by omega)).ackState.1).mpr acking
  obtain ⟨i, hik, hi, hraised, busy⟩ := Phase.since_quiet hs.advances (j := k) (by omega) hs.start
    (fun h => by rw [(Phase.of_eq_quiet.mp h).2] at ack; cases ack)
  have step := (Inv.of_trace start trace i (by omega)).step (trace.step_eq (by omega))
  obtain ⟨bitstream, hbs⟩ := step.2.2.2 hi hraised
  refine ⟨i, hik, ⟨(Phase.of_eq_quiet.mp hi).1, (Phase.of_eq_raised.mp hraised).1⟩, ?_,
    bitstream, hbs, ?_, ?_⟩
  · intro l hil hlk up
    exact busy l hil (by omega) (hs.of_req_rises (by omega) up).1
  · rw [← hbs]
    exact scheduledBs_stable start trace (by omega) (by omega)
      fun l hil hlk => busy l (by omega) (by omega)
  · rw [← hbs]
    exact scheduledBs_stable start trace (by omega) (by omega)
      fun l hil hlk => busy l (by omega) (by omega)

/-- **The request handshake.**  In every run from INIT states, whatever the
environment: one acknowledgement a request, a request is dropped on its own
acknowledgement, the ICAP sees the drop before the next request, and it latches
the bitstream the request was raised for. -/
theorem request_handshake (start : s₀.Starts)
    (trace : Machine.Trace PrcIcap.step envs s₀ N states) : HandshakeHolds N states where
  acknowledgedOnce _ _ hij hj first second :=
    (fourPhase start trace).req_rises_between_acks hij hj first second
  droppedOnOwnAck _ hj down :=
    ⟨(Phase.of_eq_acked.mp ((fourPhase start trace).of_req_falls hj down).1).2,
      (fourPhase start trace).ack_rises_before_drop hj down⟩
  dropSeen _ _ hij hj first second :=
    (fourPhase start trace).ack_falls_between_reqs hij hj first second
  bitstreamKept _ hk acking _ := bitstream_kept start trace hk acking

end Run

/-! ## A run with a request -/

/-- The PRC and the ICAP of a device with one region, in their INIT states. -/
def initial : PrcIcap 1 Unit Unit :=
  { prc :=
      { prcCounter := 0
        memoryCounter := 0
        currentState := .init
        nextState := .init
        stallCount := 0
        scheduledTaskValid := false
        icapReq := false
        prrEnqueue := fun _ => false
        prrStart := fun _ => false
        scheduledTask := none
        scheduledBs := none
        schedulingAlg := () }
    icap :=
      { Icap.idleIcap with
        currentState := .init
        nextState := .init }
    context := SignalContext.new SignalContext.rawContext none none none }

/-- There is always a task for bitstream 5 of region 0, which is executing. -/
def requestingEnv (_ : ℕ) : PrcIcapEnv 1 Unit Unit :=
  { policies :=
      { getCurrentTask := fun _ => .ok ()
        prepareNextTask := fun _ => .ok ()
        getBitstreamForTask := fun _ _ => .ok (true, Icap.regionZeroBs) }
    icapTargetRr := none
    prcScheduledBs := some Icap.regionZeroBs
    rrc := fun _ =>
      { prrExecuting := true
        prcAck := false
        icapAck := false
        bitstreamId := unsignedMinusOne } }

/-- The handshake, on a run that gets from INIT through a request to `ICAP_WAIT`. -/
theorem request_handshake_initial :
    ∃ states, Machine.Trace PrcIcap.step requestingEnv initial 6 states ∧
      HandshakeHolds 6 states ∧ (states 6).icap.nextState = .wait := by
  obtain ⟨states, trace, last⟩ : ∃ states,
      Machine.Trace PrcIcap.step requestingEnv initial 6 states ∧ states 6 = _ :=
    Machine.Trace.exists_of_run rfl
  refine ⟨states, trace, request_handshake ⟨⟨rfl, rfl, rfl⟩, ⟨rfl, rfl⟩, rfl, rfl⟩ trace, ?_⟩
  rw [last]

end PrcIcap

/-! ## The two components of a device -/

namespace Device

variable {n : ℕ} {Node σ : Type}

/-- The PRC and the ICAP of a device. -/
def prcIcap (d : Device n Node σ) : PrcIcap n Node σ :=
  { prc := d.prc, icap := d.icap, context := d.context }

/-- What a device with this wiring supplies to them, in a cycle that its RR
controllers end with the given outputs. -/
def prcIcapEnv (wiring : Wiring n Node σ) (rrc : Fin n → RrcOutputs) :
    PrcIcapEnv n Node σ :=
  { policies := wiring.policies
    icapTargetRr := none
    prcScheduledBs := wiring.prcScheduledBs
    rrc := rrc }

/-- **A cycle of a device is a cycle of its PRC and ICAP.** -/
theorem prcIcap_step_of_cycle [GraphNode Node] {wiring : Wiring n Node σ}
    {d d' : Device n Node σ} (h : d.cycle wiring = .ok d') :
    d.prcIcap.step (prcIcapEnv wiring d'.rr.outputs) = .ok d'.prcIcap := by
  obtain ⟨prc, icap, rr, hprc, hicap, -, rfl⟩ := cycle_eq_ok.mp h
  exact PrcIcap.step_eq_ok.mpr
    ⟨prc, icap, Prc.moves_of_step hprc, Icap.moves_of_step hicap, rfl⟩

end Device

end Drachma
