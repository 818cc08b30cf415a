import Drachma.Icap

/-!
# The ICAP waits for an answer it has asked for

In `ICAP_WAIT` the ICAP waits for an RR controller to acknowledge its request.
The controllers acknowledge a request bit, and keep to the transfer only while
the transfer signal is high.  So an ICAP that waits should have both asserted,
for the region of the bitstream it has latched, which it does only after it has
acknowledged the PRC (`WaitsForAnswer`).

`ICAP_WAIT` is entered from `ICAP_ACK`, where the bitstream is latched and the
request made, and from `ICAP_IDLE`, where neither is.  The step in `ICAP_IDLE`
takes the second way when the region of the *previous* bitstream is not
executing: the comment there calls the controller ready when it has no pending
tasks, but the test is of `PRR_EXE` itself.

## Main results

* `Icap.waitsForAnswer_iff_executing` — a run waits only for answers it has
  asked for exactly when it never takes that second way.
* `Icap.waits_without_request` — a run that does.
-/

namespace Drachma

namespace Icap

variable {n : ℕ} (inputs : ℕ → IcapWires n) (s₀ : Icap n)

/-- The starts considered: the state the constructor leaves, or `ICAP_IDLE` with
a bitstream latched, no request made and no transfer running. -/
structure Starts (s : Icap n) : Prop where
  state : s.nextState = .init ∧ s.prcAck = false ∧ s.transferBs = none ∨
    s.nextState = .idle ∧ ∃ bitstream, s.transferBs = some bitstream
  noRequest : ∀ r, s.prrCtrlReq r = false
  noTransfer : s.transferring = false

/-- The ICAP acknowledged a request it saw in step `i`, and has been in
`ICAP_ACK`, acknowledging, since. -/
structure HasAcknowledged (i k : ℕ) : Prop where
  requested : ∃ s, run inputs s₀ i = .ok s ∧ s.nextState = .idle ∧ (inputs i).prcReq = true
  acking : ∀ l, i < l → l ≤ k →
    ∃ s, run inputs s₀ l = .ok s ∧ s.nextState = .ack ∧ s.prcAck = true

/-- The ICAP acknowledged a request, latched the scheduled bitstream in step `j`,
when the request had ceased, and has been waiting since. -/
structure HasLatched (j k : ℕ) (bitstream : ModuleSpec Double) : Prop where
  acknowledged : ∃ i < j, HasAcknowledged inputs s₀ i j
  ceased : (inputs j).prcReq = false
  latched : (inputs j).prcScheduledBs = some bitstream
  waiting : ∀ l, j < l → l ≤ k →
    ∃ s, run inputs s₀ l = .ok s ∧ s.nextState = .wait ∧ s.transferBs = some bitstream

/-- The ICAP, in state `s` after `k` steps, has acknowledged the PRC, latched its
bitstream, and asserts the request bit of the bitstream's region and the transfer
signal. -/
def WaitsForAnswer (k : ℕ) (s : Icap n) : Prop :=
  ∃ bitstream, s.transferBs = some bitstream ∧
    (∃ h : bitstream.regionId < n, s.prrCtrlReq ⟨bitstream.regionId, h⟩ = true) ∧
      s.transferring = true ∧ ∃ j < k, HasLatched inputs s₀ j k bitstream

/-- If a step would take up a request in `ICAP_IDLE`, the region of the latched
bitstream is executing. -/
def ExecutingWhenAsked (w : IcapWires n) (s : Icap n) : Prop :=
  s.stallCount = 0 → s.nextState = .idle → w.prcReq = true →
    ∀ bitstream, s.transferBs = some bitstream →
      ∀ h : bitstream.regionId < n, w.prrExecuting ⟨bitstream.regionId, h⟩ = true

/-- The invariant: outside `ICAP_WAIT` nothing is requested. -/
structure WaitInv (k : ℕ) (s : Icap n) : Prop where
  quiet : s.nextState ≠ .wait → ∀ r, s.prrCtrlReq r = false
  acking : s.nextState = .ack →
    s.prcAck = true ∧ ∃ i < k, HasAcknowledged inputs s₀ i k
  waiting : s.nextState = .wait →
    WaitsForAnswer inputs s₀ k s ∧
      ∀ bitstream, s.transferBs = some bitstream →
        ∀ r : Fin n, r.val ≠ bitstream.regionId → s.prrCtrlReq r = false

variable {inputs s₀} {k : ℕ} {s s' : Icap n}

theorem HasAcknowledged.extend {i : ℕ} (h : HasAcknowledged inputs s₀ i k)
    (hrun : run inputs s₀ (k + 1) = .ok s') (state : s'.nextState = .ack)
    (ack : s'.prcAck = true) : HasAcknowledged inputs s₀ i (k + 1) where
  requested := h.requested
  acking l hil hlk := by
    rcases Nat.lt_or_ge k l with hlt | hge
    · rw [show l = k + 1 by omega]
      exact ⟨s', hrun, state, ack⟩
    · exact h.acking l hil hge

theorem HasLatched.extend {j : ℕ} {bitstream : ModuleSpec Double}
    (h : HasLatched inputs s₀ j k bitstream) (hrun : run inputs s₀ (k + 1) = .ok s')
    (state : s'.nextState = .wait) (handle : s'.transferBs = some bitstream) :
    HasLatched inputs s₀ j (k + 1) bitstream where
  acknowledged := h.acknowledged
  ceased := h.ceased
  latched := h.latched
  waiting l hjl hlk := by
    rcases Nat.lt_or_ge k l with hlt | hge
    · rw [show l = k + 1 by omega]
      exact ⟨s', hrun, state, handle⟩
    · exact h.waiting l hjl hge

theorem WaitInv.of_starts (start : Starts s₀) : WaitInv inputs s₀ 0 s₀ where
  quiet _ := start.noRequest
  acking state := by
    rcases start.state with ⟨h, -⟩ | ⟨h, -⟩ <;> rw [h] at state <;> cases state
  waiting state := by
    rcases start.state with ⟨h, -⟩ | ⟨h, -⟩ <;> rw [h] at state <;> cases state

/-- A state outside `ICAP_ACK` and `ICAP_WAIT` has only to be quiet. -/
theorem WaitInv.of_quiet (noAck : s.nextState ≠ .ack) (noWait : s.nextState ≠ .wait)
    (quiet : ∀ r, s.prrCtrlReq r = false) : WaitInv inputs s₀ k s where
  quiet _ := quiet
  acking state := absurd state noAck
  waiting state := absurd state noWait

/-- `WaitsForAnswer` is kept while the ICAP goes on waiting. -/
theorem WaitsForAnswer.extend (h : WaitsForAnswer inputs s₀ k s)
    (hrun : run inputs s₀ (k + 1) = .ok s') (state : s'.nextState = .wait)
    (handle : s'.transferBs = s.transferBs) (req : s'.prrCtrlReq = s.prrCtrlReq)
    (transferring : s'.transferring = s.transferring) :
    WaitsForAnswer inputs s₀ (k + 1) s' := by
  obtain ⟨bitstream, hbs, ⟨hlt, hreq⟩, htrans, j, hjk, latched⟩ := h
  refine ⟨bitstream, handle.trans hbs, ⟨hlt, ?_⟩, transferring.trans htrans, j, by omega, ?_⟩
  · rw [req, hreq]
  · exact latched.extend hrun state (handle.trans hbs)

/-- **The step lemma.**  The invariant is kept by every step that does not go
from `ICAP_IDLE` straight to `ICAP_WAIT`. -/
theorem WaitInv.step (inv : WaitInv inputs s₀ k s) (hrun : run inputs s₀ k = .ok s)
    (executing : ExecutingWhenAsked (inputs k) s) (move : Moves (inputs k) s s') :
    WaitInv inputs s₀ (k + 1) s' := by
  have hrun' := run_of_moves hrun move
  cases move with
  | stall stalled =>
      refine ⟨inv.quiet, fun state => ?_, fun state => ?_⟩
      · obtain ⟨ack, i, hik, acked⟩ := inv.acking state
        exact ⟨ack, i, by omega, acked.extend hrun' state ack⟩
      · obtain ⟨waits, others⟩ := inv.waiting state
        exact ⟨waits.extend hrun' state rfl rfl rfl, others⟩
  | init ready state => exact .of_quiet (by simp) (by simp) (inv.quiet (by simp [state]))
  | rest ready state noReq =>
      exact .of_quiet (by simp [state]) (by simp [state]) (inv.quiet (by simp [state]))
  | accept ready state req handle busy =>
      refine ⟨fun _ => inv.quiet (by simp [state]), fun _ => ⟨rfl, k, by omega, ?_⟩,
        fun h => (by cases h)⟩
      refine ⟨⟨s, hrun, state, req⟩, fun l hkl hlk => ?_⟩
      rw [show l = k + 1 by omega]
      exact ⟨_, hrun', rfl, rfl⟩
  | skip ready state req handle idle =>
      -- the region is executing, so this way is not taken
      obtain ⟨hlt, hidle⟩ := Bus.read_eq_ok.mp idle
      rw [executing ready state req _ handle hlt] at hidle
      cases hidle
  | hold ready state acking req =>
      obtain ⟨ack, i, hik, acked⟩ := inv.acking state
      refine ⟨fun _ => inv.quiet (by simp [state]), fun hack => ?_, fun h => ?_⟩
      · have ack' : (s.latch (inputs k)).prcAck = true := by simp [ack, req]
        exact ⟨ack', i, by omega, acked.extend hrun' hack ack'⟩
      · rw [latch_nextState, state] at h
        cases h
  | @take bitstream ready state noReq handle inRange =>
      obtain ⟨ack, i, hik, acked⟩ := inv.acking state
      have quiet := inv.quiet (by simp [state])
      refine ⟨fun h => absurd rfl h, fun h => (by cases h), fun _ => ⟨?_, ?_⟩⟩
      · refine ⟨bitstream, rfl, ⟨inRange, by simp⟩, rfl, k, by omega, ?_⟩
        refine ⟨⟨i, hik, acked⟩, noReq, handle, fun l hkl hlk => ?_⟩
        rw [show l = k + 1 by omega]
        exact ⟨_, hrun', rfl, rfl⟩
      · intro b hb r hr
        cases hb
        have hne : r ≠ ⟨bitstream.regionId, inRange⟩ := fun h => hr (congrArg Fin.val h)
        simp [Function.update_of_ne hne, quiet r]
  | wait ready state handle noAck =>
      obtain ⟨waits, others⟩ := inv.waiting state
      refine ⟨fun h => absurd (by simp [state]) h, fun h => ?_, fun h => ?_⟩
      · rw [latch_nextState, state] at h
        cases h
      · exact ⟨waits.extend hrun' h rfl rfl rfl, others⟩
  | @grant bitstream ready state handle ack inRange =>
      obtain ⟨waits, others⟩ := inv.waiting state
      refine .of_quiet (by simp) (by simp) fun r => ?_
      by_cases hr : r = ⟨bitstream.regionId, inRange⟩
      · simp [hr]
      · have hval : r.val ≠ bitstream.regionId := fun h => hr (Fin.ext h)
        simp [Function.update_of_ne hr, others bitstream handle r hval]
  | count ready state left =>
      exact .of_quiet (by simp [state]) (by simp [state]) (inv.quiet (by simp [state]))
  | finish ready state done =>
      exact .of_quiet (by simp) (by simp) (inv.quiet (by simp [state]))

/-- **Runs that never skip the acknowledgement keep the invariant.** -/
theorem WaitInv.of_run (start : Starts s₀)
    (executing : ∀ k s, run inputs s₀ k = .ok s → ExecutingWhenAsked (inputs k) s) :
    ∀ k s, run inputs s₀ k = .ok s → WaitInv inputs s₀ k s :=
  Machine.run_invariant (WaitInv.of_starts start) fun k s _ hrun inv hstep =>
    inv.step hrun (executing k s hrun) (moves_of_step hstep)

/-- **The ICAP waits only for answers it has asked for, exactly when every
request it takes up finds the region of the bitstream it holds executing.** -/
theorem waitsForAnswer_iff_executing (start : Starts s₀) :
    (∀ k s, run inputs s₀ k = .ok s → s.nextState = .wait → WaitsForAnswer inputs s₀ k s) ↔
      ∀ k s, run inputs s₀ k = .ok s → ExecutingWhenAsked (inputs k) s := by
  constructor
  · intro waits k s hrun ready state req bitstream handle hlt
    cases busy : (inputs k).prrExecuting ⟨bitstream.regionId, hlt⟩ with
    | true => rfl
    | false =>
        exfalso
        have hrun' := run_of_moves hrun
          (.skip ready state req handle (Bus.read_eq_ok.mpr ⟨hlt, busy⟩))
        obtain ⟨b, -, -, -, j, hj, latched⟩ := waits (k + 1) _ hrun' rfl
        -- in step `k` the ICAP was in `ICAP_IDLE`, not in `ICAP_ACK` or `ICAP_WAIT`
        rcases Nat.lt_or_ge j k with hjk | hkj
        · obtain ⟨t, ht, hwait, -⟩ := latched.waiting k hjk (by omega)
          rw [hrun] at ht
          cases ht
          rw [state] at hwait
          cases hwait
        · obtain ⟨i, hij, acked⟩ := latched.acknowledged
          obtain ⟨t, ht, hack, -⟩ := acked.acking k (by omega) (by omega)
          rw [hrun] at ht
          cases ht
          rw [state] at hack
          cases hack
  · intro executing k s hrun state
    exact ((WaitInv.of_run start executing k s hrun).waiting state).1

/-! ## A run that waits for an answer it has not asked for -/

/-- A bitstream of region 0. -/
def regionZeroBs : ModuleSpec Double :=
  { regionId := 0, id := 5, bitstreamWidth := 4, tasks := [] }

/-- An ICAP of a device with one region, idle after a transfer. -/
def idleIcap : Icap 1 :=
  { icapSpeed := 1
    icapBusWidth := 32
    regionWidth := fun _ => none
    simSpeed := 1
    memoryCounter := 0
    targetRr := 0
    transferring := false
    transferLatency := 0
    stallCount := 0
    currentState := .idle
    nextState := .idle
    prrCtrlReq := fun _ => false
    prcAck := false
    transferBs := some regionZeroBs }

/-- A request of the PRC, in every cycle, while region 0 is not executing. -/
def requestWhileIdle (_ : ℕ) : IcapWires 1 :=
  { prrExecuting := fun _ => false
    prcMc := 0
    prcReq := true
    prrCtrlAck := false
    prcScheduledBs := some regionZeroBs }

theorem idleIcap_starts : Starts idleIcap :=
  ⟨.inr ⟨rfl, _, rfl⟩, fun _ => rfl, rfl⟩

/-- The condition, for this ICAP. -/
theorem waitsForAnswer_iff_executing_idleIcap :
    (∀ k s, run requestWhileIdle idleIcap k = .ok s → s.nextState = .wait →
        WaitsForAnswer requestWhileIdle idleIcap k s) ↔
      ∀ k s, run requestWhileIdle idleIcap k = .ok s →
        ExecutingWhenAsked (requestWhileIdle k) s :=
  waitsForAnswer_iff_executing idleIcap_starts

/-- **The request is taken up and forgotten**: after one step the ICAP waits,
and has neither acknowledged the PRC nor asked an RR controller. -/
theorem waits_without_request :
    Starts idleIcap ∧
      ∃ s, run requestWhileIdle idleIcap 1 = .ok s ∧ s.nextState = .wait ∧
        s.prcAck = false ∧ (∀ r, s.prrCtrlReq r = false) ∧
          ¬ WaitsForAnswer requestWhileIdle idleIcap 1 s := by
  refine ⟨⟨.inr ⟨rfl, _, rfl⟩, fun _ => rfl, rfl⟩, _, rfl, rfl, rfl, fun _ => rfl, ?_⟩
  rintro ⟨-, -, -, htrans, -⟩
  cases htrans

end Icap

end Drachma
