import Drachma.OneTransferEach
import Drachma.TransferLatency

/-!
# When a module is installed

From the cycle in which an RR controller accepts a transfer on, the transfer runs by
itself: the acknowledgement takes a cycle to reach the ICAP, which then works out the
latency and counts it down in `ICAP_TRANSFER`, and the end of the transfer signal takes
a cycle to reach the controller.  No signal of the PRC and no handle can delay it.

The ICAP and the RR controllers run as in the exclusion of transfers.

## Main results

* `IcapRr.runs_on_schedule` — the cycles of a transfer, counted from its acceptance.
-/

namespace Drachma

namespace IcapRr

variable {n : ℕ} {Node : Type} [GraphNode Node]

/-- The latency the ICAP works out for region `r`. -/
def latencyOf (s : IcapRr n Node) (r : Fin n) : ℕ :=
  s.icap.calculateTransferLatency ((s.icap.regionWidth r).getD 0)

/-- Controller `r` goes to `PRR_TRANSFER` in cycle `k`. -/
def Accepts (states : ℕ → IcapRr n Node) (r : Fin n) (k : ℕ) : Prop :=
  ¬ (states k).Receives r ∧ (states (k + 1)).Receives r

/-- The timetable of a transfer of latency `latency` to region `r`, accepted in cycle `k`
of a run of `N` cycles. -/
structure RunsOnSchedule (envs : ℕ → IcapRrEnv n Node) (N : ℕ) (states : ℕ → IcapRr n Node)
    (r : Fin n) (k latency : ℕ) : Prop where
  /-- The ICAP is in `ICAP_TRANSFER` from the second cycle on, for one more than the
  latency. -/
  transfers : ∀ j, k < j → j ≤ k + latency + 4 → j ≤ N →
    ((states j).icap.nextState = .transfer ↔ k + 2 ≤ j ∧ j ≤ k + latency + 2)
  /-- The controller is in `PRR_TRANSFER` until a cycle after the ICAP has ended. -/
  receives : ∀ j, k < j → j ≤ k + latency + 4 → j ≤ N →
    ((states j).Receives r ↔ j ≤ k + latency + 3)
  /-- Then it has installed what its handle holds, and executes it. -/
  installs : k + latency + 4 ≤ N →
    ((states (k + latency + 4)).rr.rrc r).prrExecuting = true ∧
      ((envs (k + latency + 3)).rrcHandles r).icapTransferBs =
        some ((states (k + latency + 4)).rr.rrc r).installedBs

/-- The ICAP is in `ICAP_TRANSFER`, for region `r`. -/
def Running (r : Fin n) (p : TransferPhase n) : Prop :=
  p = .granted r ∨ p = .transferring r

section Run

variable {envs : ℕ → IcapRrEnv n Node} {s₀ : IcapRr n Node} {N : ℕ}
variable {states : ℕ → IcapRr n Node} {phase : ℕ → TransferPhase n} {r : Fin n} {k : ℕ}

namespace Phases

variable (phases : Phases N states phase)

include phases

omit [GraphNode Node] in
theorem accepted_of_accepts (hk : k < N) (accepts : Accepts states r k) :
    phase (k + 1) = .accepted r := by
  have next := phases.next k hk
  have before := mt ((phases.holds k hk.le).receives_iff r).mpr accepts.1
  have after := ((phases.holds (k + 1) hk).receives_iff r).mp accepts.2
  generalize phase k = p at next before
  generalize phase (k + 1) = q at next after
  cases next <;> simp_all [TransferPhase.receives, TransferPhase.region]

omit [GraphNode Node] in
/-- A transfer goes on, or ends, according to what the ICAP does. -/
theorem of_running (hk : k < N) (running : Running r (phase k)) :
    (states (k + 1)).icap.nextState = .transfer ∧ Running r (phase (k + 1)) ∨
      (states (k + 1)).icap.nextState = .idle ∧ phase (k + 1) = .ended r := by
  have next := phases.next k hk
  have state := (phases.holds (k + 1) hk).icap.state
  generalize phase (k + 1) = q at next state
  rcases running with before | before <;> rw [before] at next <;> cases next
  · exact .inl ⟨state, .inr rfl⟩
  · exact .inr ⟨state, rfl⟩
  · exact .inl ⟨state, .inr rfl⟩
  · exact .inr ⟨state, rfl⟩

omit [GraphNode Node] in
theorem state_of_running (hk : k ≤ N) (running : Running r (phase k)) :
    (states k).icap.nextState = .transfer ∧ (states k).Receives r := by
  have here := phases.holds k hk
  have state := here.icap.state
  have receives := here.receives_iff r
  rcases running with h | h
  · rw [h] at state receives
    exact ⟨state, receives.mpr ⟨rfl, rfl⟩⟩
  · rw [h] at state receives
    exact ⟨state, receives.mpr ⟨rfl, rfl⟩⟩

end Phases

/-- The cycle after the acceptance grants the transfer, with the latency of the region. -/
theorem granted_of_accepted (phases : Phases N states phase)
    (trace : Machine.Trace step envs s₀ N states) (hk : k < N)
    (accepted : phase k = .accepted r) :
    phase (k + 1) = .granted r ∧ (states (k + 1)).icap.Counting ∧
      (states (k + 1)).icap.transferLatency = (states k).latencyOf r := by
  have granted : phase (k + 1) = .granted r := by
    have next := phases.next k hk
    rw [accepted] at next
    generalize phase (k + 1) = q at next
    cases next
    rfl
  have here := (phases.holds k hk.le).icap
  have there := (phases.holds (k + 1) hk).icap.state
  rw [accepted] at here
  rw [granted] at there
  have waiting : (states k).icap.nextState = .wait := here.state
  have transfer : (states (k + 1)).icap.nextState = .transfer := there
  obtain ⟨icap, rr, moves, -, hnext⟩ := step_eq_ok.mp (trace.step_eq hk)
  have hicap : (states (k + 1)).icap = icap := by rw [hnext]
  rw [← hicap] at moves
  have counting := Icap.counting_of_granted waiting (Icap.step_of_moves moves) transfer
  refine ⟨granted, counting, ?_⟩
  obtain ⟨-, same⟩ | ⟨bitstream, inRange, handle, -, after⟩ :=
    moves.of_wait (here.ready (by rw [waiting]; decide)) waiting
  · rw [same, Icap.latch_nextState, waiting] at transfer
    cases transfer
  · -- the bitstream that the ICAP holds is the one of the region
    obtain ⟨b, hb, region⟩ := here.target r rfl
    cases hb.symm.trans handle
    rw [after]
    show (Icap.latch _ _).calculateTransferLatency _ = _
    rw [region]
    rfl

/-- From then on the ICAP counts down. -/
theorem counting_of_accepted (phases : Phases N states phase)
    (trace : Machine.Trace step envs s₀ N states) (hk : k < N) (accepted : phase k = .accepted r)
    (moves : ∀ j < N, ∃ w, Icap.Moves w (states j).icap (states (j + 1)).icap) {j : ℕ}
    (hj : j ≤ (states k).latencyOf r) (hjN : k + 1 + j ≤ N) :
    (states (k + 1 + j)).icap.Counting ∧
      (states (k + 1 + j)).icap.transferLatency + j = (states k).latencyOf r := by
  obtain ⟨-, counting, left⟩ := granted_of_accepted phases trace hk accepted
  have during := Icap.countdown.during (σ := fun j => (states (k + 1 + j)).icap)
    (N := j) (fun i hi => moves (k + 1 + i) (by omega)) counting j (Nat.le_refl j)
    (hj.trans_eq left.symm)
  exact ⟨during.1, during.2.trans left⟩

/-- The phases from the acceptance of a transfer on. -/
structure Timetable (N : ℕ) (phase : ℕ → TransferPhase n) (r : Fin n) (k latency : ℕ) :
    Prop where
  accepted : k + 1 ≤ N → phase (k + 1) = .accepted r
  running : ∀ j, k + 2 ≤ j → j ≤ k + latency + 2 → j ≤ N → Running r (phase j)
  ended : k + latency + 3 ≤ N → phase (k + latency + 3) = .ended r
  quiet : k + latency + 4 ≤ N → phase (k + latency + 4) = .quiet

theorem timetable_of_accepts (phases : Phases N states phase)
    (trace : Machine.Trace step envs s₀ N states) (hk : k < N) (accepts : Accepts states r k) :
    Timetable N phase r k ((states (k + 1)).latencyOf r) := by
  generalize hlatency : (states (k + 1)).latencyOf r = latency
  have accepted := phases.accepted_of_accepts hk accepts
  have moves : ∀ j < N, ∃ w, Icap.Moves w (states j).icap (states (j + 1)).icap := by
    intro j hj
    obtain ⟨icap, rr, moves, -, hnext⟩ := step_eq_ok.mp (trace.step_eq hj)
    rw [hnext]
    exact ⟨_, moves⟩
  have counts : ∀ j ≤ latency, k + 2 + j ≤ N →
      (states (k + 2 + j)).icap.Counting ∧
        (states (k + 2 + j)).icap.transferLatency + j = latency := by
    rw [← hlatency]
    exact fun j hj hjN => counting_of_accepted phases trace (by omega) accepted moves hj hjN
  -- the phases follow the count
  have running : ∀ j ≤ latency, k + 2 + j ≤ N → Running r (phase (k + 2 + j)) := by
    intro j
    induction j with
    | zero => exact fun _ hjN => .inl (granted_of_accepted phases trace (by omega) accepted).1
    | succ j ih =>
        intro hj hjN
        rcases phases.of_running hjN (ih (by omega) (by omega)) with ⟨-, going⟩ | ⟨idle, -⟩
        · exact going
        · have transfer := (counts (j + 1) hj hjN).1.2.1
          exact absurd (transfer.symm.trans idle) (by decide)
  have ended : k + latency + 3 ≤ N → phase (k + latency + 3) = .ended r := by
    intro hN
    have last : k + 2 + latency < N := by omega
    obtain ⟨counting, left⟩ := counts latency (Nat.le_refl _) last.le
    obtain ⟨w, move⟩ := moves _ last
    rw [show k + latency + 3 = k + 2 + latency + 1 by omega]
    rcases phases.of_running last (running latency (Nat.le_refl _) last.le) with
      ⟨transfer, -⟩ | ⟨-, ended⟩
    · obtain ⟨more, -⟩ | ⟨-, after⟩ := move.of_transfer counting.1 counting.2.1
      · omega
      · rw [after] at transfer
        cases transfer
    · exact ended
  refine ⟨fun _ => accepted, fun j hkj hj hjN => ?_, ended, fun hN => ?_⟩
  · obtain ⟨i, rfl⟩ := Nat.exists_eq_add_of_le hkj
    exact running i (by omega) hjN
  · have next := phases.next (k + latency + 3) (by omega)
    rw [ended (by omega)] at next
    generalize phase (k + latency + 4) = q at next
    cases next
    rfl

/-- The cycles of the timetable, one after the other. -/
theorem Timetable.cases {latency j : ℕ} (times : Timetable N phase r k latency) (hkj : k < j)
    (hj : j ≤ k + latency + 4) (hjN : j ≤ N) :
    j = k + 1 ∧ phase j = .accepted r ∨
      (k + 2 ≤ j ∧ j ≤ k + latency + 2) ∧ Running r (phase j) ∨
      j = k + latency + 3 ∧ phase j = .ended r ∨
      j = k + latency + 4 ∧ phase j = .quiet := by
  by_cases first : j = k + 1
  · subst first
    exact .inl ⟨rfl, times.accepted hjN⟩
  by_cases counting : j ≤ k + latency + 2
  · have second : k + 2 ≤ j := by omega
    exact .inr (.inl ⟨⟨second, counting⟩, times.running j second counting hjN⟩)
  by_cases third : j = k + latency + 3
  · subst third
    exact .inr (.inr (.inl ⟨rfl, times.ended hjN⟩))
  · obtain rfl : j = k + latency + 4 := by omega
    exact .inr (.inr (.inr ⟨rfl, times.quiet hjN⟩))

/-- **The timetable.**  A transfer that is accepted is granted in the next cycle, takes one
step more than its latency, and is installed a cycle after it has ended. -/
theorem runs_on_schedule (start : s₀.Starts) (trace : Machine.Trace step envs s₀ N states)
    (hk : k < N) (accepts : Accepts states r k) :
    RunsOnSchedule envs N states r k ((states (k + 1)).latencyOf r) := by
  obtain ⟨phase, phases⟩ := exists_phases start trace
  have times := timetable_of_accepts phases trace hk accepts
  generalize (states (k + 1)).latencyOf r = latency at times
  have seen : ∀ j ≤ N, ∀ p, phase j = p → p.Allows (states j).icap.nextState ∧
      ((states j).Receives r ↔ p.receives = true ∧ p.region = some r) := by
    rintro j hj p rfl
    exact ⟨(phases.holds j hj).icap.state, (phases.holds j hj).receives_iff r⟩
  refine ⟨fun j hkj hj hjN => ?_, fun j hkj hj hjN => ?_, fun hN => ?_⟩
  · rcases times.cases hkj hj hjN with ⟨rfl, accepted⟩ | ⟨during, running⟩ | ⟨rfl, ended⟩ |
      ⟨rfl, quiet⟩
    · have waiting : (states (k + 1)).icap.nextState = .wait := (seen _ hjN _ accepted).1
      exact ⟨fun h => absurd (waiting.symm.trans h) (by decide), fun h => by omega⟩
    · exact ⟨fun _ => during, fun _ => (phases.state_of_running hjN running).1⟩
    · have idle : (states (k + latency + 3)).icap.nextState = .idle := (seen _ hjN _ ended).1
      exact ⟨fun h => absurd (idle.symm.trans h) (by decide), fun h => by omega⟩
    · exact ⟨fun h => absurd h (seen _ hjN _ quiet).1, fun h => by omega⟩
  · rcases times.cases hkj hj hjN with ⟨rfl, accepted⟩ | ⟨during, running⟩ | ⟨rfl, ended⟩ |
      ⟨rfl, quiet⟩
    · exact ⟨fun _ => by omega, fun _ => (seen _ hjN _ accepted).2.mpr ⟨rfl, rfl⟩⟩
    · exact ⟨fun _ => by omega, fun _ => (phases.state_of_running hjN running).2⟩
    · exact ⟨fun _ => Nat.le_refl _, fun _ => (seen _ hjN _ ended).2.mpr ⟨rfl, rfl⟩⟩
    · exact ⟨fun h => (Bool.false_ne_true ((seen _ hjN _ quiet).2.mp h).1).elim,
        fun h => by omega⟩
  · -- the step that finds the transfer ended installs
    have ended := times.ended (by omega)
    obtain ⟨icap, rr, -, hrr, hnext⟩ := step_eq_ok.mp (trace.step_eq (k := k + latency + 3) hN)
    obtain ⟨m, m', moves⟩ := RrSide.rrc_of_sweep hrr r
    have here := phases.holds (k + latency + 3) (by omega)
    rw [ended] at here
    have state := ((here.rr.receive r).mpr ⟨rfl, rfl⟩)
    obtain ⟨a, b, c, x, level, bitstream, -, -, -, handle, -, after⟩ :=
      moves.of_ended state ((here.reads (envs (k + latency + 3))).signal r)
    have rrc : (states (k + latency + 4)).rr.rrc r = rr.rrc r := by rw [hnext]
    rw [rrc, after]
    exact ⟨rfl, handle⟩

end Run

/-- The run with a second request, where every region is two words wide. -/
def twoWords : IcapRr 2 LoneTask :=
  { initial with icap := { initial.icap with regionWidth := fun _ => some 8 } }

/-- The transfer is accepted in the fifth cycle and installed in the tenth. -/
theorem runs_on_schedule_twoWords :
    ∃ states, Machine.Trace step againEnv twoWords 12 states ∧ Accepts states 1 4 ∧
      (states 5).latencyOf 1 = 2 ∧
        RunsOnSchedule againEnv 12 states 1 4 ((states 5).latencyOf 1) := by
  have completes : (Machine.run step againEnv twoWords 12).isOk = true := by decide +kernel
  obtain ⟨states, trace⟩ := Machine.Trace.exists_of_isOk completes
  have before : ((states 4).rr.rrc 1).nextState = .idle :=
    trace.observe (f := fun s => (s.rr.rrc 1).nextState) (by omega) (by decide +kernel)
  have after : (states 5).Receives 1 :=
    trace.observe (f := fun s => (s.rr.rrc 1).nextState) (by omega) (by decide +kernel)
  have latency : (states 5).latencyOf 1 = 2 :=
    trace.observe (f := fun s => s.latencyOf 1) (by omega) (by decide +kernel)
  have accepts : Accepts states 1 4 :=
    ⟨fun receives => absurd (before.symm.trans receives) (by decide), after⟩
  refine ⟨states, trace, accepts, latency, runs_on_schedule ?_ trace (by omega) accepts⟩
  exact ⟨initial_starts.icap, initial_starts.rrc, initial_starts.context⟩

end IcapRr

end Drachma
