import Drachma.TransferExclusion

/-!
# The cold start

The ICAP takes up a request of the PRC only while the region of its last bitstream
executes, and otherwise goes to wait for an answer to a request it has not made.  A
region, in turn, begins to execute only what its controller has a task for, and the
controllers are constructed without tasks: they get them with a transfer.  So after
construction each side waits for the other, whatever the PRC does.

The ICAP and the RR controllers run as in the exclusion of transfers, with arbitrary
signals of the PRC and arbitrary handles.

## Main results

* `IcapRr.Cold` — the invariant; `IcapRr.Cold.step` says what a cycle does.
* `IcapRr.never_warms` — no region ever executes, nothing is ever transferred, and the
  first request of the PRC is the last one that the ICAP sees.
-/

namespace Drachma

/-! ## The two sides -/

namespace Icap

variable {n : ℕ}

/-- The ICAP has taken up no request. -/
structure Cold (s : Icap n) : Prop where
  state : s.nextState = .init ∨ s.nextState = .idle ∨ s.nextState = .wait
  stall : s.stallCount ≠ 0 → s.nextState = .init
  noAck : s.prcAck = false
  noReq : ∀ i, s.prrCtrlReq i = false
  noTransfer : s.transferring = false

variable {w : IcapWires n} {s s' : Icap n}

/-- A cold ICAP that sees no region execute and no acknowledgement stays cold.  It goes to
wait when it is idle and sees a request, and stays there. -/
theorem Cold.step (cold : s.Cold) (moves : Moves w s s')
    (noExe : ∀ i, w.prrExecuting i = false) (noAck : w.prrCtrlAck = false) :
    s'.Cold ∧ (s'.nextState = .wait ↔
      s.nextState = .wait ∨ s.nextState = .idle ∧ w.prcReq = true) := by
  obtain ⟨state, stall, noPrcAck, noReq, noTransfer⟩ := cold
  have silent : (s.latch w).prcAck = false := by rw [latch_prcAck, noPrcAck]; rfl
  cases moves with
  | stall stalled =>
      have init := stall stalled
      exact ⟨⟨.inl init, fun _ => init, noPrcAck, noReq, noTransfer⟩, by simp [init]⟩
  | init ready init =>
      exact ⟨⟨.inr (.inl rfl), fun h => absurd ready h, silent, noReq, noTransfer⟩,
        by simp [init]⟩
  | rest ready idle noPrcReq =>
      exact ⟨⟨.inr (.inl idle), fun h => absurd ready h, silent, noReq, noTransfer⟩,
        by simp [idle, noPrcReq]⟩
  | accept _ _ _ _ busy =>
      -- no region executes, so that the request is not taken up
      obtain ⟨h, busy⟩ := Bus.read_eq_ok.mp busy
      rw [noExe] at busy
      cases busy
  | skip ready idle req =>
      exact ⟨⟨.inr (.inr rfl), fun h => absurd ready h, silent, noReq, noTransfer⟩,
        by simp [idle, req]⟩
  | hold _ ack => rw [ack] at state; simp at state
  | take _ ack => rw [ack] at state; simp at state
  | wait ready wait =>
      exact ⟨⟨.inr (.inr wait), fun h => absurd ready h, silent, noReq, noTransfer⟩,
        by simp [wait]⟩
  | grant _ _ _ ack => rw [noAck] at ack; cases ack
  | count _ transfer => rw [transfer] at state; simp at state
  | finish _ transfer => rw [transfer] at state; simp at state

end Icap

namespace RrController

variable {Node : Type} {w : RrcWires Node} {s s' c : RrController Node} {m x : Memory}
variable {a : ℕ}

/-- The controller has no task to begin, receives nothing and reports nothing. -/
structure Cold (s : RrController Node) : Prop where
  noTasks : s.installedBs.tasks = []
  state : s.nextState ≠ .transfer
  noExe : s.prrExecuting = false
  noAck : s.icapAck = false

/-- Without a task in the installed bitstream nothing is begun. -/
theorem Begins.tasks_ne_nil (begins : Begins s m a x) : s.installedBs.tasks ≠ [] := by
  intro none
  obtain ⟨task, found, -⟩ := begins
  unfold getSpecForTaskFromBs at found
  rw [none] at found
  cases found

/-- Waking up leaves a controller cold. -/
theorem Wakes.cold (wakes : Wakes w s m a c x) (cold : s.Cold) : c.Cold where
  noTasks := by rw [wakes.installedBs_eq]; exact cold.noTasks
  state := by rw [wakes.nextState_eq]; exact cold.state
  noExe := by rw [wakes.prrExecuting_eq, cold.noExe]; rfl
  noAck := by rw [wakes.icapAck_eq, cold.noAck]; rfl

/-- A cold controller stays cold as long as it is not requested to receive. -/
theorem Cold.step [GraphNode Node] (cold : s.Cold) (moves : Moves w s m s' x)
    (noReq : w.icapReq = false) : s'.Cold := by
  cases moves with
  | init wakes =>
      have after := wakes.cold cold
      exact ⟨after.noTasks, nofun, after.noExe, after.noAck⟩
  | rest wakes => exact wakes.cold cold
  | wait wakes => exact wakes.cold cold
  | startQueued wakes _ _ _ _ begins => exact absurd (wakes.cold cold).noTasks begins.tasks_ne_nil
  | startRequested wakes _ _ _ _ _ _ _ begins =>
      exact absurd (wakes.cold cold).noTasks begins.tasks_ne_nil
  | decline _ _ _ _ req => rw [noReq] at req; cases req
  | accept _ _ _ _ req => rw [noReq] at req; cases req
  | hold _ receiving => exact absurd receiving cold.state
  | install _ receiving => exact absurd receiving cold.state

end RrController

/-! ## The two sides together -/

namespace IcapRr

variable {n : ℕ} {Node : Type} [GraphNode Node]

/-- Both sides are cold, and each sees that the other is. -/
structure Cold (s : IcapRr n Node) : Prop where
  icap : s.icap.Cold
  rrc : ∀ i, (s.rr.rrc i).Cold
  noExe : ∀ i, s.context.storedPrrExecuting i = false
  noAck : s.context.storedPrrIcapAck = false
  noReq : ∀ i, s.context.storedIcapPrrCtrlReq i = false

omit [GraphNode Node] in
/-- After construction both sides are cold. -/
theorem Cold.of_starts {s : IcapRr n Node} (start : s.Starts)
    (noTasks : ∀ i, (s.rr.rrc i).installedBs.tasks = []) : s.Cold where
  icap :=
    { state := .inl start.icap.1
      stall := fun _ => start.icap.1
      noAck := start.icap.2.1
      noReq := start.icap.2.2.1
      noTransfer := start.icap.2.2.2 }
  rrc i :=
    { noTasks := noTasks i
      state := by rw [(start.rrc i).1]; decide
      noExe := (start.rrc i).2.1
      noAck := (start.rrc i).2.2.2 }
  noExe := start.context.2.2.2.2.2
  noAck := start.context.2.2.1
  noReq := start.context.1

variable {env : IcapRrEnv n Node} {s s' : IcapRr n Node}

/-- **The step lemma.** -/
theorem Cold.step (cold : s.Cold) (h : s.step env = .ok s') :
    s'.Cold ∧ (s'.icap.nextState = .wait ↔
      s.icap.nextState = .wait ∨
        s.icap.nextState = .idle ∧ s.context.storedPrcIcapReq = true) := by
  obtain ⟨icap, rr, moves, hrr, rfl⟩ := step_eq_ok.mp h
  obtain ⟨icapCold, waits⟩ := cold.icap.step moves cold.noExe cold.noAck
  have rrcCold : ∀ i, (rr.rrc i).Cold := by
    intro i
    obtain ⟨m, m', moves⟩ := RrSide.rrc_of_sweep hrr i
    exact (cold.rrc i).step moves (cold.noReq i)
  refine ⟨⟨icapCold, rrcCold, fun i => (rrcCold i).noExe, ?_, icapCold.noReq⟩, waits⟩
  apply decide_eq_false
  rintro ⟨i, ack⟩
  have silent : (rr.rrc i).icapAck = false := (rrcCold i).noAck
  exact Bool.false_ne_true (silent.symm.trans ack)

/-- What a run of `N` cycles comes to. -/
structure NeverWarms (N : ℕ) (states : ℕ → IcapRr n Node) : Prop where
  /-- No region executes or receives. -/
  regions : ∀ k ≤ N, ∀ i, ((states k).rr.rrc i).prrExecuting = false ∧ ¬ (states k).Receives i
  /-- The ICAP acknowledges nothing, requests nothing and transfers nothing. -/
  icap : ∀ k ≤ N, (states k).icap.prcAck = false ∧
    (∀ i, (states k).icap.prrCtrlReq i = false) ∧ (states k).icap.transferring = false
  /-- It waits as soon as it has seen a request of the PRC, and ever since. -/
  waits : ∀ k ≤ N, (states k).icap.nextState = .wait ↔
    ∃ j < k, (states j).icap.nextState = .idle ∧ (states j).context.storedPrcIcapReq = true

variable {envs : ℕ → IcapRrEnv n Node} {s₀ : IcapRr n Node} {N : ℕ}
variable {states : ℕ → IcapRr n Node}

/-- **A device that is built does not get going.**  From the INIT states, with controllers
that have no task installed, and whatever the PRC signals: no region ever executes, the
ICAP never acknowledges, requests or transfers, and the first request that finds it idle
makes it wait for the rest of the run. -/
theorem never_warms (start : s₀.Starts) (noTasks : ∀ i, (s₀.rr.rrc i).installedBs.tasks = [])
    (trace : Machine.Trace step envs s₀ N states) : NeverWarms N states := by
  have cold : ∀ k ≤ N, (states k).Cold :=
    trace.invariant (P := fun _ s => Cold s) (.of_starts start noTasks)
      fun _ _ cold hstep => (cold.step hstep).1
  refine ⟨fun k hk i => ⟨((cold k hk).rrc i).noExe, ((cold k hk).rrc i).state⟩,
    fun k hk => ⟨(cold k hk).icap.noAck, (cold k hk).icap.noReq, (cold k hk).icap.noTransfer⟩, ?_⟩
  intro k
  induction k with
  | zero =>
      intro _
      rw [trace.start, start.icap.1]
      simp
  | succ k ih =>
      intro hk
      have waits := ((cold k (by omega)).step (trace.step_eq hk)).2
      rw [waits, ih (by omega)]
      constructor
      · rintro (⟨j, hj, seen⟩ | seen)
        · exact ⟨j, by omega, seen⟩
        · exact ⟨k, by omega, seen⟩
      · rintro ⟨j, hj, seen⟩
        rcases Nat.lt_succ_iff_lt_or_eq.mp hj with hjk | rfl
        · exact .inl ⟨j, hjk, seen⟩
        · exact .inr seen

/-- Two regions whose controllers have just been constructed. -/
def constructed : IcapRr 2 LoneTask :=
  { initial with
    rr :=
      { rrc := fun i => RrController.new RrController.rawController i 1
        memory := .oneModule 2 1 5 } }

/-- The PRC requests a transfer in the third cycle. -/
def requestingEnv (k : ℕ) : IcapRrEnv 2 LoneTask :=
  { transferringEnv k with
    prc := { (transferringEnv k).prc with
      icapReq := decide (k = 2), prrStart := fun _ => false } }

/-- The ICAP sees the request in the fourth cycle, and waits. -/
theorem never_warms_constructed :
    ∃ states, Machine.Trace step requestingEnv constructed 8 states ∧
      (states 8).icap.nextState = .wait ∧ NeverWarms 8 states := by
  have completes : (Machine.run step requestingEnv constructed 8).isOk = true := by
    decide +kernel
  obtain ⟨states, trace⟩ := Machine.Trace.exists_of_isOk completes
  refine ⟨states, trace, ?_, never_warms ?_ (fun _ => rfl) trace⟩
  · exact trace.observe (f := fun s => s.icap.nextState) (by omega) (by decide +kernel)
  · exact ⟨⟨rfl, rfl, fun _ => rfl, rfl⟩, fun _ => ⟨rfl, rfl, rfl, rfl⟩,
      fun _ => rfl, rfl, rfl, rfl, rfl, fun _ => rfl⟩

end IcapRr

end Drachma
