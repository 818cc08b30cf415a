import Drachma.Prc

/-!
# Tasks are handed on or held

`PRC_TASK_SCHEDULE` takes a task off the scheduler's queue before a bitstream is
chosen for it.  By the time the PRC schedules again, the task should have been
handed on — the ICAP has acknowledged a request for its bitstream, or an RR
controller has acknowledged its enqueueing — or still be held by the scheduler
(`Conserves`).

A choice that is rejected returns to `PRC_TASK_SCHEDULE` and does nothing else:
the comment there has the scheduler choose a task again, and the scheduler has
`blockCurrentTask` for it, which is not called.  So a rejected task is held only
if its key was queued a second time.

## Main results

* `Prc.conserves_iff_rejected_held` — a run conserves its tasks exactly when every
  task it rejects is still held.
* `Prc.busy_region_loses_task` — a run that loses one.
-/

namespace Drachma

namespace Prc

variable {n : ℕ} {Node : Type} [GraphNode Node]
variable (policies : SchedulingPolicies n Node (FcfsScheduler Node))
variable (inputs : ℕ → PrcWires n) (s₀ : Prc n Node (FcfsScheduler Node))

/-- In step `k` of the run, `PRC_TASK_SCHEDULE` takes the task with this key. -/
def Takes (k : ℕ) (key : String) (task : Node) : Prop :=
  ∃ s rest, run policies inputs s₀ k = .ok s ∧ s.nextState = .taskSchedule ∧
    s.schedulingAlg.taskQueue = (key, task) :: rest

/-- In step `l`, the task taken in step `k` is handed on: the acknowledgement of
the ICAP is seen for a request of the bitstream chosen for it, or that of the RR
controllers while it is being enqueued. -/
def HandedOn (k l : ℕ) (task : Node) : Prop :=
  ∃ s bitstream, run policies inputs s₀ l = .ok s ∧ s.scheduledTask = some task ∧
    s.scheduledBs = some bitstream ∧
      policies.getBitstreamForTask task (inputs (k + 1)).prrExecuting =
          .ok (true, bitstream) ∧
        (s.nextState = .reqIcap ∧ s.icapReq = true ∧ (inputs l).icapAck = true ∨
          s.nextState = .rrEnqueue ∧ (inputs l).prrAck = true ∧
            ∃ i : Fin n, i.val = bitstream.regionId ∧ s.prrEnqueue i = true)

/-- Every task that is taken has been handed on or is held when the PRC next gets
to `PRC_TASK_SCHEDULE`. -/
def Conserves : Prop :=
  ∀ k key task, Takes policies inputs s₀ k key task → ∀ j > k, ∀ t,
    run policies inputs s₀ j = .ok t → t.nextState = .taskSchedule →
      (∀ l, k < l → l < j → ∀ u, run policies inputs s₀ l = .ok u →
        u.nextState ≠ .taskSchedule) →
        (∃ l, k < l ∧ l < j ∧ HandedOn policies inputs s₀ k l task) ∨
          key ∈ t.schedulingAlg.heldKeys

/-- The `PRC_RR_SCHEDULE` step out of `s` rejects the task it is to choose a
bitstream for. -/
def RejectsTask (w : PrcWires n) (s : Prc n Node (FcfsScheduler Node)) : Prop :=
  ∃ targetBs installed transferring, Chooses policies w s targetBs installed transferring ∧
    Rejects targetBs installed transferring

/-- A task whose choice is rejected is still held by the scheduler. -/
def RejectedHeld : Prop :=
  ∀ k key task, Takes policies inputs s₀ k key task → ∀ s,
    run policies inputs s₀ (k + 1) = .ok s → RejectsTask policies (inputs (k + 1)) s →
      key ∈ s.schedulingAlg.heldKeys

/-- The PRC requests `bitstream` of the ICAP for `task`. -/
structure Requesting (task : Node) (bitstream : ModuleSpec Double)
    (s : Prc n Node (FcfsScheduler Node)) : Prop where
  ready : s.stallCount = 0
  state : s.nextState = .reqIcap
  req : s.icapReq = true
  task : s.scheduledTask = some task
  bitstream : s.scheduledBs = some bitstream

variable {policies} {inputs} {s₀}
variable {k : ℕ} {task : Node} {bitstream : ModuleSpec Double}
variable {s s' : Prc n Node (FcfsScheduler Node)}

omit [GraphNode Node] in
/-- A request goes on until the ICAP acknowledges, and is then over. -/
theorem Requesting.step {w : PrcWires n} (requesting : Requesting task bitstream s)
    (move : Moves policies w s s') :
    w.icapAck = false ∧ Requesting task bitstream s' ∨
      w.icapAck = true ∧ s'.nextState = .taskSchedule := by
  obtain ⟨ready, state, req, htask, hbs⟩ := requesting
  rcases move.of_reqIcap ready state with ⟨noAck, rfl⟩ | ⟨ack, rfl⟩
  · exact .inl ⟨noAck, by simp, state, req, htask, hbs⟩
  · exact .inr ⟨ack, rfl⟩

omit [GraphNode Node] in
/-- A request that has begun is still going on, or has been acknowledged since. -/
theorem Requesting.run {i j : ℕ} (hij : i ≤ j)
    (began : ∀ u, run policies inputs s₀ i = .ok u → Requesting task bitstream u)
    (hrun : run policies inputs s₀ j = .ok s) :
    Requesting task bitstream s ∨
      ∃ l u, i ≤ l ∧ l < j ∧ run policies inputs s₀ l = .ok u ∧
        Requesting task bitstream u ∧ (inputs l).icapAck = true := by
  induction j, hij using Nat.le_induction generalizing s with
  | base => exact .inl (began s hrun)
  | succ j hij ih =>
      obtain ⟨u, hu, hstep⟩ := Machine.run_succ_eq_ok.mp hrun
      rcases ih hu with requesting | ⟨l, v, hil, hlj, acked⟩
      · rcases requesting.step (moves_of_step hstep) with ⟨-, still⟩ | ⟨ack, -⟩
        · exact .inl still
        · exact .inr ⟨j, u, hij, by omega, hu, requesting, ack⟩
      · exact .inr ⟨l, v, hil, by omega, acked⟩

section Run

variable {selector : LftFeSelector} {raw : Prc n Node (FcfsScheduler Node)}
variable {graph : TaskGraph Node} {key : String}

/-- The task that is taken is the one a bitstream is then chosen for. -/
theorem scheduled_of_takes
    (takes : Takes (lftFePolicies selector) inputs (new raw (.initializeQueue graph)) k key task)
    (hrun : run (lftFePolicies selector) inputs (new raw (.initializeQueue graph)) (k + 1) =
      .ok s) :
    s.stallCount = 0 ∧ s.nextState = .rrSchedule ∧ s.scheduledTask = some task := by
  obtain ⟨u, rest, hu, state, queue⟩ := takes
  have ready := ready_of_run k u hu
  obtain ⟨task', alg, current, -, rfl⟩ := (moves_of_run hu hrun).of_taskSchedule ready state
  obtain ⟨key', rest', queue'⟩ := FcfsScheduler.getCurrentTask_eq_ok.mp current
  rw [queue] at queue'
  cases queue'
  exact ⟨by simp, rfl, rfl⟩

omit [GraphNode Node] in
/-- After a hit there is no next state but the one without a case. -/
theorem run_ne_ok_after_hit {i j : ℕ} (hij : i < j) (hrun : run policies inputs s₀ i = .ok s)
    (ready : s.stallCount = 0) (state : s.nextState = .rrEnqueue) :
    run policies inputs s₀ j ≠ .ok s' := by
  intro h
  obtain ⟨t, ht⟩ := Machine.run_ok_of_le (show i + 1 ≤ j by omega) h
  exact (moves_of_run hrun ht).state_ne_rrEnqueue ready state

omit [GraphNode Node] in
/-- A task whose bitstream is requested is handed on by the time the PRC schedules
again. -/
theorem handedOn_of_request
    {policies : SchedulingPolicies n Node (FcfsScheduler Node)}
    {s₀ : Prc n Node (FcfsScheduler Node)}
    (chosen : policies.getBitstreamForTask task (inputs (k + 1)).prrExecuting =
      .ok (true, bitstream))
    (requested : ∀ u, run policies inputs s₀ (k + 2) = .ok u → Requesting task bitstream u)
    {j : ℕ} (hj : k + 2 ≤ j) (hrun : run policies inputs s₀ j = .ok s)
    (state : s.nextState = .taskSchedule) :
    ∃ l, k < l ∧ l < j ∧ HandedOn policies inputs s₀ k l task := by
  rcases Requesting.run hj requested hrun with requesting | ⟨l, u, hl, hlj, hu, requesting, ack⟩
  · rw [requesting.state] at state
    cases state
  · exact ⟨l, by omega, hlj, u, bitstream, hu, requesting.task, requesting.bitstream, chosen,
      .inl ⟨requesting.state, requesting.req, ack⟩⟩

/-- **A run conserves its tasks exactly when the tasks it rejects are still
held.** -/
theorem conserves_iff_rejected_held (raw : Prc n Node (FcfsScheduler Node))
    (graph : TaskGraph Node) (selector : LftFeSelector) (inputs : ℕ → PrcWires n) :
    Conserves (lftFePolicies selector) inputs (new raw (.initializeQueue graph)) ↔
      RejectedHeld (lftFePolicies selector) inputs (new raw (.initializeQueue graph)) := by
  constructor
  · intro conserves k key task takes s hrun ⟨targetBs, installed, transferring, chosen, rejected⟩
    obtain ⟨ready, state, -⟩ := scheduled_of_takes takes hrun
    have hnext := run_of_moves hrun (.reject ready state chosen rejected)
    have between : ∀ l, k < l → l < k + 2 → ∀ u,
        run (lftFePolicies selector) inputs (new raw (.initializeQueue graph)) l = .ok u →
          l = k + 1 ∧ u = s := by
      intro l hkl hlk u hu
      obtain rfl : l = k + 1 := by omega
      exact ⟨rfl, run_inj hu hrun⟩
    have first : ∀ l, k < l → l < k + 2 → ∀ u,
        run (lftFePolicies selector) inputs (new raw (.initializeQueue graph)) l = .ok u →
          u.nextState ≠ .taskSchedule := by
      intro l hkl hlk u hu
      rw [(between l hkl hlk u hu).2, state]
      simp
    rcases conserves k key task takes (k + 2) (by omega) _ hnext rfl first with
      ⟨l, hkl, hlk, u, b, hu, -, -, -, handed⟩ | held
    · -- in between there is only the step that rejected the task
      obtain ⟨rfl, rfl⟩ := between l hkl hlk u hu
      rcases handed with ⟨h, -⟩ | ⟨h, -⟩ <;> rw [state] at h <;> cases h
    · exact held
  · intro held k key task takes j hkj t hrun state first
    obtain ⟨s, hs⟩ := Machine.run_ok_of_le (show k + 1 ≤ j by omega) hrun
    obtain ⟨ready, scheduling, htask⟩ := scheduled_of_takes takes hs
    have hj : k + 2 ≤ j := by
      by_contra hlt
      obtain rfl : j = k + 1 := by omega
      rw [run_inj hrun hs, scheduling] at state
      cases state
    obtain ⟨u, hu⟩ := Machine.run_ok_of_le hj hrun
    rcases (moves_of_run hs hu).of_rrSchedule ready scheduling with
      ⟨_, _, _, chosen, rejected, rfl⟩ | ⟨_, _, chosen, rfl⟩ |
        ⟨bitstream, installed, chosen, missing, rfl⟩
    · -- rejected: the PRC is back in `PRC_TASK_SCHEDULE` at once
      have hjk : j = k + 2 := by
        by_contra hne
        exact first (k + 2) (by omega) (by omega) _ hu rfl
      subst hjk
      obtain rfl := run_inj hu hrun
      exact .inr (held k key task takes s hs ⟨_, _, _, chosen, rejected⟩)
    · -- a hit: the run does not get back to `PRC_TASK_SCHEDULE`
      rcases Nat.lt_or_ge (k + 2) j with hlt | hge
      · exact absurd hrun (run_ne_ok_after_hit hlt hu (by simp) rfl)
      · obtain rfl : j = k + 2 := by omega
        obtain rfl := run_inj hu hrun
        cases state
    · obtain ⟨task', htask', hbs⟩ := chosen.bitstream
      obtain rfl := Option.some.inj (htask.symm.trans htask')
      refine .inl (handedOn_of_request hbs ?_ hj hrun state)
      intro v hv
      obtain rfl := run_inj hu hv
      exact ⟨by simp, rfl, rfl, htask, rfl⟩

end Run

/-! ## A run that loses a task -/

/-- Region 0 is executing in every cycle. -/
def busyInputs (_ : ℕ) : PrcWires 1 :=
  { prrExecuting := fun _ => true
    rrBitstreamId := fun _ => unsignedMinusOne
    prrAck := false
    icapAck := false
    icapTargetRr := none
    icapTrans := false }

/-- **A busy region costs a task**: the only task is taken in the second step and
rejected in the third, and the scheduler holds nothing. -/
theorem busy_region_loses_task :
    ∃ capabilities selector,
      Application.getRrTaskCapabilites Application.oneRegion.rrSpecMap = .ok capabilities ∧
      LftFeSelector.new capabilities Application.oneRegion.rrSpecMap = .ok selector ∧
      (∃ s, run (lftFePolicies selector) busyInputs
          (new rawPrc (.initializeQueue ⟨[("t", ⟨"a"⟩)]⟩)) 3 = .ok s ∧
        s.nextState = .taskSchedule ∧ s.schedulingAlg.heldKeys = []) ∧
      ¬ Conserves (lftFePolicies selector) busyInputs
          (new rawPrc (.initializeQueue ⟨[("t", ⟨"a"⟩)]⟩)) := by
  refine ⟨_, _, rfl, rfl, ⟨_, rfl, rfl, rfl⟩, fun conserves => ?_⟩
  have lost := conserves 1 "t" ⟨"a"⟩ ⟨_, _, rfl, rfl, rfl⟩ 3 (by omega) _ rfl rfl <| by
    intro l hl hl' u hu
    obtain rfl : l = 2 := by omega
    cases hu
    decide
  rcases lost with ⟨l, hl, hl', u, b, hu, -, -, -, handed⟩ | held
  · obtain rfl : l = 2 := by omega
    cases hu
    rcases handed with ⟨h, -⟩ | ⟨h, -⟩ <;> cases h
  · cases held

end Prc

end Drachma
