import Drachma.Prc

/-!
# Delivering a task to an installed bitstream

When `PRC_RR_SCHEDULE` finds that the chosen bitstream is installed already, it
goes to `PRC_RR_ENQUEUE`, in order to enqueue the task at the RR controller.
What should follow is the enqueue handshake (`Delivers`): the region's bit of
`prr_enqueue_`, and no other, is asserted until the controllers acknowledge, and
then released.

`prc::step` has no case for `PRC_RR_ENQUEUE`, so what follows is the exception of
its default case.

## Main results

* `Prc.delivers_iff_no_hit` — a PRC delivers all its hits and never ends in that
  exception exactly when it has no hits.
* `Prc.hit_ends_run` — a run that ends so.
-/

namespace Drachma

/-! ## Which exceptions the policies throw -/

open Machine (Avoids)

namespace LftFeSelector

variable {n : ℕ} {Node : Type} [GraphNode Node]

theorem firstIdleRr_avoids (exeBus : Bus n Bool) (fuel : ℕ) (queue : LfRrModuleMinPq) :
    Avoids Fault.IsRuntimeError (firstIdleRr exeBus fuel queue) := by
  induction fuel generalizing queue with
  | zero => exact Machine.avoids_ok _
  | succ fuel ih =>
      unfold firstIdleRr
      cases queue.top? with
      | none => exact Machine.avoids_ok _
      | some rr =>
          refine (exeBus.read_avoids_runtimeError rr.1).bind fun busy _ => ?_
          cases busy with
          | false => exact Machine.avoids_ok _
          | true => exact ih queue.pop

theorem getRrForTask_avoids (selector : LftFeSelector) (task : Node) (exeBus : Bus n Bool) :
    Avoids Fault.IsRuntimeError (selector.getRrForTask task exeBus) := by
  unfold getRrForTask
  refine (lookupAt_avoids_runtimeError _).bind fun typeId _ => ?_
  cases selector.taskLftRrMap.find? typeId with
  | none => exact Machine.avoids_error not_false
  | some queue => exact firstIdleRr_avoids exeBus queue.size queue

/-- The selector throws no `runtime_error`. -/
theorem getBitstreamForTask_avoids (selector : LftFeSelector) (task : Node)
    (exeBus : Bus n Bool) :
    Avoids Fault.IsRuntimeError (selector.getBitstreamForTask task exeBus) := by
  unfold getBitstreamForTask
  refine (getRrForTask_avoids selector task exeBus).bind fun choice _ => ?_
  cases choice.1 with
  | false => exact Machine.avoids_ok _
  | true =>
      refine (lookupAt_avoids_runtimeError _).bind fun typeId _ => ?_
      refine (lookupAt_avoids_runtimeError _).bind fun rrs _ => ?_
      refine (lookupAt_avoids_runtimeError _).bind fun speeds _ => ?_
      refine Avoids.bind ?_ fun top _ => ?_
      · cases speeds.top? with
        | none => exact Machine.avoids_error not_false
        | some top => exact Machine.avoids_ok _
      refine (lookupAt_avoids_runtimeError _).bind fun modules _ => ?_
      refine (lookupAt_avoids_runtimeError _).bind fun bitstream _ => ?_
      exact Machine.avoids_ok _

end LftFeSelector

namespace FcfsScheduler

variable {Node : Type}

theorem front_avoids (s : FcfsScheduler Node) : Avoids Fault.IsRuntimeError s.front := by
  unfold front
  cases s.taskQueue with
  | nil => exact Machine.avoids_error not_false
  | cons entry rest => exact Machine.avoids_ok _

theorem getCurrentTask_avoids (s : FcfsScheduler Node) :
    Avoids Fault.IsRuntimeError s.getCurrentTask :=
  (front_avoids s).bind fun _ _ => Machine.avoids_ok _

theorem prepareNextTask_avoids [GraphNode Node] (s : FcfsScheduler Node) :
    Avoids Fault.IsRuntimeError s.prepareNextTask := by
  refine (getCurrentTask_avoids s).bind fun task _ => ?_
  unfold removeCurrentTask
  cases s.taskQueue ++ s.newSuccessors task with
  | nil => exact Machine.avoids_error not_false
  | cons entry rest => exact Machine.avoids_ok _

end FcfsScheduler

namespace Prc

variable {n : ℕ} {Node : Type} [GraphNode Node]

/-- Whether the ICAP is transferring is read off pointers. -/
theorem icapTransferringToRr_avoids (w : PrcWires n) (rrId : ℕ) :
    Avoids Fault.IsRuntimeError (icapTransferringToRr w rrId) := by
  unfold icapTransferringToRr
  cases w.icapTrans with
  | false => exact Machine.avoids_ok _
  | true =>
      refine Avoids.bind ?_ fun target _ => Machine.avoids_ok _
      cases w.icapTargetRr with
      | none => exact Machine.avoids_error not_false
      | some target => exact Machine.avoids_ok _

/-! ## The hit path -/

/-- In `PRC_RR_SCHEDULE`, the chosen bitstream is the one installed in region `r`. -/
def HitAt {σ : Type} (policies : SchedulingPolicies n Node σ) (w : PrcWires n)
    (s : Prc n Node σ) (r : ℕ) : Prop :=
  s.stallCount = 0 ∧ s.nextState = .rrSchedule ∧ ∃ bitstream transferring,
    Chooses policies w s (true, bitstream) bitstream.id transferring ∧
      bitstream.regionId = r

/-- The runtime error of a state without a case. -/
def unknownState : Fault := .runtimeError "PRC has reached an unknown state."

variable (policies : SchedulingPolicies n Node (FcfsScheduler Node))
variable (inputs : ℕ → PrcWires n) (s₀ : Prc n Node (FcfsScheduler Node))

/-- After step `k` the PRC performs the enqueue handshake with the controller of
region `r`, starting at some time `a`. -/
def Delivers (k r : ℕ) : Prop :=
  ∃ a > k, ∀ j ≥ a, (∀ i, a ≤ i → i < j → (inputs i).prrAck = false) →
    -- no acknowledgement has been seen yet: bit `r` and no other is asserted
    (∃ s, run policies inputs s₀ j = .ok s ∧
      ∀ i : Fin n, s.prrEnqueue i = decide (i.val = r)) ∧
    -- the acknowledgement is seen: all bits are released
    ((inputs j).prrAck = true → ∃ s, run policies inputs s₀ (j + 1) = .ok s ∧
      s.nextState = .taskSchedule ∧ ∀ i, s.prrEnqueue i = false)

/-- Every hit is delivered, and the run does not end in the exception of the
default case. -/
structure DeliversHits : Prop where
  delivered : ∀ k s r, run policies inputs s₀ k = .ok s →
    HitAt policies (inputs k) s r → Delivers policies inputs s₀ k r
  known : ∀ k, run policies inputs s₀ k ≠ .error unknownState

variable {policies} {selector : LftFeSelector} {inputs} {s₀}
variable {w : PrcWires n} {s : Prc n Node (FcfsScheduler Node)}

/-- The exception of the default case comes from `PRC_RR_ENQUEUE` only. -/
theorem state_of_step_eq_unknownState
    (h : step (lftFePolicies selector) w s = .error unknownState) :
    s.nextState = .rrEnqueue := by
  have bad : Fault.IsRuntimeError unknownState := trivial
  by_cases ready : s.stallCount = 0
  swap
  · simp only [step, ready, ne_eq, not_false_eq_true, if_true] at h
    cases h
  rw [step_of_ready ready] at h
  rcases Machine.bind_eq_error.mp h with h | ⟨t, -, h⟩
  swap
  · cases h
  rw [stepState_latch] at h
  cases state : s.nextState with
  | init => simp only [state] at h; cases h
  | taskSchedule =>
      simp only [state] at h
      refine absurd bad (Avoids.bind ?_ ?_ _ h)
      · exact FcfsScheduler.getCurrentTask_avoids _
      · intro task _
        exact (FcfsScheduler.prepareNextTask_avoids _).bind fun _ _ => Machine.avoids_ok _
  | rrSchedule =>
      simp only [state] at h
      refine absurd bad (Avoids.bind ?_ ?_ _ h)
      · cases s.latch.scheduledTask with
        | none => exact Machine.avoids_error not_false
        | some task => exact Machine.avoids_ok _
      · intro task _
        refine (LftFeSelector.getBitstreamForTask_avoids _ _ _).bind fun targetBs _ => ?_
        refine (Bus.read_avoids_runtimeError _ _).bind fun installed _ => ?_
        exact (icapTransferringToRr_avoids _ _).bind fun _ _ => Machine.avoids_ok _
  | reqIcap => simp only [state] at h; cases h
  | rrEnqueue => rfl

omit [GraphNode Node] in
/-- Without a hit the PRC does not get to `PRC_RR_ENQUEUE`. -/
theorem state_ne_rrEnqueue {s' : Prc n Node (FcfsScheduler Node)}
    (move : Moves policies w s s') (state : s.nextState ≠ .rrEnqueue)
    (noHit : ∀ r, ¬ HitAt policies w s r) : s'.nextState ≠ .rrEnqueue := by
  cases move with
  | stall stalled => simpa using state
  | hold ready state' noAck => simp [state']
  | hit ready state' chosen => exact absurd ⟨ready, state', _, _, chosen, rfl⟩ (noHit _)
  | _ => simp

omit [GraphNode Node] in
/-- A hit is followed by the exception of the default case. -/
theorem run_eq_unknownState_of_hit {k r : ℕ} (hrun : run policies inputs s₀ k = .ok s)
    (hit : HitAt policies (inputs k) s r) :
    run policies inputs s₀ (k + 2) = .error unknownState := by
  obtain ⟨ready, state, bitstream, transferring, chosen, -⟩ := hit
  have hnext := run_of_moves hrun (.hit ready state chosen)
  refine (Machine.run_succ_of_ok hnext).trans ?_
  rw [step_of_ready (by simp), stepState_latch]
  rfl

/-- **A PRC delivers its hits exactly when it has none.** -/
theorem delivers_iff_no_hit (raw : Prc n Node (FcfsScheduler Node)) (graph : TaskGraph Node)
    (selector : LftFeSelector) (inputs : ℕ → PrcWires n) :
    DeliversHits (lftFePolicies selector) inputs (new raw (.initializeQueue graph)) ↔
      ∀ k s, run (lftFePolicies selector) inputs (new raw (.initializeQueue graph)) k = .ok s →
        ∀ r, ¬ HitAt (lftFePolicies selector) (inputs k) s r := by
  constructor
  · intro delivers k s hrun r hit
    exact delivers.known _ (run_eq_unknownState_of_hit hrun hit)
  · intro noHit
    have states : ∀ k s,
        run (lftFePolicies selector) inputs (new raw (.initializeQueue graph)) k = .ok s →
          s.nextState ≠ .rrEnqueue := by
      refine Machine.run_invariant (by simp [new]) fun k s s' hrun state hstep => ?_
      exact state_ne_rrEnqueue (moves_of_step hstep) state (noHit k s hrun)
    refine ⟨fun k s r hrun hit => absurd hit (noHit k s hrun r), fun k => ?_⟩
    induction k with
    | zero => intro h; cases h
    | succ k ih =>
        intro h
        rcases Machine.run_succ_eq_error.mp h with h | ⟨s, hrun, hstep⟩
        · exact ih h
        · exact states k s hrun (state_of_step_eq_unknownState hstep)

/-! ## A run that ends on a hit -/

/-- Region 0 holds bitstream 7, is not executing, and nothing is transferred. -/
def installedInputs (_ : ℕ) : PrcWires 1 :=
  { prrExecuting := fun _ => false
    rrBitstreamId := fun _ => 7
    prrAck := false
    icapAck := false
    icapTargetRr := none
    icapTrans := false }

/-- **A hit ends the run.**  With one task and its bitstream installed, the PRC
throws in its fourth step, and the task is not delivered. -/
theorem hit_ends_run :
    ∃ capabilities selector,
      Application.getRrTaskCapabilites Application.oneRegion.rrSpecMap = .ok capabilities ∧
      LftFeSelector.new capabilities Application.oneRegion.rrSpecMap = .ok selector ∧
      run (lftFePolicies selector) installedInputs
          (new rawPrc (.initializeQueue ⟨[("t", ⟨"a"⟩)]⟩)) 4 = .error unknownState ∧
      ¬ DeliversHits (lftFePolicies selector) installedInputs
          (new rawPrc (.initializeQueue ⟨[("t", ⟨"a"⟩)]⟩)) :=
  ⟨_, _, rfl, rfl, rfl, fun delivers => delivers.known 4 rfl⟩

end Prc

end Drachma
