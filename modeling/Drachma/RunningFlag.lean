import Drachma.TaskExecution

/-!
# The flag of an executing module

An `rrModule` says twice whether it executes: by its state, and by the flag that
`isRunning` returns.  `beginExecution` sets both, but `step` and `beginTransfer` write
the state only: the flag is set for good.

An RR controller decides by the flag whether its region can take a transfer, so that a
region declines every transfer once an execution in it has ended.

## Main results

* `RrModule.flagAgrees_iff` — the two agree as long as no execution ends.
* `RrController.accepts_iff` — a controller that is free to accept a transfer does so
  exactly if its region's module has never begun an execution.
* `RrController.Moves.still_running` — no step of a controller takes the flag back.
-/

namespace Drachma

/-- The calls that move an `rrModule`. -/
inductive ModuleCall
  | beginTransfer
  | beginExecution (simSpeed : Double) (executionTime : ℕ)
  | step

/-- The call begins an execution. -/
def ModuleCall.Begins (c : ModuleCall) : Prop :=
  ∃ simSpeed executionTime, c = .beginExecution simSpeed executionTime

namespace RrModule

/-- The module after a call. -/
def call (m : RrModule) : ModuleCall → RrModule
  | .beginTransfer => m.beginTransfer
  | .beginExecution simSpeed executionTime => m.beginExecution simSpeed executionTime
  | .step => m.step.2

/-- The module after the first `k` calls of a sequence. -/
def after (m : RrModule) (calls : ℕ → ModuleCall) : ℕ → RrModule
  | 0 => m
  | k + 1 => (m.after calls k).call (calls k)

/-- `isRunning` holds iff the state is `EXEC`. -/
def FlagAgrees (m : RrModule) : Prop := m.isRunning = true ↔ m.currentState = .exec

/-- The call ends an execution that has begun: it begins a transfer, or it is the step
that finds the latency exceeded. -/
def EndsExecution (m : RrModule) : ModuleCall → Prop
  | .beginTransfer => m.executing = true
  | .beginExecution _ _ => False
  | .step => m.executing = true ∧ m.executionLatency < (m.internalTimestep + 1) % 2 ^ 64

variable {m : RrModule} {calls : ℕ → ModuleCall} {N : ℕ}

/-- **The step lemma**: a call that ends an execution leaves the flag behind, and no other
call sets the two apart. -/
theorem FlagAgrees.call_iff (agrees : m.FlagAgrees) (c : ModuleCall) :
    (m.call c).FlagAgrees ↔ ¬ m.EndsExecution c := by
  unfold FlagAgrees isRunning at agrees ⊢
  cases c with
  | beginTransfer =>
      show (m.executing = true ↔ ModuleState.transfer = .exec) ↔ ¬ m.executing = true
      simp
  | beginExecution simSpeed executionTime =>
      show (true = true ↔ ModuleState.exec = .exec) ↔ ¬ False
      simp
  | step =>
      simp only [call, EndsExecution, step]
      generalize (m.internalTimestep + 1) % 2 ^ 64 = timestep
      by_cases exceeds : timestep > m.executionLatency
      · rw [if_pos exceeds]
        simp [exceeds]
      · rw [if_neg exceeds]
        simp [not_lt.mp exceeds, agrees]

/-- Along any calls, the flag agrees as long as none of them ends an execution. -/
theorem flagAgrees_iff_of_start (start : m.FlagAgrees) :
    (∀ k ≤ N, (m.after calls k).FlagAgrees) ↔
      ∀ k < N, ¬ (m.after calls k).EndsExecution (calls k) := by
  constructor
  · intro agrees k hk
    exact ((agrees k (by omega)).call_iff (calls k)).mp (agrees (k + 1) hk)
  · intro none k
    induction k with
    | zero => exact fun _ => start
    | succ k ih => exact fun hk => ((ih (by omega)).call_iff (calls k)).mpr (none k hk)

/-- The flag says whether an execution has ever begun. -/
theorem isRunning_after_iff {k : ℕ} :
    (m.after calls k).isRunning = true ↔
      m.isRunning = true ∨ ∃ j < k, (calls j).Begins := by
  induction k with
  | zero =>
      show m.isRunning = true ↔ _
      simp
  | succ k ih =>
      have call_iff : ((m.after calls k).call (calls k)).isRunning = true ↔
          (m.after calls k).isRunning = true ∨ (calls k).Begins := by
        unfold isRunning
        cases calls k with
        | beginTransfer => simp [call, beginTransfer, ModuleCall.Begins]
        | beginExecution => simp [call, beginExecution, ModuleCall.Begins]
        | step =>
            simp only [call, step, ModuleCall.Begins]
            split <;> simp
      show ((m.after calls k).call (calls k)).isRunning = true ↔ _
      rw [call_iff, ih, or_assoc]
      refine or_congr_right ⟨?_, ?_⟩
      · rintro (⟨j, hj, begins⟩ | begins)
        · exact ⟨j, by omega, begins⟩
        · exact ⟨k, by omega, begins⟩
      · rintro ⟨j, hj, begins⟩
        rcases Nat.lt_succ_iff_lt_or_eq.mp hj with hlt | rfl
        · exact .inl ⟨j, hlt, begins⟩
        · exact .inr begins

end RrModule

namespace RrController

variable {Node : Type} {w : RrcWires Node} {s : RrController Node} {m : Memory} {a : ℕ}

/-- Controller `s` is in `PRR_IDLE` with nothing to start, the module at `a` is its
region's and does not execute, and the ICAP requests to transfer another one there. -/
structure AskedToReceive (w : RrcWires Node) (s : RrController Node) (m : Memory) (a : ℕ) :
    Prop where
  state : s.nextState = .idle
  queue : ∃ c, answerEnqueue w s.latch = .ok c ∧ c.actionQueue = []
  noStart : w.prcStart = false
  req : w.icapReq = true
  resident : m.prr.table s.prrId = some (some a)
  stopped : (m.cells a).currentState ≠ .exec
  other : ∃ bitstream, w.handles.icapTransferBs = some bitstream ∧
    bitstream.regionId = s.prrId ∧ (m.cells a).moduleId ≠ bitstream.id

variable [GraphNode Node]

section Running

variable {s' c : RrController Node} {m' x : Memory} {b : ℕ}

omit [GraphNode Node] in
/-- Writing back a module that runs if the one before did. -/
theorem running_setCell {module : RrModule}
    (kept : (m.cells a).isRunning = true → module.isRunning = true)
    (running : (m.cells b).isRunning = true) :
    ((m.setCell a module).cells b).isRunning = true := by
  rcases eq_or_ne b a with rfl | hne
  · rw [Memory.setCell_cells, Function.update_self]
    exact kept running
  · rw [Memory.setCell_cells, Function.update_of_ne hne]
    exact running

omit [GraphNode Node] in
theorem Wakes.still_running (wakes : Wakes w s m a c x)
    (running : (m.cells b).isRunning = true) : (x.cells b).isRunning = true := by
  rcases eq_or_ne b a with rfl | other
  · rw [wakes.cell_eq]
    show (m.cells b).watch.executing = true
    rw [RrModule.watch_executing]
    exact running
  · rw [wakes.cell_of_ne other]
    exact running

omit [GraphNode Node] in
theorem Begins.still_running (begins : Begins s m a x)
    (running : (m.cells b).isRunning = true) : (x.cells b).isRunning = true := by
  obtain ⟨task, -, -, rfl⟩ := begins
  exact running_setCell (fun _ => rfl) running

/-- **A module that has begun an execution runs for good**, whatever the controllers do. -/
theorem Moves.still_running (moves : Moves w s m s' x)
    (running : (m.cells b).isRunning = true) : (x.cells b).isRunning = true := by
  cases moves with
  | init wakes => exact wakes.still_running running
  | rest wakes => exact wakes.still_running running
  | startQueued wakes _ _ _ _ begins => exact begins.still_running (wakes.still_running running)
  | startRequested wakes _ _ _ _ _ _ _ begins =>
      exact begins.still_running (wakes.still_running running)
  | decline wakes => exact wakes.still_running running
  | accept wakes => exact running_setCell id (wakes.still_running running)
  | wait wakes => exact wakes.still_running running
  | hold wakes => exact wakes.still_running running
  | install wakes _ _ _ _ _ begins =>
      exact begins.still_running (show _ from wakes.still_running running)

end Running

/-- The step accepts the transfer to the region whose module is at `a`. -/
def Accepts (w : RrcWires Node) (s : RrController Node) (m : Memory) (a : ℕ) : Prop :=
  ∃ s' m', step w s m = .ok (s', m') ∧ s'.icapAck = true ∧ s'.nextState = .transfer ∧
    (m'.cells a).currentState = .transfer

omit [GraphNode Node] in
/-- A controller that is asked wakes, and leaves its module alone. -/
theorem AskedToReceive.exists_wakes (asked : AskedToReceive w s m a) :
    ∃ c, Wakes w s m a c m ∧ c.actionQueue = [] := by
  obtain ⟨c, answered, queue⟩ := asked.queue
  have still : (m.cells a).watch = m.cells a := if_neg asked.stopped
  refine ⟨_, ⟨asked.resident, ⟨c, answered, rfl⟩, ?_⟩, queue⟩
  rw [still, Memory.setCell_self]

/-- **A free region accepts exactly if the flag of its module is not set.** -/
theorem accepts_iff (asked : AskedToReceive w s m a) :
    Accepts w s m a ↔ (m.cells a).isRunning = false := by
  obtain ⟨bitstream, handle, region, other⟩ := asked.other
  obtain ⟨c, wakes, queue⟩ := asked.exists_wakes
  have target : m.prr.table bitstream.regionId = some (some a) := by
    rw [region]
    exact asked.resident
  constructor
  · rintro ⟨s', m', hstep, -, state', -⟩
    by_contra running
    -- the step declines
    have declines := step_of_moves (.decline wakes asked.state queue asked.noStart asked.req
      handle target other (Bool.eq_true_of_not_eq_false running))
    rw [hstep] at declines
    cases declines
    rw [show c.nextState = _ from wakes.nextState_eq, asked.state] at state'
    cases state'
  · intro stopped
    refine ⟨_, _, step_of_moves (.accept wakes asked.state queue asked.noStart asked.req
      handle target other stopped), rfl, rfl, ?_⟩
    rw [Memory.setCell_cells, Function.update_self]
    rfl

/-- **Reconfiguring an idle region.**  The flag of a library module agrees with its state
as long as no call ends an execution, and a controller that is free to accept a transfer
accepts it exactly if the flag is not set, that is, if no execution of its region's module
has begun. -/
theorem reconfigurable_iff (raw : RrModule) (regionId moduleId bitstreamWidth : ℕ)
    (tasks : List (TaskSpec Double)) (calls : ℕ → ModuleCall) (N : ℕ)
    (asked : AskedToReceive w s m a) :
    ((∀ k ≤ N,
        ((RrModule.ofSpec raw regionId moduleId bitstreamWidth tasks).after calls k).FlagAgrees) ↔
      ∀ k < N, ¬ ((RrModule.ofSpec raw regionId moduleId bitstreamWidth tasks).after calls
        k).EndsExecution (calls k)) ∧
    (Accepts w s m a ↔ (m.cells a).isRunning = false) ∧
    ∀ k, m.cells a =
        (RrModule.ofSpec raw regionId moduleId bitstreamWidth tasks).after calls k →
      (Accepts w s m a ↔ ∀ j < k, ¬ (calls j).Begins) := by
  refine ⟨RrModule.flagAgrees_iff_of_start ?_, accepts_iff asked, fun k history => ?_⟩
  · show false = true ↔ ModuleState.vacant = .exec
    simp
  · rw [accepts_iff asked, history, ← Bool.not_eq_true, RrModule.isRunning_after_iff]
    show ¬ (false = true ∨ _) ↔ _
    simp

/-! ## A module that has executed -/

/-- A library module of region 0, as fast as a simulator of speed 1. -/
def freshModule : RrModule :=
  RrModule.ofSpec { RrModule.idleModule 0 7 with operatingSpeed := 1 } 0 7 4 loadedBs.tasks

/-- One execution of one cycle, stepped to its end. -/
def executeOnce (k : ℕ) : ModuleCall := if k = 0 then .beginExecution 1 1 else .step

/-- The storage of a region that holds the module after `k` of these calls. -/
def regionAfter (k : ℕ) : Memory :=
  { cells := fun _ => freshModule.after executeOnce k
    next := 1
    prr := ⟨fun _ => some (some 0)⟩
    hierarchy := [] }

/-- A request to transfer module 5 to region 0. -/
def transferRequest : RrcWires LoneTask :=
  { prcStart := false
    prcEnqueue := false
    icapMc := 1
    icapReq := true
    icapTrans := true
    handles :=
      { prcCurrentTask := none
        prcScheduledBs := none
        icapTransferBs := some { loadedBs with id := 5 } } }

/-- A controller in `PRR_IDLE`. -/
def idleController : RrController LoneTask :=
  { RrController.new rawController 0 1 with nextState := .idle }

theorem asked_regionAfter {k : ℕ}
    (stopped : (freshModule.after executeOnce k).currentState ≠ .exec)
    (id : (freshModule.after executeOnce k).moduleId = 7) :
    AskedToReceive transferRequest idleController (regionAfter k) 0 where
  state := rfl
  queue := ⟨_, rfl, rfl⟩
  noStart := rfl
  req := rfl
  resident := rfl
  stopped := stopped
  other := ⟨_, rfl, rfl, by
    show (freshModule.after executeOnce k).moduleId ≠ 5
    rw [id]
    decide⟩

theorem reconfigurable_iff_regionAfter :
    ((∀ k ≤ 3, (freshModule.after executeOnce k).FlagAgrees) ↔
      ∀ k < 3, ¬ (freshModule.after executeOnce k).EndsExecution (executeOnce k)) ∧
    (Accepts transferRequest idleController (regionAfter 0) 0 ↔
      ((regionAfter 0).cells 0).isRunning = false) ∧
    ∀ k, (regionAfter 0).cells 0 = freshModule.after executeOnce k →
      (Accepts transferRequest idleController (regionAfter 0) 0 ↔
        ∀ j < k, ¬ (executeOnce j).Begins) :=
  reconfigurable_iff _ 0 7 4 loadedBs.tasks executeOnce 3
    (asked_regionAfter (by decide +kernel) (by decide +kernel))

/-- **An idle region declines**: after one execution the module is `IDLE` and says that it
is running, and a controller with nothing else to do declines the transfer. -/
theorem idle_region_declines :
    (freshModule.after executeOnce 3).currentState = .idle ∧
      (freshModule.after executeOnce 3).isRunning = true ∧
      ¬ (freshModule.after executeOnce 3).FlagAgrees ∧
      AskedToReceive transferRequest idleController (regionAfter 3) 0 ∧
      ¬ Accepts transferRequest idleController (regionAfter 3) 0 := by
  have idle : (freshModule.after executeOnce 3).currentState = .idle := by decide +kernel
  have running : (freshModule.after executeOnce 3).isRunning = true := by decide +kernel
  have asked : AskedToReceive transferRequest idleController (regionAfter 3) 0 :=
    asked_regionAfter (by rw [idle]; decide) (by decide +kernel)
  refine ⟨idle, running, fun agrees => ?_, asked, fun accepts => ?_⟩
  · have exec := agrees.mp running
    rw [idle] at exec
    cases exec
  · have stopped := (accepts_iff asked).mp accepts
    exact Bool.false_ne_true (stopped.symm.trans running)

end RrController

end Drachma
