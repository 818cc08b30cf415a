import Drachma.RegionLocality

/-!
# Executing the tasks of an installed bitstream

When a controller installs a module it begins a task on it, and the module executes
for as many steps as its latency says.  Tasks that are enqueued meanwhile wait for
the module to become idle.  To begin the next one, the controller sets the module's
speed first, and `setSpeed` refuses once the module has been stepped.  `ModuleAt`
follows the module through its one execution.

The controller is stepped among other components, which may do to the storage what
they like outside the controller's region (`Turn`).

## Main results

* `RrController.installed_of_step` — what a controller is like when it has installed
  a bitstream.
* `RrController.Phase.step_iff` — when a later step does not fault.
* `RrController.keeps_executing_iff` — the tasks are served exactly in the runs in
  which none is left waiting when the first execution ends.
-/

namespace Drachma

namespace RrController

variable {Node : Type}

/-! ## Runs among other components -/

/-- What a controller finds at a step: its signals and handles, and what the other
components have made of the storage since its last step. -/
structure Turn (Node : Type) where
  wires : RrcWires Node
  others : Memory → Memory

/-- Neither the PRC nor the ICAP asks for more than to enqueue a task, and the other
components leave the storage of region `r` alone. -/
structure Turn.Quiet (r : ℕ) (t : Turn Node) : Prop where
  noStart : t.wires.prcStart = false
  noReq : t.wires.icapReq = false
  frame : ∀ m, (t.others m).viewOf r = m.viewOf r

/-- One step of a controller among other components. -/
def stepAmong [GraphNode Node] (t : Turn Node) (p : RrController Node × Memory) :
    Exec (RrController Node × Memory) :=
  p.1.step t.wires (t.others p.2)

section Enqueued

variable (start : RrController Node) (inputs : ℕ → Turn Node)

/-- The enqueue signal the controller has answered before step `k`. -/
def answered : ℕ → Bool
  | 0 => start.prcAck
  | k + 1 => (inputs k).wires.prcEnqueue

/-- The PRC raises its enqueue signal for step `k`. -/
def raises (k : ℕ) : Bool := (inputs k).wires.prcEnqueue && !answered start inputs k

/-- The task that is enqueued in step `k`. -/
def arrival (k : ℕ) : Option Node :=
  if raises start inputs k then (inputs k).wires.handles.prcCurrentTask else none

/-- The tasks that are enqueued in the first `k` steps. -/
def enqueued (k : ℕ) : List Node := (List.range k).filterMap (arrival start inputs)

theorem enqueued_succ (k : ℕ) :
    enqueued start inputs (k + 1) =
      enqueued start inputs k ++ (arrival start inputs k).toList :=
  Machine.filterMap_range_succ _ k

end Enqueued

/-! ## Serving the queue -/

section Serving

variable [GraphNode Node]

/-- The region's module is idle when the controller comes to look at its queue. -/
def FindsIdle (t : Turn Node) (p : RrController Node × Memory) : Prop :=
  ∃ a, (t.others p.2).prr.table p.1.prrId = some (some a) ∧
    ((t.others p.2).cells a).watch.currentState = .idle

/-- From `p` to `p'` the controller begins the task on its region's module, as the
installed bitstream specifies it. -/
def BeginsTask (t : Turn Node) (p p' : RrController Node × Memory) (task : Node) : Prop :=
  ∃ a typeId spec, (t.others p.2).prr.table p.1.prrId = some (some a) ∧
    getTaskTypeId task = .ok typeId ∧
    getSpecForTaskFromBs p.1.installedBs typeId = .ok spec ∧
    p'.2.cells a = ((t.others p.2).cells a).watch.begun p.1.simSpeed spec ∧
    p'.1.prrExecuting = true

/-- **Serving the queue**: the tasks begun are those enqueued, each once and in their
order, and one is begun in each step that finds a task and an idle module. -/
def ServesQueue (inputs : ℕ → Turn Node) (N : ℕ) (σ : ℕ → RrController Node × Memory) : Prop :=
  ∃ begun : ℕ → Option Node,
    (∀ k ≤ N, (σ 0).1.actionQueue ++ enqueued (σ 0).1 inputs k =
      (List.range k).filterMap begun ++ (σ k).1.actionQueue) ∧
    (∀ k < N, ∀ task, begun k = some task →
      BeginsTask (inputs k) (σ k) (σ (k + 1)) task) ∧
    ∀ k < N, (σ k).1.actionQueue ++ (arrival (σ 0).1 inputs k).toList ≠ [] →
      FindsIdle (inputs k) (σ k) → ∃ task, begun k = some task

end Serving

/-! ## The state after an installation -/

/-- The controller has just installed the module at `a` in its region. -/
structure Installed (a : ℕ) (p : RrController Node × Memory) : Prop where
  state : p.1.nextState = .idle
  resident : p.2.prr.table p.1.prrId = some (some a)
  region : (p.2.cells a).regionId = p.1.prrId
  executing : (p.2.cells a).currentState = .exec
  timestep : (p.2.cells a).internalTimestep = 0
  latency : (p.2.cells a).executionLatency < 2 ^ 32

variable {w : RrcWires Node} {s s' c : RrController Node} {m m' x : Memory} {a : ℕ}

/-- The step that ends a transfer leaves the controller so, where modules are filed
by region, the transfer is one for the controller's region, and the library's modules
have not been stepped. -/
theorem installed_of_step [GraphNode Node] (filed : m.Filed) (state : s.nextState = .transfer)
    (ended : w.icapTrans = false) (own : s.icapTransferBs.regionId = s.prrId)
    (unstepped : ∀ a, (m.cells a).inSimulation = false → (m.cells a).internalTimestep = 0)
    (h : step w s m = .ok (s', m')) : ∃ a, Installed a (s', m') := by
  obtain ⟨a, b, c, x, level, bitstream, wakes, unit, stored, -, begins, rfl⟩ :=
    (moves_of_step h).of_ended state ended
  have region : (x.cells b).regionId = c.prrId := by
    rw [wakes.keeps.regionId, filed.level level (List.mem_of_getElem? unit) _ _ b stored, own,
      wakes.prrId_eq]
  obtain ⟨task, -, fresh, rfl⟩ := begins
  -- a module that is not in simulation was not stepped in waking up either
  have timestep : (x.cells b).internalTimestep = 0 := by
    have fresh : (x.cells b).inSimulation = false := fresh
    by_cases hab : b = a
    · subst hab
      rw [wakes.cell_eq] at fresh ⊢
      have same := RrModule.watch_of_not_inSimulation fresh
      rw [same] at fresh ⊢
      exact unstepped b fresh
    · rw [wakes.cell_of_ne hab] at fresh ⊢
      exact unstepped b fresh
  refine ⟨b, ⟨rfl, ?_, ?_, ?_, ?_, ?_⟩⟩
  · show Function.update x.prr.table (x.cells b).regionId (some (some b)) c.prrId = _
    rw [region, Function.update_self]
  · show (Function.update x.cells b _ b).regionId = c.prrId
    rw [Function.update_self]
    exact region
  · show (Function.update x.cells b _ b).currentState = .exec
    rw [Function.update_self]
    rfl
  · show (Function.update x.cells b _ b).internalTimestep = 0
    rw [Function.update_self]
    exact timestep
  · show (Function.update x.cells b _ b).executionLatency < 2 ^ 32
    rw [Function.update_self]
    exact toUnsigned_lt _

/-! ## The one execution -/

/-- The module `k` steps after the installation: executing, for `latency` steps, and
idle from then on. -/
def ModuleAt (latency k : ℕ) (module : RrModule) : Prop :=
  if k ≤ latency then
    module.currentState = .exec ∧ module.internalTimestep = k ∧ module.executionLatency = latency
  else
    module.currentState = .idle ∧ module.inSimulation = true

namespace ModuleAt

variable {latency k : ℕ} {module : RrModule}

theorem watch (bound : latency < 2 ^ 32) (h : ModuleAt latency k module) :
    ModuleAt latency (k + 1) module.watch := by
  unfold ModuleAt at h
  by_cases hk : k ≤ latency
  · rw [if_pos hk] at h
    obtain ⟨exec, timestep, hlatency⟩ := h
    have small : (k + 1) % 2 ^ 64 = k + 1 := Nat.mod_eq_of_lt (by omega)
    unfold RrModule.watch RrModule.step
    rw [if_pos exec, timestep, hlatency, small]
    unfold ModuleAt
    by_cases hfin : k + 1 > latency
    · rw [if_pos hfin, if_neg (by omega)]
      exact ⟨rfl, rfl⟩
    · rw [if_neg hfin, if_pos (by omega)]
      exact ⟨exec, rfl, rfl⟩
  · rw [if_neg hk] at h
    obtain ⟨idle, stepped⟩ := h
    have resting : ¬ module.currentState = .exec := by rw [idle]; decide
    rw [RrModule.watch, if_neg resting, ModuleAt, if_neg (by omega)]
    exact ⟨idle, stepped⟩

theorem idle_iff (h : ModuleAt latency k module) : module.currentState = .idle ↔ latency < k := by
  unfold ModuleAt at h
  by_cases hk : k ≤ latency
  · rw [if_pos hk] at h
    simp [h.1, hk]
  · rw [if_neg hk] at h
    simp [h.1, Nat.lt_of_not_le hk]

theorem stepped (h : ModuleAt latency k module) (hk : latency < k) :
    module.inSimulation = true := by
  unfold ModuleAt at h
  rw [if_neg (by omega)] at h
  exact h.2

end ModuleAt

/-! ## The controller meanwhile -/

/-- Answering the enqueue handshake: a raised signal queues the task behind the
handle, which must not be null, and the acknowledgement follows the signal. -/
theorem answerEnqueue_iff :
    answerEnqueue w s = .ok s' ↔
      ((w.prcEnqueue && !s.prcAck) = true → w.handles.prcCurrentTask.isSome = true) ∧
      s' = { s with
        actionQueue := s.actionQueue ++
          (if w.prcEnqueue && !s.prcAck then w.handles.prcCurrentTask else none).toList
        prcAck := w.prcEnqueue } := by
  obtain ⟨_, _, _, _, _, _, _, _, _, _, prcAck, queue, _, _⟩ := s
  unfold answerEnqueue
  cases enqueue : w.prcEnqueue <;> cases prcAck <;> cases handle : w.handles.prcCurrentTask <;>
    simp [eq_comm, bind, Except.bind, pure, Except.pure, deref]

theorem Wakes.enqueue (wakes : Wakes w s m a c x) :
    ((w.prcEnqueue && !s.prcAck) = true → w.handles.prcCurrentTask.isSome = true) ∧
      c.actionQueue = s.actionQueue ++
        (if w.prcEnqueue && !s.prcAck then w.handles.prcCurrentTask else none).toList ∧
      c.prcAck = w.prcEnqueue := by
  obtain ⟨c₀, h₀, rfl⟩ := wakes.controller
  obtain ⟨handle, rfl⟩ := answerEnqueue_iff.mp h₀
  exact ⟨handle, rfl, rfl⟩

/-- A controller with a module in its region wakes, unless it meets a null handle. -/
theorem exists_wakes (resident : m.prr.table s.prrId = some (some a))
    (handle : (w.prcEnqueue && !s.prcAck) = true → w.handles.prcCurrentTask.isSome = true) :
    ∃ c, Wakes w s m a c (m.setCell a (m.cells a).watch) :=
  ⟨_, resident, ⟨_, answerEnqueue_iff.mpr ⟨handle, rfl⟩, rfl⟩, rfl⟩

/-- The controller `k` steps after the installation `start` of the module at `a`, with
every task still in its queue. -/
structure Phase (a : ℕ) (start : RrController Node × Memory) (inputs : ℕ → Turn Node) (k : ℕ)
    (p : RrController Node × Memory) : Prop where
  state : p.1.nextState = .idle
  prrId : p.1.prrId = start.1.prrId
  prcAck : p.1.prcAck = answered start.1 inputs k
  queue : p.1.actionQueue = start.1.actionQueue ++ enqueued start.1 inputs k
  resident : p.2.prr.table start.1.prrId = some (some a)
  region : (p.2.cells a).regionId = start.1.prrId
  module : ModuleAt (start.2.cells a).executionLatency k (p.2.cells a)

namespace Phase

variable {start p p' : RrController Node × Memory} {inputs : ℕ → Turn Node} {k : ℕ}

theorem of_installed (installed : Installed a start) : Phase a start inputs 0 start where
  state := installed.state
  prrId := rfl
  prcAck := rfl
  queue := by simp [enqueued]
  resident := installed.resident
  region := installed.region
  module := by
    rw [ModuleAt, if_pos (Nat.zero_le _)]
    exact ⟨installed.executing, installed.timestep, rfl⟩

section Step

variable (phase : Phase a start inputs k p) (quiet : (inputs k).Quiet start.1.prrId)

include phase quiet

/-- The other components have left the region's module where it was, and as it was. -/
theorem others :
    ((inputs k).others p.2).prr.table p.1.prrId = some (some a) ∧
      ((inputs k).others p.2).cells a = p.2.cells a := by
  have same := (quiet.frame p.2).symm
  rw [phase.prrId]
  refine ⟨?_, Memory.cell_eq_of_view same phase.region⟩
  rw [← Memory.entry_eq_of_view same]
  exact phase.resident

theorem of_wakes (latency : (start.2.cells a).executionLatency < 2 ^ 32)
    (wakes : Wakes (inputs k).wires p.1 ((inputs k).others p.2) a c x) :
    Phase a start inputs (k + 1) (c, x) where
  state := wakes.nextState_eq.trans phase.state
  prrId := wakes.prrId_eq.trans phase.prrId
  prcAck := wakes.enqueue.2.2
  queue := by
    rw [wakes.enqueue.2.1, phase.queue, phase.prcAck, enqueued_succ, List.append_assoc]
    rfl
  resident := by
    rw [wakes.prr_eq, ← phase.prrId]
    exact (phase.others quiet).1
  region := by
    rw [wakes.keeps.regionId, (phase.others quiet).2]
    exact phase.region
  module := by
    rw [wakes.cell_eq, (phase.others quiet).2]
    exact phase.module.watch latency

variable [GraphNode Node]

/-- **What a step does**: it wakes, and rests.  To begin a task is out of the question,
since the module has been stepped by the time it is idle. -/
theorem rests_of_step (latency : (start.2.cells a).executionLatency < 2 ^ 32)
    (h : stepAmong (inputs k) p = .ok (s', m')) :
    Wakes (inputs k).wires p.1 ((inputs k).others p.2) a s' m' ∧
      Rests (inputs k).wires s' (m'.cells a) := by
  have resident := (phase.others quiet).1
  cases moves_of_step h with
  | init _ state => rw [phase.state] at state; cases state
  | wait _ state => rw [phase.state] at state; cases state
  | hold _ state => rw [phase.state] at state; cases state
  | install _ state => rw [phase.state] at state; cases state
  | startRequested _ _ _ start => rw [quiet.noStart] at start; cases start
  | decline _ _ _ _ req => rw [quiet.noReq] at req; cases req
  | accept _ _ _ _ req => rw [quiet.noReq] at req; cases req
  | rest wakes _ rests =>
      cases wakes.resident.symm.trans resident
      exact ⟨wakes, rests⟩
  | startQueued wakes _ _ idle _ begins =>
      cases wakes.resident.symm.trans resident
      obtain ⟨_, -, fresh, -⟩ := begins
      have module := (phase.of_wakes quiet latency wakes).module
      rw [module.stepped (module.idle_iff.mp idle)] at fresh
      cases fresh

theorem step (latency : (start.2.cells a).executionLatency < 2 ^ 32)
    (h : stepAmong (inputs k) p = .ok p') : Phase a start inputs (k + 1) p' :=
  phase.of_wakes quiet latency (phase.rests_of_step quiet latency h).1

/-- **When a step does not fault**: no null handle is met, and no task is waiting once
the module is idle. -/
theorem step_iff (latency : (start.2.cells a).executionLatency < 2 ^ 32) :
    (∃ p', stepAmong (inputs k) p = .ok p') ↔
      (raises start.1 inputs k = true →
        (inputs k).wires.handles.prcCurrentTask.isSome = true) ∧
      ((start.2.cells a).executionLatency ≤ k →
        start.1.actionQueue ++ enqueued start.1 inputs (k + 1) = []) := by
  constructor
  · rintro ⟨⟨s', m'⟩, h⟩
    obtain ⟨wakes, rests⟩ := phase.rests_of_step quiet latency h
    have after := phase.of_wakes quiet latency wakes
    refine ⟨?_, fun done => ?_⟩
    · have handle := wakes.enqueue.1
      rw [phase.prcAck] at handle
      exact handle
    · have idle := after.module.idle_iff.mpr (by omega)
      rcases rests with ⟨-, busy⟩ | ⟨queue, -⟩
      · exact absurd idle busy
      · rw [← after.queue]
        exact queue
  · rintro ⟨handle, served⟩
    have handle' : ((inputs k).wires.prcEnqueue && !p.1.prcAck) = true →
        (inputs k).wires.handles.prcCurrentTask.isSome = true := by
      rw [phase.prcAck]
      exact handle
    obtain ⟨c, wakes⟩ := exists_wakes (phase.others quiet).1 handle'
    have after := phase.of_wakes quiet latency wakes
    refine ⟨_, step_of_moves (.rest wakes phase.state ?_)⟩
    by_cases queue : c.actionQueue = []
    · exact .inr ⟨queue, quiet.noStart, quiet.noReq⟩
    · refine .inl ⟨.inl queue, fun idle => ?_⟩
      have done := after.module.idle_iff.mp idle
      exact queue (after.queue.trans (served (by omega)))

end Step

end Phase

section Run

variable [GraphNode Node] {start : RrController Node × Memory} {inputs : ℕ → Turn Node}

/-- A run that gets anywhere goes through the phases. -/
theorem phase_of_trace (installed : Installed a start) {N : ℕ}
    (quiet : ∀ k < N, (inputs k).Quiet start.1.prrId) {σ : ℕ → RrController Node × Memory}
    (trace : Machine.Trace stepAmong inputs start N σ) :
    ∀ k ≤ N, Phase a start inputs k (σ k) := by
  refine trace.invariant (.of_installed installed) fun k hk phase hstep => ?_
  exact phase.step (quiet k hk) installed.latency hstep

omit [GraphNode Node] in
theorem enqueued_eq_nil_of_le {start : RrController Node} {k N : ℕ} (hk : k ≤ N)
    (h : enqueued start inputs N = []) : enqueued start inputs k = [] := by
  unfold enqueued at h ⊢
  rw [List.filterMap_eq_nil_iff] at h ⊢
  intro j hj
  rw [List.mem_range] at hj
  exact h j (List.mem_range.mpr (by omega))

/-- A run whose steps do not fault. -/
theorem exists_run (installed : Installed a start) {N : ℕ}
    (quiet : ∀ k < N, (inputs k).Quiet start.1.prrId)
    (handles : ∀ k < N, raises start.1 inputs k = true →
      (inputs k).wires.handles.prcCurrentTask.isSome = true)
    (served : N ≤ (start.2.cells a).executionLatency ∨
      start.1.actionQueue ++ enqueued start.1 inputs N = []) :
    ∀ k ≤ N, ∃ p, Machine.run stepAmong inputs start k = .ok p ∧ Phase a start inputs k p := by
  intro k
  induction k with
  | zero => exact fun _ => ⟨start, rfl, .of_installed installed⟩
  | succ k ih =>
      intro hk
      obtain ⟨p, hp, phase⟩ := ih (by omega)
      have waits : (start.2.cells a).executionLatency ≤ k →
          start.1.actionQueue ++ enqueued start.1 inputs (k + 1) = [] := by
        intro done
        rcases served with short | none
        · omega
        · obtain ⟨hqueue, henqueued⟩ := List.append_eq_nil_iff.mp none
          rw [hqueue, enqueued_eq_nil_of_le hk henqueued]
          rfl
      obtain ⟨p', hstep⟩ :=
        (phase.step_iff (quiet k hk) installed.latency).mpr ⟨handles k hk, waits⟩
      exact ⟨p', (Machine.run_succ_of_ok hp).trans hstep,
        phase.step (quiet k hk) installed.latency hstep⟩

/-- **The second task is never begun.**  A run after an installation serves the queue
exactly when no null handle is enqueued and either the run ends with the execution that
the installation has begun, or there is no task to serve. -/
theorem keeps_executing_iff (installed : Installed a start) (N : ℕ)
    (quiet : ∀ k < N, (inputs k).Quiet start.1.prrId) :
    (∃ σ, Machine.Trace stepAmong inputs start N σ ∧ ServesQueue inputs N σ) ↔
      (∀ k < N, raises start.1 inputs k = true →
        (inputs k).wires.handles.prcCurrentTask.isSome = true) ∧
      (N ≤ (start.2.cells a).executionLatency ∨
        start.1.actionQueue ++ enqueued start.1 inputs N = []) := by
  constructor
  · rintro ⟨σ, trace, -⟩
    have phases := phase_of_trace installed quiet trace
    have steps : ∀ k < N, _ := fun k hk =>
      ((phases k (by omega)).step_iff (quiet k hk) installed.latency).mp ⟨_, trace.step_eq hk⟩
    refine ⟨fun k hk => (steps k hk).1, ?_⟩
    by_cases short : N ≤ (start.2.cells a).executionLatency
    · exact .inl short
    · obtain ⟨k, rfl⟩ := Nat.exists_eq_succ_of_ne_zero (by omega : N ≠ 0)
      exact .inr ((steps k (by omega)).2 (by omega))
  · rintro ⟨handles, served⟩
    obtain ⟨p, hp, -⟩ := exists_run installed quiet handles served N (Nat.le_refl N)
    obtain ⟨σ, trace, -⟩ := Machine.Trace.exists_of_run hp
    have phases := phase_of_trace installed quiet trace
    refine ⟨σ, trace, fun _ => none, ?_, ?_, ?_⟩
    · intro k hk
      rw [trace.start, (phases k hk).queue]
      simp
    · intro k _ task h
      cases h
    · rintro k hk waiting ⟨b, hb, idle⟩
      have phase := phases k (by omega)
      have step := (phase.step_iff (quiet k hk) installed.latency).mp ⟨_, trace.step_eq hk⟩
      -- an idle module would mean that nothing is waiting
      obtain ⟨resident, same⟩ := phase.others (quiet k hk)
      cases hb.symm.trans resident
      rw [same] at idle
      have done := (phase.module.watch installed.latency).idle_iff.mp idle
      rw [phase.queue, trace.start, List.append_assoc, ← enqueued_succ] at waiting
      exact absurd (step.2 (by omega)) waiting

end Run

/-! ## A second task -/

/-- A bitstream of region 0, for the task type a new controller has noted. -/
def loadedBs : ModuleSpec Double :=
  { regionId := 0, id := 7, bitstreamWidth := 4
    tasks := [{ regionId := 0, moduleId := 7, typeId := "", speed := 1, cycles := 2 }] }

/-- A controller that receives the bitstream. -/
def receiving : RrController LoneTask :=
  { RrController.new rawController 0 1 with nextState := .transfer, icapTransferBs := loadedBs }

/-- No requests, no transfer, and a given enqueue signal and task. -/
def enqueueing (signal : Bool) (task : Option LoneTask) : RrcWires LoneTask :=
  { prcStart := false
    prcEnqueue := signal
    icapMc := 1
    icapReq := false
    icapTrans := false
    handles :=
      { prcCurrentTask := task
        prcScheduledBs := some loadedBs
        icapTransferBs := some loadedBs } }

/-- One task is enqueued, in the first step, and the other components do nothing. -/
def enqueueOnce (task : Option LoneTask) (k : ℕ) : Turn LoneTask :=
  { wires := enqueueing (decide (k = 0)) task, others := id }

theorem enqueueOnce_quiet (task : Option LoneTask) (k : ℕ) : (enqueueOnce task k).Quiet 0 :=
  ⟨rfl, rfl, fun _ => rfl⟩

theorem receiving_installs :
    ∃ start, step (enqueueing false none) receiving (.oneModule 1 0 7) = .ok start ∧
      start.1.prrId = 0 ∧ ∃ a, Installed a start := by
  obtain ⟨start, hstep, prrId⟩ := Machine.map_eq_ok.mp
    (show (step (enqueueing false none) receiving (.oneModule 1 0 7)).map (fun p => p.1.prrId) =
      .ok 0 by decide +kernel)
  refine ⟨start, hstep, prrId, ?_⟩
  refine installed_of_step (Memory.oneModule_filed 1 0 7) rfl rfl rfl ?_ hstep
  intro a _
  show (if a = 1 then RrModule.idleModule 0 7 else _).internalTimestep = 0
  split <;> rfl

/-- Two steps are no more than the first execution takes. -/
theorem keeps_executing_iff_enqueueOnce :
    ∃ start a, step (enqueueing false none) receiving (.oneModule 1 0 7) = .ok start ∧
      ((∃ σ, Machine.Trace stepAmong (enqueueOnce (some ⟨""⟩)) start 2 σ ∧
          ServesQueue (enqueueOnce (some ⟨""⟩)) 2 σ) ↔
        (∀ k < 2, raises start.1 (enqueueOnce (some ⟨""⟩)) k = true →
          (enqueueOnce (some ⟨""⟩) k).wires.handles.prcCurrentTask.isSome = true) ∧
        (2 ≤ (start.2.cells a).executionLatency ∨
          start.1.actionQueue ++ enqueued start.1 (enqueueOnce (some ⟨""⟩)) 2 = [])) := by
  obtain ⟨start, hstep, region, a, installed⟩ := receiving_installs
  refine ⟨start, a, hstep, keeps_executing_iff installed 2 fun k _ => ?_⟩
  rw [region]
  exact enqueueOnce_quiet _ k

/-- **A second task faults**: the task is enqueued while the module executes, and in the
third step the module is idle and refuses its speed.  With the null handle that
`connect` leaves, it faults when it is enqueued. -/
theorem second_task_faults :
    ∃ start, step (enqueueing false none) receiving (.oneModule 1 0 7) = .ok start ∧
      (∃ a, Installed a start) ∧ start.1.installedBs = loadedBs ∧
      (∀ task k, (enqueueOnce task k).Quiet start.1.prrId) ∧
      (getSpecForTaskFromBs loadedBs "").isOk = true ∧
      Machine.run stepAmong (enqueueOnce (some ⟨""⟩)) start 3 =
        .error (.runtimeError "Can't set a module's speed after simulation has begun.") ∧
      Machine.run stepAmong (enqueueOnce none) start 1 = .error .nullDereference := by
  obtain ⟨start, hstep, region, installed⟩ := receiving_installs
  have observe : ∀ {β : Type} (f : RrController LoneTask × Memory → β) (b : β),
      (step (enqueueing false none) receiving (.oneModule 1 0 7)).map f = .ok b →
        f start = b := by
    intro β f b h
    rw [hstep] at h
    exact Except.ok.inj h
  refine ⟨start, hstep, installed, ?_, ?_, rfl, ?_, ?_⟩
  · exact observe (fun p => p.1.installedBs) _ (by decide +kernel)
  · intro task k
    rw [region]
    exact enqueueOnce_quiet task k
  · exact Machine.map_eq_error.mp
      (observe (fun p => (Machine.run stepAmong (enqueueOnce (some ⟨""⟩)) p 3).map fun _ => ())
        _ (by decide +kernel))
  · exact Machine.map_eq_error.mp
      (observe (fun p => (Machine.run stepAmong (enqueueOnce none) p 1).map fun _ => ())
        _ (by decide +kernel))

end RrController

end Drachma
