import Drachma.Scheduler
import Drachma.Signals
import Drachma.Storage

/-!
# The RR controllers

There is one controller for each reconfigurable region.  It queues the tasks the
PRC enqueues, starts them on the region's module, and receives transfers from
the ICAP, after which it installs the transferred module in its region.

`RrController.step` is one call of `prrLevelController::step`.  Besides its own
state it reads and writes the shared `Memory`: the module objects, the RR table
and the memory levels.

## Main results

* `RrController.Moves` — what a step can do, case by case; `RrController.step_eq_ok`
  proves it exact.  A step that does not fault has found every module it looked
  up, so it leaves the memory levels as they are and writes at most the resident
  module, one other module, and its entry of the RR table.
-/

namespace Drachma

/-- `prrControllerState`. -/
inductive PrrControllerState
  | init
  | idle
  | wait
  | transfer
deriving DecidableEq, Repr

/-- `prrLevelController`. -/
structure RrController (Node : Type) where
  currentState : PrrControllerState
  nextState : PrrControllerState
  prrId : ℕ
  bitstreamId : ℕ
  simSpeed : Double
  prcCurrentTask : Option Node
  prcScheduledBs : ModuleSpec Double
  icapTransferBs : ModuleSpec Double
  prrExecuting : Bool
  icapAck : Bool
  prcAck : Bool
  actionQueue : List Node
  installedBs : ModuleSpec Double
  prevTaskTypeId : String

/-- The task and bitstream handles an RR controller holds. -/
structure RrcHandles (Node : Type) where
  prcCurrentTask : Option Node
  prcScheduledBs : Option (ModuleSpec Double)
  icapTransferBs : Option (ModuleSpec Double)

/-- What an RR controller reads through its pointers, and its handles. -/
structure RrcWires (Node : Type) where
  prcStart : Bool
  prcEnqueue : Bool
  icapMc : ℕ
  icapReq : Bool
  icapTrans : Bool
  handles : RrcHandles Node

/-- What `connect` makes RR controller `i` read of the signal context, and the
handles it keeps. -/
def SignalContext.rrcWires {n : ℕ} {Node : Type} (ctx : SignalContext n Node) (i : Fin n)
    (handles : RrcHandles Node) : RrcWires Node :=
  { prcStart := ctx.storedPrcStartPrr i
    prcEnqueue := ctx.storedPrcEnqueuePrr i
    icapMc := ctx.storedIcapMc
    icapReq := ctx.storedIcapPrrCtrlReq i
    icapTrans := ctx.storedIcapTransfer
    handles := handles }

namespace RrController

variable {Node : Type}

/-- The constructor; `raw` is what the memory held.  The reported bitstream id is not
initialised, nor are the fields of the bitstreams, save their lists of tasks. -/
def new (raw : RrController Node) (prrId : ℕ) (simSpeed : Double) : RrController Node :=
  { raw with
    prrId := prrId
    simSpeed := simSpeed
    nextState := .init
    prrExecuting := false
    icapAck := false
    prcAck := false
    prcCurrentTask := none
    prcScheduledBs := { raw.prcScheduledBs with tasks := [] }
    icapTransferBs := { raw.icapTransferBs with tasks := [] }
    actionQueue := []
    installedBs := { raw.installedBs with tasks := [] }
    prevTaskTypeId := "" }

/-- The signals the context copies. -/
def outputs (s : RrController Node) : RrcOutputs :=
  { prrExecuting := s.prrExecuting
    prcAck := s.prcAck
    icapAck := s.icapAck
    bitstreamId := s.bitstreamId }

/-- Latch the current state. -/
def latch (s : RrController Node) : RrController Node :=
  { s with currentState := s.nextState }

/-- The enqueue handshake with the PRC. -/
def answerEnqueue (w : RrcWires Node) (s : RrController Node) : Exec (RrController Node) :=
  if w.prcEnqueue && !s.prcAck then do
    let task ← deref w.handles.prcCurrentTask
    return { s with actionQueue := s.actionQueue ++ [task], prcAck := true }
  else if s.prcAck && !w.prcEnqueue then
    return { s with prcAck := false }
  else
    return s

/-- Stop acknowledging a request of the ICAP that is complete. -/
def releaseIcapAck (w : RrcWires Node) (s : RrController Node) : RrController Node :=
  { s with icapAck := if s.icapAck && !w.icapReq then false else s.icapAck }

/-- Step the region's module while it executes, and note when it has finished. -/
def watchModule (s : RrController Node) (m : Memory) (a : ℕ) : RrController Node × Memory :=
  match (m.cells a).currentState with
  | .exec =>
      let (finished, module) := (m.cells a).step
      (if finished then { s with prrExecuting := false } else s, m.setCell a module)
  | _ => (s, m)

/-- Everything a step does before it looks at its state.  The address is that of
the region's module. -/
def wake (w : RrcWires Node) (s : RrController Node) (m : Memory) :
    Exec (ℕ × RrController Node × Memory) := do
  let s ← answerEnqueue w s.latch
  let s := releaseIcapAck w s
  -- the pointer is dereferenced at once, for the status line
  let (a, m) ← m.findModule s.prrId
  return (a, watchModule s m a)

/-- Begin the task type last noted on a module, as the installed bitstream
specifies it. -/
def beginTask (s : RrController Node) (m : Memory) (rrModule : ModulePtr) : Exec Memory := do
  let taskSpec ← getSpecForTaskFromBs s.installedBs s.prevTaskTypeId
  let a ← deref rrModule
  let module ← (m.cells a).setSpeed taskSpec.speed
  return m.setCell a (module.beginExecution s.simSpeed taskSpec.cycles)

/-- `PRR_IDLE`, with a queued task and the region's module idle. -/
def startQueued [GraphNode Node] (task : Node) (rest : List Node) (s : RrController Node)
    (m : Memory) (a : ℕ) : Exec (RrController Node × Memory) := do
  let typeId ← getTaskTypeId task
  let s := { s with actionQueue := rest, prevTaskTypeId := typeId }
  let m ← beginTask s m (some a)
  return ({ s with prrExecuting := true }, m)

/-- `PRR_IDLE`, with a start request of the PRC and the region's module idle. -/
def startRequested (w : RrcWires Node) (s : RrController Node) (m : Memory) :
    Exec (RrController Node × Memory) := do
  let task ← deref w.handles.prcCurrentTask
  let bitstream ← deref w.handles.prcScheduledBs
  let s := { s with prcCurrentTask := some task, prcScheduledBs := bitstream }
  -- the region is that of the bitstream, not the controller's
  let (rrModule, m) := m.getModuleFromRegion bitstream.regionId
  let m ← beginTask s m rrModule
  return ({ s with prrExecuting := true }, m)

/-- `PRR_IDLE`, with a transfer request of the ICAP. -/
def acceptTransfer (w : RrcWires Node) (s : RrController Node) (m : Memory) :
    Exec (RrController Node × Memory) := do
  let bitstream ← deref w.handles.icapTransferBs
  let s := { s with icapTransferBs := bitstream }
  let (a, m) ← m.findModule bitstream.regionId
  if (m.cells a).moduleId = bitstream.id then
    .error (.thrown "This state should never occur.")
  else if (m.cells a).isRunning then
    -- `executing_` is never cleared, so a module that has once run declines for good
    return (s, m)
  else
    return ({ s with icapAck := true, nextState := .transfer },
      m.setCell a (m.cells a).beginTransfer)

/-- `PRR_IDLE`: queued tasks come first, then start requests of the PRC, then
transfer requests of the ICAP. -/
def stepIdle [GraphNode Node] (w : RrcWires Node) (s : RrController Node) (m : Memory)
    (a : ℕ) : Exec (RrController Node × Memory) :=
  match s.actionQueue with
  | task :: rest =>
      if (m.cells a).currentState = .idle then startQueued task rest s m a
      else return (s, m)
  | [] =>
      if w.prcStart then
        if (m.cells a).currentState = .idle then startRequested w s m
        else return (s, m)
      else if w.icapReq then
        acceptTransfer w s m
      else
        return (s, m)

/-- `PRR_TRANSFER`: when the ICAP has ended the transfer, install the module and
begin executing it. -/
def stepTransfer (w : RrcWires Node) (s : RrController Node) (m : Memory) :
    Exec (RrController Node × Memory) :=
  if w.icapTrans then
    return (s, m)
  else do
    let (transferredModule, m) ←
      m.getLibraryModule w.icapMc s.icapTransferBs.regionId s.icapTransferBs.id
    let a ← deref transferredModule
    let m := m.insertModule a
    -- `bitstream_id_` is not set along with `installed_bs_`
    let bitstream ← deref w.handles.icapTransferBs
    let s := { s with installedBs := bitstream }
    let m ← beginTask s m (some a)
    return ({ s with prrExecuting := true, nextState := .idle }, m)

/-- The `switch` of `prrLevelController::step`. -/
def stepState [GraphNode Node] (w : RrcWires Node) (s : RrController Node) (m : Memory)
    (a : ℕ) : Exec (RrController Node × Memory) :=
  match s.currentState with
  | .init => return ({ s with nextState := .idle }, m)
  | .idle => stepIdle w s m a
  | .wait => return (s, m)
  | .transfer => stepTransfer w s m

/-- `prrLevelController::step`. -/
def step [GraphNode Node] (w : RrcWires Node) (s : RrController Node) (m : Memory) :
    Exec (RrController Node × Memory) := do
  let (a, s, m) ← wake w s m
  stepState w s m a

/-! ## What a step can do -/

section Moves

variable (w : RrcWires Node) (s : RrController Node) (m : Memory)

/-- Controller `c` and memory `x` are what a step starts from once it has
answered the enqueue handshake, released its acknowledgement and watched the
region's module, which is at address `a`. -/
structure Wakes (a : ℕ) (c : RrController Node) (x : Memory) : Prop where
  resident : m.prr.table s.prrId = some (some a)
  controller : ∃ c₀, answerEnqueue w s.latch = .ok c₀ ∧
    c = { releaseIcapAck w c₀ with
      prrExecuting := c₀.prrExecuting && !(m.cells a).finishes }
  memory : x = m.setCell a (m.cells a).watch

/-- Memory `x` is `m` with the module at `a` begun on the task type `s` noted. -/
def Begins (a : ℕ) (x : Memory) : Prop :=
  ∃ task, getSpecForTaskFromBs s.installedBs s.prevTaskTypeId = .ok task ∧
    (m.cells a).inSimulation = false ∧ x = m.setCell a ((m.cells a).begun s.simSpeed task)

/-- An idle controller has nothing to do: a task is to be started but the
region's module is not idle, or nothing is asked of it. -/
def Rests (module : RrModule) : Prop :=
  (s.actionQueue ≠ [] ∨ w.prcStart = true) ∧ module.currentState ≠ .idle ∨
    s.actionQueue = [] ∧ w.prcStart = false ∧ w.icapReq = false

/-- The transitions of an RR controller. -/
inductive Moves [GraphNode Node] : RrController Node → Memory → Prop
  | init {a : ℕ} {c : RrController Node} {x : Memory} (wakes : Wakes w s m a c x)
      (state : s.nextState = .init) :
      Moves { c with nextState := .idle } x
  | rest {a : ℕ} {c : RrController Node} {x : Memory} (wakes : Wakes w s m a c x)
      (state : s.nextState = .idle) (rests : Rests w c (x.cells a)) :
      Moves c x
  | startQueued {a : ℕ} {c : RrController Node} {x x' : Memory} {task : Node}
      {rest : List Node} {typeId : String} (wakes : Wakes w s m a c x)
      (state : s.nextState = .idle) (queue : c.actionQueue = task :: rest)
      (idle : (x.cells a).currentState = .idle) (type : getTaskTypeId task = .ok typeId)
      (begins : Begins { c with actionQueue := rest, prevTaskTypeId := typeId } x a x') :
      Moves { c with
        actionQueue := rest
        prevTaskTypeId := typeId
        prrExecuting := true } x'
  | startRequested {a b : ℕ} {c : RrController Node} {x x' : Memory} {task : Node}
      {bitstream : ModuleSpec Double} (wakes : Wakes w s m a c x)
      (state : s.nextState = .idle) (queue : c.actionQueue = []) (start : w.prcStart = true)
      (idle : (x.cells a).currentState = .idle)
      (current : w.handles.prcCurrentTask = some task)
      (handle : w.handles.prcScheduledBs = some bitstream)
      (target : x.prr.table bitstream.regionId = some (some b))
      (begins : Begins { c with prcCurrentTask := some task, prcScheduledBs := bitstream }
        x b x') :
      Moves { c with
        prcCurrentTask := some task
        prcScheduledBs := bitstream
        prrExecuting := true } x'
  | decline {a b : ℕ} {c : RrController Node} {x : Memory}
      {bitstream : ModuleSpec Double} (wakes : Wakes w s m a c x)
      (state : s.nextState = .idle) (queue : c.actionQueue = [])
      (noStart : w.prcStart = false) (req : w.icapReq = true)
      (handle : w.handles.icapTransferBs = some bitstream)
      (target : x.prr.table bitstream.regionId = some (some b))
      (other : (x.cells b).moduleId ≠ bitstream.id)
      (running : (x.cells b).isRunning = true) :
      Moves { c with icapTransferBs := bitstream } x
  | accept {a b : ℕ} {c : RrController Node} {x : Memory}
      {bitstream : ModuleSpec Double} (wakes : Wakes w s m a c x)
      (state : s.nextState = .idle) (queue : c.actionQueue = [])
      (noStart : w.prcStart = false) (req : w.icapReq = true)
      (handle : w.handles.icapTransferBs = some bitstream)
      (target : x.prr.table bitstream.regionId = some (some b))
      (other : (x.cells b).moduleId ≠ bitstream.id)
      (stopped : (x.cells b).isRunning = false) :
      Moves { c with
        icapTransferBs := bitstream
        icapAck := true
        nextState := .transfer } (x.setCell b (x.cells b).beginTransfer)
  | wait {a : ℕ} {c : RrController Node} {x : Memory} (wakes : Wakes w s m a c x)
      (state : s.nextState = .wait) :
      Moves c x
  | hold {a : ℕ} {c : RrController Node} {x : Memory} (wakes : Wakes w s m a c x)
      (state : s.nextState = .transfer) (transferring : w.icapTrans = true) :
      Moves c x
  | install {a b : ℕ} {c : RrController Node} {x x' : Memory} {level : MemoryLevel}
      {bitstream : ModuleSpec Double} (wakes : Wakes w s m a c x)
      (state : s.nextState = .transfer) (ended : w.icapTrans = false)
      (unit : x.hierarchy[w.icapMc]? = some (.level level))
      (stored : level.table c.icapTransferBs.regionId c.icapTransferBs.id = some (some b))
      (handle : w.handles.icapTransferBs = some bitstream)
      (begins : Begins { c with installedBs := bitstream } (x.insertModule b) b x') :
      Moves { c with
        installedBs := bitstream
        prrExecuting := true
        nextState := .idle } x'

end Moves

/-- Between `s` and `s'` the controller accepts a transfer of the ICAP. -/
def AcceptsTransfer (s s' : RrController Node) : Prop :=
  s.nextState ≠ .transfer ∧ s'.nextState = .transfer

variable {w : RrcWires Node} {s s' c : RrController Node} {m m' x : Memory} {a : ℕ}

/-- The enqueue handshake moves the queue and its acknowledgement only. -/
theorem answerEnqueue_eq_ok (h : answerEnqueue w s = .ok s') :
    ∃ queue prcAck, s' = { s with actionQueue := queue, prcAck := prcAck } := by
  unfold answerEnqueue at h
  split at h
  · rw [Machine.bind_eq_ok] at h
    obtain ⟨task, -, h⟩ := h
    cases h
    exact ⟨_, _, rfl⟩
  · split at h
    · cases h; exact ⟨_, _, rfl⟩
    · cases h; exact ⟨_, _, rfl⟩

/-- Watching a module, in one equation. -/
theorem watchModule_eq (s : RrController Node) (m : Memory) (a : ℕ) :
    watchModule s m a =
      ({ s with prrExecuting := s.prrExecuting && !(m.cells a).finishes },
        m.setCell a (m.cells a).watch) := by
  unfold watchModule RrModule.finishes RrModule.watch
  cases hstate : (m.cells a).currentState with
  | exec => cases hfin : (m.cells a).step.1 <;> simp [hfin]
  | _ => simp

theorem wake_eq_ok : wake w s m = .ok (a, c, x) ↔ Wakes w s m a c x := by
  unfold wake
  simp only [Machine.bind_eq_ok, watchModule_eq]
  constructor
  · rintro ⟨c₀, h₀, ⟨a', x'⟩, hfind, h⟩
    obtain ⟨queue, prcAck, rfl⟩ := answerEnqueue_eq_ok h₀
    obtain ⟨hres, rfl⟩ := Memory.findModule_eq_ok.mp hfind
    cases h
    exact ⟨hres, ⟨_, h₀, rfl⟩, rfl⟩
  · rintro ⟨hres, ⟨c₀, h₀, rfl⟩, rfl⟩
    refine ⟨c₀, h₀, (a, m), Memory.findModule_eq_ok.mpr ⟨?_, rfl⟩, rfl⟩
    obtain ⟨queue, prcAck, rfl⟩ := answerEnqueue_eq_ok h₀
    exact hres

theorem beginTask_eq_ok {rrModule : ModulePtr} :
    beginTask s m rrModule = .ok x ↔ ∃ a, rrModule = some a ∧ Begins s m a x := by
  unfold beginTask Begins
  simp only [Machine.bind_eq_ok, deref_eq_ok, RrModule.setSpeed_eq_ok]
  constructor
  · rintro ⟨task, htask, a, ha, module, ⟨hsim, rfl⟩, h⟩
    cases h
    exact ⟨a, ha, task, htask, hsim, rfl⟩
  · rintro ⟨a, ha, task, htask, hsim, rfl⟩
    exact ⟨task, htask, a, ha, _, ⟨hsim, rfl⟩, rfl⟩

/-- Beginning a task on the module a table lookup returns. -/
theorem beginTask_getModuleFromRegion {regionId : ℕ} :
    beginTask s (m.getModuleFromRegion regionId).2 (m.getModuleFromRegion regionId).1 =
        .ok x ↔
      ∃ a, m.prr.table regionId = some (some a) ∧ Begins s m a x := by
  rw [beginTask_eq_ok]
  constructor
  · rintro ⟨a, ha, begins⟩
    have hget : m.getModuleFromRegion regionId =
        (some a, (m.getModuleFromRegion regionId).2) := Prod.ext ha rfl
    obtain ⟨target, hsame⟩ := Memory.getModuleFromRegion_eq_some.mp hget
    rw [hsame] at begins
    exact ⟨a, target, begins⟩
  · rintro ⟨a, target, begins⟩
    rw [Memory.getModuleFromRegion_eq_some.mpr ⟨target, rfl⟩]
    exact ⟨a, rfl, begins⟩

namespace Wakes

variable (wakes : Wakes w s m a c x)

include wakes

/-- What waking up does to a controller. -/
theorem eq_of_controller :
    ∃ queue prcAck, c = { s with
      currentState := s.nextState
      actionQueue := queue
      prcAck := prcAck
      icapAck := s.icapAck && w.icapReq
      prrExecuting := s.prrExecuting && !(m.cells a).finishes } := by
  obtain ⟨c₀, h₀, rfl⟩ := wakes.controller
  obtain ⟨queue, prcAck, rfl⟩ := answerEnqueue_eq_ok h₀
  have released : (if s.icapAck && !w.icapReq then false else s.icapAck) =
      (s.icapAck && w.icapReq) := by
    cases s.icapAck <;> cases w.icapReq <;> rfl
  refine ⟨queue, prcAck, ?_⟩
  rw [← released]
  rfl

theorem currentState_eq : c.currentState = s.nextState := by
  obtain ⟨queue, prcAck, rfl⟩ := wakes.eq_of_controller
  rfl

theorem nextState_eq : c.nextState = s.nextState := by
  obtain ⟨queue, prcAck, rfl⟩ := wakes.eq_of_controller
  rfl

theorem prrId_eq : c.prrId = s.prrId := by
  obtain ⟨queue, prcAck, rfl⟩ := wakes.eq_of_controller
  rfl

theorem bitstreamId_eq : c.bitstreamId = s.bitstreamId := by
  obtain ⟨queue, prcAck, rfl⟩ := wakes.eq_of_controller
  rfl

theorem simSpeed_eq : c.simSpeed = s.simSpeed := by
  obtain ⟨queue, prcAck, rfl⟩ := wakes.eq_of_controller
  rfl

theorem icapTransferBs_eq : c.icapTransferBs = s.icapTransferBs := by
  obtain ⟨queue, prcAck, rfl⟩ := wakes.eq_of_controller
  rfl

theorem installedBs_eq : c.installedBs = s.installedBs := by
  obtain ⟨queue, prcAck, rfl⟩ := wakes.eq_of_controller
  rfl

theorem prevTaskTypeId_eq : c.prevTaskTypeId = s.prevTaskTypeId := by
  obtain ⟨queue, prcAck, rfl⟩ := wakes.eq_of_controller
  rfl

/-- The acknowledgement stands for as long as the request does. -/
theorem icapAck_eq : c.icapAck = (s.icapAck && w.icapReq) := by
  obtain ⟨queue, prcAck, rfl⟩ := wakes.eq_of_controller
  rfl

/-- The signal drops in the cycle in which the module finishes. -/
theorem prrExecuting_eq : c.prrExecuting = (s.prrExecuting && !(m.cells a).finishes) := by
  obtain ⟨queue, prcAck, rfl⟩ := wakes.eq_of_controller
  rfl

/-- The region's module was watched. -/
theorem cell_eq : x.cells a = (m.cells a).watch := by
  rw [wakes.memory, Memory.setCell_cells, Function.update_self]

/-- The other modules were not touched. -/
theorem cell_of_ne {b : ℕ} (other : b ≠ a) : x.cells b = m.cells b := by
  rw [wakes.memory, Memory.setCell_cells, Function.update_of_ne other]

end Wakes

section Step

variable [GraphNode Node]

/-- A controller with nothing to do stays as it is. -/
theorem stepIdle_of_rests (rests : Rests w c (x.cells a)) :
    stepIdle w c x a = .ok (c, x) := by
  unfold stepIdle
  rcases rests with ⟨asked, busy⟩ | ⟨queue, noStart, noReq⟩
  · cases queue : c.actionQueue with
    | cons task rest => simp only [busy, if_false]; rfl
    | nil =>
        have start : w.prcStart = true := asked.resolve_left fun h => h queue
        simp only [start, if_true, busy, if_false]
        rfl
  · simp only [queue, noStart, noReq]
    rfl

/-- The transitions out of `PRR_IDLE`. -/
theorem moves_of_stepIdle (wakes : Wakes w s m a c x) (state : s.nextState = .idle)
    (h : stepIdle w c x a = .ok (s', m')) : Moves w s m s' m' := by
  unfold stepIdle at h
  cases queue : c.actionQueue with
  | cons task rest =>
      simp only [queue] at h
      split at h
      · rename_i idle
        simp only [startQueued, Machine.bind_eq_ok, beginTask_eq_ok] at h
        obtain ⟨typeId, type, x', ⟨b, hb, begins⟩, h⟩ := h
        cases hb
        cases h
        exact .startQueued wakes state queue idle type begins
      · rename_i busy
        cases h
        exact .rest wakes state (.inl ⟨.inl (by simp [queue]), busy⟩)
  | nil =>
      simp only [queue] at h
      split at h
      · rename_i start
        split at h
        · rename_i idle
          simp only [startRequested, Machine.bind_eq_ok, deref_eq_ok,
            beginTask_getModuleFromRegion] at h
          obtain ⟨task, current, bitstream, handle, x', ⟨b, target, begins⟩, h⟩ := h
          cases h
          exact .startRequested wakes state queue start idle current handle target begins
        · rename_i busy
          cases h
          exact .rest wakes state (.inl ⟨.inr start, busy⟩)
      · rename_i noStart
        split at h
        · rename_i req
          simp only [acceptTransfer, Machine.bind_eq_ok, deref_eq_ok] at h
          obtain ⟨bitstream, handle, ⟨b, x'⟩, hfind, h⟩ := h
          obtain ⟨target, rfl⟩ := Memory.findModule_eq_ok.mp hfind
          split at h
          · cases h
          · rename_i other
            split at h
            · rename_i running
              cases h
              exact .decline wakes state queue (by simpa using noStart) req handle target
                other running
            · rename_i stopped
              cases h
              exact .accept wakes state queue (by simpa using noStart) req handle target
                other (by simpa using stopped)
        · rename_i noReq
          cases h
          exact .rest wakes state (.inr ⟨queue, by simpa using noStart, by simpa using noReq⟩)

/-- The transitions out of `PRR_TRANSFER`. -/
theorem moves_of_stepTransfer (wakes : Wakes w s m a c x) (state : s.nextState = .transfer)
    (h : stepTransfer w c x = .ok (s', m')) : Moves w s m s' m' := by
  unfold stepTransfer at h
  split at h
  · rename_i transferring
    cases h
    exact .hold wakes state transferring
  · rename_i ended
    simp only [Machine.bind_eq_ok, deref_eq_ok, beginTask_eq_ok] at h
    obtain ⟨⟨ptr, x₁⟩, hlib, b, hptr, bitstream, handle, x', ⟨b', hb', begins⟩, h⟩ := h
    dsimp only at hptr
    subst hptr
    cases hb'
    obtain ⟨⟨level, unit, stored⟩, rfl⟩ := Memory.getLibraryModule_eq_some.mp hlib
    cases h
    exact .install wakes state (by simpa using ended) unit stored handle begins

/-- A controller that wakes goes on to perform its state. -/
theorem step_of_wakes (wakes : Wakes w s m a c x) :
    step w s m =
      match s.nextState with
      | .init => .ok ({ c with nextState := .idle }, x)
      | .idle => stepIdle w c x a
      | .wait => .ok (c, x)
      | .transfer => stepTransfer w c x := by
  unfold step
  rw [wake_eq_ok.mpr wakes]
  simp only [Machine.ok_bind, stepState, wakes.currentState_eq]
  rfl

/-- A step that does not fault is a transition. -/
theorem moves_of_step (h : step w s m = .ok (s', m')) : Moves w s m s' m' := by
  have woken := h
  unfold step at woken
  rw [Machine.bind_eq_ok] at woken
  obtain ⟨⟨a, c, x⟩, hwake, -⟩ := woken
  have wakes := wake_eq_ok.mp hwake
  rw [step_of_wakes wakes] at h
  cases state : s.nextState with
  | init =>
      simp only [state] at h
      cases h
      exact .init wakes state
  | idle =>
      simp only [state] at h
      exact moves_of_stepIdle wakes state h
  | wait =>
      simp only [state] at h
      cases h
      exact .wait wakes state
  | transfer =>
      simp only [state] at h
      exact moves_of_stepTransfer wakes state h

/-- A transition can be taken. -/
theorem step_of_moves (h : Moves w s m s' m') : step w s m = .ok (s', m') := by
  cases h with
  | init wakes state => simp only [step_of_wakes wakes, state]
  | rest wakes state rests =>
      simp only [step_of_wakes wakes, state]
      exact stepIdle_of_rests rests
  | startQueued wakes state queue idle type begins =>
      simp only [step_of_wakes wakes, state, stepIdle, queue, idle, if_true, startQueued, type,
        Machine.ok_bind, beginTask_eq_ok.mpr ⟨_, rfl, begins⟩]
      rfl
  | startRequested wakes state queue start idle current handle target begins =>
      have begun := beginTask_getModuleFromRegion.mpr ⟨_, target, begins⟩
      simp only [queue] at begun
      simp only [step_of_wakes wakes, state, stepIdle, queue, start, idle, if_true,
        startRequested, current, handle, deref_some, Machine.ok_bind, begun]
      rfl
  | decline wakes state queue noStart req handle target other running =>
      simp only [step_of_wakes wakes, state, stepIdle, queue, noStart, req,
        acceptTransfer, handle, deref_some, Machine.ok_bind,
        Memory.findModule_eq_ok.mpr ⟨target, rfl⟩, other, running]
      rfl
  | accept wakes state queue noStart req handle target other stopped =>
      simp only [step_of_wakes wakes, state, stepIdle, queue, noStart, req,
        acceptTransfer, handle, deref_some, Machine.ok_bind,
        Memory.findModule_eq_ok.mpr ⟨target, rfl⟩, other, stopped]
      rfl
  | wait wakes state => simp only [step_of_wakes wakes, state]
  | hold wakes state transferring =>
      simp only [step_of_wakes wakes, state, stepTransfer, transferring]
      rfl
  | install wakes state ended unit stored handle begins =>
      simp only [step_of_wakes wakes, state, stepTransfer, ended,
        Memory.getLibraryModule_eq_some.mpr ⟨⟨_, unit, stored⟩, rfl⟩, deref_some,
        Machine.ok_bind, handle, beginTask_eq_ok.mpr ⟨_, rfl, begins⟩]
      rfl

/-- **The transitions are exactly the steps that do not fault.** -/
theorem step_eq_ok : step w s m = .ok (s', m') ↔ Moves w s m s' m' :=
  ⟨moves_of_step, step_of_moves⟩

end Step

/-! ## What a step leaves alone -/

section Keeps

theorem Wakes.keeps (wakes : Wakes w s m a c x) : m.Keeps x := by
  rw [wakes.memory]
  exact .setCell (RrModule.watch_regionId _) (RrModule.watch_moduleId _)

theorem Begins.keeps (begins : Begins s m a x) : m.Keeps x := by
  obtain ⟨task, -, -, rfl⟩ := begins
  exact .setCell (RrModule.begun_regionId _ _ _) (RrModule.begun_moduleId _ _ _)

/-- Waking up and beginning a task file no module. -/
theorem Wakes.prr_eq (wakes : Wakes w s m a c x) : x.prr = m.prr := by
  rw [wakes.memory]
  rfl

theorem Wakes.still_resident (wakes : Wakes w s m a c x) :
    x.prr.table s.prrId = some (some a) := by
  rw [wakes.prr_eq]
  exact wakes.resident

theorem Begins.prr_eq (begins : Begins s m a x) : x.prr = m.prr := by
  obtain ⟨task, -, -, rfl⟩ := begins
  rfl

variable [GraphNode Node]

/-- **No step touches the library**, and modules stay the modules they are. -/
theorem Moves.keeps (moves : Moves w s m s' x) : m.Keeps x := by
  cases moves with
  | init wakes => exact wakes.keeps
  | rest wakes => exact wakes.keeps
  | startQueued wakes _ _ _ _ begins => exact wakes.keeps.trans begins.keeps
  | startRequested wakes _ _ _ _ _ _ _ begins => exact wakes.keeps.trans begins.keeps
  | decline wakes => exact wakes.keeps
  | accept wakes => exact wakes.keeps.trans (.setCell rfl rfl)
  | wait wakes => exact wakes.keeps
  | hold wakes => exact wakes.keeps
  | install wakes _ _ _ _ _ begins =>
      exact wakes.keeps.trans (Memory.Keeps.insertModule.trans begins.keeps)

/-- A controller keeps its region, and never writes the id of the bitstream it
reports as installed. -/
theorem Moves.constants (moves : Moves w s m s' x) :
    s'.prrId = s.prrId ∧ s'.bitstreamId = s.bitstreamId := by
  cases moves with
  | init wakes => exact ⟨wakes.prrId_eq, wakes.bitstreamId_eq⟩
  | rest wakes => exact ⟨wakes.prrId_eq, wakes.bitstreamId_eq⟩
  | startQueued wakes => exact ⟨wakes.prrId_eq, wakes.bitstreamId_eq⟩
  | startRequested wakes => exact ⟨wakes.prrId_eq, wakes.bitstreamId_eq⟩
  | decline wakes => exact ⟨wakes.prrId_eq, wakes.bitstreamId_eq⟩
  | accept wakes => exact ⟨wakes.prrId_eq, wakes.bitstreamId_eq⟩
  | wait wakes => exact ⟨wakes.prrId_eq, wakes.bitstreamId_eq⟩
  | hold wakes => exact ⟨wakes.prrId_eq, wakes.bitstreamId_eq⟩
  | install wakes => exact ⟨wakes.prrId_eq, wakes.bitstreamId_eq⟩

/-- A controller that is in `PRR_TRANSFER` after a step was there before and saw the
transfer signal, or was requested to receive the bitstream it has latched. -/
theorem Moves.transfer_cases (moves : Moves w s m s' x) (state : s'.nextState = .transfer) :
    s.nextState = .transfer ∧ s'.icapTransferBs = s.icapTransferBs ∨
      w.icapReq = true ∧ w.handles.icapTransferBs = some s'.icapTransferBs := by
  cases moves with
  | init => cases state
  | rest wakes idle => rw [wakes.nextState_eq, idle] at state; cases state
  | startQueued wakes idle =>
      dsimp only at state
      rw [wakes.nextState_eq, idle] at state
      cases state
  | startRequested wakes idle =>
      dsimp only at state
      rw [wakes.nextState_eq, idle] at state
      cases state
  | decline wakes idle =>
      dsimp only at state
      rw [wakes.nextState_eq, idle] at state
      cases state
  | accept _ _ _ _ req handle => exact .inr ⟨req, handle⟩
  | wait wakes waiting => rw [wakes.nextState_eq, waiting] at state; cases state
  | hold wakes receiving => exact .inl ⟨receiving, wakes.icapTransferBs_eq⟩
  | install => cases state

/-- Unless a transfer has ended, a step files no module in the RR table. -/
theorem Moves.prr_eq (moves : Moves w s m s' x)
    (running : s.nextState = .transfer → w.icapTrans = true) : x.prr = m.prr := by
  cases moves with
  | init wakes => exact wakes.prr_eq
  | rest wakes => exact wakes.prr_eq
  | startQueued wakes _ _ _ _ begins => exact begins.prr_eq.trans wakes.prr_eq
  | startRequested wakes _ _ _ _ _ _ _ begins => exact begins.prr_eq.trans wakes.prr_eq
  | decline wakes => exact wakes.prr_eq
  | accept wakes => exact wakes.prr_eq
  | wait wakes => exact wakes.prr_eq
  | hold wakes => exact wakes.prr_eq
  | install _ state ended =>
      rw [running state] at ended
      cases ended

/-- Out of `PRR_TRANSFER`, the controller waits for the end of the transfer, or installs the
module of the latched bitstream. -/
theorem Moves.of_transfer (moves : Moves w s m s' x) (state : s.nextState = .transfer) :
    w.icapTrans = true ∧ (∃ a, Wakes w s m a s' x) ∨
    w.icapTrans = false ∧ ∃ a b c x₀ level bitstream, Wakes w s m a c x₀ ∧
      m.hierarchy[w.icapMc]? = some (.level level) ∧
      level.table s.icapTransferBs.regionId s.icapTransferBs.id = some (some b) ∧
      w.handles.icapTransferBs = some bitstream ∧
      Begins { c with installedBs := bitstream } (x₀.insertModule b) b x ∧
      s' = { c with installedBs := bitstream, prrExecuting := true, nextState := .idle } := by
  cases moves with
  | hold wakes _ transferring => exact .inl ⟨transferring, _, wakes⟩
  | @install a b c x₀ x level bitstream wakes _ ended unit stored handle begins =>
      rw [wakes.keeps.hierarchy] at unit
      rw [wakes.icapTransferBs_eq] at stored
      exact .inr ⟨ended, a, b, c, x₀, level, bitstream, wakes, unit, stored, handle, begins, rfl⟩
  | init _ other => rw [state] at other; cases other
  | rest _ other => rw [state] at other; cases other
  | startQueued _ other => rw [state] at other; cases other
  | startRequested _ other => rw [state] at other; cases other
  | decline _ other => rw [state] at other; cases other
  | accept _ other => rw [state] at other; cases other
  | wait _ other => rw [state] at other; cases other

/-- A step that finds its transfer ended installs the module. -/
theorem Moves.of_ended (moves : Moves w s m s' x) (state : s.nextState = .transfer)
    (ended : w.icapTrans = false) :
    ∃ a b c x₀ level bitstream, Wakes w s m a c x₀ ∧
      m.hierarchy[w.icapMc]? = some (.level level) ∧
      level.table s.icapTransferBs.regionId s.icapTransferBs.id = some (some b) ∧
      w.handles.icapTransferBs = some bitstream ∧
      Begins { c with installedBs := bitstream } (x₀.insertModule b) b x ∧
      s' = { c with installedBs := bitstream, prrExecuting := true, nextState := .idle } := by
  obtain ⟨transferring, -⟩ | ⟨-, installs⟩ := moves.of_transfer state
  · rw [ended] at transferring
    cases transferring
  · exact installs

/-- When a transfer has ended, the step files the module of the latched bitstream
in the RR table, under the module's region. -/
theorem Moves.installed (moves : Moves w s m s' x) (state : s.nextState = .transfer)
    (ended : w.icapTrans = false) :
    ∃ level b, m.hierarchy[w.icapMc]? = some (.level level) ∧
      level.table s.icapTransferBs.regionId s.icapTransferBs.id = some (some b) ∧
        x.prr.table (m.cells b).regionId = some (some b) := by
  obtain ⟨a, b, c, x₀, level, bitstream, wakes, unit, stored, -, begins, -⟩ :=
    moves.of_ended state ended
  refine ⟨level, b, unit, stored, ?_⟩
  rw [begins.prr_eq, ← wakes.keeps.regionId]
  exact Function.update_self _ _ _

end Keeps

/-- A controller before it is constructed. -/
def rawController {Node : Type} : RrController Node :=
  { currentState := .init
    nextState := .init
    prrId := 0
    bitstreamId := 0
    simSpeed := 0
    prcCurrentTask := none
    prcScheduledBs := ModuleSpec.default Double
    icapTransferBs := ModuleSpec.default Double
    prrExecuting := false
    icapAck := false
    prcAck := false
    actionQueue := []
    installedBs := ModuleSpec.default Double
    prevTaskTypeId := "" }

end RrController

end Drachma
