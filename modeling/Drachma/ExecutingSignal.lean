import Drachma.TaskExecution

/-!
# The executing signal

`PRR_EXE` of an RR controller is to say whether its region's module executes.  The
controller asserts it where it begins an execution (from its queue, on a start request,
after an installation) and drops it where it finds one finished, while the state of the
module is written by the module itself, and the module in the region changes.

The controller runs among other components, which may do anything but move its region's
module or the ids under which modules are filed (`Turn.Spares`).

## Main results

* `RrController.Moves.shows` — one step keeps signal and state together.
* `RrController.executing_faithful` — so they are in every state of a run.
-/

namespace Drachma

namespace Memory

/-- Every library module is filed under its own region. -/
def LibraryFiled (m : Memory) : Prop :=
  ∀ level, StorageUnit.level level ∈ m.hierarchy → ∀ r id a,
    level.table r id = some (some a) → (m.cells a).regionId = r

theorem LibraryFiled.of_keeps {m x : Memory} (filed : m.LibraryFiled) (keeps : m.Keeps x) :
    x.LibraryFiled := by
  intro level hl r id a stored
  rw [keeps.hierarchy] at hl
  rw [keeps.regionId]
  exact filed level hl r id a stored

/-- The RR table holds a module for region `r`, and it executes. -/
def Executes (m : Memory) (r : ℕ) : Prop :=
  ∃ a, m.prr.table r = some (some a) ∧ (m.cells a).currentState = .exec

end Memory

/-- The signal shows whether the module executes, and the flag of an executing module is
set. -/
structure Shows (signal : Bool) (module : RrModule) : Prop where
  signal : signal = true ↔ module.currentState = .exec
  flag : module.currentState = .exec → module.isRunning = true

namespace Shows

variable {signal : Bool} {module : RrModule}

/-- A module that does not execute, with a low signal. -/
theorem of_still (still : module.currentState ≠ .exec) : Shows false module where
  signal := ⟨fun h => absurd h Bool.false_ne_true, fun exec => absurd exec still⟩
  flag exec := absurd exec still

/-- A module that was told to begin a task. -/
theorem of_begun (simSpeed : Double) (task : TaskSpec Double) :
    Shows true (module.begun simSpeed task) :=
  ⟨⟨fun _ => rfl, fun _ => rfl⟩, fun _ => rfl⟩

/-- The signal drops in the cycle in which the module finishes. -/
theorem watch (shows : Shows signal module) :
    Shows (signal && !module.finishes) module.watch where
  signal := by
    rw [Bool.and_eq_true, Bool.not_eq_true', shows.signal, module.watch_exec_iff]
  flag exec := by
    show module.watch.executing = true
    rw [RrModule.watch_executing]
    exact shows.flag (module.watch_exec_iff.mp exec).1

/-- A transfer begins on a module that says it is not running, which does not execute. -/
theorem beginTransfer (shows : Shows signal module) (stopped : module.isRunning = false) :
    Shows signal module.beginTransfer := by
  have low : signal = false := by
    rw [Bool.eq_false_iff]
    intro high
    have running := shows.flag (shows.signal.mp high)
    exact Bool.false_ne_true (stopped.symm.trans running)
  rw [low]
  apply of_still
  show ModuleState.transfer ≠ .exec
  decide

end Shows

/-- The bitstreams the handles hold are of region `r`. -/
structure RrcWires.NamesOwn {Node : Type} (r : ℕ) (w : RrcWires Node) : Prop where
  scheduled : ∀ bitstream, w.handles.prcScheduledBs = some bitstream → bitstream.regionId = r
  transfer : ∀ bitstream, w.handles.icapTransferBs = some bitstream → bitstream.regionId = r

namespace RrController

variable {Node : Type}

/-- The other components neither move region `r`'s module nor touch it, and leave the
library and the ids of the modules alone. -/
structure Turn.Spares (r : ℕ) (t : Turn Node) : Prop where
  keeps : ∀ m : Memory, m.Keeps (t.others m)
  entry : ∀ m : Memory, (t.others m).prr.table r = m.prr.table r
  cell : ∀ (m : Memory) a, m.prr.table r = some (some a) → (t.others m).cells a = m.cells a

variable {w : RrcWires Node} {s s' c : RrController Node} {m x : Memory} {a : ℕ}

theorem Wakes.shows (wakes : Wakes w s m a c x) (shows : Shows s.prrExecuting (m.cells a)) :
    Shows c.prrExecuting (x.cells a) := by
  rw [wakes.prrExecuting_eq, wakes.cell_eq]
  exact shows.watch

/-- A module that was begun shows that it executes. -/
theorem Begins.shows (begins : Begins s m a x) : Shows true (x.cells a) := by
  obtain ⟨task, -, -, rfl⟩ := begins
  rw [Memory.setCell_cells, Function.update_self]
  exact .of_begun _ task

/-- **One step**: the region has a module after it, and the signal shows its state. -/
theorem Moves.shows [GraphNode Node] (moves : Moves w s m s' x) (own : w.NamesOwn s.prrId)
    (latched : s.nextState = .transfer → s.icapTransferBs.regionId = s.prrId)
    (library : m.LibraryFiled)
    (shows : ∀ a, m.prr.table s.prrId = some (some a) → Shows s.prrExecuting (m.cells a)) :
    ∃ b, x.prr.table s.prrId = some (some b) ∧ Shows s'.prrExecuting (x.cells b) := by
  cases moves with
  | @init a _ _ wakes => exact ⟨a, wakes.still_resident, wakes.shows (shows a wakes.resident)⟩
  | @rest a _ _ wakes => exact ⟨a, wakes.still_resident, wakes.shows (shows a wakes.resident)⟩
  | @wait a _ _ wakes => exact ⟨a, wakes.still_resident, wakes.shows (shows a wakes.resident)⟩
  | @hold a _ _ wakes => exact ⟨a, wakes.still_resident, wakes.shows (shows a wakes.resident)⟩
  | @decline a _ _ _ _ wakes =>
      exact ⟨a, wakes.still_resident, wakes.shows (shows a wakes.resident)⟩
  | @startQueued a _ _ _ _ _ _ wakes _ _ _ _ begins =>
      refine ⟨a, ?_, begins.shows⟩
      rw [begins.prr_eq]
      exact wakes.still_resident
  | @startRequested a b _ _ _ _ _ wakes _ _ _ _ _ handle target begins =>
      refine ⟨b, ?_, begins.shows⟩
      rw [begins.prr_eq, ← own.scheduled _ handle]
      exact target
  | @accept a b c x bitstream wakes _ _ _ _ handle target _ stopped =>
      -- the module named by the request is the region's own
      rw [own.transfer _ handle] at target
      cases target.symm.trans wakes.still_resident
      refine ⟨a, wakes.still_resident, ?_⟩
      rw [Memory.setCell_cells, Function.update_self]
      exact (wakes.shows (shows a wakes.resident)).beginTransfer stopped
  | @install a b c x _ level bitstream wakes state _ unit stored _ begins =>
      refine ⟨b, ?_, begins.shows⟩
      have region : (x.cells b).regionId = s.prrId := by
        have filed := library.of_keeps wakes.keeps
        rw [filed level (List.mem_of_getElem? unit) _ _ b stored, wakes.icapTransferBs_eq,
          latched state]
      rw [begins.prr_eq]
      show Function.update x.prr.table (x.cells b).regionId (some (some b)) s.prrId = _
      rw [region, Function.update_self]

/-- The invariant of a controller of region `r`, with its storage. -/
structure SignalInv (r : ℕ) (p : RrController Node × Memory) : Prop where
  prrId : p.1.prrId = r
  latched : p.1.nextState = .transfer → p.1.icapTransferBs.regionId = r
  library : p.2.LibraryFiled
  shows : ∀ a, p.2.prr.table r = some (some a) → Shows p.1.prrExecuting (p.2.cells a)
  present : p.1.prrExecuting = true → ∃ a, p.2.prr.table r = some (some a)

/-- **The step lemma**, among other components. -/
theorem SignalInv.step [GraphNode Node] {r : ℕ} {t : Turn Node}
    {p p' : RrController Node × Memory} (inv : SignalInv r p) (spares : t.Spares r)
    (own : t.wires.NamesOwn r) (h : stepAmong t p = .ok p') : SignalInv r p' := by
  have moves := moves_of_step h
  obtain rfl := inv.prrId
  have shows : ∀ a, (t.others p.2).prr.table p.1.prrId = some (some a) →
      Shows p.1.prrExecuting ((t.others p.2).cells a) := by
    intro a resident
    rw [spares.entry] at resident
    rw [spares.cell p.2 a resident]
    exact inv.shows a resident
  have library := inv.library.of_keeps (spares.keeps p.2)
  obtain ⟨b, resident, after⟩ := moves.shows own inv.latched library shows
  refine ⟨moves.constants.1, fun state => ?_, library.of_keeps moves.keeps, fun a ha => ?_,
    fun _ => ⟨b, resident⟩⟩
  · rcases moves.transfer_cases state with ⟨before, same⟩ | ⟨-, handle⟩
    · rw [same]
      exact inv.latched before
    · exact own.transfer _ handle
  · cases ha.symm.trans resident
    exact after

/-- **The signal is faithful.**  A run of a controller starts with the signal low and no
execution in its region, its handles name its own region, and so does the bitstream it has
latched if it starts in `PRR_TRANSFER`.  After every step the signal is asserted iff the
module of the region executes. -/
theorem executing_faithful [GraphNode Node] {start : RrController Node × Memory}
    {inputs : ℕ → Turn Node} {N : ℕ} {σ : ℕ → RrController Node × Memory}
    (low : start.1.prrExecuting = false)
    (still : ¬ start.2.Executes start.1.prrId)
    (latched : start.1.nextState = .transfer →
      start.1.icapTransferBs.regionId = start.1.prrId)
    (library : start.2.LibraryFiled)
    (spares : ∀ k < N, (inputs k).Spares start.1.prrId)
    (own : ∀ k < N, (inputs k).wires.NamesOwn start.1.prrId)
    (trace : Machine.Trace stepAmong inputs start N σ) :
    ∀ k ≤ N, ((σ k).1.prrExecuting = true ↔ (σ k).2.Executes start.1.prrId) := by
  have initial : SignalInv start.1.prrId start := by
    refine ⟨rfl, latched, library, fun a ha => ?_, fun high => ?_⟩
    · rw [low]
      exact .of_still fun exec => still ⟨a, ha, exec⟩
    · rw [low] at high
      cases high
  have inv := trace.invariant (P := fun _ p => SignalInv start.1.prrId p) initial
    fun k hk inv hstep => inv.step (spares k hk) (own k hk) hstep
  intro k hk
  constructor
  · intro high
    obtain ⟨a, resident⟩ := (inv k hk).present high
    exact ⟨a, resident, ((inv k hk).shows a resident).signal.mp high⟩
  · rintro ⟨a, resident, exec⟩
    exact ((inv k hk).shows a resident).signal.mpr exec

/-- Nothing is asked of the controller, and the other components do nothing. -/
def undisturbed (_ : ℕ) : Turn LoneTask := { wires := enqueueing false none, others := id }

/-- A controller that installs a module, which executes for three steps. -/
theorem executing_faithful_undisturbed :
    ∃ σ, Machine.Trace stepAmong undisturbed (receiving, .oneModule 1 0 7) 4 σ ∧
      ∀ k ≤ 4, ((σ k).1.prrExecuting = true ↔ (σ k).2.Executes 0) := by
  obtain ⟨σ, trace⟩ := Machine.Trace.exists_of_isOk (show (Machine.run stepAmong undisturbed
    (receiving, .oneModule 1 0 7) 4).isOk = true by decide +kernel)
  refine ⟨σ, trace, executing_faithful rfl ?_ (fun _ => rfl) ?_ ?_ ?_ trace⟩
  · rintro ⟨a, resident, exec⟩
    rw [(Memory.oneModule_prr resident).2] at exec
    cases exec
  · exact (Memory.oneModule_filed 1 0 7).level
  · exact fun k _ => ⟨fun m => .refl m, fun _ => rfl, fun _ _ _ => rfl⟩
  · intro k _
    refine ⟨?_, ?_⟩
    · rintro bitstream ⟨⟩
      rfl
    · rintro bitstream ⟨⟩
      rfl

end RrController

end Drachma
