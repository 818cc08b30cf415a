import Drachma.TaskExecution

/-!
# The task a transfer was requested for

The PRC requests a bitstream for a task, and when the transfer has ended the RR
controller installs the bitstream and begins a task on it.  Neither the request nor the
ICAP says which task that is.  The controller begins the type it has noted last, that of
the task it has last taken off its own queue, and none if it never has.

## Main results

* `RrController.runsTask_iff` — when the task begun is the one the bitstream was
  requested for.
-/

namespace Drachma

namespace RrModule

/-- A module is in simulation after it was watched if it was before, or executed. -/
theorem watch_inSimulation_eq_false {m : RrModule} :
    m.watch.inSimulation = false ↔ m.inSimulation = false ∧ m.currentState ≠ .exec := by
  unfold watch
  by_cases exec : m.currentState = .exec
  · rw [if_pos exec]
    unfold step
    dsimp only
    split <;> simp [exec]
  · rw [if_neg exec]
    simp [exec]

end RrModule

namespace RrController

variable {Node : Type} {w : RrcWires Node} {s s' c : RrController Node} {m m' x : Memory}
  {a b : ℕ}

/-- The controller finds the transfer of its bitstream ended, and the memory level that
the ICAP addresses holds the module, at address `b`. -/
structure TransferDone (w : RrcWires Node) (s : RrController Node) (m : Memory) (b : ℕ) :
    Prop where
  state : s.nextState = .transfer
  ended : w.icapTrans = false
  stored : ∃ level, m.hierarchy[w.icapMc]? = some (.level level) ∧
    level.table s.icapTransferBs.regionId s.icapTransferBs.id = some (some b)

/-- The step raises no exception, and begins an execution of the module at `b`, with the
speed and the cycles that the installed bitstream specifies for a task of type `wanted`. -/
def RunsTask [GraphNode Node] (w : RrcWires Node) (s : RrController Node) (m : Memory) (b : ℕ)
    (wanted : String) : Prop :=
  ∃ s' m' task, step w s m = .ok (s', m') ∧
    getSpecForTaskFromBs s'.installedBs wanted = .ok task ∧
    (m'.cells b).currentState = .exec ∧ (m'.cells b).isRunning = true ∧
    (m'.cells b).operatingSpeed = task.speed ∧ (m'.cells b).executionTime = task.cycles

/-- The controller is fit to run a task of type `wanted` on the module at `b`: the step
meets no null pointer, the module has not been stepped, and is not the region's executing
one, and the type the controller has noted has the speed and the cycles of `wanted`. -/
structure NotesTask (w : RrcWires Node) (s : RrController Node) (m : Memory) (b : ℕ)
    (wanted : String) : Prop where
  resident : ∃ a, m.prr.table s.prrId = some (some a) ∧
    (b = a → (m.cells b).currentState ≠ .exec)
  handle : (w.prcEnqueue && !s.prcAck) = true → w.handles.prcCurrentTask.isSome = true
  unstepped : (m.cells b).inSimulation = false
  noted : ∃ bitstream task wantedTask, w.handles.icapTransferBs = some bitstream ∧
    getSpecForTaskFromBs bitstream s.prevTaskTypeId = .ok task ∧
    getSpecForTaskFromBs bitstream wanted = .ok wantedTask ∧
    task.speed = wantedTask.speed ∧ task.cycles = wantedTask.cycles

/-- Waking up leaves a module out of simulation unless it steps it. -/
theorem Wakes.unstepped_iff (wakes : Wakes w s m a c x) :
    (x.cells b).inSimulation = false ↔
      (m.cells b).inSimulation = false ∧ (b = a → (m.cells b).currentState ≠ .exec) := by
  rcases eq_or_ne b a with rfl | hne
  · rw [wakes.cell_eq, RrModule.watch_inSimulation_eq_false]
    simp
  · rw [wakes.cell_of_ne hne]
    simp [hne]

/-- **When the task begun is the one the bitstream was requested for**: in every state with
an ended transfer, exactly if the controller is fit to run the task.  What it has noted,
from earlier tasks, must have the speed and the cycles of the task that is wanted now. -/
theorem runsTask_iff [GraphNode Node] (done : TransferDone w s m b) (wanted : String) :
    RunsTask w s m b wanted ↔ NotesTask w s m b wanted := by
  obtain ⟨level, unit, stored⟩ := done.stored
  constructor
  · rintro ⟨s', m', wantedTask, hstep, hwanted, -, -, hspeed, hcycles⟩
    obtain ⟨a, b', c, x, level', bitstream, wakes, unit', stored', handle, begins, rfl⟩ :=
      (moves_of_step hstep).of_ended done.state done.ended
    rw [unit] at unit'
    cases unit'
    rw [stored] at stored'
    cases stored'
    obtain ⟨task, htask, fresh, rfl⟩ := begins
    obtain ⟨unstepped, still⟩ := wakes.unstepped_iff.mp fresh
    dsimp only at htask
    rw [wakes.prevTaskTypeId_eq] at htask
    rw [Memory.setCell_cells, Function.update_self] at hspeed hcycles
    exact ⟨⟨a, wakes.resident, still⟩, wakes.enqueue.1, unstepped,
      ⟨bitstream, task, wantedTask, handle, htask, hwanted, hspeed, hcycles⟩⟩
  · rintro ⟨⟨a, resident, still⟩, enqueued, unstepped, bitstream, task, wantedTask, handle,
      htask, hwanted, hspeed, hcycles⟩
    obtain ⟨c, wakes⟩ := exists_wakes resident enqueued
    have unit' := unit
    rw [← wakes.keeps.hierarchy] at unit'
    rw [← wakes.icapTransferBs_eq] at stored
    rw [← wakes.prevTaskTypeId_eq] at htask
    have fresh := wakes.unstepped_iff.mpr ⟨unstepped, still⟩
    refine ⟨_, _, wantedTask, step_of_moves (.install wakes done.state done.ended unit' stored
      handle ⟨task, htask, fresh, rfl⟩), hwanted, ?_⟩
    rw [Memory.setCell_cells, Function.update_self]
    exact ⟨rfl, rfl, hspeed, hcycles⟩

/-- A controller whose bitstream, requested for a task of type "a", has just been
transferred, with the type it has noted. -/
def receivingFor (noted : String) : RrController LoneTask :=
  { RrController.new rawController 0 1 with
    nextState := .transfer
    icapTransferBs := Application.oneRegionBs
    prevTaskTypeId := noted }

/-- The transfer has ended, and nothing is asked. -/
def transferEnded : RrcWires LoneTask :=
  { prcStart := false
    prcEnqueue := false
    icapMc := 1
    icapReq := false
    icapTrans := false
    handles :=
      { prcCurrentTask := none
        prcScheduledBs := none
        icapTransferBs := some Application.oneRegionBs } }

theorem transferDone_receivingFor (noted : String) :
    TransferDone transferEnded (receivingFor noted) (.oneModule 1 0 7) 1 :=
  ⟨rfl, rfl, _, rfl, rfl⟩

theorem runsTask_iff_receivingFor :
    RunsTask transferEnded (receivingFor "a") (.oneModule 1 0 7) 1 "a" ↔
      NotesTask transferEnded (receivingFor "a") (.oneModule 1 0 7) 1 "a" :=
  runsTask_iff (transferDone_receivingFor "a") "a"

/-- **The first transfer faults**: a controller that has run no task has noted no type, and
finds none under the empty one in the bitstream that was requested for type "a". -/
theorem first_transfer_faults :
    TransferDone transferEnded (receivingFor "") (.oneModule 1 0 7) 1 ∧
      (getSpecForTaskFromBs Application.oneRegionBs "a").isOk = true ∧
      step transferEnded (receivingFor "") (.oneModule 1 0 7) =
        .error (.runtimeError "Expected task spec was not present in module spec.") ∧
      ¬ RunsTask transferEnded (receivingFor "") (.oneModule 1 0 7) 1 "a" := by
  have faults : step transferEnded (receivingFor "") (.oneModule 1 0 7) =
      .error (.runtimeError "Expected task spec was not present in module spec.") :=
    Machine.map_eq_error.mp (show (step transferEnded (receivingFor "")
      (.oneModule 1 0 7)).map (fun _ => ()) = _ by decide +kernel)
  refine ⟨transferDone_receivingFor "", rfl, faults, ?_⟩
  rintro ⟨s', m', task, hstep, -⟩
  rw [faults] at hstep
  cases hstep

end RrController

end Drachma
