import Drachma.RegionLife
import Drachma.TaskExecution

/-!
# The window of `PRR_EXE`

An RR controller raises `PRR_EXE` where it begins an execution, and drops it where it finds
the execution finished.  It begins one execution at most, so that a run shows the signal
of a region high in one window, which begins with the execution, or not at all.  The
window is as long as the execution: one cycle more than its latency.

The controllers run with their storage, from their INIT states, and with arbitrary
signals of the PRC and the ICAP.

## Main results

* `RrSide.Elapsed.step` — what a cycle does to a region in which an execution has begun.
* `RrBank.one_window` — when `PRR_EXE` is high.
-/

namespace Drachma

open RrController (Moves Wakes Begins ModuleAt)

/-! ## Modules that were not stepped -/

/-- The module has counted no cycle unless it was stepped, and its latency is an
`unsigned`. -/
structure RrModule.Uncounted (module : RrModule) : Prop where
  timestep : module.inSimulation = false → module.internalTimestep = 0
  latency : module.executionLatency < 2 ^ 32

namespace RrModule.Uncounted

variable {module : RrModule}

theorem watch (uncounted : module.Uncounted) : module.watch.Uncounted where
  timestep fresh := by
    have same := watch_of_not_inSimulation fresh
    rw [same] at fresh ⊢
    exact uncounted.timestep fresh
  latency := by
    unfold RrModule.watch RrModule.step
    dsimp only
    split
    · split <;> exact uncounted.latency
    · exact uncounted.latency

theorem begun (uncounted : module.Uncounted) (simSpeed : Double) (task : TaskSpec Double) :
    (module.begun simSpeed task).Uncounted where
  timestep fresh := uncounted.timestep fresh
  latency := toUnsigned_lt _

theorem beginTransfer (uncounted : module.Uncounted) : module.beginTransfer.Uncounted :=
  ⟨uncounted.timestep, uncounted.latency⟩

end RrModule.Uncounted

/-- No module has counted a cycle without being stepped. -/
def Memory.Uncounted (m : Memory) : Prop := ∀ a, (m.cells a).Uncounted

namespace Memory

variable {m : Memory}

theorem Uncounted.setCell (uncounted : m.Uncounted) {a : ℕ} {module : RrModule}
    (h : module.Uncounted) : (m.setCell a module).Uncounted := by
  intro b
  rw [Memory.setCell_cells]
  by_cases same : b = a
  · rw [same, Function.update_self]
    exact h
  · rw [Function.update_of_ne same]
    exact uncounted b

end Memory

namespace RrController

variable {Node : Type} {w : RrcWires Node} {s s' c : RrController Node} {m x : Memory} {a : ℕ}

theorem Wakes.uncounted (wakes : Wakes w s m a c x) (uncounted : m.Uncounted) : x.Uncounted := by
  rw [wakes.memory]
  exact uncounted.setCell (uncounted a).watch

theorem Begins.uncounted (begins : Begins s m a x) (uncounted : m.Uncounted) : x.Uncounted := by
  obtain ⟨task, -, -, rfl⟩ := begins
  exact uncounted.setCell ((uncounted a).begun _ task)

theorem Moves.uncounted [GraphNode Node] (moves : Moves w s m s' x) (uncounted : m.Uncounted) :
    x.Uncounted := by
  cases moves with
  | init wakes => exact wakes.uncounted uncounted
  | rest wakes => exact wakes.uncounted uncounted
  | startQueued wakes _ _ _ _ begins => exact begins.uncounted (wakes.uncounted uncounted)
  | startRequested wakes _ _ _ _ _ _ _ begins =>
      exact begins.uncounted (wakes.uncounted uncounted)
  | decline wakes => exact wakes.uncounted uncounted
  | accept wakes =>
      have after := wakes.uncounted uncounted
      exact after.setCell (after _).beginTransfer
  | wait wakes => exact wakes.uncounted uncounted
  | hold wakes => exact wakes.uncounted uncounted
  | install wakes _ _ _ _ _ begins =>
      have after := wakes.uncounted uncounted
      exact begins.uncounted fun a => after a

/-- Whether the module executes, `k` cycles after its execution began. -/
theorem ModuleAt.exec_iff {latency k : ℕ} {module : RrModule} (h : ModuleAt latency k module) :
    module.currentState = .exec ↔ k ≤ latency := by
  unfold ModuleAt at h
  by_cases hk : k ≤ latency
  · rw [if_pos hk] at h
    simp [h.1, hk]
  · rw [if_neg hk] at h
    simp [h.1, hk]

end RrController

/-! ## A region in which an execution has begun -/

namespace RrSide

variable {n : ℕ} {Node : Type} {w : Fin n → RrcWires Node} {s s' : RrSide n Node} {i : Fin n}

/-- It is `t` cycles since an execution of the given latency was begun in region `i`, and
the signal shows whether it goes on. -/
def Elapsed (s : RrSide n Node) (i : Fin n) (latency t : ℕ) : Prop :=
  ∃ a, s.memory.prr.table i = some (some a) ∧ ModuleAt latency t (s.memory.cells a) ∧
    ((s.rrc i).prrExecuting = true ↔ (s.memory.cells a).currentState = .exec)

theorem Elapsed.executing_iff {latency t : ℕ} (elapsed : s.Elapsed i latency t) :
    (s.rrc i).prrExecuting = true ↔ t ≤ latency := by
  obtain ⟨a, -, module, shows⟩ := elapsed
  exact shows.trans module.exec_iff

/-- An execution has just begun. -/
theorem Elapsed.of_begun {a : ℕ} (uncounted : s.memory.Uncounted) (begun : s.memory.Begun i)
    (high : (s.rrc i).prrExecuting = true) (resident : s.memory.prr.table i = some (some a)) :
    s.Elapsed i (s.memory.cells a).executionLatency 0 := by
  obtain ⟨b, resident', exec, fresh⟩ := begun
  cases resident.symm.trans resident'
  refine ⟨a, resident, ?_, ⟨fun _ => exec, fun _ => high⟩⟩
  rw [ModuleAt, if_pos (Nat.zero_le _)]
  exact ⟨exec, (uncounted a).timestep fresh, rfl⟩

variable [GraphNode Node]

/-- **A cycle of a committed region** watches its module, and nothing else. -/
theorem Elapsed.step {stage : Fin n → RegionStage} {latency t : ℕ}
    (elapsed : s.Elapsed i latency t) (bound : latency < 2 ^ 32) (stages : s.InStages stage)
    (own : ∀ i : Fin n, (w i).TargetsOwn i) (committed : stage i = .committed)
    (h : s.sweep w = .ok s') : s'.Elapsed i latency (t + 1) := by
  obtain ⟨a, resident, module, shows⟩ := elapsed
  obtain ⟨apart, moved⟩ := moves_of_sweep Fin.val_injective stages.apart
    (stages.handlesOwn own) h
  obtain ⟨x, filed, view, moves⟩ := moved i
  have region := stages.apart.region i
  have holds := stages.holds i
  rw [committed] at holds
  obtain ⟨b, c, wakes, -, -, signal⟩ :=
    RegionStage.watches_of_committed moves (by rw [region]; exact own i) holds
  have there := wakes.still_resident
  have here := wakes.resident
  rw [region] at there here
  cases resident.symm.trans here
  -- the controller's part of the storage is as the sweep leaves it
  have cell : s'.memory.cells a = (s.memory.cells a).watch := by
    rw [Memory.cell_eq_of_view view (filed.prr i a there), wakes.cell_eq]
  refine ⟨a, ?_, ?_, ?_⟩
  · rw [← Memory.entry_eq_of_view view]
    exact there
  · rw [cell]
    exact module.watch bound
  · rw [cell, signal, wakes.prrExecuting_eq, Bool.and_eq_true, Bool.not_eq_true', shows,
      RrModule.watch_exec_iff]

theorem uncounted_of_sweep (uncounted : s.memory.Uncounted) (h : s.sweep w = .ok s') :
    s'.memory.Uncounted := by
  refine Machine.foldlM_invariant (P := fun t : RrSide n Node => t.memory.Uncounted) ?_
    uncounted h
  intro i t t' uncounted hstep
  obtain ⟨controller, memory, hctrl, rfl⟩ := step_eq_ok.mp hstep
  exact (RrController.moves_of_step hctrl).uncounted uncounted

end RrSide

/-! ## The window of a run -/

namespace RrBank

variable {n : ℕ} {Node : Type} [GraphNode Node]

/-- `PRR_EXE` of region `i`. -/
def Executing (s : RrBank n Node) (i : Fin n) : Prop := (s.rr.rrc i).prrExecuting = true

/-- What a run of `N` cycles shows of region `i`. -/
structure OneWindow (N : ℕ) (states : ℕ → RrBank n Node) (i : Fin n) : Prop where
  /-- `PRR_EXE` is high only if an execution begins. -/
  silent : (∀ k < N, ¬ Begins states i k) → ∀ j ≤ N, ¬ (states j).Executing i
  /-- It is then high when the execution has begun, and for as many cycles as its latency
  from then on. -/
  window : ∀ k < N, Begins states i k → ∀ a,
    (states (k + 1)).rr.memory.prr.table i = some (some a) → ∀ j ≤ N,
      ((states j).Executing i ↔ k + 1 ≤ j ∧
        j ≤ k + 1 + ((states (k + 1)).rr.memory.cells a).executionLatency)

section Run

variable {inputs : ℕ → RrBankEnv n Node} {s₀ : RrBank n Node} {N : ℕ}
  {states : ℕ → RrBank n Node} {stage : ℕ → Fin n → RegionStage} {i : Fin n} {j k : ℕ}

omit [GraphNode Node] in
/-- Where `PRR_EXE` is high, an execution has begun. -/
theorem Stages.exists_begins (stages : Stages N states stage)
    (low : ¬ (states 0).Executing i) (hj : j ≤ N) (high : (states j).Executing i) :
    ∃ k < j, Begins states i k := by
  induction j with
  | zero => exact absurd high low
  | succ j ih =>
      have raised := (stages.goes j hj i).raised high
      rw [(stages.holds (j + 1) hj).apart.region i] at raised
      rcases raised with before | begun
      · obtain ⟨k, hkj, begins⟩ := ih (by omega) before
        exact ⟨k, by omega, begins⟩
      · exact ⟨j, by omega, begun⟩

omit [GraphNode Node] in
/-- Once an execution has begun, the region is committed. -/
theorem Stages.committed_of_begins (stages : Stages N states stage) (hk : k < N)
    (begins : Begins states i k) (hkj : k < j) (hj : j ≤ N) : stage j i = .committed := by
  have gone := (stages.neverFalls i).not_le_of_goesOver ((stages.begins_iff hk).mp begins) hkj hj
  cases stage' : stage j i with
  | committed => rfl
  | vacant => rw [stage'] at gone; exact absurd (by decide) gone
  | receiving => rw [stage'] at gone; exact absurd (by decide) gone

theorem uncounted_of_trace (uncounted : s₀.rr.memory.Uncounted)
    (trace : Machine.Trace step inputs s₀ N states) :
    ∀ k ≤ N, (states k).rr.memory.Uncounted :=
  trace.invariant (P := fun _ s => s.rr.memory.Uncounted) uncounted fun k _ uncounted hstep => by
    obtain ⟨rr, hsweep, h⟩ := Machine.bind_eq_ok.mp hstep
    rw [← Except.ok.inj h]
    exact RrSide.uncounted_of_sweep uncounted hsweep

/-- The cycles after an execution has begun. -/
theorem Stages.elapsed (stages : Stages N states stage)
    (uncounted : ∀ k ≤ N, (states k).rr.memory.Uncounted)
    (own : ∀ k < N, TargetsOwn (inputs k) (states k))
    (trace : Machine.Trace step inputs s₀ N states) (hk : k < N) (begins : Begins states i k)
    {a : ℕ} (resident : (states (k + 1)).rr.memory.prr.table i = some (some a)) (t : ℕ)
    (ht : k + 1 + t ≤ N) :
    (states (k + 1 + t)).rr.Elapsed i
      ((states (k + 1)).rr.memory.cells a).executionLatency t := by
  induction t with
  | zero =>
      have raises := (stages.goes k hk i).raises
      rw [(stages.holds (k + 1) hk).apart.region i] at raises
      exact .of_begun (uncounted (k + 1) hk) begins (raises begins) resident
  | succ t ih =>
      have committed : stage (k + 1 + t) i = .committed :=
        stages.committed_of_begins hk begins (by omega) (by omega)
      obtain ⟨rr, hsweep, h⟩ := Machine.bind_eq_ok.mp (trace.step_eq (k := k + 1 + t) (by omega))
      have next := (ih (by omega)).step (uncounted (k + 1) hk a).latency
        (stages.holds _ (by omega)) (own _ (by omega)) committed hsweep
      show (states (k + 1 + t + 1)).rr.Elapsed i _ (t + 1)
      rw [← Except.ok.inj h]
      exact next

/-- **The window of `PRR_EXE`.**  Whatever the PRC and the ICAP signal, the signal of a
region is high from the cycle that begins its execution until the execution has ended, and
never again. -/
theorem one_window (init : s₀.rr.AtInit) (uncounted : s₀.rr.memory.Uncounted)
    (low : ∀ i, ¬ s₀.Executing i) (own : ∀ k < N, TargetsOwn (inputs k) (states k))
    (trace : Machine.Trace step inputs s₀ N states) (i : Fin n) : OneWindow N states i := by
  obtain ⟨stage, stages⟩ := exists_stages init own trace
  have low' : ¬ (states 0).Executing i := by
    rw [trace.start]
    exact low i
  refine ⟨fun never j hj high => ?_, fun k hk begins a resident j hj => ?_⟩
  · obtain ⟨k, hkj, begins⟩ := stages.exists_begins low' hj high
    exact never k (by omega) begins
  · by_cases hkj : k + 1 ≤ j
    · obtain ⟨t, rfl⟩ := Nat.exists_eq_add_of_le hkj
      have elapsed := stages.elapsed (uncounted_of_trace uncounted trace) own trace hk begins
        resident t hj
      unfold Executing
      rw [elapsed.executing_iff]
      omega
    · -- the only execution has not begun yet
      refine ⟨fun high => ?_, fun h => absurd h.1 hkj⟩
      obtain ⟨k', hkj', begins'⟩ := stages.exists_begins low' hj high
      have same := ((stages.begins_iff (by omega)).mp begins').unique (stages.neverFalls i)
        (by omega) hk ((stages.begins_iff hk).mp begins)
      omega

end Run

/-- The module that is installed in the third cycle executes for three cycles, and `PRR_EXE`
stays low when a second one is requested. -/
theorem one_window_repeatedEnv :
    ∃ states, Machine.Trace step repeatedEnv installStart 7 states ∧
      (states 3).Executing 0 ∧ (states 3).rr.memory.prr.table 0 = some (some 1) ∧
        ((states 3).rr.memory.cells 1).executionLatency = 2 ∧ OneWindow 7 states 0 := by
  have completes : (Machine.run step repeatedEnv installStart 7).isOk = true := by
    decide +kernel
  obtain ⟨states, trace⟩ := Machine.Trace.exists_of_isOk completes
  have uncounted : installStart.rr.memory.Uncounted := by
    intro a
    have idle : ∃ r id, installStart.rr.memory.cells a = .idleModule r id := by
      show ∃ r id, (if a = 1 then _ else _) = _
      split
      · exact ⟨_, _, rfl⟩
      · exact ⟨_, _, rfl⟩
    obtain ⟨r, id, idle⟩ := idle
    rw [idle]
    exact ⟨fun _ => rfl, Nat.two_pow_pos 32⟩
  refine ⟨states, trace, ?_, ?_, ?_, one_window installStart_atInit uncounted
    (fun _ => Bool.false_ne_true) (fun k _ => repeatedEnv_targetsOwn k _) trace 0⟩
  · exact trace.observe (f := fun s => (s.rr.rrc 0).prrExecuting) (by omega) (by decide +kernel)
  · exact trace.observe (f := fun s => s.rr.memory.prr.table 0) (by omega) (by decide +kernel)
  · exact trace.observe (f := fun s => (s.rr.memory.cells 1).executionLatency) (by omega)
      (by decide +kernel)

end RrBank

end Drachma
