import Drachma.HitDetection
import Drachma.Lib.RisingRank

/-!
# The life of a region

A region is vacant, may receive a module, and is committed once an execution has begun
in it.  There is no way back: the module that was begun says for good that it is
running, so that no later transfer is accepted, and once it has been stepped it cannot
be begun again.

The controllers run with their storage, from their INIT states, and with arbitrary
signals of the PRC and the ICAP.

## Main results

* `RegionStage.step_cases` — one step of a controller stays in its stage or goes on to
  a later one, and begins an execution exactly when it commits the region.
* `RegionStage.watches_of_committed` — a committed region's module is only watched.
* `RrBank.committed_once` — what this means for the regions of a run.
-/

namespace Drachma

/-! ## Modules that were given a task -/

/-- The module was begun, and is idle only if it has been stepped since. -/
structure RrModule.Spent (module : RrModule) : Prop where
  running : module.isRunning = true
  stepped : module.currentState = .idle → module.inSimulation = true

namespace RrModule.Spent

variable {module : RrModule}

theorem watch (spent : module.Spent) : module.watch.Spent where
  running := (watch_executing module).trans spent.running
  stepped idle := by
    unfold RrModule.watch at idle ⊢
    by_cases exec : module.currentState = .exec
    · rw [if_pos exec]
      unfold RrModule.step
      dsimp only
      split <;> rfl
    · rw [if_neg exec] at idle ⊢
      exact spent.stepped idle

theorem of_begun (simSpeed : Double) (task : TaskSpec Double) :
    (module.begun simSpeed task).Spent :=
  ⟨rfl, fun idle => by cases idle⟩

end RrModule.Spent

namespace Memory

/-- The module of region `r` executes a task it has been given and not been stepped in. -/
def Begun (m : Memory) (r : ℕ) : Prop :=
  ∃ a, m.prr.table r = some (some a) ∧ (m.cells a).currentState = .exec ∧
    (m.cells a).inSimulation = false

/-- The module of region `r` was given a task. -/
def Spent (m : Memory) (r : ℕ) : Prop :=
  ∃ a, m.prr.table r = some (some a) ∧ (m.cells a).Spent

variable {m m' : Memory} {r : ℕ}

theorem Begun.of_view (h : m.Begun r) (filed : m.Filed) (same : m.viewOf r = m'.viewOf r) :
    m'.Begun r := by
  obtain ⟨a, resident, exec, fresh⟩ := h
  refine ⟨a, ?_, ?_⟩
  · rw [← entry_eq_of_view same]
    exact resident
  · rw [cell_eq_of_view same (filed.prr r a resident)]
    exact ⟨exec, fresh⟩

theorem Spent.of_view (h : m.Spent r) (filed : m.Filed) (same : m.viewOf r = m'.viewOf r) :
    m'.Spent r := by
  obtain ⟨a, resident, spent⟩ := h
  refine ⟨a, ?_, ?_⟩
  · rw [← entry_eq_of_view same]
    exact resident
  · rw [cell_eq_of_view same (filed.prr r a resident)]
    exact spent

end Memory

/-- What a controller of region `r` looks up on a request is of region `r`. -/
structure RrcWires.TargetsOwn {Node : Type} (r : ℕ) (w : RrcWires Node) : Prop where
  start : w.prcStart = true → ∀ bitstream, w.handles.prcScheduledBs = some bitstream →
    bitstream.regionId = r
  request : w.icapReq = true → ∀ bitstream, w.handles.icapTransferBs = some bitstream →
    bitstream.regionId = r

/-! ## The stages -/

/-- The stages of a region's life, in their order. -/
inductive RegionStage
  | vacant
  | receiving
  | committed
deriving DecidableEq, Repr

namespace RegionStage

/-- How far a region has come. -/
def rank : RegionStage → ℕ
  | vacant => 0
  | receiving => 1
  | committed => 2

variable {Node : Type}

/-- The controller and its storage are in a stage. -/
inductive Holds (s : RrController Node) (m : Memory) : RegionStage → Prop
  | vacant (state : s.nextState ≠ .transfer) : Holds s m vacant
  | receiving (state : s.nextState = .transfer)
      (latched : s.icapTransferBs.regionId = s.prrId) : Holds s m receiving
  | committed (state : s.nextState ≠ .transfer) (spent : m.Spent s.prrId) :
      Holds s m committed

variable {s : RrController Node} {m m' : Memory} {stage : RegionStage}

/-- In `PRR_TRANSFER` is the controller of a region that receives. -/
theorem Holds.state_iff (holds : Holds s m stage) :
    s.nextState = .transfer ↔ stage = .receiving := by
  cases holds with
  | vacant state => simp [state]
  | receiving state => simp [state]
  | committed state => simp [state]

/-- The stage of a region can be read off its part of the storage. -/
theorem Holds.of_view (holds : Holds s m stage) (filed : m.Filed)
    (same : m.viewOf s.prrId = m'.viewOf s.prrId) : Holds s m' stage := by
  cases holds with
  | vacant state => exact .vacant state
  | receiving state latched => exact .receiving state latched
  | committed state spent => exact .committed state (spent.of_view filed same)

end RegionStage

namespace RrController

variable {Node : Type} {w : RrcWires Node} {s s' c : RrController Node} {m x : Memory}
variable {a : ℕ}

/-- The region's module is not fresh after it has been watched. -/
theorem Wakes.not_begun (wakes : Wakes w s m a c x) : ¬ x.Begun s.prrId := by
  rintro ⟨b, resident, exec, fresh⟩
  cases resident.symm.trans wakes.still_resident
  rw [wakes.cell_eq] at exec fresh
  have same := RrModule.watch_of_not_inSimulation fresh
  rw [same] at exec
  unfold RrModule.watch RrModule.step at fresh
  rw [if_pos exec] at fresh
  dsimp only at fresh
  split at fresh <;> cases fresh

/-- Waking up raises no signal. -/
theorem Wakes.noRaise (wakes : Wakes w s m a c x) (high : c.prrExecuting = true) :
    s.prrExecuting = true := by
  rw [wakes.prrExecuting_eq, Bool.and_eq_true] at high
  exact high.1

theorem Wakes.spent (wakes : Wakes w s m a c x) (spent : m.Spent s.prrId) :
    (x.cells a).Spent := by
  obtain ⟨b, resident, h⟩ := spent
  cases resident.symm.trans wakes.resident
  rw [wakes.cell_eq]
  exact h.watch

/-- Where a task is begun on the module of a region, the region has begun an execution. -/
theorem Begins.begun {r : ℕ} (begins : Begins s m a x)
    (resident : m.prr.table r = some (some a)) : x.Begun r ∧ x.Spent r := by
  have there := resident
  rw [← begins.prr_eq] at there
  obtain ⟨task, -, fresh, rfl⟩ := begins
  refine ⟨⟨a, there, ?_⟩, a, there, ?_⟩
  · rw [Memory.setCell_cells, Function.update_self]
    exact ⟨rfl, fresh⟩
  · rw [Memory.setCell_cells, Function.update_self]
    exact .of_begun _ task

/-- A module that was given a task and is idle is not begun again. -/
theorem Begins.not_spent (begins : Begins s m a x) (idle : (m.cells a).currentState = .idle)
    (spent : (m.cells a).Spent) : False := by
  obtain ⟨_, -, fresh, -⟩ := begins
  rw [spent.stepped idle] at fresh
  cases fresh

end RrController

namespace RegionStage

open RrController

variable {Node : Type} {w : RrcWires Node} {s s' : RrController Node}
variable {m x : Memory} {stage next : RegionStage}

/-- What a step may do to a region in a stage: it begins an execution exactly when it
commits the region, and then raises `PRR_EXE`. -/
structure Goes (s s' : RrController Node) (x : Memory) (stage next : RegionStage) : Prop where
  holds : Holds s' x next
  order : stage.rank ≤ next.rank
  begun : x.Begun s'.prrId ↔ stage ≠ .committed ∧ next = .committed
  raises : x.Begun s'.prrId → s'.prrExecuting = true
  raised : s'.prrExecuting = true → s.prrExecuting = true ∨ x.Begun s'.prrId

/-- A step that begins no execution. -/
theorem Goes.of_not_begun (holds : Holds s' x next) (order : stage.rank ≤ next.rank)
    (quiet : next = .committed → stage = .committed) (noBegin : ¬ x.Begun s'.prrId)
    (noRaise : s'.prrExecuting = true → s.prrExecuting = true) : Goes s s' x stage next where
  holds := holds
  order := order
  begun := ⟨fun begun => absurd begun noBegin, fun h => absurd (quiet h.2) h.1⟩
  raises begun := absurd begun noBegin
  raised high := .inl (noRaise high)

/-- A step that begins an execution. -/
theorem Goes.of_begun (state : s'.nextState ≠ .transfer) (before : stage ≠ .committed)
    (begun : x.Begun s'.prrId ∧ x.Spent s'.prrId) (high : s'.prrExecuting = true) :
    Goes s s' x stage .committed where
  holds := .committed state begun.2
  order := by cases stage <;> decide
  begun := ⟨fun _ => ⟨before, rfl⟩, fun _ => begun.1⟩
  raises _ := high
  raised _ := .inr begun.1

/-- What was done to the storage can be read off the region's part of it. -/
theorem Goes.of_view (goes : Goes s s' x stage next) (filed : x.Filed) (filed' : m.Filed)
    (same : x.viewOf s'.prrId = m.viewOf s'.prrId) : Goes s s' m stage next := by
  have begun : m.Begun s'.prrId ↔ x.Begun s'.prrId :=
    ⟨fun h => h.of_view filed' same.symm, fun h => h.of_view filed same⟩
  refine ⟨goes.holds.of_view filed same, goes.order, begun.trans goes.begun, ?_, ?_⟩
  · rw [begun]
    exact goes.raises
  · rw [begun]
    exact goes.raised

variable [GraphNode Node]

/-- A vacant region stays vacant, begins to receive, or begins to execute. -/
theorem step_vacant (moves : Moves w s m s' x) (own : w.TargetsOwn s.prrId)
    (holds : Holds s m .vacant) : ∃ next, Goes s s' x .vacant next := by
  cases holds with | vacant state => ?_
  -- a step that wakes up and does nothing to the region
  have stays : ∀ {a c}, Wakes w s m a c x → s'.nextState ≠ .transfer → s'.prrId = c.prrId →
      s'.prrExecuting = c.prrExecuting → ∃ next, Goes s s' x .vacant next := by
    intro a c wakes state' same signal
    refine ⟨_, .of_not_begun (.vacant state') (Nat.le_refl _) (fun h => nomatch h) ?_ ?_⟩
    · rw [same, wakes.prrId_eq]
      exact wakes.not_begun
    · rw [signal]
      exact wakes.noRaise
  cases moves with
  | init wakes => exact stays wakes nofun rfl rfl
  | rest wakes => exact stays wakes (by rw [wakes.nextState_eq]; exact state) rfl rfl
  | decline wakes => exact stays wakes (by simpa [wakes.nextState_eq] using state) rfl rfl
  | wait wakes => exact stays wakes (by rw [wakes.nextState_eq]; exact state) rfl rfl
  | hold _ receiving => exact absurd receiving state
  | install _ receiving => exact absurd receiving state
  | startQueued wakes _ _ _ _ begins =>
      refine ⟨_, .of_begun (by simpa [wakes.nextState_eq] using state) nofun ?_ rfl⟩
      exact begins.begun (by simpa [wakes.prrId_eq] using wakes.still_resident)
  | startRequested wakes _ _ start _ _ handle target begins =>
      refine ⟨_, .of_begun (by simpa [wakes.nextState_eq] using state) nofun ?_ rfl⟩
      rw [own.start start _ handle] at target
      exact begins.begun (by simpa [wakes.prrId_eq] using target)
  | accept wakes _ _ _ req handle target _ stopped =>
      have region := own.request req _ handle
      refine ⟨.receiving, .of_not_begun (.receiving rfl (region.trans wakes.prrId_eq.symm))
        (by decide) (fun h => nomatch h) ?_ wakes.noRaise⟩
      -- the module that receives is the region's own, and does not execute
      rintro ⟨b', resident, exec, -⟩
      dsimp only at resident
      rw [wakes.prrId_eq, ← region, Memory.setCell_prr] at resident
      cases resident.symm.trans target
      rw [Memory.setCell_cells, Function.update_self] at exec
      cases exec

/-- A region that receives goes on receiving, or begins to execute what it installs. -/
theorem step_receiving (moves : Moves w s m s' x) (filed : m.Filed)
    (holds : Holds s m .receiving) : ∃ next, Goes s s' x .receiving next := by
  cases holds with | receiving state latched => ?_
  rcases moves.of_transfer state with ⟨-, a, wakes⟩ |
    ⟨-, a, b, c, x₀, level, bitstream, wakes, unit, stored, -, begins, rfl⟩
  · refine ⟨.receiving, .of_not_begun (.receiving ?_ ?_) (Nat.le_refl _) (fun h => nomatch h) ?_
      wakes.noRaise⟩
    · rw [wakes.nextState_eq, state]
    · rw [wakes.icapTransferBs_eq, wakes.prrId_eq, latched]
    · rw [wakes.prrId_eq]
      exact wakes.not_begun
  · refine ⟨.committed, .of_begun nofun nofun (begins.begun ?_) rfl⟩
    have region : (x₀.cells b).regionId = c.prrId := by
      rw [wakes.keeps.regionId, filed.level level (List.mem_of_getElem? unit) _ _ b stored,
        latched, wakes.prrId_eq]
    show Function.update x₀.prr.table (x₀.cells b).regionId (some (some b)) c.prrId = _
    rw [region, Function.update_self]

/-- **The controller of a committed region** wakes up, and leaves it at that: what is asked
of it asks for a module that is not running, or has not been stepped. -/
theorem watches_of_committed (moves : Moves w s m s' x) (own : w.TargetsOwn s.prrId)
    (holds : Holds s m .committed) :
    ∃ a c, Wakes w s m a c x ∧ s'.nextState ≠ .transfer ∧ s'.prrId = c.prrId ∧
      s'.prrExecuting = c.prrExecuting := by
  cases holds with | committed state spent => ?_
  have stays : ∀ {a c}, Wakes w s m a c x → c.nextState ≠ .transfer := by
    intro a c wakes
    rw [wakes.nextState_eq]
    exact state
  cases moves with
  | init wakes => exact ⟨_, _, wakes, nofun, rfl, rfl⟩
  | rest wakes => exact ⟨_, _, wakes, stays wakes, rfl, rfl⟩
  | decline wakes => exact ⟨_, _, wakes, by simpa using stays wakes, rfl, rfl⟩
  | wait wakes => exact ⟨_, _, wakes, stays wakes, rfl, rfl⟩
  | hold _ receiving => exact absurd receiving state
  | install _ receiving => exact absurd receiving state
  | startQueued wakes _ _ idle _ begins =>
      exact (begins.not_spent idle (wakes.spent spent)).elim
  | startRequested wakes _ _ start idle _ handle target begins =>
      -- the module that is to be begun is the one the controller has watched
      rw [own.start start _ handle] at target
      cases target.symm.trans wakes.still_resident
      exact (begins.not_spent idle (wakes.spent spent)).elim
  | accept wakes _ _ _ req handle target _ stopped =>
      rw [own.request req _ handle] at target
      cases target.symm.trans wakes.still_resident
      rw [(wakes.spent spent).running] at stopped
      cases stopped

/-- A committed region stays committed, and begins nothing. -/
theorem step_committed (moves : Moves w s m s' x) (own : w.TargetsOwn s.prrId)
    (holds : Holds s m .committed) : ∃ next, Goes s s' x .committed next := by
  obtain ⟨a, c, wakes, state, same, signal⟩ := watches_of_committed moves own holds
  cases holds with | committed _ spent => ?_
  rw [wakes.prrId_eq] at same
  refine ⟨_, .of_not_begun (.committed state ?_) (Nat.le_refl _) (fun _ => rfl) ?_ ?_⟩
  · rw [same]
    exact ⟨a, wakes.still_resident, wakes.spent spent⟩
  · rw [same]
    exact wakes.not_begun
  · rw [signal]
    exact wakes.noRaise

/-- **One step of a controller**, from each of the stages. -/
theorem step_cases (moves : Moves w s m s' x) (own : w.TargetsOwn s.prrId) (filed : m.Filed)
    (holds : Holds s m stage) : ∃ next, Goes s s' x stage next := by
  cases stage with
  | vacant => exact step_vacant moves own holds
  | receiving => exact step_receiving moves filed holds
  | committed => exact step_committed moves own holds

end RegionStage

/-! ## All the regions -/

namespace RrSide

variable {n : ℕ} {Node : Type} [GraphNode Node] {w : Fin n → RrcWires Node}
variable {s s' : RrSide n Node}

/-- In a sweep each controller takes a step of its own, on the storage before the sweep,
and has its part of the storage after it. -/
theorem moves_of_sweep {ids : Fin n → ℕ} (hids : Function.Injective ids) (apart : s.Apart ids)
    (own : ∀ i, (s.rrc i).HandlesOwn (w i) s.memory (ids i)) (h : s.sweep w = .ok s') :
    s'.Apart ids ∧ ∀ i, ∃ x, x.Filed ∧ x.viewOf (ids i) = s'.memory.viewOf (ids i) ∧
      RrController.Moves (w i) (s.rrc i) s.memory (s'.rrc i) x := by
  obtain ⟨apart', stepped, -⟩ := Machine.foldlM_part (fun i => actsOn hids (w i) i) hids
    (List.nodup_finRange n) apart (fun i _ => own i) h
  refine ⟨apart', fun i => ?_⟩
  obtain ⟨y, hy, same⟩ := stepped i (List.mem_finRange i)
  have filed : y.memory.Filed := ((actsOn hids (w i) i).preserves apart (own i) hy).filed
  have hrrc := rrc_eq_of_view same
  have view := (memory_eq_of_view same).symm
  obtain ⟨controller, memory, hctrl, rfl⟩ := step_eq_ok.mp hy
  dsimp only at hrrc view filed
  rw [Function.update_self] at hrrc
  rw [← hrrc] at hctrl
  exact ⟨memory, filed, view, RrController.moves_of_step hctrl⟩

/-- Every region is in its stage, with its controller and its storage. -/
structure InStages (stage : Fin n → RegionStage) (s : RrSide n Node) : Prop where
  apart : s.Apart fun i => (i : ℕ)
  holds : ∀ i, RegionStage.Holds (s.rrc i) s.memory (stage i)

omit [GraphNode Node] in
/-- What a controller looks up is of its own region, if its handles are on a request. -/
theorem InStages.handlesOwn {stage : Fin n → RegionStage} (stages : s.InStages stage)
    (own : ∀ i : Fin n, (w i).TargetsOwn i) (i : Fin n) :
    (s.rrc i).HandlesOwn (w i) s.memory i where
  start _ _ _ bitstream _ _ _ start _ handle := (own i).start start bitstream handle
  request _ _ _ bitstream _ _ _ _ req handle := (own i).request req bitstream handle
  latched state _ := by
    have holds := stages.holds i
    rw [holds.state_iff.mp state] at holds
    cases holds with
    | receiving _ latched => exact latched.trans (stages.apart.region i)

/-- A sweep takes region `i` from a stage to the next. -/
abbrev Goes (s s' : RrSide n Node) (i : Fin n) (stage next : RegionStage) : Prop :=
  RegionStage.Goes (s.rrc i) (s'.rrc i) s'.memory stage next

/-- **The step lemma.**  A sweep takes no region back, and begins an execution in the
regions that it commits. -/
theorem InStages.step {stage : Fin n → RegionStage} (stages : s.InStages stage)
    (own : ∀ i : Fin n, (w i).TargetsOwn i) (h : s.sweep w = .ok s') :
    ∃ next : Fin n → RegionStage, s'.InStages next ∧ ∀ i, s.Goes s' i (stage i) (next i) := by
  obtain ⟨apart, moved⟩ := moves_of_sweep Fin.val_injective stages.apart
    (stages.handlesOwn own) h
  have goes : ∀ i, ∃ next, s.Goes s' i (stage i) next := by
    intro i
    obtain ⟨x, filed, view, moves⟩ := moved i
    obtain ⟨next, goes⟩ := RegionStage.step_cases moves
      (by rw [stages.apart.region i]; exact own i) stages.apart.filed (stages.holds i)
    rw [← apart.region i] at view
    exact ⟨next, goes.of_view filed apart.filed view⟩
  choose next goes using goes
  exact ⟨next, ⟨apart, fun i => (goes i).holds⟩, goes⟩

/-- Controller `i` is the one of region `i`, in its INIT state, and every module is filed
under its own region. -/
structure AtInit (s : RrSide n Node) : Prop where
  apart : s.Apart fun i => (i : ℕ)
  state : ∀ i, (s.rrc i).nextState = .init

omit [GraphNode Node] in
theorem AtInit.inStages (init : s.AtInit) : s.InStages fun _ => .vacant :=
  ⟨init.apart, fun i => .vacant (by rw [init.state i]; decide)⟩

end RrSide

namespace RrBank

variable {n : ℕ} {Node : Type} [GraphNode Node]

/-- What a request makes a controller look up is of its own region. -/
def TargetsOwn (env : RrBankEnv n Node) (s : RrBank n Node) : Prop :=
  ∀ i : Fin n, (s.context.rrcWires i (env.handles i)).TargetsOwn i

/-- Controller `i` is in `PRR_TRANSFER`. -/
def Receives (s : RrBank n Node) (i : Fin n) : Prop := (s.rr.rrc i).nextState = .transfer

/-- In cycle `k` an execution begins in region `i`. -/
def Begins (states : ℕ → RrBank n Node) (i : Fin n) (k : ℕ) : Prop :=
  (states (k + 1)).rr.memory.Begun i

/-- What a run of `N` cycles makes of region `i`. -/
structure CommittedOnce (N : ℕ) (states : ℕ → RrBank n Node) (i : Fin n) : Prop where
  /-- The controller accepts at most one transfer. -/
  accepts : ∀ j < N, ∀ k < N, ¬ (states j).Receives i → (states (j + 1)).Receives i →
    ¬ (states k).Receives i → (states (k + 1)).Receives i → j = k
  /-- At most one execution begins. -/
  begins : ∀ j < N, ∀ k < N, Begins states i j → Begins states i k → j = k
  /-- One begins when a transfer ends. -/
  installs : ∀ k < N, (states k).Receives i → ¬ (states (k + 1)).Receives i →
    Begins states i k
  /-- Once one has begun, the controller does not receive any more. -/
  last : ∀ j < N, Begins states i j → ∀ k, j < k → k ≤ N → ¬ (states k).Receives i

section Run

variable {inputs : ℕ → RrBankEnv n Node} {s₀ : RrBank n Node} {N : ℕ}
  {states : ℕ → RrBank n Node}

/-- The stages the regions go through in a run. -/
structure Stages (N : ℕ) (states : ℕ → RrBank n Node) (stage : ℕ → Fin n → RegionStage) :
    Prop where
  holds : ∀ k ≤ N, (states k).rr.InStages (stage k)
  goes : ∀ k < N, ∀ i, (states k).rr.Goes (states (k + 1)).rr i (stage k i) (stage (k + 1) i)

/-- The run lemma: there is a stage for every region and cycle. -/
theorem exists_stages (init : s₀.rr.AtInit)
    (own : ∀ k < N, TargetsOwn (inputs k) (states k))
    (trace : Machine.Trace step inputs s₀ N states) :
    ∃ stage, Stages N states stage := by
  obtain ⟨stage, -, holds, follows⟩ := trace.exists_history
    (P := fun s (stage : Fin n → RegionStage) => s.rr.InStages stage)
    (Q := fun k stage next => ∀ i, (states k).rr.Goes (states (k + 1)).rr i (stage i) (next i))
    init.inStages fun k hk stage stages hstep => by
      obtain ⟨rr, hsweep, h⟩ := Machine.bind_eq_ok.mp hstep
      rw [← Except.ok.inj h]
      exact stages.step (own k hk) hsweep
  exact ⟨stage, holds, follows⟩

namespace Stages

variable {stage : ℕ → Fin n → RegionStage} (stages : Stages N states stage) {k : ℕ} {i : Fin n}

include stages

omit [GraphNode Node] in
/-- No cycle takes a region back. -/
theorem neverFalls (i : Fin n) : Machine.NeverFalls N fun k => (stage k i).rank :=
  fun k hk => (stages.goes k hk i).order

omit [GraphNode Node] in
theorem begun_iff (hk : k < N) :
    Begins states i k ↔ stage k i ≠ .committed ∧ stage (k + 1) i = .committed := by
  have begun := (stages.goes k hk i).begun
  rwa [(stages.holds (k + 1) hk).apart.region i] at begun

omit [GraphNode Node] in
/-- In `PRR_TRANSFER` is the controller of a region that receives. -/
theorem receives_iff (hk : k ≤ N) : (states k).Receives i ↔ stage k i = .receiving :=
  ((stages.holds k hk).holds i).state_iff

omit [GraphNode Node] in
/-- A transfer is accepted for a region that is left vacant no longer. -/
theorem goesOver_of_accepts (hk : k < N) (before : ¬ (states k).Receives i)
    (after : (states (k + 1)).Receives i) :
    Machine.GoesOver (fun k => (stage k i).rank) 0 k := by
  rw [stages.receives_iff hk.le] at before
  rw [stages.receives_iff hk] at after
  have order := (stages.goes k hk i).order
  show (stage k i).rank ≤ 0 ∧ ¬ (stage (k + 1) i).rank ≤ 0
  rw [after] at order ⊢
  cases stage' : stage k i with
  | vacant => decide
  | receiving => exact absurd stage' before
  | committed => rw [stage'] at order; exact absurd order (by decide)

omit [GraphNode Node] in
/-- An execution begins in a region that is committed by it. -/
theorem begins_iff (hk : k < N) :
    Begins states i k ↔ Machine.GoesOver (fun k => (stage k i).rank) 1 k := by
  rw [stages.begun_iff hk]
  show _ ↔ (stage k i).rank ≤ 1 ∧ ¬ (stage (k + 1) i).rank ≤ 1
  cases before : stage k i <;> cases after : stage (k + 1) i <;> simp [RegionStage.rank]

end Stages

/-- **A region is committed once.**  Whatever the PRC and the ICAP signal, a region
accepts at most one transfer and begins at most one execution, after which it accepts
nothing. -/
theorem committed_once (init : s₀.rr.AtInit)
    (own : ∀ k < N, TargetsOwn (inputs k) (states k))
    (trace : Machine.Trace step inputs s₀ N states) (i : Fin n) :
    CommittedOnce N states i := by
  obtain ⟨stage, stages⟩ := exists_stages init own trace
  have rising := stages.neverFalls i
  refine ⟨?_, ?_, ?_, ?_⟩
  · intro j hj k hk before after before' after'
    exact (stages.goesOver_of_accepts hj before after).unique rising hj hk
      (stages.goesOver_of_accepts hk before' after')
  · intro j hj k hk begins begins'
    exact ((stages.begins_iff hj).mp begins).unique rising hj hk
      ((stages.begins_iff hk).mp begins')
  · intro k hk before after
    rw [stages.receives_iff hk.le] at before
    rw [stages.receives_iff hk] at after
    have order := (stages.goes k hk i).order
    rw [stages.begun_iff hk, before]
    refine ⟨by decide, ?_⟩
    rw [before] at order
    cases stage' : stage (k + 1) i with
    | vacant => rw [stage'] at order; exact absurd order (by decide)
    | receiving => exact absurd stage' after
    | committed => rfl
  · intro j hj begins k hjk hk receives
    have gone := rising.not_le_of_goesOver ((stages.begins_iff hj).mp begins) hjk hk
    rw [(stages.receives_iff hk).mp receives] at gone
    exact gone (Nat.le_refl 1)

end Run

/-- The region is requested in every cycle, from the fourth on for another module. -/
def repeatedEnv (k : ℕ) : RrBankEnv 1 LoneTask :=
  { installEnv k with
    handles := fun _ =>
      { prcCurrentTask := none
        prcScheduledBs := some installedBs
        icapTransferBs := some { installedBs with id := if k < 3 then 7 else 8 } } }

theorem repeatedEnv_targetsOwn (k : ℕ) (s : RrBank 1 LoneTask) :
    TargetsOwn (repeatedEnv k) s := by
  intro i
  obtain rfl := Subsingleton.elim i 0
  refine ⟨?_, ?_⟩
  · rintro - bitstream ⟨⟩
    rfl
  · rintro - bitstream ⟨⟩
    rfl

theorem installStart_atInit : installStart.rr.AtInit :=
  ⟨⟨Memory.oneModule_filed 1 0 7, fun _ => rfl⟩, fun _ => rfl⟩

/-- The first module is installed in the third cycle, and executes.  The requests for the
second one are declined, also when the first one has finished. -/
theorem committed_once_repeatedEnv :
    ∃ states, Machine.Trace step repeatedEnv installStart 7 states ∧ Begins states 0 2 ∧
      CommittedOnce 7 states 0 := by
  have completes : (Machine.run step repeatedEnv installStart 7).isOk = true := by
    decide +kernel
  obtain ⟨states, trace⟩ := Machine.Trace.exists_of_isOk completes
  have before : (states 2).Receives 0 :=
    trace.observe (f := fun s => (s.rr.rrc 0).nextState) (by omega) (by decide +kernel)
  have after : ((states 3).rr.rrc 0).nextState = .idle :=
    trace.observe (f := fun s => (s.rr.rrc 0).nextState) (by omega) (by decide +kernel)
  have once : CommittedOnce 7 states 0 :=
    committed_once installStart_atInit (fun k _ => repeatedEnv_targetsOwn k _) trace 0
  refine ⟨states, trace, once.installs 2 (by omega) before fun receives => ?_, once⟩
  exact absurd (after.symm.trans receives) (by decide)

end RrBank

end Drachma
