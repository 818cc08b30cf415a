import Drachma.TaskExecution

/-!
# The task queue of an RR controller

The PRC enqueues its current task at a controller by raising a signal.  The controller
answers in every state, and takes the tasks off the front of its queue in `PRR_IDLE`, in
a step that may also have stepped the region's module and answered the signal.

A run begins with the construction of the controller.  Its signals and handles are
arbitrary, and so is what the other components make of the storage.

## Main results

* `RrController.Takes.of_step` — what one step does to the queue.
* `RrController.serves_in_order` — the tasks that were begun, followed by those that wait,
  are the tasks that were enqueued.
-/

namespace Drachma

namespace RrController

variable {Node : Type}

/-- The task that a step which has answered the enqueue signal puts at the end of the
queue. -/
def pushed (w : RrcWires Node) (s : RrController Node) : Option Node :=
  if w.prcEnqueue && !s.prcAck then w.handles.prcCurrentTask else none

variable [GraphNode Node]

/-- What becomes of the queue from `p` to `p'`: the task that is enqueued goes to its end,
and the one that is `taken` comes off its front, when the module is idle, to be begun. -/
structure Takes (t : Turn Node) (p p' : RrController Node × Memory) (taken : Option Node) :
    Prop where
  ack : p'.1.prcAck = t.wires.prcEnqueue
  handle : (t.wires.prcEnqueue && !p.1.prcAck) = true →
    t.wires.handles.prcCurrentTask.isSome = true
  queue : p.1.actionQueue ++ (pushed t.wires p.1).toList =
    taken.toList ++ p'.1.actionQueue
  begins : ∀ task, taken = some task → FindsIdle t p ∧ BeginsTask t p p' task
  accepts : AcceptsTransfer p.1 p'.1 → p.1.actionQueue ++ (pushed t.wires p.1).toList = []

section Step

variable {t : Turn Node} {p p' : RrController Node × Memory} {s' c : RrController Node}
  {x x' : Memory} {a : ℕ}

omit [GraphNode Node] in
/-- Waking up enqueues a task, and takes none. -/
theorem Wakes.pushes {w : RrcWires Node} {s : RrController Node} {m : Memory}
    (wakes : Wakes w s m a c x) : s.actionQueue ++ (pushed w s).toList = c.actionQueue :=
  wakes.enqueue.2.1.symm

/-- A transfer is accepted with an empty queue. -/
theorem Moves.queue_of_accepts {w : RrcWires Node} {s : RrController Node} {m : Memory}
    (moves : Moves w s m s' x) (accepts : AcceptsTransfer s s') :
    s.actionQueue ++ (pushed w s).toList = [] := by
  obtain ⟨before, after⟩ := accepts
  cases moves with
  | accept wakes _ queue => exact wakes.pushes.trans queue
  | init => cases after
  | rest wakes => exact absurd (wakes.nextState_eq.symm.trans after) before
  | startQueued wakes => exact absurd (wakes.nextState_eq.symm.trans after) before
  | startRequested wakes => exact absurd (wakes.nextState_eq.symm.trans after) before
  | decline wakes => exact absurd (wakes.nextState_eq.symm.trans after) before
  | wait wakes => exact absurd (wakes.nextState_eq.symm.trans after) before
  | hold _ receiving => exact absurd receiving before
  | install _ receiving => exact absurd receiving before

/-- A step that wakes up and leaves the queue alone takes no task. -/
theorem Takes.of_wakes (wakes : Wakes t.wires p.1 (t.others p.2) a c x)
    (ack : s'.prcAck = c.prcAck) (queue : s'.actionQueue = c.actionQueue)
    (accepts : AcceptsTransfer p.1 s' → p.1.actionQueue ++ (pushed t.wires p.1).toList = []) :
    Takes t p (s', x') none where
  ack := ack.trans wakes.enqueue.2.2
  handle := wakes.enqueue.1
  queue := wakes.pushes.trans queue.symm
  begins _ none := nomatch none
  accepts := accepts

/-- A step that starts a queued task takes it. -/
theorem Takes.of_started {task : Node} {rest : List Node} {typeId : String}
    (wakes : Wakes t.wires p.1 (t.others p.2) a c x) (queue : c.actionQueue = task :: rest)
    (idle : (x.cells a).currentState = .idle) (type : getTaskTypeId task = .ok typeId)
    (begins : Begins { c with actionQueue := rest, prevTaskTypeId := typeId } x a x')
    (accepts : AcceptsTransfer p.1
        { c with actionQueue := rest, prevTaskTypeId := typeId, prrExecuting := true } →
      p.1.actionQueue ++ (pushed t.wires p.1).toList = []) :
    Takes t p
      ({ c with actionQueue := rest, prevTaskTypeId := typeId, prrExecuting := true }, x')
      (some task) where
  ack := wakes.enqueue.2.2
  handle := wakes.enqueue.1
  queue := wakes.pushes.trans queue
  begins := by
    rintro _ ⟨⟩
    rw [wakes.cell_eq] at idle
    refine ⟨⟨a, wakes.resident, idle⟩, ?_⟩
    obtain ⟨spec, found, -, rfl⟩ := begins
    refine ⟨a, typeId, spec, wakes.resident, type, ?_, ?_, rfl⟩
    · rw [← wakes.installedBs_eq]
      exact found
    · rw [Memory.setCell_cells, Function.update_self, wakes.cell_eq, ← wakes.simSpeed_eq]
  accepts := accepts

/-- **What a step does to the queue.** -/
theorem Takes.of_step (h : stepAmong t p = .ok p') : ∃ taken, Takes t p p' taken := by
  obtain ⟨s', x'⟩ := p'
  have moves := moves_of_step h
  have accepts : AcceptsTransfer p.1 s' →
      p.1.actionQueue ++ (pushed t.wires p.1).toList = [] := moves.queue_of_accepts
  cases moves with
  | init wakes => exact ⟨none, .of_wakes wakes rfl rfl accepts⟩
  | rest wakes => exact ⟨none, .of_wakes wakes rfl rfl accepts⟩
  | startQueued wakes _ queue idle type begins =>
      exact ⟨_, .of_started wakes queue idle type begins accepts⟩
  | startRequested wakes => exact ⟨none, .of_wakes wakes rfl rfl accepts⟩
  | decline wakes => exact ⟨none, .of_wakes wakes rfl rfl accepts⟩
  | accept wakes => exact ⟨none, .of_wakes wakes rfl rfl accepts⟩
  | wait wakes => exact ⟨none, .of_wakes wakes rfl rfl accepts⟩
  | hold wakes => exact ⟨none, .of_wakes wakes rfl rfl accepts⟩
  | install wakes => exact ⟨none, .of_wakes wakes rfl rfl accepts⟩

end Step

/-! ## Runs -/

/-- The queue of a controller that has been running for `N` steps, where `begun` tells the
tasks it has begun from its queue. -/
structure ServesInOrder (start : RrController Node) (inputs : ℕ → Turn Node) (N : ℕ)
    (σ : ℕ → RrController Node × Memory) (begun : ℕ → Option Node) : Prop where
  enqueues : ∀ k < N, raises start inputs k = true →
    ∃ task, (inputs k).wires.handles.prcCurrentTask = some task ∧
      (σ k).1.actionQueue ++ [task] = (begun k).toList ++ (σ (k + 1)).1.actionQueue
  otherwise : ∀ k < N, raises start inputs k = false →
    (σ k).1.actionQueue = (begun k).toList ++ (σ (k + 1)).1.actionQueue
  conserved : ∀ k ≤ N,
    (List.range k).filterMap begun ++ (σ k).1.actionQueue = enqueued start inputs k
  begins : ∀ k < N, ∀ task, begun k = some task →
    FindsIdle (inputs k) (σ k) ∧ BeginsTask (inputs k) (σ k) (σ (k + 1)) task
  accepts : ∀ k < N, AcceptsTransfer (σ k).1 (σ (k + 1)).1 →
    (σ k).1.actionQueue = [] ∧ raises start inputs k = false ∧
      (σ (k + 1)).1.actionQueue = []

section Run

variable {start : RrController Node × Memory} {inputs : ℕ → Turn Node} {N : ℕ}
  {σ : ℕ → RrController Node × Memory}

/-- The acknowledgement is the signal that was answered last. -/
theorem prcAck_eq_answered (trace : Machine.Trace stepAmong inputs start N σ) :
    ∀ k ≤ N, (σ k).1.prcAck = answered start.1 inputs k := by
  refine trace.invariant (P := fun k p => p.1.prcAck = answered start.1 inputs k) rfl ?_
  intro k _ _ hstep
  obtain ⟨taken, takes⟩ := Takes.of_step hstep
  exact takes.ack

/-- A task is pushed in the steps in which the signal rises. -/
theorem pushed_eq_arrival (trace : Machine.Trace stepAmong inputs start N σ) {k : ℕ}
    (hk : k ≤ N) : pushed (inputs k).wires (σ k).1 = arrival start.1 inputs k := by
  unfold pushed arrival raises
  rw [prcAck_eq_answered trace k hk]

/-- **The queue from any start**: what was in it, and what has been enqueued since, has
been begun or is in it. -/
theorem exists_begun (trace : Machine.Trace stepAmong inputs start N σ) :
    ∃ begun : ℕ → Option Node,
      (∀ k < N, Takes (inputs k) (σ k) (σ (k + 1)) (begun k)) ∧
        ∀ k ≤ N, (List.range k).filterMap begun ++ (σ k).1.actionQueue =
          start.1.actionQueue ++ enqueued start.1 inputs k := by
  have steps : ∀ k, ∃ taken, k < N → Takes (inputs k) (σ k) (σ (k + 1)) taken := by
    intro k
    by_cases hk : k < N
    · obtain ⟨taken, takes⟩ := Takes.of_step (trace.step_eq hk)
      exact ⟨taken, fun _ => takes⟩
    · exact ⟨none, fun h => absurd h hk⟩
  choose begun takes using steps
  have queue : ∀ k < N, (σ k).1.actionQueue ++ (arrival start.1 inputs k).toList =
      (begun k).toList ++ (σ (k + 1)).1.actionQueue := by
    intro k hk
    rw [← pushed_eq_arrival trace hk.le]
    exact (takes k hk).queue
  refine ⟨begun, takes, fun k hk => ?_⟩
  rw [Machine.queue_conserved queue k hk, trace.start]
  rfl

/-- **The queue loses, repeats and reorders nothing.**  From its construction on, a
controller enqueues one task whenever the enqueue signal rises, begins the tasks in the
order in which they were enqueued, each with the module of its region idle, and accepts a
transfer only with an empty queue. -/
theorem serves_in_order {raw : RrController Node} {prrId : ℕ} {simSpeed : Double} {m : Memory}
    (trace : Machine.Trace stepAmong inputs (new raw prrId simSpeed, m) N σ) :
    ∃ begun, ServesInOrder (new raw prrId simSpeed) inputs N σ begun := by
  obtain ⟨begun, takes, conserved⟩ := exists_begun trace
  have rising : ∀ k < N, ((inputs k).wires.prcEnqueue && !(σ k).1.prcAck) =
      raises (new raw prrId simSpeed) inputs k := by
    intro k hk
    rw [prcAck_eq_answered trace k hk.le, raises]
  refine ⟨begun, fun k hk rises => ?_, fun k hk noRise => ?_, conserved,
    fun k hk => (takes k hk).begins, fun k hk accepts => ?_⟩
  · rw [← rising k hk] at rises
    obtain ⟨task, current⟩ := Option.isSome_iff_exists.mp ((takes k hk).handle rises)
    refine ⟨task, current, ?_⟩
    rw [← (takes k hk).queue, pushed, if_pos rises, current]
    rfl
  · rw [← rising k hk] at noRise
    rw [← (takes k hk).queue, pushed, noRise]
    exact (List.append_nil _).symm
  · have empty := (takes k hk).accepts accepts
    have after := (takes k hk).queue.symm.trans empty
    obtain ⟨queue, noPush⟩ := List.append_eq_nil_iff.mp empty
    refine ⟨queue, ?_, (List.append_eq_nil_iff.mp after).2⟩
    -- a rising signal would have enqueued a task
    rw [Bool.eq_false_iff]
    intro rises
    rw [← rising k hk] at rises
    obtain ⟨task, current⟩ := Option.isSome_iff_exists.mp ((takes k hk).handle rises)
    rw [pushed, if_pos rises, current] at noPush
    cases noPush

end Run

/-- A controller is constructed, accepts a transfer in its second step and installs the
module in its third, in which a task is enqueued.  Then the module is idle again. -/
def serving (k : ℕ) : Turn LoneTask :=
  { wires := { enqueueing (decide (2 ≤ k)) (some ⟨""⟩) with icapReq := decide (k = 1) }
    others := fun m => if k = 3 then m.setCell 1 (.idleModule 0 7) else m }

/-- The task waits after the third step, and has been begun in the fourth. -/
theorem serves_in_order_serving :
    ∃ σ, Machine.Trace stepAmong serving (new rawController 0 1, .oneModule 1 0 7) 4 σ ∧
      AcceptsTransfer (σ 1).1 (σ 2).1 ∧
        (σ 3).1.actionQueue = [⟨""⟩] ∧ (σ 4).1.actionQueue = [] ∧
          ∃ begun, ServesInOrder (new rawController 0 1) serving 4 σ begun := by
  obtain ⟨σ, trace⟩ := Machine.Trace.exists_of_isOk (show (Machine.run stepAmong serving
    (new rawController 0 1, .oneModule 1 0 7) 4).isOk = true by decide +kernel)
  have before : (σ 1).1.nextState = .idle :=
    trace.observe (f := fun p => p.1.nextState) (by omega) (by decide +kernel)
  have after : (σ 2).1.nextState = .transfer :=
    trace.observe (f := fun p => p.1.nextState) (by omega) (by decide +kernel)
  refine ⟨σ, trace, ⟨by rw [before]; decide, after⟩, ?_, ?_, serves_in_order trace⟩
  · exact trace.observe (f := fun p => p.1.actionQueue) (by omega) (by decide +kernel)
  · exact trace.observe (f := fun p => p.1.actionQueue) (by omega) (by decide +kernel)

end RrController

end Drachma
