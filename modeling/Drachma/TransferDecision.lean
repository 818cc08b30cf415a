import Drachma.Prc

/-!
# Scheduling during a transfer

While the ICAP transfers a bitstream to region `r`, a decision of the PRC must
not conflict with it (`DecidesSoundly`): a bitstream for `r` that is not the one
installed there is put off, and one for another region is decided on as if there
was no transfer.

`PRC_RR_SCHEDULE` means to compare the region it has chosen with the target of
the ICAP.  The pointer it reads the target through comes from
`accessContextSignal(ICAP_TARGET_RR)`, and that signal is a number, which is
found by `accessContextNumberSignal`; the pointer is null.

## Main results

* `Prc.decidesSoundly_iff_no_transfer` — the decisions of a run are sound exactly
  when none is made during a transfer.
* `Prc.transfer_ends_run` — a run in which one is.
-/

namespace Drachma

namespace Prc

variable {n : ℕ} {Node : Type} [GraphNode Node]

/-- With a transfer to region `r` running, the `PRC_RR_SCHEDULE` step out of `s`
does not fault, does not request or enqueue a bitstream for `r` that is not
installed there, and decides on another region as if there was no transfer. -/
structure DecidesSoundly (policies : SchedulingPolicies n Node (FcfsScheduler Node))
    (w : PrcWires n) (r : ℕ) (s : Prc n Node (FcfsScheduler Node)) : Prop where
  noFault : ∃ s', step policies w s = .ok s'
  sameRegion : ∀ s' bitstream, step policies w s = .ok s' →
    s'.scheduledBs = some bitstream → bitstream.regionId = r →
      w.rrBitstreamId.read r ≠ .ok bitstream.id →
        s'.nextState = .taskSchedule ∧ s'.icapReq = false ∧ ∀ i, s'.prrEnqueue i = false
  otherRegion : ∀ s' bitstream, step policies w s = .ok s' →
    s'.scheduledBs = some bitstream → bitstream.regionId ≠ r →
      step policies { w with icapTrans := false } s = .ok s'

omit [GraphNode Node] in
/-- `PRC_RR_SCHEDULE` reads a null pointer during a transfer. -/
theorem step_ne_ok_of_transfer {policies : SchedulingPolicies n Node (FcfsScheduler Node)}
    {ctx : SignalContext n Node} {s s' : Prc n Node (FcfsScheduler Node)}
    (ready : s.stallCount = 0) (state : s.nextState = .rrSchedule)
    (transfer : ctx.storedIcapTransfer = true) : step policies ctx.prcWires s ≠ .ok s' := by
  intro h
  have noTarget : ∀ {targetBs installed transferring},
      ¬ Chooses policies ctx.prcWires s targetBs installed transferring := by
    intro targetBs installed transferring chosen
    have read := chosen.transferring
    simp only [icapTransferringToRr, SignalContext.prcWires, transfer, if_true,
      SignalContext.accessContextSignal, deref_none] at read
    cases read
  rcases (moves_of_step h).of_rrSchedule ready state with
    ⟨_, _, _, chosen, -⟩ | ⟨_, _, chosen, -⟩ | ⟨_, _, chosen, -⟩
  · exact noTarget chosen
  · exact noTarget chosen
  · exact noTarget chosen

/-- **The decisions of a run are sound exactly when none is made during a
transfer.**  `contexts` gives the signals of every cycle, and `target` the region
the ICAP transfers to. -/
theorem decidesSoundly_iff_no_transfer (raw : Prc n Node (FcfsScheduler Node))
    (graph : TaskGraph Node) (selector : LftFeSelector)
    (contexts : ℕ → SignalContext n Node) (target : ℕ → ℕ) :
    (∀ k s, run (lftFePolicies selector) (fun k => (contexts k).prcWires)
          (new raw (.initializeQueue graph)) k = .ok s →
        s.nextState = .rrSchedule → (contexts k).storedIcapTransfer = true →
          DecidesSoundly (lftFePolicies selector) (contexts k).prcWires (target k) s) ↔
      ∀ k s, run (lftFePolicies selector) (fun k => (contexts k).prcWires)
          (new raw (.initializeQueue graph)) k = .ok s →
        s.nextState = .rrSchedule → (contexts k).storedIcapTransfer = false := by
  constructor
  · intro sound k s hrun state
    cases transfer : (contexts k).storedIcapTransfer with
    | false => rfl
    | true =>
        obtain ⟨s', hstep⟩ := (sound k s hrun state transfer).noFault
        have ready := ready_of_run k s hrun
        exact absurd hstep (step_ne_ok_of_transfer ready state transfer)
  · intro noTransfer k s hrun state transfer
    rw [noTransfer k s hrun state] at transfer
    cases transfer

/-! ## A run that ends in a transfer -/

/-- The signals of a device with one region during a transfer. -/
def transferContext : SignalContext 1 LoneTask :=
  { storedRrcBitstream := fun _ => unsignedMinusOne
    storedPrrExecuting := fun _ => false
    storedPrrPrcAck := false
    storedPrrIcapAck := true
    storedPrcMc := 0
    storedPrcIcapReq := false
    storedPrcEnqueuePrr := fun _ => false
    storedPrcStartPrr := fun _ => false
    storedIcapMc := 1
    storedIcapPrcAck := false
    storedIcapPrrCtrlReq := fun _ => false
    storedIcapTransfer := true
    storedIcapTargetRr := 0
    prcCurrentTask := none
    prcScheduledBs := none
    icapTransferBs := none }

/-- **A transfer ends the run**: scheduling a task while the ICAP is transferring
dereferences the null pointer. -/
theorem transfer_ends_run :
    ∃ capabilities selector,
      Application.getRrTaskCapabilites Application.oneRegion.rrSpecMap = .ok capabilities ∧
      LftFeSelector.new capabilities Application.oneRegion.rrSpecMap = .ok selector ∧
      ∃ s, run (lftFePolicies selector) (fun _ => transferContext.prcWires)
          (new rawPrc (.initializeQueue ⟨[("t", ⟨"a"⟩)]⟩)) 2 = .ok s ∧
        s.nextState = .rrSchedule ∧
        step (lftFePolicies selector) transferContext.prcWires s = .error .nullDereference ∧
        ¬ DecidesSoundly (lftFePolicies selector) transferContext.prcWires 0 s := by
  refine ⟨_, _, rfl, rfl, _, rfl, rfl, rfl, fun sound => ?_⟩
  obtain ⟨s', hstep⟩ := sound.noFault
  cases hstep

end Prc

end Drachma
