import Drachma.MemoryCounter

/-!
# The bitstream of a request

A request for a bitstream goes from the PRC to the ICAP and on to an RR controller.
Each of them is to read, through the handle it holds, the specification the PRC had
scheduled when it raised the request.

The handles are `std::shared_ptr`s, copied when the components are connected.  At
that time they are all null, and the PRC and the ICAP make new objects for their own
later on.  The ICAP is the first to dereference its handle, when it takes up the
first request (`Device.Waiting`).

## Main results

* `Device.identityHolds_iff` — every bitstream read is the one requested exactly in
  the runs in which the ICAP takes up no request.
-/

namespace Drachma

namespace Device

variable {n : ℕ} {Node σ : Type} [GraphNode Node]

/-! ## Requests, and what is read for them -/

omit [GraphNode Node] in
/-- The PRC raises a request in cycle `r`. -/
def Raises (states : ℕ → Device n Node σ) (r : ℕ) : Prop :=
  (states r).prc.icapReq = false ∧ (states (r + 1)).prc.icapReq = true

/-- The ICAP takes up a request in this cycle, in `ICAP_IDLE`. -/
def IcapTakesUp (wiring : Wiring n Node σ) (d : Device n Node σ) : Prop :=
  (∃ prc, d.prc.step wiring.policies d.context.prcWires = .ok prc) ∧
    d.icap.stallCount = 0 ∧ d.icap.nextState = .idle ∧ d.context.storedPrcIcapReq = true

omit [GraphNode Node] in
/-- RR controller `i` takes up a request of the ICAP in this cycle, in `PRR_IDLE`:
it has no task to start first. -/
def RrcTakesUp (wiring : Wiring n Node σ) (d : Device n Node σ) (i : Fin n) : Prop :=
  (d.rr.rrc i).nextState = .idle ∧
    (∃ c, RrController.answerEnqueue (d.context.rrcWires i (wiring.rrcHandles i))
      (d.rr.rrc i).latch = .ok c ∧ c.actionQueue = []) ∧
      d.context.storedPrcStartPrr i = false ∧ d.context.storedIcapPrrCtrlReq i = true

/-- `j` is the last time before `k` at which `event` occurs. -/
def LastBefore (event : ℕ → Prop) (k j : ℕ) : Prop :=
  j < k ∧ event j ∧ ∀ i, j < i → i < k → ¬ event i

omit [GraphNode Node] in
/-- The handle is non-null, and holds the module the PRC had scheduled when it raised
its last request before cycle `k`. -/
def HoldsRequested (states : ℕ → Device n Node σ) (k : ℕ)
    (handle : Option (ModuleSpec Double)) : Prop :=
  ∃ r, LastBefore (Raises states) k r ∧
    ∃ bitstream scheduled, handle = some bitstream ∧
      (states (r + 1)).prc.scheduledBs = some scheduled ∧
        bitstream.regionId = scheduled.regionId ∧ bitstream.id = scheduled.id

/-- Whatever bitstream is read for a request in the first `N` cycles, and in the one
that follows as far as it gets, is the one requested. -/
structure IdentityHolds (wiring : Wiring n Node σ) (N : ℕ) (states : ℕ → Device n Node σ) :
    Prop where
  takenUp : ∀ k ≤ N, (states k).IcapTakesUp wiring →
    HoldsRequested states k (states k).icap.transferBs
  latched : ∀ k ≤ N, (states k).IcapLatches wiring →
    ∃ j, LastBefore (fun j => (states j).IcapTakesUp wiring) k j ∧
      HoldsRequested states j wiring.prcScheduledBs
  received : ∀ k ≤ N, ∀ i, (states k).RrcTakesUp wiring i →
    ∃ j, LastBefore (fun j => (states j).IcapTakesUp wiring) k j ∧
      HoldsRequested states j (wiring.rrcHandles i).icapTransferBs

/-! ## Every bitstream that is read -/

omit [GraphNode Node] in
/-- A null handle holds nothing. -/
theorem not_holdsRequested_none {states : ℕ → Device n Node σ} {k : ℕ} :
    ¬ HoldsRequested states k none := by
  rintro ⟨r, -, bitstream, scheduled, handle, -⟩
  cases handle

section Run

variable {raw : Device n Node (FcfsScheduler Node)} {app : Application}
  {resources : PreparedResources} {graph : TaskGraph Node} {N : ℕ}
  {wiring : Wiring n Node (FcfsScheduler Node)} {d : Device n Node (FcfsScheduler Node)}
  {states : ℕ → Device n Node (FcfsScheduler Node)}

/-- **The bitstreams are the requested ones as long as none is read.**  In the device
loop, every bitstream that is read for a request is the one the PRC had scheduled, if
and only if the ICAP takes up no request. -/
theorem identityHolds_iff
    (built : simulateApplication raw app resources graph = .ok (wiring, d))
    (trace : Machine.Trace (fun _ : Unit => cycle wiring) (fun _ => ()) d N states) :
    IdentityHolds wiring N states ↔ ∀ k ≤ N, ¬ (states k).IcapTakesUp wiring := by
  have waiting := waiting_of_simulateApplication built trace
  constructor
  · intro identity k hk takes
    -- the request is taken up with the null handle
    have holds := identity.takenUp k hk takes
    rw [(waiting k hk).noBitstream] at holds
    exact not_holdsRequested_none holds
  · intro noTake
    refine ⟨fun k hk takes => absurd takes (noTake k hk), fun k hk latches => ?_,
      fun k hk i receives => ?_⟩
    · exact absurd latches.2.2.1 (waiting k hk).nextState_ne_ack
    · have asked := receives.2.2.2
      rw [(waiting k hk).reqStored i] at asked
      cases asked

end Run

/-! ## The first request of a device -/

/-- What the ICAP is about to do, and whether it has a bitstream. -/
def takingUp (wiring : Wiring 1 LoneTask (FcfsScheduler LoneTask))
    (d : Device 1 LoneTask (FcfsScheduler LoneTask)) :
    Bool × ℕ × IcapState × Bool × Bool :=
  ((d.prc.step wiring.policies d.context.prcWires).isOk, d.icap.stallCount,
    d.icap.nextState, d.context.storedPrcIcapReq, d.icap.transferBs.isSome)

/-- After three cycles, the ICAP is about to take up a request, without a bitstream. -/
theorem exists_simulated_trace :
    ∃ resources, ∃ (wiring : Wiring 1 LoneTask (FcfsScheduler LoneTask)), ∃ d states,
      prepareAppResources oneLevelMemory .oneRegion = .ok resources ∧
        simulateApplication rawDevice .oneRegion resources oneTask = .ok (wiring, d) ∧
          Machine.Trace (fun _ : Unit => cycle wiring) (fun _ => ()) d 3 states ∧
            takingUp wiring (states 3) = (true, 0, .idle, true, false) := by
  exact exists_trace_of_simulate (fun _ wiring d => takingUp wiring d)
    (show (simulate 1 oneLevelMemory .oneRegion oneTask 3).map
      (fun r => takingUp r.2.1 r.2.2.2) = .ok (true, 0, .idle, true, false) by decide +kernel)

/-- The condition, for this run. -/
theorem identityHolds_iff_oneRegion :
    ∃ resources, ∃ (wiring : Wiring 1 LoneTask (FcfsScheduler LoneTask)), ∃ d states,
      simulateApplication rawDevice .oneRegion resources oneTask = .ok (wiring, d) ∧
        Machine.Trace (fun _ : Unit => cycle wiring) (fun _ => ()) d 3 states ∧
          (IdentityHolds wiring 3 states ↔
            ∀ k ≤ 3, ¬ (states k).IcapTakesUp wiring) := by
  obtain ⟨resources, wiring, d, states, -, built, trace, -⟩ := exists_simulated_trace
  exact ⟨resources, wiring, d, states, built, trace, identityHolds_iff built trace⟩

/-- **The first request finds a null handle**: the ICAP takes up the request of the
third cycle, and has no bitstream to read. -/
theorem null_bitstream_taken_up :
    ∃ resources, ∃ (wiring : Wiring 1 LoneTask (FcfsScheduler LoneTask)), ∃ d states,
      prepareAppResources oneLevelMemory .oneRegion = .ok resources ∧
        simulateApplication rawDevice .oneRegion resources oneTask = .ok (wiring, d) ∧
          Machine.Trace (fun _ : Unit => cycle wiring) (fun _ => ()) d 3 states ∧
            (states 3).IcapTakesUp wiring ∧ (states 3).icap.transferBs = none ∧
              ¬ IdentityHolds wiring 3 states := by
  obtain ⟨resources, wiring, d, states, prepared, built, trace, seen⟩ := exists_simulated_trace
  simp only [takingUp, Prod.mk.injEq] at seen
  obtain ⟨prcOk, ready, state, req, bitstream⟩ := seen
  have takes : (states 3).IcapTakesUp wiring := by
    refine ⟨?_, ready, state, req⟩
    cases hprc : (states 3).prc.step wiring.policies (states 3).context.prcWires with
    | error e => rw [hprc] at prcOk; cases prcOk
    | ok prc => exact ⟨prc, rfl⟩
  have null : (states 3).icap.transferBs = none := by simpa using bitstream
  refine ⟨resources, wiring, d, states, prepared, built, trace, takes, null, fun identity => ?_⟩
  have holds := identity.takenUp 3 (by omega) takes
  rw [null] at holds
  exact not_holdsRequested_none holds

/-- The run ends there. -/
example : (simulate 1 oneLevelMemory .oneRegion oneTask 4).map (fun _ => ()) =
    .error .nullDereference := by
  decide +kernel

end Device

end Drachma
