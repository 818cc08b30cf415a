import Drachma.RequestHandshake

/-!
# The control signals of the ICAP

`icap::step` lowers its acknowledgement in two places, and sets and clears the request
bits in different states, each time through the region of the bitstream it has latched.
`ControlInv` ties the signals to the state: the acknowledgement stands in `ICAP_ACK` and
nowhere else, and a request bit in `ICAP_WAIT`, for the region of the latched bitstream.

An ICAP as it is constructed has no bitstream, and faults when it takes up its first
request.  The runs considered here may start with any bitstream latched.

## Main results

* `Icap.ControlInv.step` — every transition keeps the invariant.
* `Icap.ControlInv.fault` — the only fault is a null pointer.
* `Icap.control_holds` — what this means for the signals of a run.
-/

namespace Drachma

namespace Icap

open Machine (Avoids Trace)

variable {n : ℕ}

/-- The bitstream names an existing region, where there is one. -/
def NamesRegion (n : ℕ) (bitstream : Option (ModuleSpec Double)) : Prop :=
  ∀ spec, bitstream = some spec → spec.regionId < n

/-- A request bit that is asserted is that of the latched bitstream's region; the ICAP
waits for the answer, and holds the transfer signal. -/
def Requesting (s : Icap n) (i : Fin n) : Prop :=
  s.nextState = .wait ∧ s.transferring = true ∧
    ∃ bitstream, s.transferBs = some bitstream ∧ bitstream.regionId = i

/-- The invariant. -/
structure ControlInv (s : Icap n) : Prop where
  ack : s.AckState
  requesting : ∀ i, s.prrCtrlReq i = true → s.Requesting i
  region : NamesRegion n s.transferBs

namespace ControlInv

variable {w : IcapWires n} {s s' : Icap n}

/-- The state the constructor leaves, with any bitstream. -/
theorem of_new (raw : Icap n) (speed : Double) (busWidth : ℕ) (regionWidth : BitstreamSizeMap)
    (simSpeed : Double) {latched : Option (ModuleSpec Double)} (region : NamesRegion n latched) :
    ControlInv { new raw speed busWidth regionWidth simSpeed with transferBs := latched } where
  ack := ⟨⟨fun h => (Bool.false_ne_true h).elim, fun h => nomatch h⟩, fun _ => rfl⟩
  requesting i req := by cases req
  region := region

/-- A step that leaves the request bits, the bitstream and the transfer signal alone, and
does not leave `ICAP_WAIT`. -/
theorem of_same (inv : s.ControlInv) (ack : s'.AckState) (req : s'.prrCtrlReq = s.prrCtrlReq)
    (handle : s'.transferBs = s.transferBs) (transferring : s'.transferring = s.transferring)
    (state : s.nextState = .wait → s'.nextState = .wait) : s'.ControlInv where
  ack := ack
  requesting i hreq := by
    rw [req] at hreq
    obtain ⟨waiting, held, bitstream, latched, region⟩ := inv.requesting i hreq
    refine ⟨state waiting, ?_, bitstream, ?_, region⟩
    · rw [transferring, held]
    · rw [handle, latched]
  region := by
    rw [handle]
    exact inv.region

/-- Outside `ICAP_WAIT` no request bit is asserted. -/
theorem low (inv : s.ControlInv) (state : s.nextState ≠ .wait) (i : Fin n) :
    s.prrCtrlReq i = false :=
  Bool.eq_false_iff.mpr fun req => state (inv.requesting i req).1

/-- **The step lemma.** -/
theorem step (inv : s.ControlInv) (handle : NamesRegion n w.prcScheduledBs)
    (moves : Moves w s s') : s'.ControlInv := by
  have ack := (moves.ackLevel inv.ack).1
  cases moves with
  | stall => exact inv.of_same ack rfl rfl rfl id
  | init _ state => exact inv.of_same ack rfl rfl rfl fun wait => by rw [state] at wait; cases wait
  | rest => exact inv.of_same ack rfl rfl rfl id
  | accept _ state =>
      exact inv.of_same ack rfl rfl rfl fun wait => by rw [state] at wait; cases wait
  | skip => exact inv.of_same ack rfl rfl rfl fun _ => rfl
  | hold => exact inv.of_same ack rfl rfl rfl id
  | @take bitstream _ state _ latched inRange =>
      refine ⟨ack, fun i req => ?_, ?_⟩
      · -- the other bits were low, so that the asserted one is the one just set
        refine ⟨rfl, rfl, bitstream, rfl, ?_⟩
        by_contra other
        have others : Function.update s.prrCtrlReq ⟨bitstream.regionId, inRange⟩ true i =
            s.prrCtrlReq i :=
          Function.update_of_ne (fun same => other (by rw [same])) _ _
        have low := inv.low (by rw [state]; simp) i
        rw [← others] at low
        exact Bool.false_ne_true (low.symm.trans req)
      · intro spec h
        cases h
        exact handle _ latched
  | wait => exact inv.of_same ack rfl rfl rfl id
  | @grant bitstream _ _ latched _ inRange =>
      refine ⟨ack, fun i req => ?_, inv.region⟩
      -- the one bit that may have been asserted is cleared
      exfalso
      dsimp only at req
      rcases eq_or_ne i ⟨bitstream.regionId, inRange⟩ with rfl | other
      · rw [Function.update_self] at req
        cases req
      · rw [Function.update_of_ne other] at req
        obtain ⟨-, -, spec, held, region⟩ := inv.requesting i req
        rw [latched] at held
        cases held
        exact other (Fin.ext region.symm)
  | count => exact inv.of_same ack rfl rfl rfl id
  | finish _ state =>
      refine ⟨ack, fun i req => ?_, inv.region⟩
      have low := inv.low (by rw [state]; simp) i
      exact absurd (low.symm.trans req) Bool.false_ne_true

/-! ### Faults -/

/-- A fault other than a null pointer. -/
def Unexpected (e : Fault) : Prop := e ≠ .nullDereference

theorem deref_avoids {α : Type} (o : Option α) : Avoids Unexpected (deref o) := by
  cases o with
  | none => exact Machine.avoids_error (not_not_intro rfl)
  | some a => exact Machine.avoids_ok a

/-- The busy signal that is read is that of an existing region. -/
theorem stepIdle_avoids (inv : s.ControlInv) : Avoids Unexpected (stepIdle w (s.latch w)) := by
  unfold stepIdle
  split
  · refine (deref_avoids _).bind fun bitstream latched => ?_
    have inRange := inv.region bitstream (deref_eq_ok.mp latched)
    rw [Bus.read, dif_pos inRange, Machine.ok_bind]
    split <;> exact Machine.avoids_ok _
  · exact Machine.avoids_ok _

/-- The assertion holds, since the acknowledgement stands as long as the request does, and
the bit that is set is that of an existing region. -/
theorem stepAck_avoids (inv : s.ControlInv) (handle : NamesRegion n w.prcScheduledBs)
    (state : s.nextState = .ack) : Avoids Unexpected (stepAck w (s.latch w)) := by
  have acking : s.prcAck = true := inv.ack.1.mpr state
  have asserted : ((s.latch w).prcAck || !w.prcReq) = true := by
    rw [latch_prcAck, acking, Bool.true_and, Bool.or_not_self]
  unfold stepAck
  rw [asserted, if_neg (by simp)]
  split
  · exact Machine.avoids_ok _
  · refine (deref_avoids _).bind fun bitstream scheduled => ?_
    have inRange := handle bitstream (deref_eq_ok.mp scheduled)
    rw [Bus.write_of_lt inRange, Machine.ok_bind]
    exact Machine.avoids_ok _

/-- The bit that is cleared is that of an existing region. -/
theorem stepWait_avoids (inv : s.ControlInv) : Avoids Unexpected (stepWait w (s.latch w)) := by
  unfold stepWait
  refine (deref_avoids _).bind fun bitstream latched => ?_
  have inRange := inv.region bitstream (deref_eq_ok.mp latched)
  split
  · rw [Bus.write_of_lt inRange, Machine.ok_bind]
    exact Machine.avoids_ok _
  · exact Machine.avoids_ok _

/-- **The only fault is a null pointer**: the assertion holds, and the regions exist. -/
theorem fault (inv : s.ControlInv) (handle : NamesRegion n w.prcScheduledBs) {e : Fault}
    (h : Icap.step w s = .error e) : e = .nullDereference := by
  have avoids : Avoids Unexpected (Icap.step w s) := by
    by_cases ready : s.stallCount = 0
    · rw [step_of_ready ready]
      cases state : s.nextState with
      | init => exact Machine.avoids_ok _
      | idle => exact inv.stepIdle_avoids
      | ack => exact inv.stepAck_avoids handle state
      | wait => exact inv.stepWait_avoids
      | transfer => exact Machine.avoids_ok _
    · rw [Icap.step, if_pos ready]
      exact Machine.avoids_ok _
  exact not_not.mp (avoids e h)

end ControlInv

/-! ## The signals of a run -/

/-- **Control of the signals**, in the first `N` steps and the one that follows as far as
it gets. -/
structure ControlHolds (inputs : ℕ → IcapWires n) (N : ℕ) (σ : ℕ → Icap n) : Prop where
  acking : ∀ k ≤ N, (σ k).prcAck = true ↔ (σ k).nextState = .ack
  asserted : ∀ k ≤ N, step (inputs k) (σ k) ≠ .error .assertionFailed
  rises : ∀ k < N, (σ k).prcAck = false → (σ (k + 1)).prcAck = true →
    (inputs k).prcReq = true
  falls : ∀ k < N, (σ k).prcAck = true → (σ (k + 1)).prcAck = false →
    (inputs k).prcReq = false
  single : ∀ k ≤ N, ∀ i j, (σ k).prrCtrlReq i = true → (σ k).prrCtrlReq j = true → i = j
  requesting : ∀ k ≤ N, ∀ i, (σ k).prrCtrlReq i = true → (σ k).Requesting i
  faults : ∀ e, step (inputs N) (σ N) = .error e → e = .nullDereference

variable {inputs : ℕ → IcapWires n} {N : ℕ} {σ : ℕ → Icap n}

/-- **The signals are under control**, in every run of an ICAP as it is constructed, or
with any bitstream latched, under any signals and any handles that name existing
regions. -/
theorem control_holds (raw : Icap n) (speed : Double) (busWidth : ℕ)
    (regionWidth : BitstreamSizeMap) (simSpeed : Double) (latched : Option (ModuleSpec Double))
    (region : NamesRegion n latched)
    (handles : ∀ k, NamesRegion n (inputs k).prcScheduledBs)
    (trace : Trace step inputs
      { new raw speed busWidth regionWidth simSpeed with transferBs := latched } N σ) :
    ControlHolds inputs N σ := by
  have inv : ∀ k ≤ N, (σ k).ControlInv :=
    trace.invariant (P := fun _ s => s.ControlInv)
      (.of_new raw speed busWidth regionWidth simSpeed region)
      fun k _ inv hstep => inv.step (handles k) (moves_of_step hstep)
  have level := fun k (hk : k < N) =>
    (moves_of_step (trace.step_eq hk)).ackLevel (inv k (by omega)).ack
  refine ⟨fun k hk => (inv k hk).ack.1, fun k hk h => ?_, fun k hk low high => ?_,
    fun k hk high low => ?_, fun k hk i j hi hj => ?_, fun k hk => (inv k hk).requesting,
    fun e => (inv N (Nat.le_refl N)).fault (handles N)⟩
  · cases (inv k hk).fault (handles k) h
  · by_contra noReq
    rw [(level k hk).2.2 (Bool.eq_false_iff.mpr noReq) low] at high
    exact Bool.false_ne_true high
  · rw [← (level k hk).2.1 high, low]
  · -- both bits are that of the latched bitstream's region
    obtain ⟨-, -, bitstream, held, hregion⟩ := (inv k hk).requesting i hi
    obtain ⟨-, -, bitstream', held', hregion'⟩ := (inv k hk).requesting j hj
    rw [held] at held'
    cases held'
    exact Fin.ext (hregion.symm.trans hregion')

/-- A request of the PRC that stands for three steps, and is answered in the step after
the next, for a region that executes. -/
def requestThrice (k : ℕ) : IcapWires 1 :=
  { prrExecuting := fun _ => true
    prcMc := 1
    prcReq := decide (k < 3)
    prrCtrlAck := decide (k = 4)
    prcScheduledBs := some Application.oneRegionBs }

/-- An ICAP that stalls once, is requested, and has got as far as `ICAP_WAIT` and beyond. -/
theorem control_holds_requestThrice :
    ∃ σ, Trace step requestThrice
      { new { rawIcap with stallCount := 1 } 1 32 .empty 1 with
        transferBs := some Application.oneRegionBs } 5 σ ∧
      ControlHolds requestThrice 5 σ := by
  have names : NamesRegion 1 (some Application.oneRegionBs) := by
    rintro spec ⟨⟩
    decide
  obtain ⟨σ, trace⟩ := Trace.exists_of_isOk
    (show (run requestThrice { new { rawIcap with stallCount := 1 } 1 32 .empty 1 with
      transferBs := some Application.oneRegionBs } 5).isOk = true by decide +kernel)
  exact ⟨σ, trace, control_holds _ _ _ _ _ _ names (fun _ => names) trace⟩

end Icap

end Drachma
