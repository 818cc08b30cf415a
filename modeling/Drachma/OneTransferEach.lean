import Drachma.RegionLife
import Drachma.TransferExclusion

/-!
# One transfer for each region

A region that has accepted a transfer accepts no other one, and the ICAP has no way to
give up a request: it waits until the bus acknowledges.  So over a whole run the ICAP
is granted at most one transfer to each region, and a second request for a region is
the last one that the ICAP makes.

The ICAP and the RR controllers run as in the exclusion of transfers, with arbitrary
signals of the PRC, and handles that name the region of the request.

## Main results

* `IcapRr.one_transfer_each` — the grants of a run, and the second requests.
-/

namespace Drachma

namespace IcapRr

variable {n : ℕ} {Node : Type} [GraphNode Node]

/-! ## The controllers of the composition -/

/-- The RR controllers and the context. -/
def bank (s : IcapRr n Node) : RrBank n Node := { rr := s.rr, context := s.context }

/-- What the environment and an ICAP with these outputs supply to them. -/
def bankEnv (env : IcapRrEnv n Node) (icap : IcapOutputs n) : RrBankEnv n Node :=
  { prc := env.prc, icap := icap, handles := env.rrcHandles }

/-- What a request makes a controller look up is of its own region. -/
def TargetsOwn (env : IcapRrEnv n Node) (s : IcapRr n Node) : Prop :=
  ∀ i : Fin n, (s.context.rrcWires i (env.rrcHandles i)).TargetsOwn i

/-- A cycle of the composition is one of the controllers, with the signals of its ICAP. -/
theorem bank_step {env : IcapRrEnv n Node} {s s' : IcapRr n Node} (h : s.step env = .ok s') :
    s.bank.step (bankEnv env s'.icap.outputs) = .ok s'.bank := by
  obtain ⟨icap, rr, -, hrr, rfl⟩ := step_eq_ok.mp h
  exact Machine.bind_eq_ok.mpr ⟨rr, hrr, rfl⟩

section Run

variable {envs : ℕ → IcapRrEnv n Node} {s₀ : IcapRr n Node} {N : ℕ}
variable {states : ℕ → IcapRr n Node}

theorem bank_trace (trace : Machine.Trace step envs s₀ N states) :
    Machine.Trace RrBank.step (fun k => bankEnv (envs k) (states (k + 1)).icap.outputs)
      s₀.bank N fun k => (states k).bank :=
  .of_steps (congrArg bank trace.start) fun _ hk => bank_step (trace.step_eq hk)

/-! ## The history of a run -/

/-- The phases of a run. -/
structure Phases (N : ℕ) (states : ℕ → IcapRr n Node) (phase : ℕ → TransferPhase n) : Prop where
  holds : ∀ k ≤ N, (states k).InPhase (phase k)
  next : ∀ k < N, (phase k).Next (phase (k + 1))

theorem exists_phases (start : s₀.Starts) (trace : Machine.Trace step envs s₀ N states) :
    ∃ phase, Phases N states phase := by
  obtain ⟨phase, -, holds, next⟩ := trace.exists_history
    (P := fun s p => InPhase p s) (Q := fun _ p q => TransferPhase.Next p q)
    (.of_starts start) fun k _ p hp hstep => by
      obtain ⟨q, next, hq⟩ := hp.step hstep
      exact ⟨q, hq, next⟩
  exact ⟨phase, holds, next⟩

/-- The phases of a run, and the stages of its regions. -/
structure History (N : ℕ) (states : ℕ → IcapRr n Node) (phase : ℕ → TransferPhase n)
    (stage : ℕ → Fin n → RegionStage) : Prop where
  phases : Phases N states phase
  stages : RrBank.Stages N (fun k => (states k).bank) stage

namespace History

variable {phase : ℕ → TransferPhase n} {stage : ℕ → Fin n → RegionStage}
variable (history : History N states phase stage) {k : ℕ} {r : Fin n}

include history

omit [GraphNode Node] in
/-- The region of the transfer is the one that receives, where the phase has a receiver. -/
theorem receiving_iff (hk : k ≤ N) :
    stage k r = .receiving ↔ (phase k).receives = true ∧ (phase k).region = some r := by
  rw [← history.stages.receives_iff hk]
  exact (history.phases.holds k hk).receives_iff r

omit [GraphNode Node] in
/-- A region that is not vacant is not vacant later. -/
theorem not_vacant {j : ℕ} (hjk : j ≤ k) (hk : k ≤ N) (left : stage j r ≠ .vacant) :
    stage k r ≠ .vacant := by
  intro vacant
  have rises : (stage j r).rank ≤ (stage k r).rank :=
    (history.stages.neverFalls r).le_of_le hjk hk
  rw [vacant] at rises
  cases before : stage j r with
  | vacant => exact left before
  | receiving => rw [before] at rises; exact absurd rises (by decide)
  | committed => rw [before] at rises; exact absurd rises (by decide)

omit [GraphNode Node] in
/-- **A second request is in vain.**  Out of a request for a region that is not
vacant the run goes nowhere. -/
theorem stays_requested (hk : k < N) (requested : phase k = .requested r)
    (left : stage k r ≠ .vacant) : phase (k + 1) = .requested r := by
  have next := history.phases.next k hk
  rw [requested] at next
  generalize after : phase (k + 1) = q at next
  cases next with
  | await => rfl
  | accept =>
      -- the controller would receive, and so would its region
      have receiving : stage (k + 1) r = .receiving :=
        (history.receiving_iff hk).mpr (by rw [after]; exact ⟨rfl, rfl⟩)
      have silent : stage k r ≠ .receiving := by
        intro receiving
        have receives := ((history.receiving_iff hk.le).mp receiving).1
        rw [requested] at receives
        cases receives
      have committed : stage k r = .committed := by
        cases before : stage k r with
        | vacant => exact absurd before left
        | receiving => exact absurd before silent
        | committed => rfl
      have order := (history.stages.goes k hk r).order
      rw [receiving, committed] at order
      exact absurd order (by decide)

end History

theorem exists_history (start : s₀.Starts) (apart : s₀.rr.Apart fun i => (i : ℕ))
    (own : ∀ k < N, TargetsOwn (envs k) (states k))
    (trace : Machine.Trace step envs s₀ N states) :
    ∃ phase stage, History N states phase stage := by
  obtain ⟨phase, phases⟩ := exists_phases start trace
  have init : s₀.bank.rr.AtInit := ⟨apart, fun i => (start.rrc i).1⟩
  obtain ⟨stage, stages⟩ := RrBank.exists_stages init own (bank_trace trace)
  exact ⟨phase, stage, phases, stages⟩

/-! ## Grants and requests -/

/-- In cycle `k` the ICAP is granted a transfer: it goes from `ICAP_WAIT` to
`ICAP_TRANSFER`. -/
def Grants (states : ℕ → IcapRr n Node) (k : ℕ) : Prop :=
  (states k).icap.nextState = .wait ∧ (states (k + 1)).icap.nextState = .transfer

/-- In cycle `k` the ICAP requests region `r`. -/
def Requests (states : ℕ → IcapRr n Node) (r : Fin n) (k : ℕ) : Prop :=
  (states k).icap.prrCtrlReq r = false ∧ (states (k + 1)).icap.prrCtrlReq r = true

/-- The ICAP waits for region `r`. -/
def WaitsFor (s : IcapRr n Node) (r : Fin n) : Prop :=
  s.icap.nextState = .wait ∧ s.icap.prrCtrlReq r = true

/-- What a run of `N` cycles makes of the transfers. -/
structure OneTransferEach (N : ℕ) (states : ℕ → IcapRr n Node) : Prop where
  /-- The ICAP is granted no more transfers than there are regions. -/
  grants : ∀ cycles : Finset ℕ, (∀ k ∈ cycles, k < N ∧ Grants states k) → cycles.card ≤ n
  /-- When it requests a region again, it waits for it in every later state. -/
  waits : ∀ r j k, j < k → k < N → Requests states r j → Requests states r k →
    ∀ l, k < l → l ≤ N → (states l).WaitsFor r

omit [GraphNode Node] in
/-- The request bits are those of the phase. -/
theorem Phases.req_iff {phase : ℕ → TransferPhase n} (phases : Phases N states phase) {k : ℕ}
    (hk : k ≤ N) (r : Fin n) : (states k).icap.prrCtrlReq r = true ↔
      phase k = .requested r ∨ phase k = .accepted r := by
  rw [(phases.holds k hk).icap.req]
  cases phase k <;> simp [TransferPhase.asserts, TransferPhase.region]

section OneEach

variable {phase : ℕ → TransferPhase n} {stage : ℕ → Fin n → RegionStage}

open Classical in
/-- Whether region `r` has been granted its transfer. -/
noncomputable def granted (phase : ℕ → TransferPhase n) (stage : ℕ → Fin n → RegionStage)
    (r : Fin n) (k : ℕ) : ℕ :=
  if stage k r = .vacant ∨ phase k = .accepted r then 0 else 1

omit [GraphNode Node] in
theorem History.granted_neverFalls (history : History N states phase stage) (r : Fin n) :
    Machine.NeverFalls N (granted phase stage r) := by
  intro k hk
  unfold granted
  by_cases before : stage k r = .vacant ∨ phase k = .accepted r
  · rw [if_pos before]
    exact Nat.zero_le _
  · have after : ¬ (stage (k + 1) r = .vacant ∨ phase (k + 1) = .accepted r) := by
      rintro (vacant | accepted)
      · exact history.not_vacant (Nat.le_succ k) hk (fun h => before (.inl h)) vacant
      · have next := history.phases.next k hk
        rw [accepted] at next
        generalize requested : phase k = p at next
        cases next
        have stays := history.stays_requested hk requested fun h => before (.inl h)
        rw [accepted] at stays
        cases stays
    rw [if_neg before, if_neg after]

omit [GraphNode Node] in
/-- A grant is one for the region whose controller has accepted. -/
theorem History.goesOver_of_grants (history : History N states phase stage) {k : ℕ}
    (hk : k < N) (grants : Grants states k) :
    ∃ r, Machine.GoesOver (granted phase stage r) 0 k := by
  have before := (history.phases.holds k hk.le).icap.state
  have after := (history.phases.holds (k + 1) hk).icap.state
  rw [grants.1] at before
  rw [grants.2] at after
  have next := history.phases.next k hk
  generalize hp : phase k = p at next before
  generalize hq : phase (k + 1) = q at next after
  cases next with
  | grant r =>
      have receiving : stage (k + 1) r = .receiving :=
        (history.receiving_iff hk).mpr (by rw [hq]; exact ⟨rfl, rfl⟩)
      refine ⟨r, ?_, ?_⟩
      · rw [granted, if_pos (.inr hp)]
      · rw [granted, if_neg]
        · decide
        · rintro (vacant | accepted)
          · rw [receiving] at vacant; cases vacant
          · rw [hq] at accepted; cases accepted
  | _ => simp_all [TransferPhase.Allows]

omit [GraphNode Node] in
/-- A region whose request has been released is not vacant. -/
theorem History.not_vacant_of_released (history : History N states phase stage) {r : Fin n}
    {j : ℕ} (requested : (states j).icap.prrCtrlReq r = true) : ∀ k, j ≤ k → k ≤ N →
      (states k).icap.prrCtrlReq r = true ∨ stage k r ≠ .vacant := by
  intro k hjk
  induction k, hjk using Nat.le_induction with
  | base => exact fun _ => .inl requested
  | succ k hjk ih =>
      intro hk
      rcases ih (by omega) with standing | left
      · rcases (history.phases.req_iff (by omega) r).mp standing with before | before
        · -- an unanswered request stands
          refine .inl ((history.phases.req_iff hk r).mpr ?_)
          have next := history.phases.next k (by omega)
          rw [before] at next
          generalize phase (k + 1) = q at next
          cases next with
          | await => exact .inl rfl
          | accept => exact .inr rfl
        · -- an accepted one is for a region that receives
          have receiving : stage k r = .receiving :=
            (history.receiving_iff (by omega)).mpr (by rw [before]; exact ⟨rfl, rfl⟩)
          refine .inr (history.not_vacant (Nat.le_succ k) hk ?_)
          rw [receiving]
          decide
      · exact .inr (history.not_vacant (Nat.le_succ k) hk left)

/-- **One transfer for each region.**  Over any run from the INIT states, the ICAP is granted
no more transfers than there are regions, and once it requests a region for the second time
it waits for it as long as the run lasts. -/
theorem one_transfer_each (start : s₀.Starts) (apart : s₀.rr.Apart fun i => (i : ℕ))
    (own : ∀ k < N, TargetsOwn (envs k) (states k))
    (trace : Machine.Trace step envs s₀ N states) : OneTransferEach N states := by
  obtain ⟨phase, stage, history⟩ := exists_history start apart own trace
  refine ⟨fun cycles grants => ?_, fun r j k hjk hk first second => ?_⟩
  · have bound := Machine.card_goesOver_le history.granted_neverFalls
      (fun k hk => (grants k hk).1)
      fun k hk => history.goesOver_of_grants (grants k hk).1 (grants k hk).2
    rwa [Fintype.card_fin] at bound
  · -- the first request has been released before the second one
    have left : stage k r ≠ .vacant := by
      rcases history.not_vacant_of_released first.2 k hjk hk.le with standing | left
      · rw [second.1] at standing
        cases standing
      · exact left
    have requested : ∀ l, k + 1 ≤ l → l ≤ N → phase l = .requested r := by
      intro l hl
      induction l, hl using Nat.le_induction with
      | base =>
          intro _
          -- the bit was low, so that nobody has accepted yet
          have bit := (history.phases.req_iff hk r).mp second.2
          have low := mt (history.phases.req_iff hk.le r).mpr (by simp [second.1])
          refine bit.resolve_right fun accepted => ?_
          have next := history.phases.next k hk
          rw [accepted] at next
          generalize before : phase k = p at next
          cases next
          exact low (.inl before)
      | succ l hl ih =>
          intro hlN
          exact history.stays_requested hlN (ih (by omega))
            (history.not_vacant (by omega) (by omega) left)
    intro l hkl hlN
    have here := requested l hkl hlN
    refine ⟨?_, (history.phases.req_iff hlN r).mpr (.inl here)⟩
    have state := (history.phases.holds l hlN).icap.state
    rw [here] at state
    exact state

end OneEach

end Run

/-! ## A run with a second request -/

/-- The PRC starts region 0, and requests transfers in cycles 1 and 8, both of them to
region 1. -/
def againEnv (k : ℕ) : IcapRrEnv 2 LoneTask :=
  { prc :=
      { memoryCounter := 1
        icapReq := decide (k = 1 ∨ k = 8)
        prrStart := fun i => decide (i.val = 0)
        prrEnqueue := fun _ => false }
    prcScheduledBs := some RrSide.regionOneBs
    rrcHandles := fun i =>
      { prcCurrentTask := some ⟨"a"⟩
        prcScheduledBs := some { ModuleSpec.default Double with regionId := i }
        icapTransferBs := some { RrSide.regionOneBs with
          regionId := i, id := if k < 8 then 5 else 6 } } }

theorem initial_starts : initial.Starts where
  icap := ⟨rfl, rfl, fun _ => rfl, rfl⟩
  rrc _ := ⟨rfl, rfl, rfl, rfl⟩
  context := ⟨fun _ => rfl, rfl, rfl, rfl, rfl, fun _ => rfl⟩

/-- The first request is granted.  The second one is made while the module executes. -/
theorem one_transfer_each_initial :
    ∃ states, Machine.Trace step againEnv initial 14 states ∧ Grants states 5 ∧
      Requests states 1 3 ∧ Requests states 1 10 ∧ OneTransferEach 14 states := by
  have completes : (Machine.run step againEnv initial 14).isOk = true := by decide +kernel
  obtain ⟨states, trace⟩ := Machine.Trace.exists_of_isOk completes
  refine ⟨states, trace, ⟨?_, ?_⟩, ⟨?_, ?_⟩, ⟨?_, ?_⟩,
    one_transfer_each initial_starts ⟨Memory.oneModule_filed 2 1 5, fun _ => rfl⟩ ?_ trace⟩
  · exact trace.observe (f := fun s => s.icap.nextState) (by omega) (by decide +kernel)
  · exact trace.observe (f := fun s => s.icap.nextState) (by omega) (by decide +kernel)
  · exact trace.observe (f := fun s => s.icap.prrCtrlReq 1) (by omega) (by decide +kernel)
  · exact trace.observe (f := fun s => s.icap.prrCtrlReq 1) (by omega) (by decide +kernel)
  · exact trace.observe (f := fun s => s.icap.prrCtrlReq 1) (by omega) (by decide +kernel)
  · exact trace.observe (f := fun s => s.icap.prrCtrlReq 1) (by omega) (by decide +kernel)
  · intro k _ i
    refine ⟨?_, ?_⟩
    · rintro - bitstream ⟨⟩
      rfl
    · rintro - bitstream ⟨⟩
      rfl

end IcapRr

end Drachma
