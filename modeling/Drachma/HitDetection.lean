import Drachma.RegionLocality
import Mathlib.Data.Fin.Basic

/-!
# Hit detection and what is installed

The PRC takes a task for a hit when the id its region's controller reports is the
id of the bitstream it wants.  What the controller reports is `bitstreamId`, which
neither the constructor nor any step writes: the report never changes, whatever is
installed.

Here the RR controllers run with their storage, and with arbitrary signals of the
PRC and the ICAP.

## Main results

* `RrBank.Inv.step` — a cycle files in the RR table the module of every transfer
  that has ended, and no other, and reports the same ids as ever.
* `RrBank.reflects_iff` — the reports agree with the RR table exactly as long as
  the placeholders' id is reported and no other id is installed.
-/

namespace Drachma

namespace Memory

/-- Every library module is filed under its own id. -/
def Catalogued (m : Memory) : Prop :=
  ∀ level, StorageUnit.level level ∈ m.hierarchy → ∀ r id a,
    level.table r id = some (some a) → (m.cells a).moduleId = id

theorem oneModule_catalogued (n r id : ℕ) : (oneModule n r id).Catalogued := by
  intro level hl r' m a h
  obtain ⟨-, rfl, hcell⟩ := oneModule_level hl h
  rw [hcell]
  rfl

/-- The RR table holds a module with this id for region `r`. -/
def Holds (m : Memory) (r id : ℕ) : Prop :=
  ∃ a, m.prr.table r = some (some a) ∧ (m.cells a).moduleId = id

variable {m m' x : Memory} {r id id' : ℕ}

theorem Catalogued.of_keeps (catalogued : m.Catalogued) (keeps : m.Keeps x) :
    x.Catalogued := by
  intro level hl r id a stored
  rw [keeps.hierarchy] at hl
  rw [keeps.moduleId]
  exact catalogued level hl r id a stored

theorem Holds.unique (h : m.Holds r id) (h' : m.Holds r id') : id = id' := by
  obtain ⟨a, ha, rfl⟩ := h
  obtain ⟨a', ha', rfl⟩ := h'
  rw [ha] at ha'
  cases ha'
  rfl

/-- Which module a region holds can be read off its part of the storage. -/
theorem Holds.of_view (h : m.Holds r id) (filed : m.Filed)
    (same : m.viewOf r = m'.viewOf r) : m'.Holds r id := by
  obtain ⟨a, ha, rfl⟩ := h
  refine ⟨a, ?_, ?_⟩
  · rw [← entry_eq_of_view same]
    exact ha
  · rw [cell_eq_of_view same (filed.prr r a ha)]

theorem Holds.of_keeps (h : m.Holds r id) (keeps : m.Keeps x) (prr : x.prr = m.prr) :
    x.Holds r id := by
  obtain ⟨a, ha, rfl⟩ := h
  refine ⟨a, ?_, keeps.moduleId a⟩
  rw [prr]
  exact ha

end Memory

/-- The RR controllers with their storage, and the context they read. -/
structure RrBank (n : ℕ) (Node : Type) where
  rr : RrSide n Node
  context : SignalContext n Node

/-- What the environment supplies in a cycle: the signals of the PRC and the ICAP,
and the handles of the controllers. -/
structure RrBankEnv (n : ℕ) (Node : Type) where
  prc : PrcOutputs n
  icap : IcapOutputs n
  handles : Fin n → RrcHandles Node

/-- Every bitstream handle is non-null and names the controller's own region. -/
def RrBankEnv.OwnHandles {n : ℕ} {Node : Type} (env : RrBankEnv n Node) : Prop :=
  ∀ i : Fin n,
    (∃ scheduled, (env.handles i).prcScheduledBs = some scheduled ∧
      scheduled.regionId = i) ∧
    ∃ transfer, (env.handles i).icapTransferBs = some transfer ∧ transfer.regionId = i

namespace RrBank

variable {n : ℕ} {Node : Type} [GraphNode Node]

/-- One cycle of the controllers, and the refresh of the context. -/
def step (env : RrBankEnv n Node) (s : RrBank n Node) : Exec (RrBank n Node) := do
  let rr ← s.rr.sweep fun i => s.context.rrcWires i (env.handles i)
  return { rr := rr, context := s.context.refreshContext env.prc env.icap rr.outputs }

/-- The controllers are in their INIT states, controller `i` for region `i`, every
module is filed under its own ids, and the RR table holds placeholders. -/
structure Starts (s : RrBank n Node) : Prop where
  filed : s.rr.memory.Filed
  catalogued : s.rr.memory.Catalogued
  region : ∀ i, (s.rr.rrc i).prrId = i
  init : ∀ i, (s.rr.rrc i).nextState = .init
  placeholder : ∀ i : Fin n, s.rr.memory.Holds i unsignedMinusOne

/-- The id the PRC compares with is that of the module the RR table holds. -/
def Reflects (s : RrBank n Node) (i : Fin n) : Prop :=
  s.rr.memory.Holds i (s.context.storedRrcBitstream i)

/-- Controller `i` finds its transfer ended. -/
def TransferEnded (s : RrBank n Node) (i : Fin n) : Prop :=
  (s.rr.rrc i).nextState = .transfer ∧ s.context.storedIcapTransfer = false

/-- What every cycle preserves. -/
structure Inv (s : RrBank n Node) : Prop where
  apart : s.rr.Apart fun i => (i : ℕ)
  catalogued : s.rr.memory.Catalogued
  latched : ∀ i, (s.rr.rrc i).nextState = .transfer →
    (s.rr.rrc i).icapTransferBs.regionId = i

variable {env : RrBankEnv n Node} {s s' : RrBank n Node}

omit [GraphNode Node] in
theorem Inv.of_starts (start : s.Starts) : s.Inv where
  apart := ⟨start.filed, start.region⟩
  catalogued := start.catalogued
  latched i h := by
    rw [start.init i] at h
    cases h

omit [GraphNode Node] in
/-- With handles of their own regions, the controllers look up their own regions. -/
theorem Inv.handlesOwn (inv : s.Inv) (own : env.OwnHandles) (i : Fin n) :
    (s.rr.rrc i).HandlesOwn (s.context.rrcWires i (env.handles i)) s.rr.memory i := by
  obtain ⟨⟨scheduled, hscheduled, region⟩, transfer, htransfer, region'⟩ := own i
  refine ⟨?_, ?_, fun state _ => inv.latched i state⟩
  · intro _ _ _ bitstream _ _ _ _ _ handle
    obtain rfl := Option.some.inj (hscheduled.symm.trans handle)
    exact region
  · intro _ _ _ bitstream _ _ _ _ _ handle
    obtain rfl := Option.some.inj (htransfer.symm.trans handle)
    exact region'

/-- **The step lemma.**  A cycle files the module of the latched bitstream where a
transfer has ended and leaves the other regions as they are; every controller
reports the id it has always reported. -/
theorem Inv.step (inv : s.Inv) (own : env.OwnHandles) (h : s.step env = .ok s') :
    s'.Inv ∧ ∀ i, (s'.rr.rrc i).bitstreamId = (s.rr.rrc i).bitstreamId ∧
      s'.context.storedRrcBitstream i = (s.rr.rrc i).bitstreamId ∧
        (s.TransferEnded i → s'.rr.memory.Holds i (s.rr.rrc i).icapTransferBs.id) ∧
          (¬ s.TransferEnded i → ∀ id, s.rr.memory.Holds i id → s'.rr.memory.Holds i id) := by
  obtain ⟨rr, hsweep, h⟩ := Machine.bind_eq_ok.mp h
  cases h
  obtain ⟨apart, stepped, -⟩ := Machine.foldlM_part
    (fun i => RrSide.actsOn Fin.val_injective (s.context.rrcWires i (env.handles i)) i)
    Fin.val_injective (List.nodup_finRange n) inv.apart (fun i _ => inv.handlesOwn own i)
    hsweep
  -- each controller has taken a step of its own, on the storage before the cycle
  have moved : ∀ i, ∃ x, RrController.Moves (s.context.rrcWires i (env.handles i))
      (s.rr.rrc i) s.rr.memory (rr.rrc i) x ∧
        x.viewOf i = rr.memory.viewOf i ∧ x.Filed := by
    intro i
    obtain ⟨y, hy, same⟩ := stepped i (List.mem_finRange i)
    have filed : y.memory.Filed :=
      ((RrSide.actsOn Fin.val_injective _ i).preserves inv.apart (inv.handlesOwn own i) hy).filed
    have view := (RrSide.memory_eq_of_view same).symm
    have hrrc := RrSide.rrc_eq_of_view same
    obtain ⟨controller, memory, hctrl, rfl⟩ := RrSide.step_eq_ok.mp hy
    dsimp only at hrrc view
    rw [Function.update_self] at hrrc
    rw [← hrrc] at hctrl
    exact ⟨memory, RrController.moves_of_step hctrl, view, filed⟩
  refine ⟨⟨apart, inv.catalogued.of_keeps (RrSide.keeps_of_sweep hsweep), ?_⟩, ?_⟩
  · intro i state
    obtain ⟨x, moves, -⟩ := moved i
    rcases moves.transfer_cases state with ⟨state', latched⟩ | ⟨-, handle⟩
    · rw [latched]
      exact inv.latched i state'
    · obtain ⟨-, transfer, htransfer, region⟩ := own i
      obtain rfl := Option.some.inj (htransfer.symm.trans handle)
      exact region
  · intro i
    obtain ⟨x, moves, view, filed⟩ := moved i
    refine ⟨moves.constants.2, moves.constants.2, ?_, ?_⟩
    · rintro ⟨state, ended⟩
      obtain ⟨level, b, unit, stored, entry⟩ := moves.installed state ended
      have hl := List.mem_of_getElem? unit
      rw [inv.apart.filed.level level hl _ _ b stored, inv.latched i state] at entry
      have id := inv.catalogued level hl _ _ b stored
      exact Memory.Holds.of_view ⟨b, entry, (moves.keeps.moduleId b).trans id⟩ filed view
    · intro running id holds
      have prr := moves.prr_eq fun state => by
        cases transferring : s.context.storedIcapTransfer with
        | true => exact transferring
        | false => exact absurd ⟨state, transferring⟩ running
      exact (holds.of_keeps moves.keeps prr).of_view filed view

section Run

variable {inputs : ℕ → RrBankEnv n Node} {s₀ : RrBank n Node} {N : ℕ}
  {states : ℕ → RrBank n Node}

/-- The run lemma: the invariant holds throughout, and the reports are the ids the
controllers started with. -/
theorem inv_of_trace (start : s₀.Starts) (own : ∀ k, (inputs k).OwnHandles)
    (trace : Machine.Trace step inputs s₀ N states) :
    ∀ k ≤ N, (states k).Inv ∧
      ∀ i, ((states k).rr.rrc i).bitstreamId = (s₀.rr.rrc i).bitstreamId := by
  refine trace.invariant (P := fun _ s =>
    s.Inv ∧ ∀ i, (s.rr.rrc i).bitstreamId = (s₀.rr.rrc i).bitstreamId)
    ⟨.of_starts start, fun _ => rfl⟩ ?_
  rintro k - ⟨inv, ids⟩ hstep
  obtain ⟨inv', effect⟩ := inv.step (own k) hstep
  exact ⟨inv', fun i => (effect i).1.trans (ids i)⟩

/-- **The report is right exactly as long as nothing but the placeholders' id is
ever installed.**  After every refresh of the first `N` cycles the stored ids are
those of the modules in the RR table if and only if, in each of these cycles, every
controller reports the placeholders' id and no transfer that has ended was of a
bitstream with another id. -/
theorem reflects_iff (start : s₀.Starts) (own : ∀ k, (inputs k).OwnHandles)
    (trace : Machine.Trace step inputs s₀ N states) :
    (∀ k, 0 < k → k ≤ N → ∀ i, (states k).Reflects i) ↔
      ∀ k < N, ∀ i, ((states k).rr.rrc i).bitstreamId = unsignedMinusOne ∧
        ((states k).TransferEnded i →
          ((states k).rr.rrc i).icapTransferBs.id = unsignedMinusOne) := by
  have invs := inv_of_trace start own trace
  have effects : ∀ k < N, _ := fun k hk =>
    ((invs k (by omega)).1.step (own k) (trace.step_eq hk)).2
  constructor
  · intro reflects k hk i
    -- no transfer ends in the first cycle, which finds the placeholders in place
    have report : (s₀.rr.rrc i).bitstreamId = unsignedMinusOne := by
      obtain ⟨-, stored, -, unchanged⟩ := effects 0 (by omega) i
      rw [trace.start] at stored unchanged
      have running : ¬ s₀.TransferEnded i := by
        rintro ⟨state, -⟩
        rw [start.init i] at state
        cases state
      have held := unchanged running _ (start.placeholder i)
      have reported := reflects 1 (by omega) (by omega) i
      unfold Reflects at reported
      rw [stored] at reported
      exact reported.unique held
    refine ⟨((invs k (by omega)).2 i).trans report, fun ended => ?_⟩
    obtain ⟨-, stored, installed, -⟩ := effects k hk i
    have reported := reflects (k + 1) (by omega) (by omega) i
    unfold Reflects at reported
    rw [stored, (invs k (by omega)).2 i, report] at reported
    exact (installed ended).unique reported
  · intro condition
    have held : ∀ k ≤ N, ∀ i : Fin n, (states k).rr.memory.Holds i unsignedMinusOne := by
      refine trace.invariant (P := fun _ s => ∀ i : Fin n, s.rr.memory.Holds i unsignedMinusOne)
        start.placeholder ?_
      intro k hk held _ i
      obtain ⟨-, -, installed, unchanged⟩ := effects k hk i
      by_cases ended : (states k).TransferEnded i
      · have now := installed ended
        rw [(condition k hk i).2 ended] at now
        exact now
      · exact unchanged ended _ (held i)
    intro k hpos hk i
    obtain ⟨k, rfl⟩ := Nat.exists_eq_succ_of_ne_zero (by omega : k ≠ 0)
    obtain ⟨-, stored, -, -⟩ := effects k (by omega) i
    unfold Reflects
    rw [stored, (condition k (by omega) i).1]
    exact held (k + 1) hk i

end Run

/-! ## An installation that is not reported -/

/-- A bitstream of region 0.  Its task type is the one a new controller has noted. -/
def installedBs : ModuleSpec Double :=
  { regionId := 0, id := 7, bitstreamWidth := 4
    tasks := [{ regionId := 0, moduleId := 7, typeId := "", speed := 1, cycles := 2 }] }

/-- One region, with the module of `installedBs` in the library.  The id of the new
controller happens to be that of the placeholder. -/
def installStart : RrBank 1 LoneTask :=
  { rr :=
      { rrc := fun i => RrController.new
          { RrController.rawController with bitstreamId := unsignedMinusOne } i 1
        memory := .oneModule 1 0 7 }
    context := SignalContext.new SignalContext.rawContext none none none }

/-- The ICAP requests region 0, with no transfer to wait for. -/
def installEnv (_ : ℕ) : RrBankEnv 1 LoneTask :=
  { prc :=
      { memoryCounter := 1
        icapReq := false
        prrStart := fun _ => false
        prrEnqueue := fun _ => false }
    icap :=
      { memoryCounter := 1
        prcAck := false
        prrCtrlReq := fun _ => true
        transferring := false
        targetRr := 0 }
    handles := fun _ =>
      { prcCurrentTask := none
        prcScheduledBs := some installedBs
        icapTransferBs := some installedBs } }

theorem installStart_starts : installStart.Starts where
  filed := Memory.oneModule_filed 1 0 7
  catalogued := Memory.oneModule_catalogued 1 0 7
  region _ := rfl
  init _ := rfl
  placeholder i := by
    obtain rfl := Subsingleton.elim i 0
    exact ⟨0, rfl, rfl⟩

theorem installEnv_ownHandles (k : ℕ) : (installEnv k).OwnHandles := by
  intro i
  obtain rfl := Subsingleton.elim i 0
  exact ⟨⟨_, rfl, rfl⟩, _, rfl, rfl⟩

/-- The condition, for this run. -/
theorem reflects_iff_installStart :
    ∃ states, Machine.Trace step installEnv installStart 3 states ∧
      ((∀ k, 0 < k → k ≤ 3 → ∀ i, (states k).Reflects i) ↔
        ∀ k < 3, ∀ i, ((states k).rr.rrc i).bitstreamId = unsignedMinusOne ∧
          ((states k).TransferEnded i →
            ((states k).rr.rrc i).icapTransferBs.id = unsignedMinusOne)) := by
  have completes : (Machine.run step installEnv installStart 3).isOk = true := by
    decide +kernel
  obtain ⟨states, trace⟩ := Machine.Trace.exists_of_isOk completes
  exact ⟨states, trace, reflects_iff installStart_starts installEnv_ownHandles trace⟩

/-- **The module is installed and not reported**: in the third cycle the RR table
gets the module with id 7, and the PRC still reads the placeholder's id. -/
theorem install_not_reflected :
    installStart.Starts ∧ (∀ k, (installEnv k).OwnHandles) ∧
      ∃ states, Machine.Trace step installEnv installStart 3 states ∧
        (states 3).rr.memory.Holds 0 7 ∧ ¬ (states 3).Reflects 0 := by
  refine ⟨installStart_starts, installEnv_ownHandles, ?_⟩
  have completes : (Machine.run step installEnv installStart 3).isOk = true := by
    decide +kernel
  obtain ⟨states, trace⟩ := Machine.Trace.exists_of_isOk completes
  have entry := trace.observe (k := 3) (f := fun s => s.rr.memory.prr.table 0)
    (b := some (some 1)) (by omega) (by decide +kernel)
  have id := trace.observe (k := 3) (f := fun s => (s.rr.memory.cells 1).moduleId)
    (b := 7) (by omega) (by decide +kernel)
  have stored := trace.observe (k := 3) (f := fun s => s.context.storedRrcBitstream 0)
    (b := unsignedMinusOne) (by omega) (by decide +kernel)
  have holds : (states 3).rr.memory.Holds 0 7 := ⟨1, entry, id⟩
  refine ⟨states, trace, holds, fun reported => ?_⟩
  unfold Reflects at reported
  rw [stored] at reported
  exact absurd (holds.unique reported) (by decide)

end RrBank

end Drachma
