import Mathlib.Data.Nat.Init
import Mathlib.Tactic.Common

/-!
# The four-phase handshake

A requester owns a level `req`, an acknowledger owns a level `ack`.  The pair
runs a **four-phase handshake** when the two levels only ever move round the
cycle

`quiet → raised → acked → dropped → quiet`

one phase at a time, and may rest in any phase for as long as they like.  What
the protocol is good for is *pairing*: between two events of one kind, each
other kind happens.  Those facts are proved here for arbitrary level sequences,
from the one induction `Phase.entered`.
-/

namespace Machine

/-- The four phases, by the values of the request and acknowledge levels. -/
inductive Phase
  | quiet
  | raised
  | acked
  | dropped
deriving DecidableEq, Repr

namespace Phase

/-- The phase two levels are in. -/
def of : Bool → Bool → Phase
  | false, false => quiet
  | true, false => raised
  | true, true => acked
  | false, true => dropped

/-- The next phase of the cycle. -/
def next : Phase → Phase
  | quiet => raised
  | raised => acked
  | acked => dropped
  | dropped => quiet

@[simp] theorem of_eq_quiet {r a : Bool} : of r a = quiet ↔ r = false ∧ a = false := by
  cases r <;> cases a <;> simp [of]

@[simp] theorem of_eq_raised {r a : Bool} : of r a = raised ↔ r = true ∧ a = false := by
  cases r <;> cases a <;> simp [of]

@[simp] theorem of_eq_acked {r a : Bool} : of r a = acked ↔ r = true ∧ a = true := by
  cases r <;> cases a <;> simp [of]

@[simp] theorem of_eq_dropped {r a : Bool} : of r a = dropped ↔ r = false ∧ a = true := by
  cases r <;> cases a <;> simp [of]

/-- A sequence of phases that, for its first `n` moves, rests or advances. -/
def Advances (n : ℕ) (phase : ℕ → Phase) : Prop :=
  ∀ k < n, phase (k + 1) = phase k ∨ phase (k + 1) = (phase k).next

variable {n : ℕ} {phase : ℕ → Phase}

/-- **How a phase was entered.**  A sequence now in `p.next` that was elsewhere
at time `i` came from `p` at some time since, and has stayed. -/
theorem entered (adv : Advances n phase) {i j : ℕ} (hij : i ≤ j) (hj : j ≤ n)
    {p : Phase} (now : phase j = p.next) (then_ : phase i ≠ p.next) :
    ∃ m, i ≤ m ∧ m < j ∧ phase m = p ∧
      ∀ l, m < l → l ≤ j → phase l = p.next := by
  induction j, hij using Nat.le_induction with
  | base => exact absurd now then_
  | succ j hij ih =>
      by_cases hprev : phase j = p.next
      · obtain ⟨m, him, hmj, hm, stay⟩ := ih (by omega) hprev
        refine ⟨m, him, by omega, hm, fun l hml hlj => ?_⟩
        rcases Nat.lt_or_ge j l with hlt | hge
        · rw [show l = j + 1 by omega, now]
        · exact stay l hml hge
      · refine ⟨j, hij, by omega, ?_, fun l hml hlj => ?_⟩
        · rcases adv j (by omega) with rest | move
          · exact absurd (rest.symm.trans now) hprev
          · rw [now] at move
            cases p <;> cases hp : phase j <;> simp_all [next]
        · rw [show l = j + 1 by omega, now]

/-- Outside `quiet` there is a request in progress: it was raised at some time
`i`, and the handshake has not been back to `quiet` since. -/
theorem since_quiet (adv : Advances n phase) {j : ℕ} (hj : j ≤ n)
    (start : phase 0 = quiet) (busy : phase j ≠ quiet) :
    ∃ i < j, phase i = quiet ∧ phase (i + 1) = raised ∧
      ∀ l, i < l → l ≤ j → phase l ≠ quiet := by
  induction j with
  | zero => exact absurd start busy
  | succ j ih =>
      by_cases hprev : phase j = quiet
      · refine ⟨j, by omega, hprev, ?_, fun l hl hlj => ?_⟩
        · rcases adv j (by omega) with rest | move
          · exact absurd (rest.trans hprev) busy
          · rw [move, hprev]; rfl
        · rwa [show l = j + 1 by omega]
      · obtain ⟨i, hij, hi, hraised, stay⟩ := ih (by omega) hprev
        refine ⟨i, by omega, hi, hraised, fun l hl hlj => ?_⟩
        rcases Nat.lt_or_ge j l with hlt | hge
        · rwa [show l = j + 1 by omega]
        · exact stay l hl hge

end Phase

/-- A level goes up between times `k` and `k + 1`. -/
def Rises (level : ℕ → Bool) (k : ℕ) : Prop := level k = false ∧ level (k + 1) = true

/-- A level goes down between times `k` and `k + 1`. -/
def Falls (level : ℕ → Bool) (k : ℕ) : Prop := level k = true ∧ level (k + 1) = false

/-- The levels of a requester and an acknowledger follow the four-phase
handshake for `n` moves. -/
structure FourPhase (n : ℕ) (req ack : ℕ → Bool) : Prop where
  start : Phase.of (req 0) (ack 0) = .quiet
  advances : Phase.Advances n fun k => Phase.of (req k) (ack k)

namespace FourPhase

variable {n : ℕ} {req ack : ℕ → Bool}

/-- A request goes up out of `quiet`. -/
theorem of_req_rises (h : FourPhase n req ack) {k : ℕ} (hk : k < n) (up : Rises req k) :
    Phase.of (req k) (ack k) = .quiet ∧
      Phase.of (req (k + 1)) (ack (k + 1)) = .raised := by
  have move := h.advances k hk
  cases ha : ack k <;> cases ha' : ack (k + 1) <;>
    simp_all [Phase.of, Phase.next, up.1, up.2]

/-- A request goes down out of `acked`. -/
theorem of_req_falls (h : FourPhase n req ack) {k : ℕ} (hk : k < n) (down : Falls req k) :
    Phase.of (req k) (ack k) = .acked ∧
      Phase.of (req (k + 1)) (ack (k + 1)) = .dropped := by
  have move := h.advances k hk
  cases ha : ack k <;> cases ha' : ack (k + 1) <;>
    simp_all [Phase.of, Phase.next, down.1, down.2]

/-- An acknowledgement goes up out of `raised`. -/
theorem of_ack_rises (h : FourPhase n req ack) {k : ℕ} (hk : k < n) (up : Rises ack k) :
    Phase.of (req k) (ack k) = .raised ∧
      Phase.of (req (k + 1)) (ack (k + 1)) = .acked := by
  have move := h.advances k hk
  cases hr : req k <;> cases hr' : req (k + 1) <;>
    simp_all [Phase.of, Phase.next, up.1, up.2]

/-- **At most one acknowledgement a request.**  Between two rises of the
acknowledgement the request was raised anew. -/
theorem req_rises_between_acks (h : FourPhase n req ack) {i j : ℕ} (hij : i < j)
    (hj : j < n) (first : Rises ack i) (second : Rises ack j) :
    ∃ m, i < m ∧ m < j ∧ Rises req m := by
  have hi := (h.of_ack_rises (by omega) first).2
  have hjr := (h.of_ack_rises hj second).1
  obtain ⟨m, him, hmj, hm, stay⟩ :=
    Phase.entered h.advances (p := .quiet) (show i + 1 ≤ j by omega) (by omega) hjr
      (by rw [hi]; decide)
  have hm' := stay (m + 1) (by omega) (by omega)
  exact ⟨m, by omega, hmj, (Phase.of_eq_quiet.mp hm).1, (Phase.of_eq_raised.mp hm').1⟩

/-- **A request is dropped on its own acknowledgement**: it was raised, then
acknowledged, and was high all the way to the drop. -/
theorem ack_rises_before_drop (h : FourPhase n req ack) {j : ℕ} (hj : j < n)
    (down : Falls req j) :
    ∃ i m, i < m ∧ m < j ∧ Rises req i ∧ Rises ack m ∧
      ∀ l, i < l → l ≤ j → req l = true := by
  have hjp := (h.of_req_falls hj down).1
  obtain ⟨m, -, hmj, hm, acked⟩ :=
    Phase.entered h.advances (p := .raised) (Nat.zero_le j) (by omega) hjp
      (by rw [h.start]; decide)
  obtain ⟨i, -, him, hi, raised⟩ :=
    Phase.entered h.advances (p := .quiet) (Nat.zero_le m) (by omega) hm
      (by rw [h.start]; decide)
  have hi' := raised (i + 1) (by omega) (by omega)
  have hm' := acked (m + 1) (by omega) (by omega)
  refine ⟨i, m, him, hmj, ⟨(Phase.of_eq_quiet.mp hi).1, (Phase.of_eq_raised.mp hi').1⟩,
    ⟨(Phase.of_eq_raised.mp hm).2, (Phase.of_eq_acked.mp hm').2⟩, fun l hil hlj => ?_⟩
  rcases Nat.lt_or_ge m l with hml | hlm
  · exact (Phase.of_eq_acked.mp (acked l hml hlj)).1
  · exact (Phase.of_eq_raised.mp (raised l hil hlm)).1

/-- **The acknowledger sees the drop before the next request**: between two
rises of the request it goes down, and after that the acknowledgement does. -/
theorem ack_falls_between_reqs (h : FourPhase n req ack) {i j : ℕ} (hij : i < j)
    (hj : j < n) (first : Rises req i) (second : Rises req j) :
    ∃ d m, i < d ∧ d < m ∧ m < j ∧ Falls req d ∧ Falls ack m := by
  have hi := (h.of_req_rises (by omega) first).2
  have hjq := (h.of_req_rises hj second).1
  obtain ⟨m, him, hmj, hm, quiet⟩ :=
    Phase.entered h.advances (p := .dropped) (show i + 1 ≤ j by omega) (by omega) hjq
      (by rw [hi]; decide)
  obtain ⟨d, hid, hdm, hd, dropped⟩ :=
    Phase.entered h.advances (p := .acked) him (by omega) hm (by rw [hi]; decide)
  have hm' := quiet (m + 1) (by omega) (by omega)
  have hd' := dropped (d + 1) (by omega) (by omega)
  exact ⟨d, m, by omega, hdm, hmj,
    ⟨(Phase.of_eq_acked.mp hd).1, (Phase.of_eq_dropped.mp hd').1⟩,
    ⟨(Phase.of_eq_dropped.mp hm).2, (Phase.of_eq_quiet.mp hm').2⟩⟩

end FourPhase

end Machine
