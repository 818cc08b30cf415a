import Drachma.Icap
import Drachma.Lib.Countdown
import Mathlib.Algebra.Order.Floor.Ring
import Mathlib.Order.Bounds.Basic
import Mathlib.Tactic.Linarith

/-!
# How long a transfer takes

When an RR controller accepts a transfer, the ICAP works out how many simulator cycles
it takes, announces the number, and counts it down in `ICAP_TRANSFER`.

`beginExecution` converts cycles of a module's clock with the speed of the simulator
over that of the module, and rounds up.  `calculateTransferLatency` has the speeds of
the two clocks the other way round, rounds down, and works out the number of bits in
an `unsigned`.  And the counter is compared before it is decremented, so that the
transfer takes a step more than announced, in which the counter wraps.

## Main results

* `Icap.calculateTransferLatency_isLeast_iff` — when the latency is the time needed.
* `Icap.harmless_iff_of_whole_words` — what this means for whole words and a faster ICAP.
* `Icap.not_lastsAsAnnounced` — no transfer lasts as long as announced.
-/

namespace Drachma

namespace Icap

open Machine (Countdown LastsFor Trace)

variable {n : ℕ}

/-! ## The latency -/

/-- In `cycles` simulator cycles the ICAP can move the bits of `bytes` bytes. -/
def CanMove (s : Icap n) (bytes cycles : ℕ) : Prop :=
  8 * bytes * s.simSpeed ≤ cycles * s.icapSpeed * s.icapBusWidth

/-- The whole words of the bus in `bytes` bytes. -/
def words (s : Icap n) (bytes : ℕ) : ℕ := 8 * bytes / s.icapBusWidth

/-- The bits of `bytes` bytes can be counted in an `unsigned`, and so can the cycles that the
exchanged clocks take for them. -/
def InRange (s : Icap n) (bytes : ℕ) : Prop :=
  8 * bytes < 2 ^ 32 ∧ 8 * bytes * s.icapSpeed < 2 ^ 32 * s.icapBusWidth * s.simSpeed

/-- The clocks and sizes for which it makes no difference that the clocks are exchanged, that
the quotient is rounded down, and that the bits are counted in an `unsigned`. -/
inductive HarmlessExchange (s : Icap n) (bytes : ℕ) : Prop
  /-- To a slower ICAP nothing is transferred. -/
  | slower (slower : s.icapSpeed < s.simSpeed) (empty : bytes = 0)
  /-- With equal speeds, whole words are transferred. -/
  | equal (equal : s.icapSpeed = s.simSpeed) (fits : 8 * bytes < 2 ^ 32)
      (whole : s.icapBusWidth ∣ 8 * bytes)
  /-- A faster ICAP moves all bits in as many cycles of the simulator as there are whole
  words, and the exchanged clocks add less than one cycle to these. -/
  | fasterWhole (faster : s.simSpeed < s.icapSpeed) (fits : 8 * bytes < 2 ^ 32)
      (enough : 8 * bytes * s.simSpeed ≤ s.words bytes * s.icapSpeed * s.icapBusWidth)
      (less : 8 * bytes * s.icapSpeed < (s.words bytes + 1) * s.icapBusWidth * s.simSpeed)
  /-- It takes a cycle more for a part of a word, and the exchanged clocks add that cycle. -/
  | fasterPart (faster : s.simSpeed < s.icapSpeed) (fits : 8 * bytes < 2 ^ 32)
      (more : s.words bytes * s.icapSpeed * s.icapBusWidth < 8 * bytes * s.simSpeed)
      (least : (s.words bytes + 1) * s.icapBusWidth * s.simSpeed ≤ 8 * bytes * s.icapSpeed)
      (less : 8 * bytes * s.icapSpeed < (s.words bytes + 2) * s.icapBusWidth * s.simSpeed)

/-- The speeds and the width of a bus are positive. -/
structure Powered (s : Icap n) : Prop where
  icapSpeed : 0 < s.icapSpeed
  simSpeed : 0 < s.simSpeed
  busWidth : 0 < s.icapBusWidth

variable {s : Icap n} {bytes cycles : ℕ}

/-- The latency is a quotient, rounded down and reduced. -/
theorem calculateTransferLatency_eq :
    s.calculateTransferLatency bytes =
      ⌊((8 * bytes % 2 ^ 32 : ℕ) * s.icapSpeed) / (s.icapBusWidth * s.simSpeed)⌋₊ %
        2 ^ 32 := by
  unfold calculateTransferLatency toUnsigned
  rw [Int.floor_toNat, Nat.mul_comm bytes]

variable (s bytes) in
theorem words_le : (s.words bytes * s.icapBusWidth : ℚ) ≤ 8 * bytes := by
  exact_mod_cast Nat.div_mul_le_self (8 * bytes) s.icapBusWidth

namespace Powered

variable (powered : s.Powered)

include powered

theorem width_pos : (0 : ℚ) < s.icapBusWidth := Nat.cast_pos.mpr powered.busWidth

/-- The bits are less than another word more than the whole words. -/
theorem bits_le : (8 * bytes : ℚ) ≤ (s.words bytes + 1) * s.icapBusWidth := by
  have bits : 8 * bytes ≤ (s.words bytes + 1) * s.icapBusWidth := by
    rw [Nat.add_mul, Nat.one_mul]
    exact (Nat.lt_div_mul_add powered.busWidth).le
  exact_mod_cast bits

variable (bytes) in
/-- The latency is not rounded up. -/
theorem latency_le :
    s.calculateTransferLatency bytes * s.icapBusWidth * s.simSpeed ≤
      (8 * bytes % 2 ^ 32 : ℕ) * s.icapSpeed := by
  have clock := mul_pos powered.width_pos powered.simSpeed
  have nonneg : (0 : ℚ) ≤
      ((8 * bytes % 2 ^ 32 : ℕ) * s.icapSpeed) / (s.icapBusWidth * s.simSpeed) :=
    div_nonneg (mul_nonneg (Nat.cast_nonneg _) powered.icapSpeed.le) clock.le
  have rounded := Nat.floor_le nonneg
  rw [le_div_iff₀ clock, ← mul_assoc] at rounded
  have reduced : ((s.calculateTransferLatency bytes : ℕ) : ℚ) ≤
      ⌊((8 * bytes % 2 ^ 32 : ℕ) * s.icapSpeed) / (s.icapBusWidth * s.simSpeed)⌋₊ := by
    rw [calculateTransferLatency_eq]
    exact Nat.cast_le.mpr (Nat.mod_le _ _)
  refine le_trans ?_ rounded
  exact mul_le_mul_of_nonneg_right
    (mul_le_mul_of_nonneg_right reduced powered.width_pos.le) powered.simSpeed.le

/-- Nor is it more than a cycle too low, where the numbers are in range. -/
theorem latency_eq_iff (range : s.InRange bytes) :
    s.calculateTransferLatency bytes = cycles ↔
      cycles * s.icapBusWidth * s.simSpeed ≤ 8 * bytes * s.icapSpeed ∧
        8 * bytes * s.icapSpeed < (cycles + 1) * s.icapBusWidth * s.simSpeed := by
  obtain ⟨fits, quotient⟩ := range
  have clock := mul_pos powered.width_pos powered.simSpeed
  have bits : ((8 * bytes % 2 ^ 32 : ℕ) : ℚ) = 8 * bytes := by
    rw [Nat.mod_eq_of_lt fits]
    push_cast
    rfl
  have nonneg : (0 : ℚ) ≤ (8 * bytes * s.icapSpeed) / (s.icapBusWidth * s.simSpeed) :=
    div_nonneg (mul_nonneg (by positivity) powered.icapSpeed.le) clock.le
  have small : ⌊(8 * bytes * s.icapSpeed) / (s.icapBusWidth * s.simSpeed)⌋₊ < 2 ^ 32 := by
    rw [Nat.floor_lt nonneg, div_lt_iff₀ clock, ← mul_assoc]
    exact_mod_cast quotient
  rw [calculateTransferLatency_eq, bits, Nat.mod_eq_of_lt small, Nat.floor_eq_iff nonneg,
    le_div_iff₀ clock, div_lt_iff₀ clock, ← mul_assoc, ← mul_assoc]

/-- Fewer cycles than there are whole words are not enough, where the exchanged clocks add
less than one cycle to these. -/
theorem not_canMove_of_lt (less : 8 * bytes * s.icapSpeed <
      (s.words bytes + 1) * s.icapBusWidth * s.simSpeed) (few : cycles < s.words bytes) :
    ¬ s.CanMove bytes cycles := by
  intro enough
  unfold CanMove at enough
  have words := words_le s bytes
  have fewer : (cycles * (s.words bytes + 1) + 1 : ℚ) ≤ s.words bytes * s.words bytes := by
    have fewer : cycles * (s.words bytes + 1) + 1 ≤ s.words bytes * s.words bytes := by
      obtain ⟨k, hk⟩ := Nat.exists_eq_add_of_lt few
      rw [hk]
      ring_nf
      omega
    exact_mod_cast fewer
  have width := powered.width_pos
  have clock := powered.simSpeed
  -- both bounds on the bits, multiplied: the square of the words against its predecessor
  have below : (8 * bytes : ℚ) * (8 * bytes * s.simSpeed) ≤
      cycles * (s.words bytes + 1) * (s.icapBusWidth * s.icapBusWidth * s.simSpeed) := by
    calc (8 * bytes : ℚ) * (8 * bytes * s.simSpeed)
        ≤ 8 * bytes * (cycles * s.icapSpeed * s.icapBusWidth) :=
          mul_le_mul_of_nonneg_left enough (by positivity)
      _ = cycles * s.icapBusWidth * (8 * bytes * s.icapSpeed) := by ring
      _ ≤ cycles * s.icapBusWidth * ((s.words bytes + 1) * s.icapBusWidth * s.simSpeed) :=
          mul_le_mul_of_nonneg_left less.le (by positivity)
      _ = _ := by ring
  have above : s.words bytes * s.words bytes * (s.icapBusWidth * s.icapBusWidth * s.simSpeed) ≤
      (8 * bytes : ℚ) * (8 * bytes * s.simSpeed) := by
    calc s.words bytes * s.words bytes * (s.icapBusWidth * s.icapBusWidth * s.simSpeed)
        = s.words bytes * s.icapBusWidth * (s.words bytes * s.icapBusWidth) * s.simSpeed := by ring
      _ ≤ 8 * bytes * (8 * bytes) * s.simSpeed := by gcongr
      _ = _ := by ring
  have unit : 0 < s.icapBusWidth * s.icapBusWidth * s.simSpeed := by positivity
  have order := le_of_mul_le_mul_right (above.trans below) unit
  linarith only [fewer, order]

/-- **Whole words.**  An ICAP that is not slower moves them at a word a cycle, or faster. -/
theorem isLeast_of_whole (notSlower : s.simSpeed ≤ s.icapSpeed) (fits : 8 * bytes < 2 ^ 32)
    (enough : 8 * bytes * s.simSpeed ≤ s.words bytes * s.icapSpeed * s.icapBusWidth)
    (less : 8 * bytes * s.icapSpeed < (s.words bytes + 1) * s.icapBusWidth * s.simSpeed) :
    IsLeast {cycles | s.CanMove bytes cycles} (s.calculateTransferLatency bytes) := by
  have words := words_le s bytes
  have computed : s.calculateTransferLatency bytes = s.words bytes := by
    rw [powered.latency_eq_iff ⟨fits, less.trans_le ?_⟩]
    · refine ⟨?_, less⟩
      exact mul_le_mul words notSlower powered.simSpeed.le (by positivity)
    · have bound : s.words bytes + 1 ≤ 2 ^ 32 := (Nat.div_le_self _ _).trans_lt fits
      have bound : (s.words bytes + 1 : ℚ) ≤ 2 ^ 32 := by exact_mod_cast bound
      exact mul_le_mul_of_nonneg_right
        (mul_le_mul_of_nonneg_right bound powered.width_pos.le) powered.simSpeed.le
  rw [computed]
  refine ⟨enough, fun cycles canMove => ?_⟩
  by_contra few
  exact powered.not_canMove_of_lt less (Nat.not_le.mp few) canMove

/-- **A part of a word**, which takes a cycle of its own. -/
theorem isLeast_of_part (notSlower : s.simSpeed ≤ s.icapSpeed) (fits : 8 * bytes < 2 ^ 32)
    (more : s.words bytes * s.icapSpeed * s.icapBusWidth < 8 * bytes * s.simSpeed)
    (least : (s.words bytes + 1) * s.icapBusWidth * s.simSpeed ≤ 8 * bytes * s.icapSpeed)
    (less : 8 * bytes * s.icapSpeed < (s.words bytes + 2) * s.icapBusWidth * s.simSpeed) :
    IsLeast {cycles | s.CanMove bytes cycles} (s.calculateTransferLatency bytes) := by
  have computed : s.calculateTransferLatency bytes = s.words bytes + 1 := by
    rw [powered.latency_eq_iff ⟨fits, less.trans_le ?_⟩]
    · push_cast
      refine ⟨least, less.trans_eq ?_⟩
      ring
    · have bound : s.words bytes + 2 ≤ 2 ^ 32 := by
        have bound : s.words bytes ≤ 8 * bytes := Nat.div_le_self _ _
        omega
      have bound : (s.words bytes + 2 : ℚ) ≤ 2 ^ 32 := by exact_mod_cast bound
      exact mul_le_mul_of_nonneg_right
        (mul_le_mul_of_nonneg_right bound powered.width_pos.le) powered.simSpeed.le
  rw [computed]
  constructor
  · show (8 * bytes * s.simSpeed : ℚ) ≤ (s.words bytes + 1 : ℕ) * s.icapSpeed * s.icapBusWidth
    push_cast
    calc (8 * bytes * s.simSpeed : ℚ)
        ≤ (s.words bytes + 1) * s.icapBusWidth * s.icapSpeed :=
          mul_le_mul powered.bits_le notSlower powered.simSpeed.le (by positivity)
      _ = (s.words bytes + 1) * s.icapSpeed * s.icapBusWidth := mul_right_comm _ _ _
  · intro cycles canMove
    by_contra few
    have few : (cycles : ℚ) ≤ s.words bytes := by
      exact_mod_cast Nat.lt_succ_iff.mp (Nat.not_le.mp few)
    refine absurd canMove (not_le.mpr (lt_of_le_of_lt ?_ more))
    exact mul_le_mul_of_nonneg_right
      (mul_le_mul_of_nonneg_right few powered.icapSpeed.le) powered.width_pos.le

theorem isLeast_of_harmless (harmless : s.HarmlessExchange bytes) :
    IsLeast {cycles | s.CanMove bytes cycles} (s.calculateTransferLatency bytes) := by
  cases harmless with
  | slower _ empty =>
      subst empty
      have computed : s.calculateTransferLatency 0 = 0 := by simp [calculateTransferLatency_eq]
      rw [computed]
      refine ⟨?_, fun _ _ => Nat.zero_le _⟩
      simp [CanMove]
  | equal equal fits whole =>
      have words : (s.words bytes * s.icapBusWidth : ℚ) = 8 * bytes := by
        exact_mod_cast Nat.div_mul_cancel whole
      refine powered.isLeast_of_whole equal.ge fits ?_ ?_
      · rw [mul_right_comm (s.words bytes : ℚ), words, equal]
      · rw [equal, add_mul, words]
        have step := mul_pos powered.width_pos powered.simSpeed
        linarith only [step]
  | fasterWhole faster fits enough less =>
      exact powered.isLeast_of_whole faster.le fits enough less
  | fasterPart faster fits more least less =>
      exact powered.isLeast_of_part faster.le fits more least less

/-- With an ICAP that is not the faster one, the exchange does harm in all other cases. -/
theorem harmless_of_notFaster (notFaster : s.icapSpeed ≤ s.simSpeed)
    (least : IsLeast {cycles | s.CanMove bytes cycles} (s.calculateTransferLatency bytes)) :
    s.HarmlessExchange bytes := by
  have enough : (8 * bytes * s.simSpeed : ℚ) ≤
      s.calculateTransferLatency bytes * s.icapSpeed * s.icapBusWidth := least.1
  have low := powered.latency_le bytes
  generalize s.calculateTransferLatency bytes = latency at enough low
  have width := powered.width_pos
  have clock := powered.simSpeed
  have bits : ((8 * bytes % 2 ^ 32 : ℕ) : ℚ) ≤ 8 * bytes := by
    exact_mod_cast Nat.mod_le (8 * bytes) (2 ^ 32)
  rcases notFaster.lt_or_eq with slower | equal
  · refine .slower slower ?_
    by_contra some
    have some : (0 : ℚ) < 8 * bytes := by exact_mod_cast (by omega : 0 < 8 * bytes)
    have chain : (8 * bytes : ℚ) * s.simSpeed < 8 * bytes * s.simSpeed := by
      calc (8 * bytes : ℚ) * s.simSpeed
          ≤ latency * s.icapSpeed * s.icapBusWidth := enough
        _ ≤ latency * s.simSpeed * s.icapBusWidth := by gcongr
        _ = latency * s.icapBusWidth * s.simSpeed := mul_right_comm _ _ _
        _ ≤ (8 * bytes % 2 ^ 32 : ℕ) * s.icapSpeed := low
        _ ≤ 8 * bytes * s.icapSpeed := mul_le_mul_of_nonneg_right bits powered.icapSpeed.le
        _ < 8 * bytes * s.simSpeed := mul_lt_mul_of_pos_left slower some
    exact lt_irrefl _ chain
  · -- the words of the latency are the bits, and the bits have not been reduced
    rw [equal, mul_right_comm (latency : ℚ)] at enough
    rw [equal] at low
    have enough := le_of_mul_le_mul_right enough clock
    have low := le_of_mul_le_mul_right low clock
    have enough : 8 * bytes ≤ latency * s.icapBusWidth := by exact_mod_cast enough
    have low : latency * s.icapBusWidth ≤ 8 * bytes % 2 ^ 32 := by exact_mod_cast low
    have fits : 8 * bytes < 2 ^ 32 := by
      have reduced : 8 * bytes % 2 ^ 32 < 2 ^ 32 := Nat.mod_lt _ (Nat.two_pow_pos 32)
      omega
    refine .equal equal fits ⟨latency, ?_⟩
    rw [Nat.mod_eq_of_lt fits] at low
    rw [Nat.mul_comm s.icapBusWidth]
    omega

/-- With a faster ICAP, and numbers that are in range, the latency is the number of the whole
words or the next one. -/
theorem harmless_of_faster (faster : s.simSpeed < s.icapSpeed) (range : s.InRange bytes)
    (least : IsLeast {cycles | s.CanMove bytes cycles} (s.calculateTransferLatency bytes)) :
    s.HarmlessExchange bytes := by
  have enough : (8 * bytes * s.simSpeed : ℚ) ≤
      s.calculateTransferLatency bytes * s.icapSpeed * s.icapBusWidth := least.1
  obtain ⟨low, high⟩ := (powered.latency_eq_iff range).mp rfl
  have before : ∀ cycles < s.calculateTransferLatency bytes,
      (cycles * s.icapSpeed * s.icapBusWidth : ℚ) < 8 * bytes * s.simSpeed := by
    intro cycles few
    by_contra more
    exact absurd (least.2 (not_lt.mp more)) (Nat.not_le.mpr few)
  clear least
  generalize s.calculateTransferLatency bytes = latency at enough low high before
  have width := powered.width_pos
  have clock := powered.simSpeed
  have words := words_le s bytes
  have atLeast : s.words bytes ≤ latency := by
    have chain : (s.words bytes : ℚ) * (s.icapBusWidth * s.simSpeed) <
        (latency + 1) * (s.icapBusWidth * s.simSpeed) := by
      calc (s.words bytes : ℚ) * (s.icapBusWidth * s.simSpeed)
          = s.words bytes * s.icapBusWidth * s.simSpeed := (mul_assoc _ _ _).symm
        _ ≤ 8 * bytes * s.icapSpeed :=
            mul_le_mul words faster.le clock.le (by positivity)
        _ < (latency + 1) * s.icapBusWidth * s.simSpeed := high
        _ = (latency + 1) * (s.icapBusWidth * s.simSpeed) := mul_assoc _ _ _
    have order := lt_of_mul_lt_mul_right chain (mul_pos width clock).le
    exact Nat.lt_succ_iff.mp (by exact_mod_cast order)
  rcases atLeast.eq_or_lt with whole | part
  · subst whole
    exact .fasterWhole faster range.1 enough high
  · have atMost : latency = s.words bytes + 1 := by
      by_contra other
      have far : s.words bytes + 1 < latency := by omega
      have short := before _ far
      push_cast at short
      refine absurd short (not_lt.mpr ?_)
      calc (8 * bytes * s.simSpeed : ℚ)
          ≤ (s.words bytes + 1) * s.icapBusWidth * s.icapSpeed :=
            mul_le_mul powered.bits_le faster.le clock.le (by positivity)
        _ = (s.words bytes + 1) * s.icapSpeed * s.icapBusWidth := mul_right_comm _ _ _
    subst atMost
    push_cast at low high
    refine .fasterPart faster range.1 (before _ part) low (high.trans_eq ?_)
    ring

end Powered

/-- A faster ICAP with whole words to transfer: during these it has to gain less than a word. -/
theorem harmless_iff_of_whole_words (faster : s.simSpeed < s.icapSpeed) (fits : 8 * bytes < 2 ^ 32)
    (whole : s.icapBusWidth ∣ 8 * bytes) :
    s.HarmlessExchange bytes ↔
      8 * bytes * (s.icapSpeed - s.simSpeed) < s.icapBusWidth * s.simSpeed := by
  have words : (s.words bytes * s.icapBusWidth : ℚ) = 8 * bytes := by
    exact_mod_cast Nat.div_mul_cancel whole
  have more : (8 * bytes * s.simSpeed : ℚ) ≤ s.words bytes * s.icapSpeed * s.icapBusWidth := by
    rw [mul_right_comm (s.words bytes : ℚ), words]
    exact mul_le_mul_of_nonneg_left faster.le (by positivity)
  have less : (8 * bytes * s.icapSpeed : ℚ) <
      (s.words bytes + 1) * s.icapBusWidth * s.simSpeed ↔
        8 * bytes * (s.icapSpeed - s.simSpeed) < s.icapBusWidth * s.simSpeed := by
    rw [add_mul, words, one_mul, add_mul, mul_sub, sub_lt_iff_lt_add']
  constructor
  · intro harmless
    cases harmless with
    | slower slower => exact absurd slower faster.not_gt
    | equal equal => exact absurd equal faster.ne'
    | fasterWhole _ _ _ gain => exact less.mp gain
    | fasterPart _ _ part => exact absurd part more.not_gt
  · intro gain
    exact .fasterWhole faster fits more (less.mpr gain)

/-- **When the latency is the time needed.**  It is where the exchange of the clocks is
harmless, and nowhere else, except that with a faster ICAP numbers that are not in range can
come out right by accident (`right_by_accident`). -/
theorem calculateTransferLatency_isLeast_iff (powered : s.Powered) :
    (s.HarmlessExchange bytes →
      IsLeast {cycles | s.CanMove bytes cycles} (s.calculateTransferLatency bytes)) ∧
    (s.icapSpeed ≤ s.simSpeed ∨ s.InRange bytes →
      (IsLeast {cycles | s.CanMove bytes cycles} (s.calculateTransferLatency bytes) ↔
        s.HarmlessExchange bytes)) := by
  refine ⟨powered.isLeast_of_harmless, fun range => ⟨fun least => ?_, powered.isLeast_of_harmless⟩⟩
  rcases le_or_gt s.icapSpeed s.simSpeed with notFaster | faster
  · exact powered.harmless_of_notFaster notFaster least
  · exact powered.harmless_of_faster faster (range.resolve_left (not_le.mpr faster)) least

/-- The ICAP of the example beside the code: 32 bits wide, at 200 MHz, in a simulator of
100 MHz. -/
def doubleSpeedIcap : Icap 1 := Icap.new rawIcap 200 32 .empty 100

theorem doubleSpeedIcap_powered : doubleSpeedIcap.Powered where
  icapSpeed := by decide +kernel
  simSpeed := by decide +kernel
  busWidth := by decide +kernel

/-- Two words are too many for the exchange of the clocks to be harmless. -/
theorem calculateTransferLatency_isLeast_iff_doubleSpeedIcap :
    doubleSpeedIcap.InRange 8 ∧
      (IsLeast {cycles | doubleSpeedIcap.CanMove 8 cycles}
          (doubleSpeedIcap.calculateTransferLatency 8) ↔ doubleSpeedIcap.HarmlessExchange 8) ∧
      IsLeast {cycles | doubleSpeedIcap.CanMove 2 cycles}
        (doubleSpeedIcap.calculateTransferLatency 2) := by
  have range : doubleSpeedIcap.InRange 8 := by
    unfold InRange
    decide +kernel
  refine ⟨range, (calculateTransferLatency_isLeast_iff doubleSpeedIcap_powered).2 (.inr range),
    (calculateTransferLatency_isLeast_iff doubleSpeedIcap_powered).1 (.fasterPart ?_ ?_ ?_ ?_ ?_)⟩
  all_goals decide +kernel

/-- **Four times too long**: 64 bytes are 16 words, which take 16 cycles of the ICAP and
8 of the simulator, but 32 are announced. -/
theorem double_speed_takes_longer :
    doubleSpeedIcap.calculateTransferLatency 64 = 32 ∧ doubleSpeedIcap.CanMove 64 8 ∧
      ¬ IsLeast {cycles | doubleSpeedIcap.CanMove 64 cycles}
        (doubleSpeedIcap.calculateTransferLatency 64) := by
  have computed : doubleSpeedIcap.calculateTransferLatency 64 = 32 := by decide +kernel
  have enough : doubleSpeedIcap.CanMove 64 8 := by
    unfold CanMove
    decide +kernel
  refine ⟨computed, enough, fun least => ?_⟩
  have atMost := least.2 enough
  rw [computed] at atMost
  omega

/-- Out of range, the latency can be right by accident: an `unsigned` keeps about a quarter
of these bits, and the exchanged clocks take four times as long. -/
theorem right_by_accident :
    ¬ doubleSpeedIcap.InRange 715827884 ∧ ¬ doubleSpeedIcap.HarmlessExchange 715827884 ∧
      IsLeast {cycles | doubleSpeedIcap.CanMove 715827884 cycles}
        (doubleSpeedIcap.calculateTransferLatency 715827884) := by
  have computed : doubleSpeedIcap.calculateTransferLatency 715827884 = 89478486 := by
    decide +kernel
  have enough : ∀ cycles, doubleSpeedIcap.CanMove 715827884 cycles ↔ 89478486 ≤ cycles := by
    intro cycles
    show (8 * (715827884 : ℕ) * 100 : ℚ) ≤ cycles * 200 * (32 : ℕ) ↔ _
    norm_cast
    omega
  refine ⟨fun range => ?_, fun harmless => ?_, ?_⟩
  · exact absurd range.1 (by decide)
  · cases harmless with
    | slower slower => exact absurd slower (by decide +kernel)
    | equal equal => exact absurd equal (by decide +kernel)
    | fasterWhole _ fits => exact absurd fits (by decide)
    | fasterPart _ fits => exact absurd fits (by decide)
  · rw [computed]
    exact ⟨(enough _).mpr le_rfl, fun cycles canMove => (enough cycles).mp canMove⟩

/-! ## Counting it down -/

/-- A transfer is under way. -/
def Counting (s : Icap n) : Prop :=
  s.stallCount = 0 ∧ s.nextState = .transfer ∧ s.transferLatency < 2 ^ 64

/-- **The steps in `ICAP_TRANSFER` count down**, whatever the signals are. -/
theorem countdown :
    Countdown (fun s s' : Icap n => ∃ w, Moves w s s') Counting transferLatency where
  counts := by
    rintro s s' ⟨ready, state, bound⟩ left ⟨w, moves⟩
    obtain ⟨-, rfl⟩ | ⟨done, -⟩ := moves.of_transfer ready state
    · refine ⟨⟨ready, state, ?_⟩, ?_⟩
      · show (s.transferLatency + (2 ^ 64 - 1)) % 2 ^ 64 < 2 ^ 64
        omega
      · show (s.transferLatency + (2 ^ 64 - 1)) % 2 ^ 64 + 1 = s.transferLatency
        omega
    · exact absurd done left
  ends := by
    rintro s s' ⟨ready, state, bound⟩ left ⟨w, moves⟩
    obtain ⟨more, -⟩ | ⟨-, rfl⟩ := moves.of_transfer ready state
    · exact absurd left more
    · rintro ⟨-, state', -⟩
      cases state'

/-- **A transfer lasts as announced**: it takes as many steps in `ICAP_TRANSFER` as the
latency the ICAP left `ICAP_WAIT` with, the last of which ends the transfer signal, and
nothing else happens meanwhile. -/
structure LastsAsAnnounced (inputs : ℕ → IcapWires n) (s : Icap n) (σ : ℕ → Icap n) :
    Prop where
  trace : Trace step inputs s s.transferLatency σ
  steps : LastsFor (fun s => s.nextState = .transfer) σ s.transferLatency
  transferring : ∀ k < s.transferLatency, (σ k).transferring = true
  ended : (σ s.transferLatency).transferring = false
  noRequest : ∀ k ≤ s.transferLatency, ∀ i, (σ k).prrCtrlReq i = false
  bitstream : ∀ k ≤ s.transferLatency, (σ k).transferBs = s.transferBs
  noWrap : ∀ k ≤ s.transferLatency, (σ k).transferLatency ≤ s.transferLatency

variable {w : IcapWires n} {s₀ : Icap n} {inputs : ℕ → IcapWires n} {σ : ℕ → Icap n} {N : ℕ}

/-- The step that leaves `ICAP_WAIT` begins a transfer. -/
theorem counting_of_granted (waiting : s₀.nextState = .wait) (granted : step w s₀ = .ok s)
    (state : s.nextState = .transfer) : s.Counting := by
  by_cases ready : s₀.stallCount = 0
  · obtain ⟨-, rfl⟩ | ⟨bitstream, inRange, -, -, rfl⟩ :=
      (moves_of_step granted).of_wait ready waiting
    · rw [latch_nextState, waiting] at state
      cases state
    · refine ⟨ready, rfl, lt_trans (toUnsigned_lt _) ?_⟩
      decide
  · -- an ICAP that stalls stays in `ICAP_WAIT`
    rw [step, if_pos ready] at granted
    cases granted
    rw [waiting] at state
    cases state

/-- A transfer takes one step more than announced. -/
theorem transfer_lastsFor (counting : s.Counting) (trace : Trace step inputs s N σ)
    (long : s.transferLatency < N) : LastsFor Counting σ (s.transferLatency + 1) := by
  have lasts := countdown.lastsFor (fun k hk => ⟨inputs k, moves_of_step (trace.step_eq hk)⟩)
    (trace.start.symm ▸ counting) (trace.start.symm ▸ long)
  rw [trace.start] at lasts
  exact lasts

/-- **No transfer lasts as announced**: after as many steps as announced the ICAP is still
in `ICAP_TRANSFER`, whatever the signals are. -/
theorem not_lastsAsAnnounced (waiting : s₀.nextState = .wait) (granted : step w s₀ = .ok s)
    (state : s.nextState = .transfer) (inputs : ℕ → IcapWires n) :
    ¬ ∃ σ, LastsAsAnnounced inputs s σ := by
  rintro ⟨σ, lasts⟩
  have counting := counting_of_granted waiting granted state
  have start := lasts.trace.start
  obtain ⟨still, -⟩ := countdown.during
    (fun k hk => ⟨inputs k, moves_of_step (lasts.trace.step_eq hk)⟩)
    (start.symm ▸ counting) s.transferLatency (Nat.le_refl _) (by rw [start])
  exact lasts.steps.after still.2.1

/-- An ICAP that waits to transfer a bitstream of one word. -/
def waitingIcap : Icap 1 :=
  { (Icap.new rawIcap 1 32 ⟨[(0, 4)], by decide⟩ 1 : Icap 1) with
    nextState := .wait
    transferBs := some Application.oneRegionBs
    prrCtrlReq := fun _ => true
    transferring := true }

/-- No request of the PRC, and a given acknowledgement of the RR controllers. -/
def answering (ack : Bool) : IcapWires 1 :=
  { prrExecuting := fun _ => false
    prcMc := 1
    prcReq := false
    prrCtrlAck := ack
    prcScheduledBs := none }

theorem not_lastsAsAnnounced_waitingIcap :
    ∃ s, step (answering true) waitingIcap = .ok s ∧ 0 < s.transferLatency ∧
      ∀ inputs, ¬ ∃ σ, LastsAsAnnounced inputs s σ := by
  obtain ⟨s, granted, seen⟩ := Machine.map_eq_ok.mp
    (show (step (answering true) waitingIcap).map
      (fun s => (s.nextState, s.transferLatency)) = .ok (.transfer, 1) by decide +kernel)
  obtain ⟨state, latency⟩ := Prod.mk.inj seen
  exact ⟨s, granted, by omega, not_lastsAsAnnounced rfl granted state⟩

/-- The state, the transfer signal and the counter. -/
def counter (s : Icap 1) : IcapState × Bool × ℕ :=
  (s.nextState, s.transferring, s.transferLatency)

/-- The transfer of `waitingIcap`, and what it has come to after one and two steps. -/
def oneWordTransfer : Exec (Icap 1 × Icap 1 × Icap 1) := do
  let s ← step (answering true) waitingIcap
  let s₁ ← run (fun _ => answering false) s 1
  let s₂ ← run (fun _ => answering false) s 2
  return (s, s₁, s₂)

/-- **One step announced, two taken**: with a latency of 1 the ICAP is still in
`ICAP_TRANSFER` after one step, and ends the transfer with the next, in which the counter
wraps. -/
theorem one_announced_two_taken :
    ∃ s s₁ s₂, step (answering true) waitingIcap = .ok s ∧ s.transferLatency = 1 ∧
      run (fun _ => answering false) s 1 = .ok s₁ ∧ counter s₁ = (.transfer, true, 0) ∧
      run (fun _ => answering false) s 2 = .ok s₂ ∧ counter s₂ = (.idle, false, 2 ^ 64 - 1) ∧
      ¬ ∃ σ, LastsAsAnnounced (fun _ => answering false) s σ := by
  have result : (oneWordTransfer.map fun p => (p.1.transferLatency, counter p.2.1,
      counter p.2.2)) = .ok (1, (.transfer, true, 0), (.idle, false, 2 ^ 64 - 1)) := by
    decide +kernel
  obtain ⟨⟨s, s₁, s₂⟩, hrun, seen⟩ := Machine.map_eq_ok.mp result
  obtain ⟨_, granted, hrun⟩ := Machine.bind_eq_ok.mp hrun
  obtain ⟨_, first, hrun⟩ := Machine.bind_eq_ok.mp hrun
  obtain ⟨_, second, h⟩ := Machine.bind_eq_ok.mp hrun
  cases h
  simp only [Prod.mk.injEq] at seen
  obtain ⟨latency, hfirst, hsecond⟩ := seen
  refine ⟨s, s₁, s₂, granted, latency, first, hfirst, second, hsecond, ?_⟩
  rintro ⟨σ, lasts⟩
  have after := lasts.steps.after
  have here : s₁ = σ 1 := Except.ok.inj (first.symm.trans (lasts.trace 1 latency.ge))
  rw [latency, ← here] at after
  exact after (Prod.mk.inj hfirst).1

end Icap

end Drachma
