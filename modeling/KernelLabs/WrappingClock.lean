import Mathlib.Data.UInt

/-! A clock of 64 bits that wraps around, and deadlines on it that are compared by
their signed difference. A deadline is seen to come up only while it is less than half
the clock away. -/
namespace KernelLabs.WrappingClock

/-- `time_after_eq(now, expires)`. -/
def timeAfterEq (now expires : UInt64) : Bool := 0 ≤ (now - expires).toBitVec.toInt

/-- Counted from the start, this is the first tick at which the deadline is over. -/
def FirstOver (start expires : UInt64) (ticks : Nat) : Prop :=
  0 < ticks ∧ timeAfterEq (start + UInt64.ofNat ticks) expires = true ∧
    ∀ fewer, 0 < fewer → fewer < ticks → timeAfterEq (start + UInt64.ofNat fewer) expires = false

variable {start delay : UInt64} {ticks : Nat}

theorem timeAfterEq_iff (now expires : UInt64) :
    timeAfterEq now expires = true ↔ (now - expires).toNat < 2 ^ 63 := by
  have bound := (now - expires).toNat_lt
  rw [timeAfterEq, decide_eq_true_eq, BitVec.toInt_eq_toNat_cond, UInt64.toNat_toBitVec]
  split <;> omega

/-- Where the clock started does not matter. -/
theorem over_iff :
    timeAfterEq (start + UInt64.ofNat ticks) (start + delay) = true ↔
      (2 ^ 64 - delay.toNat + ticks) % 2 ^ 64 < 2 ^ 63 := by
  have difference : start + UInt64.ofNat ticks - (start + delay) = UInt64.ofNat ticks - delay :=
    add_sub_add_left_eq_sub _ _ _
  rw [timeAfterEq_iff, difference, UInt64.toNat_sub, UInt64.toNat_ofNat']
  omega

/-- A deadline at most half the clock away is over when it is reached, though not
before the next tick. -/
theorem firstOver_near (near : delay.toNat ≤ 2 ^ 63 + 1) :
    FirstOver start (start + delay) ticks ↔ ticks = max 1 delay.toNat := by
  have before : ∀ fewer, 0 < fewer → fewer < delay.toNat →
      timeAfterEq (start + UInt64.ofNat fewer) (start + delay) = false := by
    intro fewer positive less
    rw [← Bool.not_eq_true, over_iff]
    omega
  have reached : timeAfterEq (start + UInt64.ofNat (max 1 delay.toNat)) (start + delay) = true := by
    rw [over_iff]
    omega
  constructor
  · rintro ⟨positive, passed, first⟩
    rcases Nat.lt_trichotomy ticks (max 1 delay.toNat) with less | same | more
    · rw [before ticks positive (by omega)] at passed
      cases passed
    · exact same
    · rw [first _ (by omega) more] at reached
      cases reached
  · rintro rfl
    exact ⟨by omega, reached, fun fewer positive less => before fewer positive (by omega)⟩

/-- A deadline further away counts as over at the next tick. -/
theorem firstOver_far (far : 2 ^ 63 + 1 < delay.toNat) : FirstOver start (start + delay) 1 := by
  have bound := delay.toNat_lt
  refine ⟨Nat.one_pos, ?_, fun fewer positive less => by omega⟩
  rw [over_iff]
  omega

end KernelLabs.WrappingClock
