import KernelLabs.DeferredDriver
import KernelLabs.WrappingClock

/-! How long `MY_IOCTL_TIMER_SET` and `MY_IOCTL_TIMER_ALLOC` put `timer_handler` off.
The deadline `jiffies + arg * HZ` wraps around with the clock, and nothing limits
`arg`. -/
namespace KernelLabs.DeferredDriver
open LinuxList Errno WrappingClock

/-- The timer is pending and its time has come. -/
def due (dev : Deferred) : Bool :=
  match dev.timer with
  | some expires => timeAfterEq dev.jiffies expires
  | none => false

section Deadlines
variable (hz : UInt64)

/-- The device after so many ticks in which nothing else happens. -/
def afterTicks (dev : Deferred) (ticks : Nat) : Except Fault Deferred :=
  run (deferredStep hz) dev (List.replicate ticks .tick)

/-- If nothing else happens, `timer_handler` starts at this tick: the first one at
which the timer is due. -/
def StartsAt (dev : Deferred) (ticks : Nat) : Prop :=
  0 < ticks ∧ (∃ later, afterTicks hz dev ticks = .ok later ∧ due later = true) ∧
    ∀ fewer, 0 < fewer → fewer < ticks → ∃ earlier, afterTicks hz dev fewer = .ok earlier ∧
      due earlier = false

/-- The call returns 0 and the handler does not start before the seconds are over, or
it returns an error and leaves the timer. -/
def WaitsOrFails (dev : Deferred) (cmd : UInt32) (arg : UInt64) (memory : Option (Block Task)) : Prop :=
  ∃ after ret, deferredIoctl hz dev cmd arg memory = .ok (after, ret) ∧
    (ret = 0 ∧ (∀ ticks, StartsAt hz after ticks → arg.toNat * hz.toNat ≤ ticks) ∨
      ret < 0 ∧ after.timer = dev.timer)

end Deadlines

variable {hz arg : UInt64} {dev : Deferred} {ticks : Nat}

theorem afterTicks_eq (hz : UInt64) (dev : Deferred) (ticks : Nat) :
    afterTicks hz dev ticks = .ok { dev with jiffies := dev.jiffies + UInt64.ofNat ticks } := by
  induction ticks generalizing dev with
  | zero => simp [afterTicks]
  | succ ticks ih =>
    have rest := ih { dev with jiffies := dev.jiffies + 1 }
    rw [afterTicks] at rest ⊢
    rw [List.replicate_succ, run_cons, deferredStep, ok_bind, rest, UInt64.add_assoc, UInt64.ofNat_add,
      UInt64.add_comm (UInt64.ofNat ticks)]
    rfl

theorem startsAt_iff {expires : UInt64} (armed : dev.timer = some expires) :
    StartsAt hz dev ticks ↔ FirstOver dev.jiffies expires ticks := by
  simp only [StartsAt, FirstOver, afterTicks_eq, Except.ok.injEq, exists_eq_left', due, armed]

/-- A timer armed `arg * HZ` ticks ahead is never early, unless that is more than half
of the clock. -/
theorem never_early_iff (armed : dev.timer = some (dev.jiffies + arg * hz)) :
    (∀ ticks, StartsAt hz dev ticks → arg.toNat * hz.toNat ≤ ticks) ↔
      arg.toNat * hz.toNat ≤ 2 ^ 63 + 1 := by
  have wrapped : (arg * hz).toNat = arg.toNat * hz.toNat % 2 ^ 64 := UInt64.toNat_mul arg hz
  have less := Nat.mod_le (arg.toNat * hz.toNat) (2 ^ 64)
  have bound := Nat.mod_lt (arg.toNat * hz.toNat) (show 0 < 2 ^ 64 by omega)
  simp only [startsAt_iff armed]
  constructor
  · intro waits
    by_contra long
    by_cases near : (arg * hz).toNat ≤ 2 ^ 63 + 1
    · have early := waits _ ((firstOver_near near).mpr rfl)
      omega
    · have early := waits 1 (firstOver_far (Nat.not_le.mp near))
      omega
  · intro short ticks first
    have whole : (arg * hz).toNat = arg.toNat * hz.toNat := by
      rw [wrapped, Nat.mod_eq_of_lt (by omega)]
    rw [firstOver_near (whole ▸ short), whole] at first
    omega

/-- **Deadlines.** The two calls never fail, and put `timer_handler` off for the whole
time exactly if this is at most `2 ^ 63 + 1` ticks. -/
theorem timers_wait_iff (hz : UInt64) (dev : Deferred) (arg : UInt64) (memory : Option (Block Task)) :
    (WaitsOrFails hz dev myIoctlTimerSet arg memory ↔ arg.toNat * hz.toNat ≤ 2 ^ 63 + 1) ∧
    (WaitsOrFails hz dev myIoctlTimerAlloc arg memory ↔ arg.toNat * hz.toNat ≤ 2 ^ 63 + 1) := by
  have waits : ∀ (cmd : UInt32) (mode : TimerType), deferredIoctl hz dev cmd arg memory =
      .ok ({ dev with flag := mode }.modTimer (dev.jiffies + arg * hz), 0) →
      (WaitsOrFails hz dev cmd arg memory ↔ arg.toNat * hz.toNat ≤ 2 ^ 63 + 1) := by
    intro cmd mode ran
    rw [← never_early_iff (show ({ dev with flag := mode }.modTimer (dev.jiffies + arg * hz)).timer =
      some (dev.jiffies + arg * hz) from rfl)]
    constructor
    · rintro ⟨after, ret, ran', outcome⟩
      rw [ran] at ran'
      cases ran'
      rcases outcome with ⟨-, waits⟩ | ⟨failed, -⟩
      · exact waits
      · exact absurd failed (Int.lt_irrefl 0)
    · intro waits
      exact ⟨_, _, ran, .inl ⟨rfl, waits⟩⟩
  exact ⟨waits _ .set rfl, waits _ .alloc rfl⟩

/-- `test s -1`: the handler starts at the next tick. -/
theorem negative_seconds_start_at_once :
    ∃ after, deferredIoctl 250 (loaded 0 (fun _ => none) fun _ => false) myIoctlTimerSet
        0xffffffffffffffff none = .ok (after, 0) ∧ StartsAt 250 after 1 ∧
      ¬WaitsOrFails 250 (loaded 0 (fun _ => none) fun _ => false) myIoctlTimerSet
        0xffffffffffffffff none := by
  let dev := loaded 0 (fun _ => none) fun _ => false
  let after := { dev with flag := .set }.modTimer (dev.jiffies + 0xffffffffffffffff * 250)
  have ran : deferredIoctl 250 dev myIoctlTimerSet 0xffffffffffffffff none = .ok (after, 0) := rfl
  have starts : StartsAt 250 after 1 :=
    (startsAt_iff (show after.timer = some (dev.jiffies + 0xffffffffffffffff * 250) from rfl)).mpr
      (firstOver_far (by decide))
  refine ⟨after, ran, starts, ?_⟩
  rintro ⟨after', ret, ran', outcome⟩
  rw [ran] at ran'
  cases ran'
  rcases outcome with ⟨-, waits⟩ | ⟨failed, -⟩
  · exact absurd (waits 1 starts) (by decide)
  · exact absurd failed (Int.lt_irrefl 0)

end KernelLabs.DeferredDriver
