import KernelLabs.Checked

/-! `wait_event_interruptible` and `wake_up` of `linux/wait.h`, one statement at
a time. A task joins the queue before it looks at its condition again, so a
wake-up that follows a change of the condition finds it in the queue or awake. -/
namespace KernelLabs.WaitEvent

/-- `ERESTARTSYS` of `linux/errno.h`. -/
def erestartsys : Int := 512

/-- Why a task cannot go on. -/
inductive Stuck
  /-- It sleeps in `schedule`. -/
  | asleep
  /-- It has executed its last statement. -/
  | finished
  deriving DecidableEq, Repr

/-- Where a task is in `wait_event_interruptible(wq_head, condition)`. -/
inductive Place
  /-- `if (!(condition))`, ahead of the loop. -/
  | check
  /-- `prepare_to_wait_event`. -/
  | prepare
  /-- `if (condition) break`; the loop ends as well if the task was interrupted. -/
  | recheck (interrupted : Bool)
  /-- `schedule`. -/
  | schedule
  /-- `finish_wait`. -/
  | finish
  deriving DecidableEq, Repr

/-- A task in `wait_event_interruptible`. -/
structure Waiter where
  place : Place
  /-- Its entry is in the wait queue. -/
  queued : Bool
  /-- Its state is `TASK_INTERRUPTIBLE`. -/
  sleeping : Bool
  deriving DecidableEq, Repr

/-- What a statement of `wait_event_interruptible` leads to. -/
inductive Waits
  | on (waiter : Waiter)
  | returned (ret : Int)
  deriving DecidableEq, Repr

namespace Waiter

/-- A task that calls `wait_event_interruptible`. -/
def enter : Waiter where
  place := .check
  queued := false
  sleeping := false

/-- The task sleeps until it is woken. -/
def Asleep (waiter : Waiter) : Prop := waiter.place = .schedule ∧ waiter.sleeping = true

instance (waiter : Waiter) : Decidable waiter.Asleep := inferInstanceAs (Decidable (_ ∧ _))

/-- The task's next statement, given its condition and whether a signal is pending
for it. A pending signal takes the entry out of the queue instead of putting it in. -/
def step (condition signalled : Bool) (waiter : Waiter) : Except Stuck Waits :=
  match waiter.place with
  | .check => .ok (if condition then .returned 0 else .on { waiter with place := .prepare })
  | .prepare =>
    if signalled then .ok (.on { waiter with place := .recheck true, queued := false })
    else .ok (.on { place := .recheck false, queued := true, sleeping := true })
  | .recheck interrupted =>
    if condition then .ok (.on { waiter with place := .finish })
    else if interrupted then .ok (.returned (-erestartsys))
    else .ok (.on { waiter with place := .schedule })
  | .schedule =>
    if waiter.sleeping then .error .asleep else .ok (.on { waiter with place := .prepare })
  | .finish => .ok (.returned 0)

/-- `wake_up` of the queue: a queued sleeper becomes runnable and leaves the queue. -/
def wakeUp (waiter : Waiter) : Waiter :=
  if waiter.queued ∧ waiter.sleeping then { waiter with queued := false, sleeping := false }
  else waiter

/-- A signal makes the task runnable. -/
def signal (waiter : Waiter) : Waiter := { waiter with sleeping := false }

/-- What a task that waits for `condition` can rely on, where the waker has made the
condition true before it calls `wake_up`, and has called it if `woken`. -/
structure Attended (condition woken : Bool) (waiter : Waiter) : Prop where
  /-- Whoever is marked as sleeping is in the queue, and has not read the condition for
  the last time. -/
  marked : waiter.sleeping = true →
    waiter.queued = true ∧ waiter.place ≠ .check ∧ waiter.place ≠ .prepare
  /-- The wait ends without an error only when the condition holds. -/
  passed : waiter.place = .finish → condition = true
  awake : woken = true → ¬ waiter.Asleep

variable {condition signalled woken : Bool} {waiter after : Waiter} {ret : Int}

@[simp] theorem wakeUp_place : waiter.wakeUp.place = waiter.place := by
  unfold wakeUp
  split <;> rfl

/-- A task that starts to wait. -/
theorem enter_attended : Attended condition woken enter where
  marked sleeping := by cases sleeping
  passed there := by cases there
  awake _ asleep := by cases asleep.1

/-- What the next statement does, place by place. -/
theorem step_cases {waits : Waits} (taken : waiter.step condition signalled = .ok waits) :
    (waiter.place = .check ∧ condition = true ∧ waits = .returned 0) ∨
    (waiter.place = .check ∧ condition = false ∧ waits = .on { waiter with place := .prepare }) ∨
    (waiter.place = .prepare ∧ signalled = true ∧
      waits = .on { waiter with place := .recheck true, queued := false }) ∨
    (waiter.place = .prepare ∧ signalled = false ∧ waits = .on ⟨.recheck false, true, true⟩) ∨
    (∃ interrupted, waiter.place = .recheck interrupted ∧ condition = true ∧
      waits = .on { waiter with place := .finish }) ∨
    (waiter.place = .recheck true ∧ condition = false ∧ waits = .returned (-erestartsys)) ∨
    (waiter.place = .recheck false ∧ condition = false ∧
      waits = .on { waiter with place := .schedule }) ∨
    (waiter.place = .schedule ∧ waiter.sleeping = false ∧
      waits = .on { waiter with place := .prepare }) ∨
    (waiter.place = .finish ∧ waits = .returned 0) := by
  obtain ⟨place, queued, sleeping⟩ := waiter
  cases place with
  | check => cases condition <;> cases taken <;> simp
  | prepare => cases signalled <;> cases taken <;> simp
  | recheck interrupted =>
    cases condition <;> cases interrupted
    all_goals
      cases taken
      simp
  | schedule =>
    cases sleeping with
    | true => cases taken
    | false =>
      cases taken
      simp
  | finish =>
    cases taken
    simp

namespace Attended

/-- Of a task that neither sleeps nor has finished only its marks matter. -/
theorem of_awake
    (marked : waiter.sleeping = true →
      waiter.queued = true ∧ waiter.place ≠ .check ∧ waiter.place ≠ .prepare)
    (waits : waiter.place ≠ .finish) (runs : waiter.place ≠ .schedule) :
    Attended condition woken waiter where
  marked := marked
  passed there := absurd there waits
  awake _ asleep := absurd asleep.1 runs

/-- The task's own statements keep what it relies on. -/
theorem step (held : Attended condition woken waiter) (told : woken = true → condition = true)
    (taken : waiter.step condition signalled = .ok (.on after)) : Attended condition woken after := by
  rcases step_cases taken with ⟨-, -, same⟩ | ⟨here, -, same⟩ | ⟨here, -, same⟩ | ⟨-, -, same⟩ |
    ⟨interrupted, here, holds, same⟩ | ⟨-, -, same⟩ | ⟨here, fails, same⟩ | ⟨here, runs, same⟩ | ⟨-, same⟩
  all_goals cases same
  · refine of_awake (fun sleeping => ?_) (by simp) (by simp)
    exact absurd here (held.marked sleeping).2.1
  · refine of_awake (fun sleeping => ?_) (by simp) (by simp)
    exact absurd here (held.marked sleeping).2.2
  · exact of_awake (fun _ => by simp) (by simp) (by simp)
  · constructor
    · intro sleeping
      exact ⟨(held.marked sleeping).1, by simp, by simp⟩
    · intro _
      exact holds
    · rintro - ⟨there, -⟩
      cases there
  · constructor
    · intro sleeping
      exact ⟨(held.marked sleeping).1, by simp, by simp⟩
    · intro there
      cases there
    · -- The test failed, so the waker has not got as far as `wake_up`.
      intro called
      rw [told called] at fails
      cases fails
  · refine of_awake (fun sleeping => ?_) (by simp) (by simp)
    rw [runs] at sleeping
    cases sleeping

/-- The waker makes the condition true. -/
theorem set (held : Attended condition woken waiter) : Attended true woken waiter where
  marked := held.marked
  passed _ := rfl
  awake := held.awake

/-- `wake_up` leaves nobody asleep. -/
theorem wakeUp (held : Attended condition woken waiter) : Attended condition true waiter.wakeUp := by
  unfold Waiter.wakeUp
  by_cases sleeper : waiter.queued = true ∧ waiter.sleeping = true
  · rw [if_pos sleeper]
    constructor
    · intro sleeping
      cases sleeping
    · exact held.passed
    · rintro - ⟨-, sleeping⟩
      cases sleeping
  · rw [if_neg sleeper]
    constructor
    · exact held.marked
    · exact held.passed
    · rintro - ⟨-, sleeping⟩
      exact sleeper ⟨(held.marked sleeping).1, sleeping⟩

/-- A signal wakes nobody who has not been woken already. -/
theorem signal (held : Attended condition woken waiter) : Attended condition woken waiter.signal where
  marked sleeping := by cases sleeping
  passed := held.passed
  awake _ asleep := by cases asleep.2

end Attended

/-- A task that does not sleep can go on. -/
theorem step_enabled (awake : ¬ waiter.Asleep) :
    ∃ waits, waiter.step condition signalled = .ok waits := by
  obtain ⟨place, queued, sleeping⟩ := waiter
  cases place with
  | check => exact ⟨_, rfl⟩
  | prepare => cases signalled <;> exact ⟨_, rfl⟩
  | recheck interrupted => cases condition <;> cases interrupted <;> exact ⟨_, rfl⟩
  | schedule =>
    cases sleeping with
    | true => exact absurd ⟨rfl, rfl⟩ awake
    | false => exact ⟨_, rfl⟩
  | finish => exact ⟨_, rfl⟩

/-! ## How long a wait can last -/

/-- How many statements a wait may take, if the task is not woken again. -/
def rank (waiter : Waiter) : Nat :=
  match waiter.place with
  | .check => 5
  | .prepare => 4
  | .recheck true => 3
  | .recheck false => if waiter.sleeping then 3 else 7
  | .schedule => if waiter.sleeping then 2 else 6
  | .finish => 1

theorem step_falls (taken : waiter.step condition signalled = .ok (.on after)) : after.rank < waiter.rank := by
  rcases step_cases taken with ⟨-, -, same⟩ | ⟨here, -, same⟩ | ⟨here, -, same⟩ | ⟨here, -, same⟩ |
    ⟨interrupted, here, -, same⟩ | ⟨-, -, same⟩ | ⟨here, -, same⟩ | ⟨here, awake, same⟩ | ⟨-, same⟩
  all_goals cases same
  · simp [rank, here]
  · simp [rank, here]
  · simp [rank, here]
  · simp only [rank, here]
    cases interrupted <;> cases waiter.sleeping <;> simp
  · simp only [rank, here]
    cases waiter.sleeping <;> simp
  · simp [rank, here, awake]

theorem rank_pos (waiter : Waiter) : 0 < waiter.rank := by
  obtain ⟨place, queued, sleeping⟩ := waiter
  cases place with
  | recheck interrupted => cases interrupted <;> cases sleeping <;> simp [rank]
  | schedule => cases sleeping <;> simp [rank]
  | check | prepare | finish => simp [rank]

/-- A task that is woken may go round the loop once more. -/
theorem rank_awake (waiter : Waiter) (queued : Bool) :
    rank { waiter with queued, sleeping := false } ≤ waiter.rank + 4 := by
  obtain ⟨place, -, sleeping⟩ := waiter
  cases place with
  | recheck interrupted => cases interrupted <;> cases sleeping <;> simp [rank]
  | schedule => cases sleeping <;> simp [rank]
  | check | prepare | finish => simp [rank]

theorem wakeUp_rank : waiter.wakeUp.rank ≤ waiter.rank + 4 := by
  unfold wakeUp
  split
  · exact rank_awake waiter false
  · exact Nat.le_add_right _ _

/-- A pending signal keeps a task from falling asleep. -/
theorem step_awake (awake : waiter.sleeping = false) (taken : waiter.step condition true = .ok (.on after)) :
    after.sleeping = false := by
  rcases step_cases taken with ⟨-, -, same⟩ | ⟨-, -, same⟩ | ⟨-, -, same⟩ | ⟨-, pending, -⟩ |
    ⟨interrupted, -, -, same⟩ | ⟨-, -, same⟩ | ⟨-, -, same⟩ | ⟨-, -, same⟩ | ⟨-, same⟩
  case inr.inr.inr.inl => cases pending
  all_goals cases same
  all_goals exact awake

theorem wakeUp_awake (awake : waiter.sleeping = false) : waiter.wakeUp = waiter := by
  rw [wakeUp, if_neg]
  simp [awake]

theorem signal_awake (awake : waiter.sleeping = false) : waiter.signal = waiter := by
  rw [signal, ← awake]

end Waiter

end KernelLabs.WaitEvent
