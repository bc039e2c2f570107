import KernelLabs.Checked
import KernelLabs.WrappingClock

/-! `labs/lab13/timer/timer.c`: a timer whose handler arms it again, and the unload
that deletes it. `del_timer` takes a pending timer off but does not wait for a
handler that runs on another CPU, and that handler arms the timer once more. The clock
has 64 bits and wraps around. -/
namespace KernelLabs.Timer
open WrappingClock

def timerTimeout : UInt64 := 1

/-- The next statement of `timer_handler`. -/
inductive HandlerPc
  | idle
  /-- The branch on `in_interrupt()`; either way a line is printed. -/
  | printContext
  | printElapsed
  | modTimer
  deriving DecidableEq, Repr

/-- The next statement of `timer_exit`. -/
inductive ExitPc
  | notCalled
  | prInfo
  | delTimer
  | returned
  deriving DecidableEq, Repr

structure TimerModule where
  jiffies : UInt64
  /-- When the timer expires, while it is pending. -/
  expires : Option UInt64
  handler : HandlerPc
  exit : ExitPc
  deriving DecidableEq, Repr

/-- `mod_timer(&timer, jiffies + TIMER_TIMEOUT * HZ)`. -/
def modTimer (hz : UInt64) (state : TimerModule) : TimerModule :=
  { state with expires := some (state.jiffies + timerTimeout * hz) }

/-- `timer_init`, at the time `jiffies`. -/
def timerInit (hz jiffies : UInt64) : TimerModule :=
  modTimer hz { jiffies := jiffies, expires := none, handler := .idle, exit := .notCalled }

/-- The next statement of the handler. It is called when the timer has expired, and
the timer is no longer pending then. -/
def timerHandler (hz : UInt64) (state : TimerModule) : TimerModule :=
  match state.handler with
  | .idle =>
    match state.expires with
    | some expires =>
      if timeAfterEq state.jiffies expires then { state with expires := none, handler := .printContext }
      else state
    | none => state
  | .printContext => { state with handler := .printElapsed }
  | .printElapsed => { state with handler := .modTimer }
  | .modTimer => { modTimer hz state with handler := .idle }

/-- The next statement of the unload; the first step is its call. -/
def timerExit (state : TimerModule) : TimerModule :=
  match state.exit with
  | .notCalled => { state with exit := .prInfo }
  | .prInfo => { state with exit := .delTimer }
  | .delTimer => { state with expires := none, exit := .returned }
  | .returned => state

inductive Turn
  | tick
  | handler
  | exit
  deriving DecidableEq, Repr

def turn (hz : UInt64) (state : TimerModule) : Turn → Except Fault TimerModule
  | .tick => .ok { state with jiffies := state.jiffies + 1 }
  | .handler => .ok (timerHandler hz state)
  | .exit => .ok (timerExit state)

/-- Nothing of the module will run any more. -/
def Stopped (state : TimerModule) : Prop := state.expires = none ∧ state.handler = .idle

/-- Where the unload has returned, the timer has stopped. -/
def StoppedAfterExit (state : TimerModule) : Prop := state.exit = .returned → Stopped state

/-- `del_timer` is not called while the handler runs. -/
def DeletesIdle (state : TimerModule) : Turn → Prop
  | .exit => state.exit = .delTimer → state.handler = .idle
  | .tick | .handler => True

instance (state : TimerModule) : (action : Turn) → Decidable (DeletesIdle state action)
  | .exit => inferInstanceAs (Decidable (_ → _))
  | .tick | .handler => inferInstanceAs (Decidable True)

variable {hz : UInt64} {state : TimerModule}

/-- A timer that has stopped stays stopped. -/
theorem timerHandler_stopped (stopped : Stopped state) : timerHandler hz state = state := by
  simp [timerHandler, stopped.1, stopped.2]

/-- The handler knows nothing of the unload. -/
theorem timerHandler_exit : (timerHandler hz state).exit = state.exit := by
  unfold timerHandler
  split
  · split
    · split <;> rfl
    · rfl
  all_goals rfl

/-- The unload stops the timer exactly where it deletes it with no handler running. -/
theorem timerExit_stops_iff (held : StoppedAfterExit state) :
    StoppedAfterExit (timerExit state) ↔ DeletesIdle state .exit := by
  unfold timerExit StoppedAfterExit DeletesIdle
  cases pc : state.exit with
  | notCalled | prInfo => simp
  | delTimer => simp [Stopped]
  | returned =>
    have stopped := held pc
    simpa [pc] using stopped

theorem turn_stops_iff (action : Turn) (next : TimerModule) (held : StoppedAfterExit state)
    (taken : turn hz state action = .ok next) : StoppedAfterExit next ↔ DeletesIdle state action := by
  cases action with
  | tick =>
    cases taken
    exact iff_of_true held trivial
  | handler =>
    cases taken
    refine iff_of_true (fun returned => ?_) trivial
    rw [timerHandler_exit] at returned
    rw [timerHandler_stopped (held returned)]
    exact held returned
  | exit =>
    cases taken
    exact timerExit_stops_iff held

/-- **Unload.** In a run, the timer is neither pending nor running in any state after
`timer_exit` has returned exactly when `del_timer` was not called while the handler
was running. -/
theorem timer_exit_stops_iff (hz jiffies : UInt64) (turns : List Turn) :
    (∀ before rest reached, turns = before ++ rest →
      run (turn hz) (timerInit hz jiffies) before = .ok reached → reached.exit = .returned →
      reached.expires = none ∧ reached.handler = .idle) ↔
    Along DeletesIdle (turn hz) (timerInit hz jiffies) turns := by
  have start : StoppedAfterExit (timerInit hz jiffies) := fun returned => by cases returned
  refine along_iff ?_ ?_ start
  · rintro state (_ | _ | _) <;> exact ⟨_, rfl⟩
  · intro state action next
    exact turn_stops_iff action next

theorem run_ticks (count : Nat) :
    run (turn hz) state (List.replicate count .tick) =
      .ok { state with jiffies := state.jiffies + UInt64.ofNat count } := by
  induction count generalizing state with
  | zero => simp
  | succ count ih =>
    simp only [List.replicate_succ, run_cons, turn, ok_bind, ih, UInt64.ofNat_add, UInt64.add_assoc]
    rw [UInt64.add_comm 1]
    rfl

/-- The handler has printed its lines when the unload comes: `timer_exit` returns,
the handler arms the timer, and it is called again when the timer expires. -/
theorem handler_survives_unload :
    ∃ returned rearmed later,
      run (turn 100) (timerInit 100 0) (List.replicate 100 .tick ++ [.handler, .handler, .handler,
        .exit, .exit, .exit]) = .ok returned ∧
      returned.exit = .returned ∧ returned.handler = .modTimer ∧
      run (turn 100) returned [.handler] = .ok rearmed ∧ rearmed.expires = some 200 ∧
      run (turn 100) rearmed (List.replicate 100 .tick ++ [.handler]) = .ok later ∧
      later.exit = .returned ∧ later.handler = .printContext := by
  let returned : TimerModule := { jiffies := 100, expires := none, handler := .modTimer, exit := .returned }
  let rearmed : TimerModule := { returned with expires := some 200, handler := .idle }
  let later : TimerModule := { rearmed with jiffies := 200, expires := none, handler := .printContext }
  refine ⟨returned, rearmed, later, ?_, rfl, rfl, rfl, rfl, ?_, rfl, rfl⟩
  · rw [run_append, run_ticks]
    rfl
  · have expired : timeAfterEq (100 + UInt64.ofNat 100) 200 = true := by decide
    rw [run_append, run_ticks, ok_bind, run_cons, turn]
    simp only [timerHandler, rearmed, returned]
    rw [if_pos expired]
    rfl

end KernelLabs.Timer
