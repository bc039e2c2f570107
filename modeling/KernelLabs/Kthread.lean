import KernelLabs.WaitEvent

/-! `labs/lab13/kthread/kthread.c`: a kernel thread that waits until it is told to
stop, and the unload that tells it and waits for its answer. Each statement of
`my_thread_f` and of `my_kthread_exit` is a step, and the steps of the two tasks
come in any order. -/
namespace KernelLabs.Kthread
open WaitEvent

/-- The next statement of `my_thread_f`. -/
inductive ThreadPc
  /-- `kthread_run` failed. -/
  | notCreated
  | prInfoCurrent
  | waitStopThread (waiter : Waiter)
  | printkTerminated
  | setThreadTerminated
  | wakeThreadTerminated
  | prInfoExiting
  | return
  | finished
  deriving DecidableEq, Repr

/-- The next statement of `my_kthread_exit`. -/
inductive ExitPc
  | notCalled
  | prInfoExit
  | setStopThread
  | wakeStopThread
  | waitThreadTerminated (waiter : Waiter)
  | prInfoTerminated
  | returned
  deriving DecidableEq, Repr

/-- `wake_up(&wq_stop_thread)`. -/
def ThreadPc.wakeUp : ThreadPc → ThreadPc
  | .waitStopThread waiter => .waitStopThread waiter.wakeUp
  | pc => pc

/-- `wake_up(&wq_thread_terminated)`. -/
def ExitPc.wakeUp : ExitPc → ExitPc
  | .waitThreadTerminated waiter => .waitThreadTerminated waiter.wakeUp
  | pc => pc

/-- A signal for the task that unloads. -/
def ExitPc.signal : ExitPc → ExitPc
  | .waitThreadTerminated waiter => .waitThreadTerminated waiter.signal
  | pc => pc

/-- The module's flags and the two tasks. -/
structure Tasks where
  flagStopThread : Int
  flagThreadTerminated : Int
  thread : ThreadPc
  exit : ExitPc
  /-- A signal is pending for the task that unloads. -/
  signalled : Bool
  deriving DecidableEq, Repr

/-- `my_kthread_init`, which does not look at what `kthread_run` returns. -/
def myKthreadInit (created : Bool) : Tasks where
  flagStopThread := 0
  flagThreadTerminated := 0
  thread := if created then .prInfoCurrent else .notCreated
  exit := .notCalled
  signalled := false

/-- A statement of `my_thread_f`. Kernel threads ignore signals. -/
def myThreadF (state : Tasks) : Except Stuck Tasks :=
  match state.thread with
  | .notCreated | .finished => .error .finished
  | .prInfoCurrent => .ok { state with thread := .waitStopThread .enter }
  | .waitStopThread waiter => do
    match ← waiter.step (state.flagStopThread ≠ 0) false with
    | .on waiter => return { state with thread := .waitStopThread waiter }
    | .returned _ => return { state with thread := .printkTerminated }
  | .printkTerminated => .ok { state with thread := .setThreadTerminated }
  | .setThreadTerminated =>
    .ok { state with flagThreadTerminated := 1, thread := .wakeThreadTerminated }
  | .wakeThreadTerminated => .ok { state with exit := state.exit.wakeUp, thread := .prInfoExiting }
  | .prInfoExiting => .ok { state with thread := .return }
  | .return => .ok { state with thread := .finished }

/-- A statement of `my_kthread_exit`; the first step is its call. What the wait
returns is not looked at. -/
def myKthreadExit (state : Tasks) : Except Stuck Tasks :=
  match state.exit with
  | .notCalled => .ok { state with exit := .prInfoExit }
  | .prInfoExit => .ok { state with exit := .setStopThread }
  | .setStopThread => .ok { state with flagStopThread := 1, exit := .wakeStopThread }
  | .wakeStopThread =>
    .ok { state with thread := state.thread.wakeUp, exit := .waitThreadTerminated .enter }
  | .waitThreadTerminated waiter => do
    match ← waiter.step (state.flagThreadTerminated ≠ 0) state.signalled with
    | .on waiter => return { state with exit := .waitThreadTerminated waiter }
    | .returned _ => return { state with exit := .prInfoTerminated }
  | .prInfoTerminated => .ok { state with exit := .returned }
  | .returned => .error .finished

inductive Turn
  | thread
  | exit
  /-- A signal reaches the task that unloads. -/
  | signal
  deriving DecidableEq, Repr

def turn (state : Tasks) : Turn → Except Stuck Tasks
  | .thread => myThreadF state
  | .exit => myKthreadExit state
  | .signal => .ok { state with signalled := true, exit := state.exit.signal }

namespace ThreadPc

/-- The thread has executed `atomic_set(&flag_thread_terminated, 1)`. -/
def HasSet : ThreadPc → Prop
  | .wakeThreadTerminated | .prInfoExiting | .return | .finished => True
  | _ => False

/-- The thread has executed `wake_up(&wq_thread_terminated)`. -/
def woke : ThreadPc → Bool
  | .prInfoExiting | .return | .finished => true
  | _ => false

/-- The thread sleeps on `wq_stop_thread`. -/
def Asleep : ThreadPc → Prop
  | .waitStopThread waiter => waiter.Asleep
  | _ => False

theorem woke_hasSet {pc : ThreadPc} (called : pc.woke = true) : pc.HasSet := by
  cases pc <;> first | exact trivial | cases called

theorem wakeUp_hasSet {pc : ThreadPc} : pc.wakeUp.HasSet ↔ pc.HasSet := by
  cases pc <;> exact Iff.rfl

end ThreadPc

namespace ExitPc

/-- `my_kthread_exit` has executed `atomic_set(&flag_stop_thread, 1)`. -/
def HasSet : ExitPc → Prop
  | .wakeStopThread | .waitThreadTerminated _ | .prInfoTerminated | .returned => True
  | _ => False

/-- `my_kthread_exit` has executed `wake_up(&wq_stop_thread)`. -/
def woke : ExitPc → Bool
  | .waitThreadTerminated _ | .prInfoTerminated | .returned => true
  | _ => false

/-- The task that unloads sleeps on `wq_thread_terminated`. -/
def Asleep : ExitPc → Prop
  | .waitThreadTerminated waiter => waiter.Asleep
  | _ => False

theorem woke_hasSet {pc : ExitPc} (called : pc.woke = true) : pc.HasSet := by
  cases pc <;> first | exact trivial | cases called

theorem wakeUp_hasSet {pc : ExitPc} : pc.wakeUp.HasSet ↔ pc.HasSet := by
  cases pc <;> exact Iff.rfl

theorem signal_hasSet {pc : ExitPc} : pc.signal.HasSet ↔ pc.HasSet := by
  cases pc <;> exact Iff.rfl

theorem signal_woke {pc : ExitPc} : pc.signal.woke = pc.woke := by
  cases pc <;> rfl

end ExitPc

/-- What holds however the two tasks are interleaved. -/
structure Handshakes (state : Tasks) : Prop where
  /-- Each flag is set exactly when its task has passed the statement that sets it. -/
  stopFlag : state.flagStopThread ≠ 0 ↔ state.exit.HasSet
  terminatedFlag : state.flagThreadTerminated ≠ 0 ↔ state.thread.HasSet
  /-- Neither task can miss the wake-up it waits for. -/
  stop : ∀ waiter, state.thread = .waitStopThread waiter →
    waiter.Attended (state.flagStopThread ≠ 0) state.exit.woke
  terminated : ∀ waiter, state.exit = .waitThreadTerminated waiter →
    waiter.Attended (state.flagThreadTerminated ≠ 0) state.thread.woke

variable {state next : Tasks} {condition woken : Bool}

/-! ## What one task does to the other -/

theorem thread_exit (taken : myThreadF state = .ok next) :
    next.exit = state.exit ∨ next.exit = state.exit.wakeUp := by
  unfold myThreadF at taken
  cases pc : state.thread with
  | notCreated | finished =>
    rw [pc] at taken
    cases taken
  | waitStopThread waiter =>
    rw [pc] at taken
    obtain ⟨waits, -, same⟩ := bind_eq_ok.mp taken
    cases waits <;> cases same <;> exact .inl rfl
  | wakeThreadTerminated =>
    rw [pc] at taken
    cases taken
    exact .inr rfl
  | _ =>
    rw [pc] at taken
    cases taken
    exact .inl rfl

theorem exit_thread (taken : myKthreadExit state = .ok next) :
    next.thread = state.thread ∨ next.thread = state.thread.wakeUp := by
  unfold myKthreadExit at taken
  cases pc : state.exit with
  | returned =>
    rw [pc] at taken
    cases taken
  | waitThreadTerminated waiter =>
    rw [pc] at taken
    obtain ⟨waits, -, same⟩ := bind_eq_ok.mp taken
    cases waits <;> cases same <;> exact .inl rfl
  | wakeStopThread =>
    rw [pc] at taken
    cases taken
    exact .inr rfl
  | _ =>
    rw [pc] at taken
    cases taken
    exact .inl rfl

/-! ## Every step keeps the handshakes -/

theorem loaded_handshakes (created : Bool) : Handshakes (myKthreadInit created) := by
  cases created <;> constructor <;> simp [myKthreadInit, ExitPc.HasSet, ThreadPc.HasSet]

/-- `wake_up` as the thread's wait sees it. -/
theorem stop_wakeUp (held : ∀ waiter, state.thread = .waitStopThread waiter →
    waiter.Attended condition woken) (waiter : Waiter)
    (here : state.thread.wakeUp = .waitStopThread waiter) : waiter.Attended condition true := by
  cases pc : state.thread <;> rw [pc] at here <;> cases here
  exact (held _ pc).wakeUp

/-- `wake_up` as the wait of `my_kthread_exit` sees it. -/
theorem terminated_wakeUp (held : ∀ waiter, state.exit = .waitThreadTerminated waiter →
    waiter.Attended condition woken) (waiter : Waiter)
    (here : state.exit.wakeUp = .waitThreadTerminated waiter) : waiter.Attended condition true := by
  cases pc : state.exit <;> rw [pc] at here <;> cases here
  exact (held _ pc).wakeUp

theorem thread_keeps (held : Handshakes state) (taken : myThreadF state = .ok next) :
    Handshakes next := by
  have flag := held.terminatedFlag
  have terminated := held.terminated
  unfold myThreadF at taken
  cases pc : state.thread with
  | notCreated | finished =>
    rw [pc] at taken
    cases taken
  | prInfoCurrent =>
    rw [pc] at taken flag terminated
    cases taken
    refine ⟨held.stopFlag, flag, ?_, terminated⟩
    rintro waiter ⟨⟩
    exact Waiter.enter_attended
  | waitStopThread waiter =>
    rw [pc] at taken flag terminated
    obtain ⟨waits, went, same⟩ := bind_eq_ok.mp taken
    cases waits with
    | on after =>
      cases same
      refine ⟨held.stopFlag, flag, ?_, terminated⟩
      rintro _ ⟨⟩
      have told (called : state.exit.woke = true) : decide (state.flagStopThread ≠ 0) = true :=
        decide_eq_true (held.stopFlag.mpr (ExitPc.woke_hasSet called))
      exact (held.stop waiter pc).step told went
    | returned ret =>
      cases same
      exact ⟨held.stopFlag, flag, (fun waiter here => by cases here), terminated⟩
  | setThreadTerminated =>
    rw [pc] at taken terminated
    cases taken
    refine ⟨held.stopFlag, by simp [ThreadPc.HasSet], (fun waiter here => by cases here), ?_⟩
    intro waiter here
    exact (terminated waiter here).set
  | wakeThreadTerminated =>
    rw [pc] at taken flag
    cases taken
    refine ⟨?_, flag, (fun waiter here => by cases here), terminated_wakeUp held.terminated⟩
    rw [ExitPc.wakeUp_hasSet]
    exact held.stopFlag
  | printkTerminated | prInfoExiting | «return» =>
    rw [pc] at taken flag terminated
    cases taken
    exact ⟨held.stopFlag, flag, (fun waiter here => by cases here), terminated⟩

theorem exit_keeps (held : Handshakes state) (taken : myKthreadExit state = .ok next) :
    Handshakes next := by
  have flag := held.stopFlag
  have stop := held.stop
  unfold myKthreadExit at taken
  cases pc : state.exit with
  | returned =>
    rw [pc] at taken
    cases taken
  | notCalled | prInfoExit | prInfoTerminated =>
    rw [pc] at taken flag stop
    cases taken
    exact ⟨flag, held.terminatedFlag, stop, fun waiter here => by cases here⟩
  | setStopThread =>
    rw [pc] at taken stop
    cases taken
    refine ⟨by simp [ExitPc.HasSet], held.terminatedFlag, ?_, fun waiter here => by cases here⟩
    intro waiter here
    exact (stop waiter here).set
  | wakeStopThread =>
    rw [pc] at taken flag
    cases taken
    refine ⟨flag, ?_, stop_wakeUp held.stop, ?_⟩
    · rw [ThreadPc.wakeUp_hasSet]
      exact held.terminatedFlag
    · rintro waiter ⟨⟩
      exact Waiter.enter_attended
  | waitThreadTerminated waiter =>
    rw [pc] at taken flag stop
    obtain ⟨waits, went, same⟩ := bind_eq_ok.mp taken
    cases waits with
    | on after =>
      cases same
      refine ⟨flag, held.terminatedFlag, stop, ?_⟩
      rintro _ ⟨⟩
      have told (called : state.thread.woke = true) :
          decide (state.flagThreadTerminated ≠ 0) = true :=
        decide_eq_true (held.terminatedFlag.mpr (ThreadPc.woke_hasSet called))
      exact (held.terminated waiter pc).step told went
    | returned ret =>
      cases same
      exact ⟨flag, held.terminatedFlag, stop, fun waiter here => by cases here⟩

/-- A signal takes nobody out of reach of a wake-up. -/
theorem signal_keeps (held : Handshakes state) :
    Handshakes { state with signalled := true, exit := state.exit.signal } := by
  refine ⟨?_, held.terminatedFlag, fun waiter here => ?_, fun waiter here => ?_⟩
  · rw [ExitPc.signal_hasSet]
    exact held.stopFlag
  · simpa only [ExitPc.signal_woke] using held.stop waiter here
  · have signalled : state.exit.signal = .waitThreadTerminated waiter := here
    cases pc : state.exit <;> rw [pc] at signalled <;> cases signalled
    exact (held.terminated _ pc).signal

theorem turn_keeps (held : Handshakes state) {action : Turn} (taken : turn state action = .ok next) :
    Handshakes next := by
  cases action with
  | thread => exact thread_keeps held taken
  | exit => exact exit_keeps held taken
  | signal =>
    cases taken
    exact signal_keeps held

/-! ## No lost wake-up -/

/-- A task that neither sleeps nor has finished can take its next step. -/
theorem thread_enabled (awake : ¬ state.thread.Asleep) (running : state.thread ≠ .finished)
    (created : state.thread ≠ .notCreated) : ∃ next, turn state .thread = .ok next := by
  simp only [turn, myThreadF]
  cases pc : state.thread with
  | notCreated => exact absurd pc created
  | finished => exact absurd pc running
  | waitStopThread waiter =>
    rw [pc] at awake
    have goes : ∃ waits, waiter.step (state.flagStopThread ≠ 0) false = .ok waits :=
      Waiter.step_enabled awake
    obtain ⟨waits, went⟩ := goes
    cases waits <;> exact ⟨_, bind_eq_ok.mpr ⟨_, went, rfl⟩⟩
  | _ => exact ⟨_, rfl⟩

theorem exit_enabled (awake : ¬ state.exit.Asleep) (running : state.exit ≠ .returned) :
    ∃ next, turn state .exit = .ok next := by
  simp only [turn, myKthreadExit]
  cases pc : state.exit with
  | returned => exact absurd pc running
  | waitThreadTerminated waiter =>
    rw [pc] at awake
    have goes : ∃ waits, waiter.step (state.flagThreadTerminated ≠ 0) state.signalled = .ok waits :=
      Waiter.step_enabled awake
    obtain ⟨waits, went⟩ := goes
    cases waits <;> exact ⟨_, bind_eq_ok.mpr ⟨_, went, rfl⟩⟩
  | _ => exact ⟨_, rfl⟩

/-- Whoever has been woken does not sleep. -/
theorem Handshakes.thread_awake (held : Handshakes state) (woken : state.exit.woke = true) :
    ¬ state.thread.Asleep := by
  cases pc : state.thread with
  | waitStopThread waiter => exact (held.stop waiter pc).awake woken
  | _ => exact id

theorem Handshakes.exit_awake (held : Handshakes state) (woken : state.thread.woke = true) :
    ¬ state.exit.Asleep := by
  cases pc : state.exit with
  | waitThreadTerminated waiter => exact (held.terminated waiter pc).awake woken
  | _ => exact id

/-- Whoever sleeps while the other has called `wake_up`, or has nothing left to do,
would sleep forever; nobody does. -/
theorem Handshakes.enabled (held : Handshakes state) (created : state.thread ≠ .notCreated)
    (unfinished : ¬ (state.thread = .finished ∧ state.exit = .returned)) :
    (∃ next, turn state .thread = .ok next) ∨ ∃ next, turn state .exit = .ok next := by
  by_cases awake : ¬ state.exit.Asleep ∧ state.exit ≠ .returned
  · exact .inr (exit_enabled awake.1 awake.2)
  · -- The exit waits for the thread, so it has woken the thread before.
    left
    have woken : state.exit.woke = true := by
      cases pc : state.exit with
      | waitThreadTerminated waiter => rfl
      | returned => rfl
      | _ => exact absurd ⟨by simp [pc, ExitPc.Asleep], by simp [pc]⟩ awake
    refine thread_enabled (held.thread_awake woken) (fun finished => ?_) created
    have answered : state.thread.woke = true := by rw [finished]; rfl
    exact awake ⟨held.exit_awake answered, fun returned => unfinished ⟨finished, returned⟩⟩

/-- A thread that was created stays so. -/
theorem turn_created {action : Turn} (created : state.thread ≠ .notCreated)
    (taken : turn state action = .ok next) : next.thread ≠ .notCreated := by
  cases action with
  | thread =>
    simp only [turn, myThreadF] at taken
    cases pc : state.thread with
    | waitStopThread waiter =>
      rw [pc] at taken
      obtain ⟨waits, -, same⟩ := bind_eq_ok.mp taken
      cases waits <;> cases same <;> simp
    | _ =>
      rw [pc] at taken
      cases taken
      try simp
  | exit =>
    rcases exit_thread taken with same | woken
    · rwa [same]
    · rw [woken]
      cases pc : state.thread with
      | notCreated => exact absurd pc created
      | _ => simp [ThreadPc.wakeUp]
  | signal =>
    cases taken
    exact created

/-- **No lost wake-up.** However the two tasks are interleaved, neither sleeps on
once its flag is set and its queue has been woken; and from its call on, the unload
and the thread are never both stuck before both have finished. Signals, which only
wake, change nothing about it. -/
theorem no_wake_up_is_lost (turns : List Turn) (reached : Tasks)
    (ran : run turn (myKthreadInit true) turns = .ok reached) :
    ¬ (reached.thread.Asleep ∧ reached.flagStopThread = 1 ∧ reached.exit.woke = true) ∧
    ¬ (reached.exit.Asleep ∧ reached.flagThreadTerminated = 1 ∧ reached.thread.woke = true) ∧
    (reached.exit ≠ .notCalled → ¬ (reached.thread = .finished ∧ reached.exit = .returned) →
      (∃ next, turn reached .thread = .ok next) ∨ ∃ next, turn reached .exit = .ok next) := by
  have held : Handshakes reached :=
    run_invariant Handshakes (fun _ _ _ held taken => turn_keeps held taken)
      (loaded_handshakes true) ran
  have created : reached.thread ≠ .notCreated :=
    run_invariant (·.thread ≠ .notCreated) (fun _ _ _ created taken => turn_created created taken)
      (by simp [myKthreadInit]) ran
  refine ⟨?_, ?_, fun _ => held.enabled created⟩
  · rintro ⟨asleep, -, woken⟩
    exact held.thread_awake woken asleep
  · rintro ⟨asleep, -, woken⟩
    exact held.exit_awake woken asleep

/-- The thread has joined its queue and failed its test when the unload begins: it
sleeps, and the unload goes on. -/
theorem no_wake_up_is_lost_waiting :
    ∃ reached, run turn (myKthreadInit true) [.thread, .thread, .thread, .thread, .exit, .exit] =
        .ok reached ∧ reached.thread.Asleep ∧
      ((∃ next, turn reached .thread = .ok next) ∨ ∃ next, turn reached .exit = .ok next) := by
  let waiting : Tasks :=
    { myKthreadInit true with
      thread := .waitStopThread ⟨.schedule, true, true⟩
      exit := .setStopThread }
  refine ⟨waiting, rfl, ⟨rfl, rfl⟩, ?_⟩
  have progress := no_wake_up_is_lost [.thread, .thread, .thread, .thread, .exit, .exit] waiting rfl
  exact progress.2.2 (by simp [waiting]) (by simp [waiting])

end KernelLabs.Kthread
