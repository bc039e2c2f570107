import KernelLabs.Kthread

/-! Whether the module of `kthread.c` is unloaded under its running thread. The
unload stops waiting at the first of two events, a signal or the store that answers
it, and neither of them is the end of `my_thread_f`. -/
namespace KernelLabs.Kthread
open WaitEvent

/-- The task reads the flag it waits for. -/
def reads : Place → Bool
  | .check | .recheck _ => true
  | .prepare | .schedule | .finish => false

/-- The wait of the unload is not interrupted ahead of the answer, and does not read
the answer before the thread has executed its last statement. -/
def OrderlyAt (state : Tasks) : ExitPc → Prop
  | .waitThreadTerminated waiter =>
    (reads waiter.place = true → state.flagThreadTerminated ≠ 0 → state.thread = .finished) ∧
    (waiter.place = .recheck true → state.flagThreadTerminated ≠ 0)
  | _ => True

/-- Each step of the unload is orderly. -/
def Orderly (state : Tasks) : Turn → Prop
  | .exit => OrderlyAt state state.exit
  | .thread | .signal => True

instance (state : Tasks) : (pc : ExitPc) → Decidable (OrderlyAt state pc)
  | .waitThreadTerminated _ => inferInstanceAs (Decidable (_ ∧ _))
  | .notCalled | .prInfoExit | .setStopThread | .wakeStopThread | .prInfoTerminated | .returned =>
    inferInstanceAs (Decidable True)

instance (state : Tasks) : (action : Turn) → Decidable (Orderly state action)
  | .exit => inferInstanceAs (Decidable (OrderlyAt state state.exit))
  | .thread | .signal => inferInstanceAs (Decidable True)

/-- The unload is past its wait, or about to leave it. -/
def Past : ExitPc → Prop
  | .waitThreadTerminated waiter => waiter.place = .finish
  | .prInfoTerminated | .returned => True
  | _ => False

variable {state next : Tasks} {action : Turn}

theorem past_wakeUp {pc : ExitPc} : Past pc.wakeUp ↔ Past pc := by
  cases pc with
  | waitThreadTerminated waiter => simp [ExitPc.wakeUp, Past]
  | _ => exact Iff.rfl

theorem past_signal {pc : ExitPc} : Past pc.signal ↔ Past pc := by
  cases pc <;> exact Iff.rfl

/-- Nothing moves a thread that has finished. -/
theorem turn_finished (finished : state.thread = .finished) (taken : turn state action = .ok next) :
    next.thread = .finished := by
  cases action with
  | thread => simp [turn, myThreadF, finished] at taken
  | exit =>
    rcases exit_thread taken with same | woken
    · rwa [same]
    · rw [woken, finished]
      rfl
  | signal =>
    cases taken
    exact finished

/-- An orderly step of the unload that ends its wait finds the thread finished. -/
theorem exit_past (orderly : Orderly state .exit) (held : Past state.exit → state.thread = .finished)
    (taken : turn state .exit = .ok next) (past : Past next.exit) : state.thread = .finished := by
  simp only [turn, myKthreadExit] at taken
  cases pc : state.exit with
  | waitThreadTerminated waiter =>
    rw [Orderly, pc] at orderly
    obtain ⟨answered, uninterrupted⟩ := orderly
    rw [pc] at taken held
    obtain ⟨waits, went, same⟩ := bind_eq_ok.mp taken
    rcases Waiter.step_cases went with ⟨here, set, rfl⟩ | ⟨-, -, rfl⟩ | ⟨-, -, rfl⟩ | ⟨-, -, rfl⟩ |
      ⟨interrupted, here, set, rfl⟩ | ⟨here, unset, rfl⟩ | ⟨-, -, rfl⟩ | ⟨-, -, rfl⟩ | ⟨here, rfl⟩
    all_goals cases same
    · exact answered (by rw [here]; rfl) (by simpa using set)
    · cases past
    · cases past
    · cases past
    · exact answered (by rw [here]; rfl) (by simpa using set)
    · exact absurd (uninterrupted here) (by simpa using unset)
    · cases past
    · cases past
    · exact held here
  | prInfoTerminated =>
    rw [pc] at held
    exact held trivial
  | _ =>
    rw [pc] at taken
    cases taken
    try cases past

theorem orderly_turn (held : Past state.exit → state.thread = .finished)
    (orderly : Orderly state action) (taken : turn state action = .ok next)
    (past : Past next.exit) : next.thread = .finished := by
  cases action with
  | exit => exact turn_finished (exit_past orderly held taken past) taken
  | signal =>
    cases taken
    exact held (past_signal.mp past)
  | thread =>
    have before : Past state.exit := by
      rcases thread_exit taken with same | woken
      · rwa [same] at past
      · rwa [woken, past_wakeUp] at past
    exact turn_finished (held before) taken

/-- **Unload.** In every run in which no signal interrupts the unload ahead of the
answer, and the unload does not read the answer while the thread still runs,
`my_kthread_exit` returns only after the last statement of `my_thread_f`. -/
theorem orderly_unload_waits (turns : List Turn) (reached : Tasks)
    (orderly : Along Orderly turn (myKthreadInit true) turns)
    (ran : run turn (myKthreadInit true) turns = .ok reached) (returned : reached.exit = .returned) :
    reached.thread = .finished := by
  have held : Past reached.exit → reached.thread = .finished :=
    along_invariant (fun state => Past state.exit → state.thread = .finished)
      (fun _ _ _ held orderly taken => orderly_turn held orderly taken) (by intro past; cases past)
      orderly ran
  apply held
  rw [returned]
  trivial

/-- An unload that begins while the thread waits, and reads the answer once before the
thread gives it and once after the thread has finished. -/
theorem orderly_unload_waits_twice :
    ∃ reached, run turn (myKthreadInit true)
        (.thread :: List.replicate 5 .exit ++ List.replicate 6 .thread ++ List.replicate 4 .exit) =
          .ok reached ∧
      reached.exit = .returned ∧ reached.thread = .finished := by
  let unloaded : Tasks :=
    { flagStopThread := 1, flagThreadTerminated := 1, thread := .finished, exit := .returned
      signalled := false }
  refine ⟨unloaded, by decide, rfl, ?_⟩
  exact orderly_unload_waits
    (.thread :: List.replicate 5 .exit ++ List.replicate 6 .thread ++ List.replicate 4 .exit) unloaded
    (by decide) (by decide) rfl

/-- Orderly is the most that can be asked: wherever the next step of the unload is
not, the unload can return at once, under the thread. -/
theorem disorderly_step_unloads (held : Handshakes state) (disorderly : ¬ Orderly state .exit) :
    ∃ steps reached, run turn state (List.replicate steps .exit) = .ok reached ∧
      reached.exit = .returned ∧ reached.thread ≠ .finished := by
  have unanswered : state.flagThreadTerminated = 0 → state.thread ≠ .finished := by
    intro unset finished
    apply held.terminatedFlag.mpr _ unset
    rw [finished]
    trivial
  cases pc : state.exit with
  | waitThreadTerminated waiter =>
    obtain ⟨place, queued, sleeping⟩ := waiter
    simp only [Orderly, pc, OrderlyAt, not_and_or, Classical.not_imp, not_not] at disorderly
    rcases disorderly with ⟨here, set, runs⟩ | ⟨rfl, unset⟩
    · cases place with
      | check =>
        refine ⟨2, { state with exit := .returned }, ?_, rfl, runs⟩
        simp [turn, myKthreadExit, pc, Waiter.step, set]
      | recheck interrupted =>
        refine ⟨3, { state with exit := .returned }, ?_, rfl, runs⟩
        simp [turn, myKthreadExit, pc, Waiter.step, set]
      | prepare | schedule | finish => cases here
    · refine ⟨2, { state with exit := .returned }, ?_, rfl, unanswered unset⟩
      simp [turn, myKthreadExit, pc, Waiter.step, unset]
  | _ =>
    rw [Orderly, pc] at disorderly
    exact absurd trivial disorderly

/-- A signal that reaches the unload before its wait lets it return before the thread
has executed its first statement; and without any signal, the unload returns between
the thread's answer and its `wake_up`. -/
theorem unload_overtakes_thread :
    (∃ reached, run turn (myKthreadInit true) (.signal :: List.replicate 8 .exit) = .ok reached ∧
      reached.exit = .returned ∧ reached.thread = .prInfoCurrent) ∧
    ∃ reached, run turn (myKthreadInit true)
        (List.replicate 4 .exit ++ List.replicate 4 .thread ++ List.replicate 2 .exit) = .ok reached ∧
      reached.exit = .returned ∧ reached.thread = .wakeThreadTerminated :=
  ⟨⟨_, rfl, rfl, rfl⟩, ⟨_, rfl, rfl, rfl⟩⟩

/-! ## A thread that was not created -/

/-- Nobody will answer the unload. -/
structure Unanswered (state : Tasks) : Prop where
  thread : state.thread = .notCreated
  signalled : state.signalled = false
  waits : ∀ waiter, state.exit = .waitThreadTerminated waiter → waiter.place ≠ .recheck true
  past : ¬ Past state.exit

theorem unanswered_exit (held : Handshakes state) (unanswered : Unanswered state)
    (taken : turn state .exit = .ok next) : Unanswered next := by
  obtain ⟨thread, signalled, waits, past⟩ := unanswered
  have unset : state.flagThreadTerminated = 0 := by
    by_contra set
    have := held.terminatedFlag.mp set
    rw [thread] at this
    exact this
  simp only [turn, myKthreadExit] at taken
  cases pc : state.exit with
  | notCalled | prInfoExit | setStopThread =>
    rw [pc] at taken
    cases taken
    exact ⟨thread, signalled, (fun waiter here => by cases here), id⟩
  | wakeStopThread =>
    rw [pc] at taken
    cases taken
    refine ⟨by rw [thread]; rfl, signalled, ?_, by rintro ⟨⟩⟩
    rintro waiter ⟨⟩ ⟨⟩
  | waitThreadTerminated waiter =>
    have notInterrupted := waits waiter pc
    rw [pc] at taken past
    have fails : decide (state.flagThreadTerminated ≠ 0) = false := by simp [unset]
    rw [fails] at taken
    obtain ⟨after, went, same⟩ := bind_eq_ok.mp taken
    rcases Waiter.step_cases went with ⟨-, holds, -⟩ | ⟨-, -, rfl⟩ | ⟨-, pending, -⟩ | ⟨-, -, rfl⟩ |
      ⟨-, -, holds, -⟩ | ⟨here, -, -⟩ | ⟨-, -, rfl⟩ | ⟨-, -, rfl⟩ | ⟨here, -⟩
    · cases holds
    · cases same
      exact ⟨thread, signalled, (by rintro _ ⟨⟩ ⟨⟩), by rintro ⟨⟩⟩
    · rw [signalled] at pending
      cases pending
    · cases same
      exact ⟨thread, signalled, (by rintro _ ⟨⟩ ⟨⟩), by rintro ⟨⟩⟩
    · cases holds
    · exact absurd here notInterrupted
    · cases same
      exact ⟨thread, signalled, (by rintro _ ⟨⟩ ⟨⟩), by rintro ⟨⟩⟩
    · cases same
      exact ⟨thread, signalled, (by rintro _ ⟨⟩ ⟨⟩), by rintro ⟨⟩⟩
    · exact absurd here past
  | prInfoTerminated | returned =>
    rw [pc] at past
    exact absurd trivial past

end KernelLabs.Kthread
