import KernelLabs.KthreadUnload

/-! The unload of `kthread.c` comes to its end, however the two tasks take turns: where the
thread was created, or a signal comes. Each of the two executes a bounded number of
statements, since each is woken once at most. -/
namespace KernelLabs.Kthread
open WaitEvent

/-! ## What the two tasks have still to do -/

/-- The statement that wakes the other task may send it round its loop once more. -/
def ThreadPc.rank : ThreadPc → Nat
  | .prInfoCurrent => 15
  | .waitStopThread waiter => waiter.rank + 9
  | .printkTerminated => 9
  | .setThreadTerminated => 8
  | .wakeThreadTerminated => 7
  | .prInfoExiting => 2
  | .return => 1
  | .notCreated | .finished => 0

def ExitPc.rank : ExitPc → Nat
  | .notCalled => 14
  | .prInfoExit => 13
  | .setStopThread => 12
  | .wakeStopThread => 11
  | .waitThreadTerminated waiter => waiter.rank + 1
  | .prInfoTerminated => 1
  | .returned => 0

/-- A bound on the statements that are left. Only the first signal wakes anybody. -/
def Tasks.rank (state : Tasks) : Nat :=
  state.thread.rank + state.exit.rank + if state.signalled then 0 else 4

variable {state next : Tasks}

theorem ThreadPc.wakeUp_rank (pc : ThreadPc) : pc.wakeUp.rank ≤ pc.rank + 4 := by
  cases pc with
  | waitStopThread waiter =>
    have bound : waiter.wakeUp.rank ≤ waiter.rank + 4 := Waiter.wakeUp_rank
    simp only [ThreadPc.wakeUp, ThreadPc.rank]
    omega
  | _ => exact Nat.le_add_right _ _

theorem ExitPc.wakeUp_rank (pc : ExitPc) : pc.wakeUp.rank ≤ pc.rank + 4 := by
  cases pc with
  | waitThreadTerminated waiter =>
    have bound : waiter.wakeUp.rank ≤ waiter.rank + 4 := Waiter.wakeUp_rank
    simp only [ExitPc.wakeUp, ExitPc.rank]
    omega
  | _ => exact Nat.le_add_right _ _

theorem ExitPc.signal_rank (pc : ExitPc) : pc.signal.rank ≤ pc.rank + 4 := by
  cases pc with
  | waitThreadTerminated waiter =>
    have bound := Waiter.rank_awake waiter waiter.queued
    simp only [ExitPc.signal, ExitPc.rank, Waiter.signal]
    omega
  | _ => exact Nat.le_add_right _ _

theorem thread_falls (taken : myThreadF state = .ok next) : next.rank < state.rank := by
  unfold myThreadF at taken
  cases pc : state.thread with
  | notCreated | finished =>
    rw [pc] at taken
    cases taken
  | waitStopThread waiter =>
    rw [pc] at taken
    obtain ⟨waits, went, same⟩ := bind_eq_ok.mp taken
    cases waits <;> cases same
    · have less := Waiter.step_falls went
      simp only [Tasks.rank, pc, ThreadPc.rank]
      omega
    · have some := waiter.rank_pos
      simp only [Tasks.rank, pc, ThreadPc.rank]
      omega
  | wakeThreadTerminated =>
    rw [pc] at taken
    cases taken
    have bound := state.exit.wakeUp_rank
    simp only [Tasks.rank, pc, ThreadPc.rank]
    omega
  | prInfoCurrent | printkTerminated | setThreadTerminated | prInfoExiting | «return» =>
    rw [pc] at taken
    cases taken
    simp only [Tasks.rank, pc, ThreadPc.rank, Waiter.rank, Waiter.enter]
    omega

theorem exit_falls (taken : myKthreadExit state = .ok next) : next.rank < state.rank := by
  unfold myKthreadExit at taken
  cases pc : state.exit with
  | returned =>
    rw [pc] at taken
    cases taken
  | waitThreadTerminated waiter =>
    rw [pc] at taken
    obtain ⟨waits, went, same⟩ := bind_eq_ok.mp taken
    cases waits <;> cases same
    · have less := Waiter.step_falls went
      simp only [Tasks.rank, pc, ExitPc.rank]
      omega
    · have some := waiter.rank_pos
      simp only [Tasks.rank, pc, ExitPc.rank]
      omega
  | wakeStopThread =>
    rw [pc] at taken
    cases taken
    have bound := state.thread.wakeUp_rank
    simp only [Tasks.rank, pc, ExitPc.rank, Waiter.rank, Waiter.enter]
    omega
  | notCalled | prInfoExit | setStopThread | prInfoTerminated =>
    rw [pc] at taken
    cases taken
    simp only [Tasks.rank, pc, ExitPc.rank]
    omega

/-! ## Signals -/

/-- Once a signal is pending, the task that unloads does not fall asleep. -/
def Alert (state : Tasks) : Prop :=
  state.signalled = true → ∀ waiter, state.exit = .waitThreadTerminated waiter → waiter.sleeping = false

theorem myThreadF_signalled (taken : myThreadF state = .ok next) : next.signalled = state.signalled := by
  unfold myThreadF at taken
  cases pc : state.thread with
  | waitStopThread waiter =>
    rw [pc] at taken
    obtain ⟨waits, -, same⟩ := bind_eq_ok.mp taken
    cases waits <;> cases same <;> rfl
  | _ =>
    rw [pc] at taken
    cases taken
    try rfl

theorem myKthreadExit_signalled (taken : myKthreadExit state = .ok next) : next.signalled = state.signalled := by
  unfold myKthreadExit at taken
  cases pc : state.exit with
  | waitThreadTerminated waiter =>
    rw [pc] at taken
    obtain ⟨waits, -, same⟩ := bind_eq_ok.mp taken
    cases waits <;> cases same <;> rfl
  | _ =>
    rw [pc] at taken
    cases taken
    try rfl

theorem turn_alert {action : Turn} (alert : Alert state) (taken : turn state action = .ok next) : Alert next := by
  intro pending waiter here
  cases action with
  | thread =>
    rw [myThreadF_signalled taken] at pending
    rcases thread_exit taken with same | woken
    · exact alert pending waiter (same ▸ here)
    · rw [woken] at here
      cases pc : state.exit <;> rw [pc] at here <;> cases here
      have awake := alert pending _ pc
      rwa [Waiter.wakeUp_awake awake]
  | exit =>
    rw [turn, myKthreadExit] at taken
    cases pc : state.exit with
    | waitThreadTerminated before =>
      rw [pc] at taken
      obtain ⟨waits, went, same⟩ := bind_eq_ok.mp taken
      cases waits <;> cases same <;> cases here
      have pending' : state.signalled = true := pending
      rw [pending'] at went
      exact Waiter.step_awake (alert pending' before pc) went
    | wakeStopThread =>
      rw [pc] at taken
      cases taken
      cases here
      rfl
    | notCalled | prInfoExit | setStopThread | prInfoTerminated | returned =>
      rw [pc] at taken
      cases taken <;> cases here
  | signal =>
    cases taken
    cases pc : state.exit <;> simp only [pc, ExitPc.signal] at here <;> cases here
    rfl

/-- Both tasks' own statements count, and no signal adds to them. -/
theorem turn_falls {action : Turn} (alert : Alert state) (taken : turn state action = .ok next) :
    next.rank + (decide (action ≠ .signal)).toNat ≤ state.rank := by
  cases action with
  | thread => exact thread_falls taken
  | exit => exact exit_falls taken
  | signal =>
    cases taken
    have bound := state.exit.signal_rank
    cases pending : state.signalled with
    | false =>
      simp only [Tasks.rank, pending, Bool.false_eq_true, if_false, if_true, ne_eq, not_true, decide_false,
        Bool.toNat_false]
      omega
    | true =>
      have same : state.exit.signal = state.exit := by
        cases pc : state.exit with
        | waitThreadTerminated waiter =>
          rw [ExitPc.signal, Waiter.signal_awake (alert pending waiter pc)]
        | notCalled | prInfoExit | setStopThread | wakeStopThread | prInfoTerminated | returned => rfl
      simp [Tasks.rank, pending, same]

/-- Without the thread, the unload passes its wait by a signal only. -/
theorem turn_uncreated {action : Turn} (held : Handshakes state) (thread : state.thread = .notCreated)
    (answered : state.signalled = true ∨ Unanswered state) (taken : turn state action = .ok next) :
    next.thread = .notCreated ∧ (next.signalled = true ∨ Unanswered next) := by
  cases action with
  | thread => simp [turn, myThreadF, thread] at taken
  | exit =>
    refine ⟨?_, ?_⟩
    · rcases exit_thread taken with same | woken
      · rw [same, thread]
      · rw [woken, thread]
        rfl
    · rcases answered with pending | unanswered
      · exact .inl ((myKthreadExit_signalled taken).trans pending)
      · exact .inr (unanswered_exit held unanswered taken)
  | signal =>
    cases taken
    exact ⟨thread, .inl rfl⟩

/-! ## Every run -/

/-- What the tasks have in common in every state of a run. -/
structure Unfinished (created : Bool) (state : Tasks) : Prop where
  handshakes : Handshakes state
  alert : Alert state
  thread : created = true → state.thread ≠ .notCreated
  uncreated : created = false → state.thread = .notCreated ∧ (state.signalled = true ∨ Unanswered state)

theorem loaded_unfinished (created : Bool) : Unfinished created (myKthreadInit created) where
  handshakes := loaded_handshakes created
  alert pending := by cases pending
  thread := by
    rintro rfl
    simp [myKthreadInit]
  uncreated := by
    rintro rfl
    exact ⟨rfl, .inr ⟨rfl, rfl, (by rintro _ ⟨⟩), id⟩⟩

theorem turn_unfinished {created : Bool} {action : Turn} (held : Unfinished created state)
    (taken : turn state action = .ok next) : Unfinished created next where
  handshakes := turn_keeps held.handshakes taken
  alert := turn_alert held.alert taken
  thread created := turn_created (held.thread created) taken
  uncreated missing :=
    turn_uncreated held.handshakes (held.uncreated missing).1 (held.uncreated missing).2 taken

/-- **The unload ends.** Whether `kthread_run` has created the thread or not, and however
the tasks and signals take turns: there are at most 33 statements. When neither task can
take another, `my_kthread_exit` has returned, unless the thread was not created and no
signal has come; then it never returns. -/
theorem my_kthread_exit_ends (created : Bool) (turns : List Turn) (reached : Tasks)
    (ran : run turn (myKthreadInit created) turns = .ok reached) :
    turns.countP (· ≠ .signal) ≤ 33 ∧
    (reached.exit = .returned → created = true ∨ reached.signalled = true) ∧
    ((∀ action ≠ .signal, ∀ next, turn reached action ≠ .ok next) → (created = true ∨ reached.signalled = true) →
      reached.exit = .returned) := by
  have held : Unfinished created reached :=
    run_invariant (Unfinished created) (fun _ _ _ => turn_unfinished) (loaded_unfinished created) ran
  refine ⟨?_, fun returned => ?_, fun stuck answered => ?_⟩
  · let left (rank : Nat) (state : Tasks) : Prop := Unfinished created state ∧ state.rank ≤ rank
    have steps (rank : Nat) (state : Tasks) (action : Turn) (next : Tasks) (held : left rank state) (_ : True)
        (taken : turn state action = .ok next) : ∃ rank', left rank' next ∧
        rank' + (decide (action ≠ .signal)).toNat ≤ rank + 0 * (decide (action = .signal)).toNat := by
      have less := turn_falls held.1.alert taken
      refine ⟨next.rank, ⟨turn_unfinished held.1 taken, Nat.le_refl _⟩, ?_⟩
      rw [Nat.zero_mul]
      exact Nat.le_trans less held.2
    have start : left 33 (myKthreadInit created) := by
      refine ⟨loaded_unfinished created, ?_⟩
      cases created <;> decide
    have along : Along (fun _ _ => True) turn (myKthreadInit created) turns := along_of_forall fun _ _ _ => trivial
    obtain ⟨rank, -, bound⟩ := run_bounded left steps start along ran
    omega
  · cases created with
    | true => exact .inl rfl
    | false =>
      refine .inr ((held.uncreated rfl).2.resolve_right fun unanswered => unanswered.past ?_)
      rw [returned]
      trivial
  · by_contra waits
    have asleep : reached.exit.Asleep := by
      by_contra awake
      obtain ⟨next, taken⟩ := exit_enabled awake waits
      exact stuck .exit (by simp) next taken
    rcases answered with rfl | pending
    · rcases held.handshakes.enabled (held.thread rfl) fun both => waits both.2 with ⟨next, taken⟩ | ⟨next, taken⟩
      · exact stuck .thread (by simp) next taken
      · exact stuck .exit (by simp) next taken
    · cases pc : reached.exit with
      | waitThreadTerminated waiter =>
        rw [pc] at asleep
        cases asleep.2.symm.trans (held.alert pending waiter pc)
      | notCalled | prInfoExit | setStopThread | wakeStopThread | prInfoTerminated | returned =>
        rw [pc] at asleep
        exact asleep

/-- The thread was not created; the unload falls asleep, and a signal lets it return. -/
theorem my_kthread_exit_ends_signalled : ∃ reached,
    run turn (myKthreadInit false) (List.replicate 7 .exit ++ .signal :: List.replicate 4 .exit) = .ok reached ∧
    reached.exit = .returned ∧ reached.signalled = true := by
  obtain ⟨reached, ran, stuck⟩ : ∃ reached,
      run turn (myKthreadInit false) (List.replicate 7 .exit ++ .signal :: List.replicate 4 .exit) = .ok reached ∧
      ∀ action ≠ .signal, ∀ next, turn reached action ≠ .ok next := by
    refine ⟨_, rfl, ?_⟩
    rintro (_ | _ | _) other next taken
    · cases taken
    · cases taken
    · exact other rfl
  obtain ⟨-, -, ends⟩ := my_kthread_exit_ends false _ reached ran
  have pending : reached.signalled = true := by
    cases ran
    rfl
  exact ⟨reached, ran, ends stuck (.inr pending), pending⟩

end KernelLabs.Kthread
