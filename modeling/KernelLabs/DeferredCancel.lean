import KernelLabs.DeferredQuiescence

/-! `MY_IOCTL_TIMER_CANCEL` against a running `timer_handler`. `del_timer` takes a
pending timer off, and does not wait for a handler that is on its way to
`mod_timer`; `deferred_exit` uses `del_timer_sync`, which does. -/
namespace KernelLabs.DeferredUnload
open LinuxList Errno DeferredDriver

/-- A running `timer_handler` will come to its `mod_timer` while the flag stays. -/
def Rearms (state : Unloading) : Prop :=
  match state.timerHandler with
  | some .printk | some .testSet => state.dev.flag = .set ∨ state.dev.flag = .mon
  | some .testAlloc | some .testMon => state.dev.flag = .mon
  | some .scheduleMonitor | some .modTimer => True
  | some .scheduleIo | some .return | none => False

instance (state : Unloading) : Decidable (Rearms state) := by
  unfold Rearms
  split <;> infer_instance

/-- No `SET`, `ALLOC` or `MON` call makes a step. -/
def Undisturbed (state : Unloading) : Turn → Prop
  | .inCall index => ∀ pc, state.calls[index]? = some pc → pc = .delTimer
  | _ => True

variable {hz : UInt64} {state next final : Unloading} {action : Turn}

/-- Turns that leave the flag and the timer handler alone, and arm no timer. -/
def KeepsStopped (state next : Unloading) : Prop :=
  next.dev.flag = state.dev.flag ∧ next.timerHandler = state.timerHandler ∧
    (state.dev.timer = none → next.dev.timer = none)

theorem only_keeps_clock {dev dev' : Deferred} (only : OnlyEntries dev dev') :
    dev'.flag = dev.flag ∧ dev'.timer = dev.timer := by
  constructor <;> rw [only]

/-- Without a request, and besides the timer handler, nothing arms the timer. -/
theorem turn_keeps_stopped (undisturbed : Undisturbed state action) (stopped : state.dev.timer = none)
    (taken : turn hz state action = .ok next) (other : action ≠ .inTimer) : KeepsStopped state next := by
  cases action with
  | inTimer => exact absurd rfl other
  | call cmd arg memory =>
    simp only [turn] at taken
    split at taken <;> cases taken <;> exact ⟨rfl, rfl, id⟩
  | inCall index =>
    simp only [turn] at taken
    split at taken
    · cases taken
      exact ⟨rfl, rfl, id⟩
    · next pc running =>
      obtain rfl := undisturbed pc running
      obtain ⟨_, ran, done⟩ := bind_eq_ok.mp taken
      cases ran
      cases done
      exact ⟨rfl, rfl, fun _ => rfl⟩
  | expire =>
    simp only [turn, stopped] at taken
    cases taken
    exact ⟨rfl, rfl, id⟩
  | startIo | startMonitor | unload =>
    simp only [turn] at taken
    split at taken <;> cases taken <;> exact ⟨rfl, rfl, id⟩
  | inIo =>
    simp only [turn] at taken
    split at taken
    · cases taken
      exact ⟨rfl, rfl, id⟩
    · next pc running =>
      cases taken
      cases pc <;> exact ⟨rfl, rfl, id⟩
  | inMonitor =>
    simp only [turn] at taken
    split at taken
    · cases taken
      exact ⟨rfl, rfl, id⟩
    · obtain ⟨dev, locked, monitor, rfl, only, -⟩ := monitorStatement_frame taken
      obtain ⟨flag, timer⟩ := only_keeps_clock only
      exact ⟨flag, rfl, fun none => timer.trans none⟩
  | inExit =>
    simp only [turn] at taken
    cases phase : state.exit with
    | cleanup pc =>
      rw [phase] at taken
      obtain ⟨dev, locked, exit, rfl, only, -⟩ := cleanup_frame taken
      obtain ⟨flag, timer⟩ := only_keeps_clock only
      exact ⟨flag, rfl, fun none => timer.trans none⟩
    | delTimerSync | waitIo | waitMonitor =>
      rw [phase] at taken
      simp only [exitStatement] at taken
      split at taken <;> cases taken
      · exact ⟨rfl, rfl, id⟩
      · exact ⟨rfl, rfl, fun none => by simp [Deferred.delTimer, none]⟩
    | notStarted | prInfo | cdevDel | unregisterChrdevRegion | flushIo | flushMonitor | returned =>
      rw [phase] at taken
      cases taken
      exact ⟨rfl, rfl, id⟩
  | exit | assign | tick =>
    cases taken
    exact ⟨rfl, rfl, id⟩

theorem KeepsStopped.rearms (keeps : KeepsStopped state next) : Rearms next ↔ Rearms state := by
  unfold Rearms
  rw [keeps.1, keeps.2.1]

/-- A handler that will not re-arm the timer goes on without doing so. -/
theorem timerStatement_quiet {pc : TimerPc} (running : state.timerHandler = some pc)
    (quiet : ¬ Rearms state) (stopped : state.dev.timer = none) :
    (timerStatement hz state pc).dev.timer = none ∧ ¬ Rearms (timerStatement hz state pc) := by
  unfold Rearms at quiet
  rw [running] at quiet
  cases pc with
  | printk => exact ⟨stopped, quiet⟩
  | testSet =>
    obtain ⟨notSet, notMon⟩ := not_or.mp quiet
    exact ⟨stopped, by simpa [Rearms, timerStatement, notSet] using notMon⟩
  | testAlloc =>
    refine ⟨stopped, ?_⟩
    by_cases alloc : state.dev.flag = .alloc
    · simp [Rearms, timerStatement, alloc]
    · simpa [Rearms, timerStatement, alloc] using quiet
  | testMon => exact ⟨stopped, by simp [Rearms, timerStatement, quiet]⟩
  | scheduleIo =>
    refine ⟨?_, by simp [Rearms, timerStatement]⟩
    simp only [timerStatement, Unloading.scheduleIo]
    split <;> exact stopped
  | scheduleMonitor | modTimer => exact absurd trivial quiet
  | «return» => exact ⟨stopped, by simp [Rearms, timerStatement]⟩

/-- A timer that is not pending and will not be re-armed stays so. -/
theorem stopped_stays {later : List Turn} (quiet : ¬ Rearms state) (stopped : state.dev.timer = none)
    (undisturbed : Along Undisturbed (turn hz) state later)
    (ran : run (turn hz) state later = .ok final) : final.dev.timer = none := by
  induction later generalizing state with
  | nil =>
    cases ran
    exact stopped
  | cons action later ih =>
    obtain ⟨next, taken, rest⟩ := bind_eq_ok.mp (run_cons.symm.trans ran)
    suffices kept : next.dev.timer = none ∧ ¬ Rearms next from
      ih kept.2 kept.1 (undisturbed.2 next taken) rest
    by_cases own : action = .inTimer
    · subst own
      simp only [turn] at taken
      split at taken
      · cases taken
        exact ⟨stopped, quiet⟩
      · next pc running =>
        cases taken
        exact timerStatement_quiet running quiet stopped
    · have keeps := turn_keeps_stopped undisturbed.1 stopped taken own
      exact ⟨keeps.2.2 stopped, mt keeps.rearms.mp quiet⟩

/-- The timer handler, left alone, arms the timer. -/
def Arms (hz : UInt64) (state : Unloading) : Prop :=
  ∃ count final, run (turn hz) state (List.replicate count .inTimer) = .ok final ∧
    final.dev.timer.isSome = true

theorem Arms.step {pc : TimerPc} (running : state.timerHandler = some pc)
    (arms : Arms hz (timerStatement hz state pc)) : Arms hz state := by
  obtain ⟨count, final, ran, pending⟩ := arms
  refine ⟨count + 1, final, ?_, pending⟩
  rw [List.replicate_succ, run_cons, turn, running]
  exact ran

theorem Arms.of_modTimer (running : state.timerHandler = some .modTimer) : Arms hz state := by
  apply Arms.step running
  exact ⟨0, _, rfl, rfl⟩

theorem Arms.of_scheduleMonitor (running : state.timerHandler = some .scheduleMonitor) :
    Arms hz state := by
  apply Arms.step running
  exact Arms.of_modTimer rfl

theorem Arms.of_testMon (running : state.timerHandler = some .testMon) (mon : state.dev.flag = .mon) :
    Arms hz state := by
  apply Arms.step running
  apply Arms.of_scheduleMonitor
  simp [timerStatement, mon]

theorem Arms.of_testAlloc (running : state.timerHandler = some .testAlloc)
    (mon : state.dev.flag = .mon) : Arms hz state := by
  apply Arms.step running
  apply Arms.of_testMon
  · simp [timerStatement, mon]
  · exact mon

theorem Arms.of_testSet (running : state.timerHandler = some .testSet)
    (periodic : state.dev.flag = .set ∨ state.dev.flag = .mon) : Arms hz state := by
  apply Arms.step running
  rcases periodic with set | mon
  · apply Arms.of_modTimer
    simp [timerStatement, set]
  · apply Arms.of_testAlloc
    · simp [timerStatement, mon]
    · exact mon

/-- A handler that is going to re-arm the timer needs nobody else for that. -/
theorem Rearms.arms (hz : UInt64) (rearms : Rearms state) : Arms hz state := by
  unfold Rearms at rearms
  cases running : state.timerHandler with
  | none => simp [running] at rearms
  | some pc =>
    rw [running] at rearms
    cases pc with
    | printk =>
      apply Arms.step running
      exact Arms.of_testSet rfl rearms
    | testSet => exact Arms.of_testSet running rearms
    | testAlloc => exact Arms.of_testAlloc running rearms
    | testMon => exact Arms.of_testMon running rearms
    | scheduleMonitor => exact Arms.of_scheduleMonitor running
    | modTimer => exact Arms.of_modTimer running
    | scheduleIo | «return» => exact rearms.elim

/-- **Cancel.** Once the `del_timer` of a `CANCEL` has run, the timer stays off at
every later moment before the next step of a `SET`, `ALLOC` or `MON` call, whatever the
order of the other steps, exactly when at that point no handler was on its way to
re-arm it. -/
theorem cancel_is_final_iff (hz : UInt64) (state next : Unloading) (index : Nat)
    (cancel : state.calls[index]? = some .delTimer)
    (returned : turn hz state (.inCall index) = .ok next) :
    (∀ later final, Along Undisturbed (turn hz) next later → run (turn hz) next later = .ok final →
      final.dev.timer = none) ↔ ¬ Rearms state := by
  have effect : next = { state with
      dev := state.dev.delTimer, calls := state.calls.eraseIdx index } := by
    simp only [turn, cancel] at returned
    obtain ⟨_, ran, done⟩ := bind_eq_ok.mp returned
    cases ran
    exact (Except.ok.inj done).symm
  have same : Rearms next ↔ Rearms state := by
    subst effect
    exact Iff.rfl
  constructor
  · intro final_off rearms
    obtain ⟨count, final, ran, pending⟩ := (same.mpr rearms).arms hz
    have alone : ∀ count state, Along Undisturbed (turn hz) state (List.replicate count .inTimer) := by
      intro count
      induction count with
      | zero => exact fun _ => trivial
      | succ count ih => exact fun _ => ⟨trivial, fun next _ => ih next⟩
    rw [final_off _ final (alone count next) ran] at pending
    cases pending
  · intro quiet later final undisturbed ran
    apply stopped_stays (mt same.mp quiet) _ undisturbed ran
    rw [effect]
    rfl

/-- A `CANCEL` while the handler has just started under `ALLOC`. -/
theorem cancel_is_final_iff_alloc :
    let state : Unloading := { atRest 0 (fun _ => none) (fun _ => false) with
      dev := { loaded 0 (fun _ => none) (fun _ => false) with flag := .alloc }
      timerHandler := some .testSet
      calls := [.delTimer] }
    ∃ next, turn 250 state (.inCall 0) = .ok next ∧ ∀ later final,
      Along Undisturbed (turn 250) next later → run (turn 250) next later = .ok final →
        final.dev.timer = none := by
  intro state
  refine ⟨_, rfl, ?_⟩
  apply (cancel_is_final_iff 250 state _ 0 rfl rfl).mpr
  decide

/-- The client's timer expires, its handler tests the flag, the client cancels, and
the handler arms the timer again. -/
theorem cancelled_timer_returns :
    ∃ final, run (turn 250) (atRest 0 (fun _ => none) (fun _ => false))
      [.call myIoctlTimerSet 1 none, .inCall 0, .inCall 0, .expire, .inTimer, .inTimer,
        .call myIoctlTimerCancel 0 none, .inCall 0, .inTimer] = .ok final ∧
      final.calls.length = 0 ∧ final.dev.timer.isSome = true :=
  ⟨_, rfl, rfl, rfl⟩

end KernelLabs.DeferredUnload
